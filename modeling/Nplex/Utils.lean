import Nplex.Types

/-!
# Valid keys

`is_valid_key` of `utils.cpp`, with the UTF-8 scanner of `utf8.h` that it calls. The
scanner is a single pass: at each position the lead byte fixes how many bytes the code
point takes, the continuation bytes are checked, and the byte after the code point must
not be a continuation.
-/

namespace Nplex

/-- A continuation byte, `0b10xxxxxx`. -/
def isContinuation (b : UInt8) : Bool := b &&& 0xc0 == 0x80

/-- The next byte, when there is one, does not continue the code point just read. -/
def endsCodepoint : Bytes → Bool
  | [] => true
  | b :: _ => !isContinuation b

/-- `utf8nvalid`: true when the source returns null, that is, the string is accepted. -/
def utf8nvalid : Bytes → Bool
  | [] => true
  | b0 :: rest =>
    if b0 == 0 then false
    else if b0 &&& 0xf8 == 0xf0 then
      match rest with
      | b1 :: b2 :: b3 :: tail =>
        isContinuation b1 && isContinuation b2 && isContinuation b3 && endsCodepoint tail &&
          !(b0 &&& 0x07 == 0 && b1 &&& 0x30 == 0) && utf8nvalid tail
      | _ => false
    else if b0 &&& 0xf0 == 0xe0 then
      match rest with
      | b1 :: b2 :: tail =>
        isContinuation b1 && isContinuation b2 && endsCodepoint tail &&
          !(b0 &&& 0x0f == 0 && b1 &&& 0x20 == 0) && utf8nvalid tail
      | _ => false
    else if b0 &&& 0xe0 == 0xc0 then
      match rest with
      | b1 :: tail =>
        isContinuation b1 && endsCodepoint tail && !(b0 &&& 0x1e == 0) && utf8nvalid tail
      | _ => false
    else if b0 &&& 0x80 == 0 then utf8nvalid rest
    else false

/-- A C0 control, DEL or a C1 control. -/
def isControl (cp : ℕ) : Bool := cp ≤ 0x1f || (0x7f ≤ cp && cp ≤ 0x9f)

/-- The loop of `is_valid_key` over the code points, each decoded by `utf8codepoint`; true
when none of them is a control character. The loop runs after `utf8nvalid`, so a lead byte
always has its continuation bytes. -/
def noControls : Bytes → Bool
  | [] => true
  | b0 :: rest =>
    if b0 &&& 0xf8 == 0xf0 then
      match rest with
      | b1 :: b2 :: b3 :: tail =>
        !isControl (((b0 &&& 0x07).toNat <<< 18) ||| ((b1 &&& 0x3f).toNat <<< 12) |||
          ((b2 &&& 0x3f).toNat <<< 6) ||| (b3 &&& 0x3f).toNat) && noControls tail
      | _ => false
    else if b0 &&& 0xf0 == 0xe0 then
      match rest with
      | b1 :: b2 :: tail =>
        !isControl (((b0 &&& 0x0f).toNat <<< 12) ||| ((b1 &&& 0x3f).toNat <<< 6) |||
          (b2 &&& 0x3f).toNat) && noControls tail
      | _ => false
    else if b0 &&& 0xe0 == 0xc0 then
      match rest with
      | b1 :: tail =>
        !isControl (((b0 &&& 0x1f).toNat <<< 6) ||| (b1 &&& 0x3f).toNat) && noControls tail
      | _ => false
    else !isControl b0.toNat && noControls rest

/-- The key contains two delimiters in a row. -/
def hasDoubleSlash : Bytes → Bool
  | a :: b :: rest => (a == 47 && b == 47) || hasDoubleSlash (b :: rest)
  | _ => false

/-- `is_valid_key`: non-empty, no space at either end, no `//`, no NUL, valid UTF-8 and no
control characters. -/
def isValidKey (key : Bytes) : Bool :=
  !key.isEmpty && key.head? != some 32 && key.getLast? != some 32 && !hasDoubleSlash key &&
    !key.contains 0 && utf8nvalid key && noControls key

/-- A valid key is not empty. -/
theorem isValidKey_ne_nil {key : Bytes} (h : isValidKey key = true) : key ≠ [] := by
  rintro rfl
  simp [isValidKey] at h

/-- A valid key is the whole content of its C string. -/
theorem cStr_of_isValidKey {key : Bytes} (h : isValidKey key = true) : cStr key = key := by
  have hnul : key.contains 0 = false := by
    simp only [isValidKey, Bool.and_eq_true, Bool.not_eq_true'] at h
    exact h.1.1.2
  rw [cStr, List.takeWhile_eq_self_iff]
  intro b hb
  have : b ≠ 0 := by
    rintro rfl
    simp [hb] at hnul
  simpa using this

end Nplex
