import Nplex.Common.Json
import Nplex.Types

/-!
# Base64

`to_base64` of `base64.hpp`: three bytes become four letters, and the last one or two bytes are
padded. The encoder looks its letters up in two tables; the reader here takes the encoding apart
again, letter by letter.
-/

namespace Nplex.Base64

open Nplex.Common

/-- The letter of a number below 64. -/
def letter (n : ℕ) : UInt8 :=
  if n < 26 then UInt8.ofNat (n + 65)
  else if n < 52 then UInt8.ofNat (n + 71)
  else if n < 62 then UInt8.ofNat (n - 4)
  else if n = 62 then 43
  else 47

/-- `encode_table_0`: each letter four times in a row. -/
def encodeTable0 (i : ℕ) : UInt8 := letter (i / 4)

/-- `encode_table_1`: the letters in order, four times over. -/
def encodeTable1 (i : ℕ) : UInt8 := letter (i % 64)

/-- `padding_char` -/
def paddingChar : UInt8 := 61

/-- `encode_into`: a group of three bytes at a time, then the rest. -/
def toBase64 : Bytes → Bytes
  | t1 :: t2 :: t3 :: rest =>
    encodeTable0 t1.toNat ::
      encodeTable1 (((t1.toNat &&& 0x03) <<< 4) ||| ((t2.toNat >>> 4) &&& 0x0f)) ::
      encodeTable1 (((t2.toNat &&& 0x0f) <<< 2) ||| ((t3.toNat >>> 6) &&& 0x03)) ::
      encodeTable1 t3.toNat :: toBase64 rest
  | [t1, t2] =>
    [encodeTable0 t1.toNat,
      encodeTable1 (((t1.toNat &&& 0x03) <<< 4) ||| ((t2.toNat >>> 4) &&& 0x0f)),
      encodeTable1 ((t2.toNat &&& 0x0f) <<< 2), paddingChar]
  | [t1] =>
    [encodeTable0 t1.toNat, encodeTable1 ((t1.toNat &&& 0x03) <<< 4), paddingChar, paddingChar]
  | [] => []

/-- The number of a letter. -/
def letterValue (b : UInt8) : Option ℕ :=
  if 65 ≤ b && b ≤ 90 then some (b.toNat - 65)
  else if 97 ≤ b && b ≤ 122 then some (b.toNat - 71)
  else if 48 ≤ b && b ≤ 57 then some (b.toNat + 4)
  else if b == 43 then some 62
  else if b == 47 then some 63
  else none

/-- The bytes of four letters. -/
def group (a b c d : ℕ) : Bytes :=
  [UInt8.ofNat (a * 4 + b / 16), UInt8.ofNat (b % 16 * 16 + c / 4), UInt8.ofNat (c % 4 * 64 + d)]

/-- The bytes that a text encodes. -/
def fromBase64 : Bytes → Option Bytes
  | a :: b :: c :: d :: rest =>
    if d = paddingChar ∧ rest = [] then
      if c = paddingChar then do some ((group (← letterValue a) (← letterValue b) 0 0).take 1)
      else do some ((group (← letterValue a) (← letterValue b) (← letterValue c) 0).take 2)
    else do
      let bytes :=
        group (← letterValue a) (← letterValue b) (← letterValue c) (← letterValue d)
      some (bytes ++ (← fromBase64 rest))
  | [] => some []
  | _ => none

/-- The value of a letter is the one that it stands for. -/
theorem letterValue_letter {n : ℕ} (h : n < 64) : letterValue (letter n) = some n := by
  revert n
  decide

/-- No letter is the padding. -/
theorem letter_ne_paddingChar {n : ℕ} (h : n < 64) : letter n ≠ paddingChar := by
  revert n
  decide

/-- The letters need no escape. -/
theorem isPlain_letter {n : ℕ} (h : n < 64) : Json.isPlain (letter n) = true := by
  revert n
  decide

/-- The first letter of a group holds six bits of a byte. -/
theorem encodeTable0_eq (a : UInt8) : encodeTable0 a.toNat = letter (a.toNat / 4) := rfl

/-- The second letter holds two bits of a byte and four of the next. -/
theorem encodeTable1_second (a : UInt8) {y : ℕ} (hy : y < 256) :
    encodeTable1 (((a.toNat &&& 0x03) <<< 4) ||| ((y >>> 4) &&& 0x0f)) =
      letter (a.toNat % 4 * 16 + y / 16) := by
  have hlow : a.toNat &&& 0x03 = a.toNat % 4 := Nat.and_two_pow_sub_one_eq_mod _ 2
  have hhigh : (y >>> 4) &&& 0x0f = y / 16 := by
    rw [Nat.shiftRight_eq_div_pow, Nat.and_two_pow_sub_one_eq_mod _ 4]
    omega
  have hbits : y / 16 < 2 ^ 4 := by omega
  rw [hlow, hhigh, ← Nat.shiftLeft_add_eq_or_of_lt hbits, Nat.shiftLeft_eq, encodeTable1]
  congr 1
  omega

/-- The third letter holds four bits of a byte and two of the next. -/
theorem encodeTable1_third (b : UInt8) {y : ℕ} (hy : y < 256) :
    encodeTable1 (((b.toNat &&& 0x0f) <<< 2) ||| ((y >>> 6) &&& 0x03)) =
      letter (b.toNat % 16 * 4 + y / 64) := by
  have hlow : b.toNat &&& 0x0f = b.toNat % 16 := Nat.and_two_pow_sub_one_eq_mod _ 4
  have hhigh : (y >>> 6) &&& 0x03 = y / 64 := by
    rw [Nat.shiftRight_eq_div_pow, Nat.and_two_pow_sub_one_eq_mod _ 2]
    omega
  have hbits : y / 64 < 2 ^ 2 := by omega
  rw [hlow, hhigh, ← Nat.shiftLeft_add_eq_or_of_lt hbits, Nat.shiftLeft_eq, encodeTable1]
  congr 1
  omega

/-- The letters of a group, by the numbers they stand for. -/
theorem toBase64_three (a b c : UInt8) (rest : Bytes) :
    toBase64 (a :: b :: c :: rest) =
      letter (a.toNat / 4) :: letter (a.toNat % 4 * 16 + b.toNat / 16) ::
        letter (b.toNat % 16 * 4 + c.toNat / 64) :: letter (c.toNat % 64) :: toBase64 rest := by
  rw [toBase64, encodeTable0_eq, encodeTable1_second a b.toNat_lt, encodeTable1_third b c.toNat_lt]
  rfl

/-- Two bytes at the end take three letters. -/
theorem toBase64_two (a b : UInt8) :
    toBase64 [a, b] = [letter (a.toNat / 4), letter (a.toNat % 4 * 16 + b.toNat / 16),
      letter (b.toNat % 16 * 4), paddingChar] := by
  have hthird := encodeTable1_third b (Nat.zero_lt_of_lt b.toNat_lt)
  rw [Nat.zero_shiftRight, Nat.zero_and, Nat.or_zero, Nat.zero_div, Nat.add_zero] at hthird
  rw [toBase64, encodeTable0_eq, encodeTable1_second a b.toNat_lt, hthird]

/-- One byte at the end takes two. -/
theorem toBase64_one (a : UInt8) :
    toBase64 [a] = [letter (a.toNat / 4), letter (a.toNat % 4 * 16), paddingChar, paddingChar] := by
  have hsecond := encodeTable1_second a (Nat.zero_lt_of_lt a.toNat_lt)
  rw [Nat.zero_shiftRight, Nat.zero_and, Nat.or_zero, Nat.zero_div, Nat.add_zero] at hsecond
  rw [toBase64, encodeTable0_eq, hsecond]

/-- The letters of an encoding are plain. -/
theorem isPlain_toBase64 : ∀ (data : Bytes), ∀ b ∈ toBase64 data, Json.isPlain b = true
  | [] => nofun
  | [a] => by
    have ha := a.toNat_lt
    rw [toBase64_one]
    simp only [List.forall_mem_cons, List.not_mem_nil, false_imp_iff, implies_true, and_true]
    exact ⟨isPlain_letter (by omega), isPlain_letter (by omega), rfl, rfl⟩
  | [a, b] => by
    have ha := a.toNat_lt
    have hb := b.toNat_lt
    rw [toBase64_two]
    simp only [List.forall_mem_cons, List.not_mem_nil, false_imp_iff, implies_true, and_true]
    exact ⟨isPlain_letter (by omega), isPlain_letter (by omega), isPlain_letter (by omega), rfl⟩
  | a :: b :: c :: rest => by
    have ha := a.toNat_lt
    have hb := b.toNat_lt
    have hc := c.toNat_lt
    rw [toBase64_three]
    simp only [List.forall_mem_cons]
    exact ⟨isPlain_letter (by omega), isPlain_letter (by omega), isPlain_letter (by omega),
      isPlain_letter (by omega), isPlain_toBase64 rest⟩

/-- The numbers of a group's letters make its bytes. -/
theorem group_letters (a b c : UInt8) :
    group (a.toNat / 4) (a.toNat % 4 * 16 + b.toNat / 16) (b.toNat % 16 * 4 + c.toNat / 64)
      (c.toNat % 64) = [a, b, c] := by
  have ha := a.toNat_lt
  have hb := b.toNat_lt
  have hc := c.toNat_lt
  have hbyte : ∀ {x : UInt8} {n : ℕ}, n = x.toNat → UInt8.ofNat n = x := by
    rintro x n rfl
    exact UInt8.ofNat_toNat
  unfold group
  rw [hbyte (by omega : _ = a.toNat), hbyte (by omega : _ = b.toNat),
    hbyte (by omega : _ = c.toNat)]

/-- The reader gives back the bytes that were encoded. -/
theorem fromBase64_toBase64 : ∀ data : Bytes, fromBase64 (toBase64 data) = some data
  | [] => rfl
  | [a] => by
    have ha := a.toNat_lt
    have hgroup : group (a.toNat / 4) (a.toNat % 4 * 16) 0 0 = [a, 0, 0] := group_letters a 0 0
    rw [toBase64_one, fromBase64, if_pos ⟨rfl, rfl⟩, if_pos rfl, letterValue_letter (by omega),
      letterValue_letter (by omega)]
    exact congrArg (fun bytes => some (bytes.take 1)) hgroup
  | [a, b] => by
    have ha := a.toNat_lt
    have hb := b.toNat_lt
    have hgroup : group (a.toNat / 4) (a.toNat % 4 * 16 + b.toNat / 16) (b.toNat % 16 * 4) 0 =
        [a, b, 0] := group_letters a b 0
    rw [toBase64_two, fromBase64, if_pos ⟨rfl, rfl⟩, if_neg (letter_ne_paddingChar (by omega)),
      letterValue_letter (by omega), letterValue_letter (by omega), letterValue_letter (by omega)]
    exact congrArg (fun bytes => some (bytes.take 2)) hgroup
  | a :: b :: c :: rest => by
    have ha := a.toNat_lt
    have hb := b.toNat_lt
    have hc := c.toNat_lt
    have hlast : letter (c.toNat % 64) ≠ paddingChar := letter_ne_paddingChar (by omega)
    rw [toBase64_three, fromBase64, if_neg (fun h => hlast h.1), letterValue_letter (by omega),
      letterValue_letter (by omega), letterValue_letter (by omega), letterValue_letter (by omega),
      fromBase64_toBase64 rest]
    exact congrArg (fun bytes => some (bytes ++ rest)) (group_letters a b c)

end Nplex.Base64
