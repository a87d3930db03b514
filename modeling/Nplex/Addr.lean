import Nplex.Types
import Nplex.Common.Decimal

/-!
# Server addresses

`addr_t` of `addr.cpp`. The constructor splits the string at its last colon, reads the port and
picks the family of the host by the order of three tests; the three regular expressions are
parameters. Printing an accepted address gives a string that the constructor takes back to it.
-/

namespace Nplex

open Nplex.Common

/-- `AF_INET`, `AF_INET6` and `AF_UNSPEC`, the last one for a host name. -/
inductive Family
  | inet
  | inet6
  | unspec
  deriving DecidableEq, Repr

/-- A server address (`addr_t`); the brackets of an IPv6 host are not kept. -/
structure Addr where
  host : Bytes
  port : ℕ
  family : Family
  deriving DecidableEq, Repr

/-- The exceptions of the constructor, about the whole string. -/
inductive AddrError
  /-- "'{}' is an invalid address (port not found)" -/
  | portNotFound (str : Bytes)
  /-- "'{}' is an invalid address (port too long)" -/
  | portTooLong (str : Bytes)
  /-- "'{}' is an invalid address (invalid port)" -/
  | invalidPort (str : Bytes)
  /-- "'{}' is an invalid IP6 address" -/
  | invalidIp6 (str : Bytes)
  /-- "'{}' is an invalid address (invalid host)" -/
  | invalidHost (str : Bytes)
  deriving DecidableEq, Repr

/-- What `ipv4_regex`, `ipv6_regex` and `hostname_regex` match. -/
structure HostRegexes where
  ipv4 : Bytes → Bool
  ipv6 : Bytes → Bool
  hostname : Bytes → Bool

/-- `find_last_of` of a byte. -/
def findLastOf (b : UInt8) : Bytes → Option ℕ
  | [] => none
  | c :: rest =>
    match findLastOf b rest with
    | some pos => some (pos + 1)
    | none => if c = b then some 0 else none

/-- The minus sign that `std::from_chars` takes. -/
def takeMinus : Bytes → Bool × Bytes
  | 45 :: rest => (true, rest)
  | s => (false, s)

/-- `std::from_chars` to an `int`: the number and the bytes after it, none on an error. -/
def fromChars (s : Bytes) : Option (ℤ × Bytes) :=
  let (negative, body) := takeMinus s
  let digits := body.takeWhile isDigit
  let num : ℤ := if negative then -decimalValue digits else decimalValue digits
  if digits.isEmpty || num < -2 ^ 31 || 2 ^ 31 ≤ num then none
  else some (num, body.dropWhile isDigit)

namespace Addr

/-- The tests of the host, in order; the first decides. -/
def ofHost (regexes : HostRegexes) (str host : Bytes) (port : ℕ) : Except AddrError Addr :=
  if host.head? = some 91 ∧ host.getLast? = some 93 then
    let host := (host.drop 1).take (host.length - 2)
    if !regexes.ipv6 host then .error (.invalidIp6 str) else .ok ⟨host, port, .inet6⟩
  else if regexes.ipv4 host then .ok ⟨host, port, .inet⟩
  else if regexes.hostname host then .ok ⟨host, port, .unspec⟩
  else .error (.invalidHost str)

/-- The constructor of `addr_t`. -/
def parse (regexes : HostRegexes) (str : Bytes) : Except AddrError Addr :=
  match findLastOf 58 str with
  | none => .error (.portNotFound str)
  | some pos =>
    if str.length - pos > 6 then .error (.portTooLong str)
    else if (str.drop (pos + 1)).any fun b => !isDigit b then .error (.invalidPort str)
    else
      match fromChars (str.drop (pos + 1)) with
      | none => .error (.invalidPort str)
      | some (num, rest) =>
        if rest ≠ [] ∨ num ≤ 0 ∨ 65535 < num then .error (.invalidPort str)
        else ofHost regexes str (str.take pos) (num.toNat % 2 ^ 16)

/-- `addr_t::str`. -/
def str (a : Addr) : Bytes :=
  if a.family = .inet6 then [91] ++ a.host ++ [93, 58] ++ decimal a.port
  else a.host ++ [58] ++ decimal a.port

end Addr

/-- `find_last_of` finds nothing in a string without the byte. -/
theorem findLastOf_eq_none {b : UInt8} {s : Bytes} : findLastOf b s = none ↔ b ∉ s := by
  induction s with
  | nil => simp [findLastOf]
  | cons c rest ih =>
    unfold findLastOf
    cases hrest : findLastOf b rest with
    | some pos =>
      have hmem : b ∈ rest := by
        by_contra hnot
        rw [ih.mpr hnot] at hrest
        cases hrest
      simp [hmem]
    | none =>
      have hnot := ih.mp hrest
      simp [hnot, eq_comm]

/-- The last occurrence splits a string. -/
theorem findLastOf_eq_some {b : UInt8} {s : Bytes} {pos : ℕ} (h : findLastOf b s = some pos) :
    s = s.take pos ++ b :: s.drop (pos + 1) ∧ b ∉ s.drop (pos + 1) := by
  induction s generalizing pos with
  | nil => cases h
  | cons c rest ih =>
    unfold findLastOf at h
    cases hrest : findLastOf b rest with
    | some pos' =>
      rw [hrest] at h
      obtain rfl := Option.some.inj h
      obtain ⟨hsplit, hafter⟩ := ih hrest
      exact ⟨congrArg (List.cons c) hsplit, hafter⟩
    | none =>
      rw [hrest] at h
      dsimp only at h
      split_ifs at h with hc
      obtain rfl := Option.some.inj h
      exact ⟨by simp [hc], findLastOf_eq_none.mp hrest⟩

/-- A byte that does not come again is the last one. -/
theorem findLastOf_append {b : UInt8} {pre post : Bytes} (h : b ∉ post) :
    findLastOf b (pre ++ b :: post) = some pre.length := by
  induction pre with
  | nil => simp [findLastOf, findLastOf_eq_none.mpr h]
  | cons c rest ih => simp [findLastOf, ih]

/-- Digits of a small number are read whole. -/
theorem fromChars_digits {digits : Bytes} (hdigits : ∀ b ∈ digits, isDigit b = true)
    (hne : digits ≠ []) (hsmall : decimalValue digits < 2 ^ 31) :
    fromChars digits = some ((decimalValue digits : ℤ), []) := by
  have hpositive : ∀ rest, digits ≠ 45 :: rest := by
    rintro rest rfl
    exact absurd (hdigits 45 List.mem_cons_self) (by decide)
  have htake : digits.takeWhile isDigit = digits := List.takeWhile_eq_self_iff.mpr hdigits
  have hdrop : digits.dropWhile isDigit = [] := List.dropWhile_eq_nil_iff.mpr hdigits
  have hsign : takeMinus digits = (false, digits) := by
    unfold takeMinus
    split
    · next rest => exact absurd rfl (hpositive rest)
    · rfl
  unfold fromChars
  rw [hsign]
  dsimp only
  rw [htake, hdrop, if_neg]
  · rfl
  · simp only [Bool.or_eq_true, decide_eq_true_eq, List.isEmpty_iff, not_or, not_lt, not_le,
      Bool.false_eq_true, if_false]
    have hnonneg : (0 : ℤ) ≤ decimalValue digits := Int.natCast_nonneg _
    refine ⟨⟨hne, by omega⟩, ?_⟩
    exact_mod_cast hsmall

namespace Addr

variable {regexes : HostRegexes} {s str' host : Bytes} {port : ℕ} {a : Addr}

/-- The host as it is printed. -/
def printedHost (a : Addr) : Bytes := if a.family = .inet6 then [91] ++ a.host ++ [93] else a.host

/-- The printed address is its host, a colon and its port. -/
theorem str_eq (a : Addr) : a.str = a.printedHost ++ 58 :: decimal a.port := by
  unfold str printedHost
  split_ifs <;> simp

/-- A host in brackets. -/
theorem eq_of_brackets (h : host.head? = some 91 ∧ host.getLast? = some 93) :
    [91] ++ (host.drop 1).take (host.length - 2) ++ [93] = host := by
  cases host with
  | nil => cases h.1
  | cons b rest =>
    obtain ⟨hfirst, hlast⟩ := h
    obtain rfl := Option.some.inj hfirst
    cases rest using List.reverseRecOn with
    | nil => simp at hlast
    | append_singleton mid c =>
      rw [← List.cons_append, List.getLast?_concat] at hlast
      obtain rfl := Option.some.inj hlast
      simp

/-- An accepted host is printed as it was, and would be accepted as part of any string. -/
theorem ofHost_ok (h : ofHost regexes s host port = .ok a) :
    a.printedHost = host ∧ a.port = port ∧ ∀ str', ofHost regexes str' host port = .ok a := by
  unfold ofHost at h ⊢
  dsimp only at h ⊢
  by_cases hbrackets : host.head? = some 91 ∧ host.getLast? = some 93
  · simp only [if_pos hbrackets] at h ⊢
    split_ifs at h ⊢
    obtain rfl := Except.ok.inj h
    exact ⟨eq_of_brackets hbrackets, rfl, fun _ => rfl⟩
  · simp only [if_neg hbrackets] at h ⊢
    split_ifs at h ⊢
    · obtain rfl := Except.ok.inj h
      exact ⟨rfl, rfl, fun _ => rfl⟩
    · obtain rfl := Except.ok.inj h
      exact ⟨rfl, rfl, fun _ => rfl⟩

/-- What the constructor takes: a host and the digits of a port, with a colon in between. -/
theorem parse_append {digits : Bytes} (hdigits : ∀ b ∈ digits, isDigit b = true)
    (hlength : digits.length ≤ 5) (hpos : 0 < decimalValue digits)
    (hmax : decimalValue digits ≤ 65535) :
    parse regexes (host ++ 58 :: digits) =
      ofHost regexes (host ++ 58 :: digits) host (decimalValue digits) := by
  have hcolon : (58 : UInt8) ∉ digits := fun hmem => absurd (hdigits 58 hmem) (by decide)
  have hne : digits ≠ [] := by
    rintro rfl
    exact absurd hpos (by decide)
  have hdrop : (host ++ 58 :: digits).drop (host.length + 1) = digits := by simp
  have htake : (host ++ 58 :: digits).take host.length = host := by simp
  unfold parse
  rw [findLastOf_append hcolon]
  dsimp only
  rw [hdrop, htake, if_neg, if_neg, fromChars_digits hdigits hne (by omega)]
  · dsimp only
    rw [if_neg]
    · have hport : (decimalValue digits : ℤ).toNat % 2 ^ 16 = decimalValue digits := by
        rw [Int.toNat_natCast]
        omega
      rw [hport]
    · simp only [ne_eq, not_true_eq_false, false_or]
      omega
  · simpa using hdigits
  · simp only [List.length_append, List.length_cons]
    omega

/-- An accepted string is such a one. -/
theorem parse_ok (h : parse regexes s = .ok a) : ∃ host digits : Bytes, s = host ++ 58 :: digits ∧
    0 < decimalValue digits ∧ decimalValue digits ≤ 65535 ∧
      ofHost regexes s host (decimalValue digits) = .ok a := by
  unfold parse at h
  cases hfind : findLastOf 58 s with
  | none =>
    rw [hfind] at h
    cases h
  | some pos =>
    rw [hfind] at h
    obtain ⟨hsplit, hcolon⟩ := findLastOf_eq_some hfind
    dsimp only at h
    split_ifs at h with hlong hnotDigit
    have hdigits : ∀ b ∈ s.drop (pos + 1), isDigit b = true := by simpa using hnotDigit
    have hlength : (s.drop (pos + 1)).length ≤ 5 := by
      rw [List.length_drop]
      omega
    have hsmall : decimalValue (s.drop (pos + 1)) < 2 ^ 31 := by
      have hlt := decimalValue_lt hdigits
      have hpow : 10 ^ (s.drop (pos + 1)).length ≤ 10 ^ 5 := Nat.pow_le_pow_right (by omega) hlength
      omega
    by_cases hne : s.drop (pos + 1) = []
    · rw [hne] at h
      cases h
    · rw [fromChars_digits hdigits hne hsmall] at h
      dsimp only at h
      split_ifs at h with hrange
      simp only [ne_eq, not_true_eq_false, false_or, not_or, not_le, not_lt] at hrange
      refine ⟨s.take pos, s.drop (pos + 1), hsplit, by omega, by omega, ?_⟩
      have hport : (decimalValue (s.drop (pos + 1)) : ℤ).toNat % 2 ^ 16 =
          decimalValue (s.drop (pos + 1)) := by
        rw [Int.toNat_natCast]
        omega
      rw [hport] at h
      exact h

/-- An accepted address has a port from 1 to 65535, and its string is accepted again and gives the
same host, port and family. -/
theorem parse_str_parse (regexes : HostRegexes) (s : Bytes) (a : Addr)
    (h : parse regexes s = .ok a) : 1 ≤ a.port ∧ a.port ≤ 65535 ∧ parse regexes a.str = .ok a := by
  obtain ⟨host, digits, -, hpos, hmax, hhost⟩ := parse_ok h
  obtain ⟨hprinted, hport, hagain⟩ := ofHost_ok hhost
  have hvalue : decimalValue (decimal a.port) = decimalValue digits := by
    rw [decimalValue_decimal, hport]
  refine ⟨by omega, by omega, ?_⟩
  rw [str_eq, hprinted, parse_append (fun _ => isDigit_of_mem_decimal), hvalue]
  · exact hagain _
  · exact decimal_length_le (by omega) (by omega)
  · omega
  · omega

/-- The regular expressions on the host `::1`. -/
def loopbackRegexes : HostRegexes := ⟨fun _ => false, fun host => host = [58, 58, 49], fun _ => false⟩

/-- `[::1]:00080`, a bracketed host and a port with leading zeros. -/
theorem parse_str_parse_zeros :
    parse loopbackRegexes [91, 58, 58, 49, 93, 58, 48, 48, 48, 56, 48] =
        .ok ⟨[58, 58, 49], 80, .inet6⟩ ∧
      1 ≤ 80 ∧ 80 ≤ 65535 ∧
        parse loopbackRegexes (str ⟨[58, 58, 49], 80, .inet6⟩) = .ok ⟨[58, 58, 49], 80, .inet6⟩ :=
  ⟨rfl, parse_str_parse loopbackRegexes [91, 58, 58, 49, 93, 58, 48, 48, 48, 56, 48]
    ⟨[58, 58, 49], 80, .inet6⟩ rfl⟩

end Addr

end Nplex
