import Mathlib.Data.Nat.Digits.Lemmas

/-!
# Decimal numerals

A number is printed as ASCII digits, the most significant first and without leading zeros.
Reading digits back also takes leading zeros.
-/

namespace Nplex.Common

/-- An ASCII digit. -/
def isDigit (b : UInt8) : Bool := 48 ≤ b && b ≤ 57

/-- The ASCII digit of a number below ten. -/
def digitByte (d : ℕ) : UInt8 := UInt8.ofNat (48 + d)

/-- The number of an ASCII digit. -/
def digitValue (b : UInt8) : ℕ := b.toNat - 48

/-- The numeral of a number. -/
def decimal (n : ℕ) : List UInt8 :=
  if n = 0 then [48] else (Nat.digits 10 n).reverse.map digitByte

/-- The number that digits denote. -/
def decimalValue (digits : List UInt8) : ℕ := digits.foldl (fun n b => n * 10 + digitValue b) 0

/-- The value of a digit is the one that it stands for. -/
theorem digitValue_digitByte {d : ℕ} (h : d < 10) : digitValue (digitByte d) = d := by
  have htoNat : (digitByte d).toNat = 48 + d := by
    rw [digitByte, UInt8.toNat_ofNat']
    omega
  rw [digitValue, htoNat]
  omega

/-- The digits are digits. -/
theorem isDigit_digitByte {d : ℕ} (h : d < 10) : isDigit (digitByte d) = true := by
  have htoNat : (digitByte d).toNat = 48 + d := by
    rw [digitByte, UInt8.toNat_ofNat']
    omega
  unfold isDigit
  rw [Bool.and_eq_true, decide_eq_true_eq, decide_eq_true_eq, UInt8.le_iff_toNat_le,
    UInt8.le_iff_toNat_le, htoNat]
  constructor
  · exact Nat.le_add_right 48 d
  · change 48 + d ≤ 57
    omega

/-- A digit denotes a number below ten. -/
theorem digitValue_lt {b : UInt8} (h : isDigit b = true) : digitValue b < 10 := by
  unfold isDigit at h
  rw [Bool.and_eq_true, decide_eq_true_eq, decide_eq_true_eq, UInt8.le_iff_toNat_le,
    UInt8.le_iff_toNat_le] at h
  have hupper : b.toNat ≤ 57 := h.2
  unfold digitValue
  omega

/-- A numeral has digits only. -/
theorem isDigit_of_mem_decimal {n : ℕ} {b : UInt8} (h : b ∈ decimal n) : isDigit b = true := by
  unfold decimal at h
  split_ifs at h
  · rw [List.mem_singleton.mp h]
    rfl
  · obtain ⟨d, hd, rfl⟩ := List.mem_map.mp h
    exact isDigit_digitByte (Nat.digits_lt_base (by omega) (List.mem_reverse.mp hd))

/-- A number has a digit. -/
theorem decimal_ne_nil (n : ℕ) : decimal n ≠ [] := by
  unfold decimal
  split_ifs with hn
  · simp
  · simpa using Nat.digits_ne_nil_iff_ne_zero.mpr hn

/-- A numeral has no leading zero. -/
theorem decimal_head {n : ℕ} (hn : n ≠ 0) : ∀ b ∈ (decimal n).head?, b ≠ 48 := by
  intro b hb
  unfold decimal at hb
  rw [if_neg hn, List.head?_map, List.head?_reverse] at hb
  obtain ⟨d, hd, rfl⟩ := Option.mem_map.mp hb
  have hlast : Nat.digits 10 n ≠ [] := Nat.digits_ne_nil_iff_ne_zero.mpr hn
  have hne : (Nat.digits 10 n).getLast hlast ≠ 0 := Nat.getLast_digit_ne_zero 10 hn
  have hlt : d < 10 := Nat.digits_lt_base (by omega) (List.mem_of_getLast? hd)
  rw [List.getLast?_eq_some_getLast hlast, Option.mem_some_iff] at hd
  intro hzero
  have hvalue := digitValue_digitByte hlt
  rw [hzero] at hvalue
  exact hne (hd.trans hvalue.symm)

/-- Reading a numeral gives its number. -/
theorem decimalValue_decimal (n : ℕ) : decimalValue (decimal n) = n := by
  unfold decimal
  split_ifs with hn
  · rw [hn]
    rfl
  · have hvalue : ∀ ds : List ℕ, (∀ d ∈ ds, d < 10) →
        decimalValue (ds.reverse.map digitByte) = Nat.ofDigits 10 ds := by
      intro ds hds
      induction ds with
      | nil => rfl
      | cons d rest ih =>
        have hd := hds d List.mem_cons_self
        have hrest := ih fun d hd => hds d (List.mem_cons_of_mem _ hd)
        unfold decimalValue at hrest ⊢
        rw [List.reverse_cons, List.map_append, List.foldl_append, hrest, Nat.ofDigits_cons]
        simp only [List.map_cons, List.map_nil, List.foldl_cons, List.foldl_nil,
          digitValue_digitByte hd]
        omega
    rw [hvalue _ fun d hd => Nat.digits_lt_base (by omega) hd, Nat.ofDigits_digits]

/-- Digits denote a number below the power of ten of their count. -/
theorem decimalValue_lt {digits : List UInt8} (hdigits : ∀ b ∈ digits, isDigit b = true) :
    decimalValue digits < 10 ^ digits.length := by
  have hfold : ∀ n, digits.foldl (fun n b => n * 10 + digitValue b) n <
      (n + 1) * 10 ^ digits.length := by
    induction digits with
    | nil => simp
    | cons b rest ih =>
      intro n
      have hb := digitValue_lt (hdigits b List.mem_cons_self)
      have hrest := ih (fun b hb => hdigits b (List.mem_cons_of_mem _ hb)) (n * 10 + digitValue b)
      have hten : (n * 10 + digitValue b + 1) * 10 ^ rest.length ≤
          (n + 1) * 10 * 10 ^ rest.length := Nat.mul_le_mul_right _ (by omega)
      rw [List.foldl_cons, List.length_cons, Nat.pow_succ']
      calc _ < _ := hrest
        _ ≤ (n + 1) * 10 * 10 ^ rest.length := hten
        _ = (n + 1) * (10 * 10 ^ rest.length) := Nat.mul_assoc _ _ _
  simpa [decimalValue] using hfold 0

/-- A number below a power of ten has that many digits at most. -/
theorem decimal_length_le {n k : ℕ} (hk : 0 < k) (h : n < 10 ^ k) : (decimal n).length ≤ k := by
  unfold decimal
  split_ifs with hn
  · exact hk
  · rw [List.length_map, List.length_reverse]
    exact (Nat.digits_length_le_iff (by omega) n).mpr h

end Nplex.Common
