import Mathlib.Data.Nat.Basic
import Mathlib.Data.List.Basic

/-!
# UTF-8 by code points

The byte sequences of code points up to `0x1FFFFF`, in the shortest form. Unicode stops at
`0x10FFFF` and leaves out the surrogates; its characters have the sequences of `String`. Two bytes
are enough to see whether a sequence is outside of Unicode.
-/

namespace Nplex.Common.Utf8

/-- The sequence of a code point. -/
def encode (cp : ℕ) : List UInt8 :=
  if cp ≤ 0x7f then [UInt8.ofNat cp]
  else if cp ≤ 0x7ff then [UInt8.ofNat (cp / 64 % 0x20 + 0xc0), UInt8.ofNat (cp % 0x40 + 0x80)]
  else if cp ≤ 0xffff then
    [UInt8.ofNat (cp / 4096 % 0x10 + 0xe0), UInt8.ofNat (cp / 64 % 0x40 + 0x80),
      UInt8.ofNat (cp % 0x40 + 0x80)]
  else
    [UInt8.ofNat (cp / 262144 % 0x08 + 0xf0), UInt8.ofNat (cp / 4096 % 0x40 + 0x80),
      UInt8.ofNat (cp / 64 % 0x40 + 0x80), UInt8.ofNat (cp % 0x40 + 0x80)]

/-- A character has the sequence of its code point. -/
theorem utf8EncodeChar_eq (c : Char) : String.utf8EncodeChar c = encode c.toNat := rfl

/-- The sequences by the numbers of their bytes. -/
inductive Coded (cp : ℕ) : List UInt8 → Prop
  | one {a : UInt8} (hhigh : cp < 0x80) (ha : a.toNat = cp) : Coded cp [a]
  | two {a b : UInt8} (hlow : 0x80 ≤ cp) (hhigh : cp < 0x800) (ha : a.toNat = 0xc0 + cp / 64)
      (hb : b.toNat = 0x80 + cp % 64) : Coded cp [a, b]
  | three {a b c : UInt8} (hlow : 0x800 ≤ cp) (hhigh : cp < 0x10000)
      (ha : a.toNat = 0xe0 + cp / 4096) (hb : b.toNat = 0x80 + cp / 64 % 64)
      (hc : c.toNat = 0x80 + cp % 64) : Coded cp [a, b, c]
  | four {a b c d : UInt8} (hlow : 0x10000 ≤ cp) (hhigh : cp < 0x200000)
      (ha : a.toNat = 0xf0 + cp / 262144) (hb : b.toNat = 0x80 + cp / 4096 % 64)
      (hc : c.toNat = 0x80 + cp / 64 % 64) (hd : d.toNat = 0x80 + cp % 64) : Coded cp [a, b, c, d]

/-- The number of a byte made of a small number. -/
theorem toNat_ofNat {n : ℕ} (h : n < 256) : (UInt8.ofNat n).toNat = n := by
  rw [UInt8.toNat_ofNat']
  exact Nat.mod_eq_of_lt h

/-- A byte is the one made of its number. -/
theorem eq_ofNat {b : UInt8} {n : ℕ} (h : b.toNat = n) : b = UInt8.ofNat n := by
  rw [← h, UInt8.ofNat_toNat]

/-- The encoding of a code point below `0x200000` is coded as it. -/
theorem coded_encode {cp : ℕ} (h : cp < 0x200000) : Coded cp (encode cp) := by
  unfold encode
  split_ifs with h1 h2 h3
  · exact .one (by omega) (toNat_ofNat (by omega))
  · refine .two (by omega) (by omega) ?_ ?_ <;> rw [toNat_ofNat (by omega)] <;> omega
  · refine .three (by omega) (by omega) ?_ ?_ ?_ <;> rw [toNat_ofNat (by omega)] <;> omega
  · refine .four (by omega) h ?_ ?_ ?_ ?_ <;> rw [toNat_ofNat (by omega)] <;> omega

/-- A coded code point is below `0x200000`. -/
theorem Coded.lt {cp : ℕ} {bytes : List UInt8} (h : Coded cp bytes) : cp < 0x200000 := by
  cases h <;> omega

/-- The sequence of a code point is unique. -/
theorem Coded.eq_encode {cp : ℕ} {bytes : List UInt8} (h : Coded cp bytes) : bytes = encode cp := by
  unfold encode
  cases h with
  | one hhigh ha => rw [if_pos (by omega), eq_ofNat ha]
  | @two a b hlow hhigh ha hb =>
    have ha' : a = UInt8.ofNat (cp / 64 % 0x20 + 0xc0) := eq_ofNat (by omega)
    have hb' : b = UInt8.ofNat (cp % 0x40 + 0x80) := eq_ofNat (by omega)
    rw [if_neg (by omega), if_pos (by omega), ha', hb']
  | @three a b c hlow hhigh ha hb hc =>
    have ha' : a = UInt8.ofNat (cp / 4096 % 0x10 + 0xe0) := eq_ofNat (by omega)
    have hb' : b = UInt8.ofNat (cp / 64 % 0x40 + 0x80) := eq_ofNat (by omega)
    have hc' : c = UInt8.ofNat (cp % 0x40 + 0x80) := eq_ofNat (by omega)
    rw [if_neg (by omega), if_neg (by omega), if_pos (by omega), ha', hb', hc']
  | @four a b c d hlow hhigh ha hb hc hd =>
    have ha' : a = UInt8.ofNat (cp / 262144 % 0x08 + 0xf0) := eq_ofNat (by omega)
    have hb' : b = UInt8.ofNat (cp / 4096 % 0x40 + 0x80) := eq_ofNat (by omega)
    have hc' : c = UInt8.ofNat (cp / 64 % 0x40 + 0x80) := eq_ofNat (by omega)
    have hd' : d = UInt8.ofNat (cp % 0x40 + 0x80) := eq_ofNat (by omega)
    rw [if_neg (by omega), if_neg (by omega), if_neg (by omega), ha', hb', hc', hd']

/-- A byte pair, or a byte, that only sequences outside of Unicode have: a surrogate starts with
`ED A0` to `ED BF`, a code point above `0x10FFFF` with `F4 90` or more. -/
def beyondUnicode : List UInt8 → Bool
  | [] => false
  | a :: rest =>
    0xf5 ≤ a || (a == 0xed && rest.head?.any (0xa0 ≤ ·)) ||
      (a == 0xf4 && rest.head?.any (0x90 ≤ ·)) || beyondUnicode rest

/-- A byte that starts no sequence outside of Unicode is passed over. -/
theorem beyondUnicode_cons_of_ne {a : UInt8} (h : a.toNat < 0xf5) (hed : a.toNat ≠ 0xed)
    (hf4 : a.toNat ≠ 0xf4) (rest : List UInt8) : beyondUnicode (a :: rest) = beyondUnicode rest := by
  have hlow : decide ((0xf5 : UInt8) ≤ a) = false := by
    rw [decide_eq_false_iff_not, UInt8.le_iff_toNat_le]
    exact Nat.not_le.mpr h
  have hed' : (a == 0xed) = false := by
    rw [beq_eq_false_iff_ne]
    exact fun heq => hed (congrArg UInt8.toNat heq)
  have hf4' : (a == 0xf4) = false := by
    rw [beq_eq_false_iff_ne]
    exact fun heq => hf4 (congrArg UInt8.toNat heq)
  simp [beyondUnicode, hlow, hed', hf4']

/-- The first two bytes, by their numbers. -/
theorem beyondUnicode_cons_cons (a b : UInt8) (rest : List UInt8) :
    beyondUnicode (a :: b :: rest) = true ↔ (0xf5 ≤ a.toNat ∨ (a.toNat = 0xed ∧ 0xa0 ≤ b.toNat) ∨
      (a.toNat = 0xf4 ∧ 0x90 ≤ b.toNat)) ∨ beyondUnicode (b :: rest) = true := by
  have hle : ∀ (m : UInt8) (b : UInt8), m ≤ b ↔ m.toNat ≤ b.toNat := fun _ _ =>
    UInt8.le_iff_toNat_le
  have heq : ∀ m : UInt8, (a == m) = true ↔ a.toNat = m.toNat := fun m => by
    rw [beq_iff_eq, UInt8.toNat_inj]
  conv_lhs => rw [beyondUnicode]
  simp only [List.head?_cons, Option.any_some, Bool.or_eq_true, Bool.and_eq_true, heq,
    decide_eq_true_eq, hle]
  exact or_congr_left or_assoc

/-- A sequence adds such a pair exactly when its code point is outside of Unicode. -/
theorem beyondUnicode_append {cp : ℕ} {bytes : List UInt8} (h : Coded cp bytes) (rest : List UInt8) :
    beyondUnicode (bytes ++ rest) = true ↔ ¬cp.isValidChar ∨ beyondUnicode rest = true := by
  have htail : ∀ (b : UInt8) (rest : List UInt8), b.toNat < 0xc0 →
      beyondUnicode (b :: rest) = beyondUnicode rest := fun b rest hb =>
    beyondUnicode_cons_of_ne (by omega) (by omega) (by omega) rest
  unfold Nat.isValidChar
  cases h with
  | one hhigh ha =>
    rw [List.singleton_append, htail _ _ (by omega)]
    constructor
    · exact Or.inr
    · exact fun h => h.resolve_left (by omega)
  | two hlow hhigh ha hb =>
    rw [List.cons_append, List.singleton_append,
      beyondUnicode_cons_of_ne (by omega) (by omega) (by omega), htail _ _ (by omega)]
    constructor
    · exact Or.inr
    · exact fun h => h.resolve_left (by omega)
  | @three a b c hlow hhigh ha hb hc =>
    have hrest : beyondUnicode (b :: c :: rest) = beyondUnicode rest := by
      rw [htail b _ (by omega), htail c _ (by omega)]
    rw [List.cons_append, List.cons_append, List.singleton_append, beyondUnicode_cons_cons, hrest]
    refine or_congr ?_ Iff.rfl
    omega
  | @four a b c d hlow hhigh ha hb hc hd =>
    have hrest : beyondUnicode (b :: c :: d :: rest) = beyondUnicode rest := by
      rw [htail b _ (by omega), htail c _ (by omega), htail d _ (by omega)]
    rw [List.cons_append, List.cons_append, List.cons_append, List.singleton_append,
      beyondUnicode_cons_cons, hrest]
    refine or_congr ?_ Iff.rfl
    omega

/-- The sequences of some code points have such a pair exactly when one of them is outside of
Unicode. -/
theorem beyondUnicode_flatMap {cps : List ℕ} (h : ∀ cp ∈ cps, cp < 0x200000) :
    beyondUnicode (cps.flatMap encode) = true ↔ ∃ cp ∈ cps, ¬cp.isValidChar := by
  induction cps with
  | nil => simp [beyondUnicode]
  | cons cp rest ih =>
    have hrest := ih fun cp hcp => h cp (List.mem_cons_of_mem _ hcp)
    rw [List.flatMap_cons, beyondUnicode_append (coded_encode (h cp List.mem_cons_self)), hrest,
      List.exists_mem_cons_iff]

/-- Code points of Unicode are those of characters. -/
theorem exists_chars {cps : List ℕ} (h : ∀ cp ∈ cps, cp.isValidChar) :
    ∃ cs : List Char, cs.map Char.toNat = cps := by
  induction cps with
  | nil => exact ⟨[], rfl⟩
  | cons cp rest ih =>
    have hcp := h cp List.mem_cons_self
    obtain ⟨cs, hcs⟩ := ih fun cp hcp => h cp (List.mem_cons_of_mem _ hcp)
    have hchar : (Char.ofNat cp).toNat = cp := by
      rw [Char.ofNat, dif_pos hcp]
      rfl
    exact ⟨Char.ofNat cp :: cs, by rw [List.map_cons, hchar, hcs]⟩

/-- The sequences of characters are those of their code points. -/
theorem flatMap_utf8EncodeChar (cs : List Char) :
    cs.flatMap String.utf8EncodeChar = (cs.map Char.toNat).flatMap encode := by
  rw [List.flatMap_map, funext utf8EncodeChar_eq]

end Nplex.Common.Utf8
