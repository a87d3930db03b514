import Nplex.Utils
import Nplex.Common.Utf8

/-!
# The texts that are valid keys

`is_valid_key` against the Unicode text it is meant to accept. The scanner of `utf8.h` takes
sequences of one to four bytes in their shortest form, and with them those of the surrogates and of
the numbers above `0x10FFFF`, which no Unicode text contains.
-/

namespace Nplex

open Nplex.Common

/-- What a key must have besides being a text. -/
structure PlainRules (key : Bytes) : Prop where
  nonempty : key ≠ []
  noLeadingSpace : key.head? ≠ some 32
  noTrailingSpace : key.getLast? ≠ some 32
  /-- It contains no `//`. -/
  noDoubleSlash : ¬[47, 47] <:+: key
  noNul : 0 ∉ key

/-- A C0 control, DEL or a C1 control. -/
def Control (cp : ℕ) : Prop := cp ≤ 0x1f ∨ cp = 0x7f ∨ (0x80 ≤ cp ∧ cp ≤ 0x9f)

/-- The bytes are the UTF-8 of some characters, none of them a control. -/
def UnicodeText (key : Bytes) : Prop :=
  ∃ cs : List Char, key = cs.flatMap String.utf8EncodeChar ∧ ∀ c ∈ cs, ¬Control c.toNat

/-- The bytes are shortest sequences of code points up to `0x1FFFFF`, none of them a control. -/
def LooseText (key : Bytes) : Prop :=
  ∃ cps : List ℕ, key = cps.flatMap Utf8.encode ∧ ∀ cp ∈ cps, cp < 0x200000 ∧ ¬Control cp

section Bytes

/-- A property of every byte, from the 256 numbers. -/
theorem forall_byte {P : UInt8 → Prop} (h : ∀ n : Fin 256, P (UInt8.ofNat n)) (b : UInt8) : P b := by
  have hb := h ⟨b.toNat, b.toNat_lt⟩
  rwa [UInt8.ofNat_toNat] at hb

/-- The masks of `utf8.h` by the number of the byte, found by going through the 256 bytes once. -/
theorem masks_eq : ∀ b : UInt8,
    ((b &&& 0xf8 == 0xf0) = decide (0xf0 ≤ b.toNat ∧ b.toNat ≤ 0xf7) ∧
      (b &&& 0xf0 == 0xe0) = decide (0xe0 ≤ b.toNat ∧ b.toNat ≤ 0xef) ∧
      (b &&& 0xe0 == 0xc0) = decide (0xc0 ≤ b.toNat ∧ b.toNat ≤ 0xdf) ∧
      (b &&& 0x80 == 0) = decide (b.toNat ≤ 0x7f) ∧
      isContinuation b = decide (0x80 ≤ b.toNat ∧ b.toNat ≤ 0xbf)) ∧
    ((b &&& 0x07 == 0) = decide (b.toNat % 8 = 0) ∧
      (b &&& 0x30 == 0) = decide (b.toNat / 16 % 4 = 0) ∧
      (b &&& 0x0f == 0) = decide (b.toNat % 16 = 0) ∧
      (b &&& 0x20 == 0) = decide (b.toNat / 32 % 2 = 0) ∧
      (b &&& 0x1e == 0) = decide (b.toNat / 2 % 16 = 0)) ∧
    ((b &&& 0x07).toNat = b.toNat % 8 ∧ (b &&& 0x0f).toNat = b.toNat % 16 ∧
      (b &&& 0x1f).toNat = b.toNat % 32 ∧ (b &&& 0x3f).toNat = b.toNat % 64) :=
  forall_byte (by decide +kernel)

/-- The mask of the first of four bytes is a range. -/
theorem lead4_eq (b : UInt8) :
    (b &&& 0xf8 == 0xf0) = decide (0xf0 ≤ b.toNat ∧ b.toNat ≤ 0xf7) := (masks_eq b).1.1

/-- So is that of the first of three. -/
theorem lead3_eq (b : UInt8) :
    (b &&& 0xf0 == 0xe0) = decide (0xe0 ≤ b.toNat ∧ b.toNat ≤ 0xef) := (masks_eq b).1.2.1

/-- So is that of the first of two. -/
theorem lead2_eq (b : UInt8) :
    (b &&& 0xe0 == 0xc0) = decide (0xc0 ≤ b.toNat ∧ b.toNat ≤ 0xdf) := (masks_eq b).1.2.2.1

/-- So is that of one byte. -/
theorem ascii_eq (b : UInt8) : (b &&& 0x80 == 0) = decide (b.toNat ≤ 0x7f) :=
  (masks_eq b).1.2.2.2.1

/-- So is that of the bytes that follow. -/
theorem isContinuation_eq (b : UInt8) :
    isContinuation b = decide (0x80 ≤ b.toNat ∧ b.toNat ≤ 0xbf) := (masks_eq b).1.2.2.2.2

/-- The bits that a four-byte sequence must not leave all zero. -/
theorem overlong4_eq (a b : UInt8) :
    (a &&& 0x07 == 0 && b &&& 0x30 == 0) = decide (a.toNat % 8 = 0 ∧ b.toNat / 16 % 4 = 0) := by
  rw [(masks_eq a).2.1.1, (masks_eq b).2.1.2.1, Bool.decide_and]

/-- The bits that a three-byte sequence must not leave all zero. -/
theorem overlong3_eq (a b : UInt8) :
    (a &&& 0x0f == 0 && b &&& 0x20 == 0) = decide (a.toNat % 16 = 0 ∧ b.toNat / 32 % 2 = 0) := by
  rw [(masks_eq a).2.1.2.2.1, (masks_eq b).2.1.2.2.2.1, Bool.decide_and]

/-- The bits that a two-byte sequence must not leave all zero. -/
theorem overlong2_eq (a : UInt8) : (a &&& 0x1e == 0) = decide (a.toNat / 2 % 16 = 0) :=
  (masks_eq a).2.1.2.2.2.2

/-- The low bits of a byte. -/
theorem toNat_low (a : UInt8) :
    (a &&& 0x07).toNat = a.toNat % 8 ∧ (a &&& 0x0f).toNat = a.toNat % 16 ∧
      (a &&& 0x1f).toNat = a.toNat % 32 ∧ (a &&& 0x3f).toNat = a.toNat % 64 := (masks_eq a).2.2

end Bytes

section Scanner

open Utf8

variable {cp : ℕ} {bytes tail key : Bytes}

/-- What is accepted does not start with a continuation byte. -/
theorem endsCodepoint_of_utf8nvalid (h : utf8nvalid tail = true) : endsCodepoint tail = true := by
  cases tail with
  | nil => rfl
  | cons b rest =>
    change (!isContinuation b) = true
    rw [isContinuation_eq, Bool.not_eq_true', decide_eq_false_iff_not]
    intro hcontinuation
    unfold utf8nvalid at h
    rw [lead4_eq, lead3_eq, lead2_eq, ascii_eq] at h
    have h4 : ¬(0xf0 ≤ b.toNat ∧ b.toNat ≤ 0xf7) := by omega
    have h3 : ¬(0xe0 ≤ b.toNat ∧ b.toNat ≤ 0xef) := by omega
    have h2 : ¬(0xc0 ≤ b.toNat ∧ b.toNat ≤ 0xdf) := by omega
    have h1 : ¬b.toNat ≤ 0x7f := by omega
    simp [h4, h3, h2, h1] at h

/-- The scanner takes the sequence of a code point, unless it is NUL. -/
theorem utf8nvalid_append (h : Coded cp bytes) (hcp : cp ≠ 0) (htail : utf8nvalid tail = true) :
    utf8nvalid (bytes ++ tail) = true := by
  have hends := endsCodepoint_of_utf8nvalid htail
  have hnul : ∀ a : UInt8, a.toNat ≠ 0 → (a == 0) = false := fun a ha => by
    rw [beq_eq_false_iff_ne]
    exact fun heq => ha (congrArg UInt8.toNat heq)
  cases h with
  | @one a hhigh ha =>
    rw [List.singleton_append]
    unfold utf8nvalid
    rw [hnul a (by omega), lead4_eq, lead3_eq, lead2_eq, ascii_eq, decide_eq_false (by omega),
      decide_eq_false (by omega), decide_eq_false (by omega), decide_eq_true (by omega)]
    exact htail
  | @two a b hlow hhigh ha hb =>
    rw [List.cons_append, List.singleton_append]
    unfold utf8nvalid
    dsimp only
    rw [hnul a (by omega), lead4_eq, lead3_eq, lead2_eq, decide_eq_false (by omega),
      decide_eq_false (by omega), decide_eq_true (by omega), isContinuation_eq,
      decide_eq_true (by omega), overlong2_eq, decide_eq_false (by omega), hends, htail]
    rfl
  | @three a b c hlow hhigh ha hb hc =>
    rw [List.cons_append, List.cons_append, List.singleton_append]
    unfold utf8nvalid
    dsimp only
    rw [hnul a (by omega), lead4_eq, lead3_eq, decide_eq_false (by omega), decide_eq_true (by omega),
      isContinuation_eq, decide_eq_true (by omega), isContinuation_eq, decide_eq_true (by omega),
      overlong3_eq, decide_eq_false (by omega), hends, htail]
    rfl
  | @four a b c d hlow hhigh ha hb hc hd =>
    rw [List.cons_append, List.cons_append, List.cons_append, List.singleton_append]
    unfold utf8nvalid
    dsimp only
    rw [hnul a (by omega), lead4_eq, decide_eq_true (by omega), isContinuation_eq,
      decide_eq_true (by omega), isContinuation_eq, decide_eq_true (by omega), isContinuation_eq,
      decide_eq_true (by omega), overlong4_eq, decide_eq_false (by omega), hends, htail]
    rfl

/-- What the scanner accepts starts with the sequence of a code point. -/
theorem coded_of_utf8nvalid (h : utf8nvalid key = true) (hne : key ≠ []) :
    ∃ cp bytes tail, key = bytes ++ tail ∧ Coded cp bytes ∧ cp ≠ 0 ∧ utf8nvalid tail = true := by
  cases key with
  | nil => exact absurd rfl hne
  | cons a rest =>
    unfold utf8nvalid at h
    rw [lead4_eq, lead3_eq, lead2_eq, ascii_eq] at h
    split_ifs at h with h0 h4 h3 h2 h1
    all_goals simp only [decide_eq_true_eq] at *
    · split at h
      · next b c d tail =>
        rw [isContinuation_eq, isContinuation_eq, isContinuation_eq, overlong4_eq] at h
        simp only [Bool.and_eq_true, decide_eq_true_eq, Bool.not_eq_true', decide_eq_false_iff_not] at h
        obtain ⟨⟨⟨⟨⟨hb, hc⟩, hd⟩, -⟩, hshort⟩, htail⟩ := h
        refine ⟨a.toNat % 8 * 262144 + b.toNat % 64 * 4096 + c.toNat % 64 * 64 + d.toNat % 64,
          [a, b, c, d], tail, rfl, .four ?_ ?_ ?_ ?_ ?_ ?_, ?_, htail⟩ <;> omega
      · cases h
    · split at h
      · next b c tail =>
        rw [isContinuation_eq, isContinuation_eq, overlong3_eq] at h
        simp only [Bool.and_eq_true, decide_eq_true_eq, Bool.not_eq_true', decide_eq_false_iff_not] at h
        obtain ⟨⟨⟨⟨hb, hc⟩, -⟩, hshort⟩, htail⟩ := h
        refine ⟨a.toNat % 16 * 4096 + b.toNat % 64 * 64 + c.toNat % 64, [a, b, c], tail, rfl,
          .three ?_ ?_ ?_ ?_ ?_, ?_, htail⟩ <;> omega
      · cases h
    · split at h
      · next b tail =>
        rw [isContinuation_eq, overlong2_eq] at h
        simp only [Bool.and_eq_true, decide_eq_true_eq, Bool.not_eq_true', decide_eq_false_iff_not] at h
        obtain ⟨⟨⟨hb, -⟩, hshort⟩, htail⟩ := h
        refine ⟨a.toNat % 32 * 64 + b.toNat % 64, [a, b], tail, rfl, .two ?_ ?_ ?_ ?_, ?_, htail⟩ <;>
          omega
      · cases h
    · refine ⟨a.toNat, [a], rest, rfl, .one (by omega) rfl, ?_, h⟩
      intro hzero
      exact h0 (by rw [eq_ofNat hzero]; rfl)

/-- Six more bits. -/
theorem shift_or {x y : ℕ} (hy : y < 64) : (x <<< 6) ||| y = x * 64 + y := by
  have hlow : y < 2 ^ 6 := hy
  rw [← Nat.shiftLeft_add_eq_or_of_lt hlow, Nat.shiftLeft_eq]

/-- Shifting by six bits more. -/
theorem shift_succ (x k : ℕ) : x <<< (k + 6) = (x <<< k) <<< 6 := Nat.shiftLeft_add x k 6

/-- The loop over the code points decodes the sequence of one and tests it. -/
theorem noControls_append (h : Coded cp bytes) (tail : Bytes) :
    noControls (bytes ++ tail) = (!isControl cp && noControls tail) := by
  cases h with
  | @one a hhigh ha =>
    rw [List.singleton_append]
    conv_lhs => unfold noControls
    rw [lead4_eq, lead3_eq, lead2_eq, decide_eq_false (by omega), decide_eq_false (by omega),
      decide_eq_false (by omega), ha]
    rfl
  | @two a b hlow hhigh ha hb =>
    have hcp : ((a &&& 0x1f).toNat <<< 6) ||| (b &&& 0x3f).toNat = cp := by
      rw [(toNat_low a).2.2.1, (toNat_low b).2.2.2, shift_or (by omega)]
      omega
    rw [List.cons_append, List.singleton_append]
    conv_lhs => unfold noControls
    dsimp only
    rw [lead4_eq, lead3_eq, lead2_eq, decide_eq_false (by omega), decide_eq_false (by omega),
      decide_eq_true (by omega), hcp]
    rfl
  | @three a b c hlow hhigh ha hb hc =>
    have hcp : ((a &&& 0x0f).toNat <<< 12) ||| ((b &&& 0x3f).toNat <<< 6) ||| (c &&& 0x3f).toNat =
        cp := by
      rw [(toNat_low a).2.1, (toNat_low b).2.2.2, (toNat_low c).2.2.2, shift_succ _ 6,
        ← Nat.shiftLeft_or_distrib, shift_or (by omega), shift_or (by omega)]
      omega
    rw [List.cons_append, List.cons_append, List.singleton_append]
    conv_lhs => unfold noControls
    dsimp only
    rw [lead4_eq, lead3_eq, decide_eq_false (by omega), decide_eq_true (by omega), hcp]
    rfl
  | @four a b c d hlow hhigh ha hb hc hd =>
    have hcp : ((a &&& 0x07).toNat <<< 18) ||| ((b &&& 0x3f).toNat <<< 12) |||
        ((c &&& 0x3f).toNat <<< 6) ||| (d &&& 0x3f).toNat = cp := by
      rw [(toNat_low a).1, (toNat_low b).2.2.2, (toNat_low c).2.2.2, (toNat_low d).2.2.2,
        shift_succ (a.toNat % 8) 12, shift_succ (a.toNat % 8) 6, shift_succ (b.toNat % 64) 6,
        ← Nat.shiftLeft_or_distrib, ← Nat.shiftLeft_or_distrib, ← Nat.shiftLeft_or_distrib,
        shift_or (by omega), shift_or (by omega), shift_or (by omega)]
      omega
    rw [List.cons_append, List.cons_append, List.cons_append, List.singleton_append]
    conv_lhs => unfold noControls
    dsimp only
    rw [lead4_eq, decide_eq_true (by omega), hcp]
    rfl

/-- The test of a code point. -/
theorem isControl_eq_false : isControl cp = false ↔ ¬Control cp := by
  unfold isControl Control
  rw [Bool.or_eq_false_iff, decide_eq_false_iff_not, Bool.and_eq_false_iff, decide_eq_false_iff_not,
    decide_eq_false_iff_not]
  omega

/-- Only NUL has a zero byte. -/
theorem eq_zero_of_coded (h : Coded cp bytes) (hzero : 0 ∈ bytes) : cp = 0 := by
  have hnat : ∀ b : UInt8, b = 0 → b.toNat = 0 := fun b hb => congrArg UInt8.toNat hb
  cases h with
  | @one a hhigh ha =>
    have hbyte := hnat a (List.mem_singleton.mp hzero).symm
    omega
  | @two a b hlow hhigh ha hb =>
    simp only [List.mem_cons, List.not_mem_nil, or_false] at hzero
    rcases hzero with h0 | h0 <;> have hbyte := hnat _ h0.symm <;> omega
  | @three a b c hlow hhigh ha hb hc =>
    simp only [List.mem_cons, List.not_mem_nil, or_false] at hzero
    rcases hzero with h0 | h0 | h0 <;> have hbyte := hnat _ h0.symm <;> omega
  | @four a b c d hlow hhigh ha hb hc hd =>
    simp only [List.mem_cons, List.not_mem_nil, or_false] at hzero
    rcases hzero with h0 | h0 | h0 | h0 <;> have hbyte := hnat _ h0.symm <;> omega

/-- What both loops accept is a text without NUL, in the loose sense. -/
theorem scanned_iff : (utf8nvalid key = true ∧ noControls key = true) ↔ 0 ∉ key ∧ LooseText key := by
  constructor
  · -- the loops agree on where the sequences are
    intro h
    induction hlength : key.length using Nat.strong_induction_on generalizing key with
    | _ n ih =>
      by_cases hne : key = []
      · subst hne
        exact ⟨List.not_mem_nil, [], rfl, by simp⟩
      · obtain ⟨cp, bytes, tail, rfl, hcoded, hcp, htail⟩ := coded_of_utf8nvalid h.1 hne
        have hcontrols := h.2
        rw [noControls_append hcoded, Bool.and_eq_true, Bool.not_eq_true'] at hcontrols
        have hshorter : tail.length < n := by
          have hpos : bytes ≠ [] := by
            rintro rfl
            cases hcoded
          have hbytes := List.length_pos_iff.mpr hpos
          rw [← hlength, List.length_append]
          omega
        obtain ⟨hnul, cps, rfl, hcps⟩ := ih tail.length hshorter ⟨htail, hcontrols.2⟩ rfl
        refine ⟨fun hmem => ?_, cp :: cps, by rw [List.flatMap_cons, hcoded.eq_encode], ?_⟩
        · rcases List.mem_append.mp hmem with hzero | hzero
          · exact hcp (eq_zero_of_coded hcoded hzero)
          · exact hnul hzero
        · intro cp' hcp'
          rcases List.mem_cons.mp hcp' with rfl | hrest
          · exact ⟨hcoded.lt, isControl_eq_false.mp hcontrols.1⟩
          · exact hcps cp' hrest
  · rintro ⟨hnul, cps, rfl, hcps⟩
    induction cps with
    | nil => exact ⟨rfl, rfl⟩
    | cons cp rest ih =>
      obtain ⟨hlt, hcontrol⟩ := hcps cp List.mem_cons_self
      have hcoded := coded_encode hlt
      rw [List.flatMap_cons] at hnul ⊢
      have hcp : cp ≠ 0 := by
        rintro rfl
        exact hnul (List.mem_append_left _ (by decide))
      obtain ⟨hvalid, hcontrols⟩ := ih (fun cp hcp => hcps cp (List.mem_cons_of_mem _ hcp))
        fun hmem => hnul (List.mem_append_right _ hmem)
      refine ⟨utf8nvalid_append hcoded hcp hvalid, ?_⟩
      rw [noControls_append hcoded, hcontrols, isControl_eq_false.mpr hcontrol]
      rfl

end Scanner

/-- The search for `//`. -/
theorem hasDoubleSlash_iff {key : Bytes} : hasDoubleSlash key = true ↔ [47, 47] <:+: key := by
  induction key with
  | nil => simp [hasDoubleSlash]
  | cons a rest ih =>
    cases rest with
    | nil =>
      simp [hasDoubleSlash, List.infix_cons_iff]
    | cons b rest =>
      have hinfix : [47, 47] <:+: a :: b :: rest ↔
        [47, 47] <+: a :: b :: rest ∨ [47, 47] <:+: b :: rest := List.infix_cons_iff
      have hprefix : [47, 47] <+: a :: b :: rest ↔ 47 = a ∧ 47 = b := by
        rw [List.cons_prefix_cons, List.cons_prefix_cons]
        exact and_congr_right fun _ => and_iff_left List.nil_prefix
      rw [hasDoubleSlash, Bool.or_eq_true, ih, hinfix, hprefix, Bool.and_eq_true, beq_iff_eq,
        beq_iff_eq, eq_comm, @eq_comm _ b]

/-- The keys that the code accepts. -/
theorem isValidKey_iff {key : Bytes} : isValidKey key = true ↔ PlainRules key ∧ LooseText key := by
  have hscanned : (utf8nvalid key = true ∧ noControls key = true) ↔ 0 ∉ key ∧ LooseText key :=
    scanned_iff
  have hslash : hasDoubleSlash key = false ↔ ¬[47, 47] <:+: key := by
    rw [← hasDoubleSlash_iff, Bool.not_eq_true]
  unfold isValidKey
  simp only [Bool.and_eq_true, Bool.not_eq_true', List.isEmpty_eq_false_iff, bne_iff_ne, and_assoc]
  rw [hscanned, hslash]
  constructor
  · rintro ⟨hne, hhead, hlast, hdouble, -, hnul, htext⟩
    exact ⟨⟨hne, hhead, hlast, hdouble, hnul⟩, htext⟩
  · rintro ⟨hrules, htext⟩
    have hcontains : key.contains 0 = false := by
      rw [← Bool.not_eq_true, List.contains_iff_mem]
      exact hrules.noNul
    exact ⟨hrules.nonempty, hrules.noLeadingSpace, hrules.noTrailingSpace, hrules.noDoubleSlash,
      hcontains, hrules.noNul, htext⟩

/-- A Unicode text is a loose one in which nothing is outside of Unicode. -/
theorem unicodeText_iff {key : Bytes} :
    UnicodeText key ↔ LooseText key ∧ Utf8.beyondUnicode key = false := by
  constructor
  · rintro ⟨cs, rfl, hcs⟩
    rw [Utf8.flatMap_utf8EncodeChar]
    have hvalid : ∀ cp ∈ cs.map Char.toNat, cp.isValidChar := by
      intro cp hcp
      obtain ⟨c, -, rfl⟩ := List.mem_map.mp hcp
      exact c.valid
    have hlt : ∀ cp ∈ cs.map Char.toNat, cp < 0x200000 := by
      intro cp hcp
      have hcpValid := hvalid cp hcp
      unfold Nat.isValidChar at hcpValid
      omega
    refine ⟨⟨cs.map Char.toNat, rfl, fun cp hcp => ⟨hlt cp hcp, ?_⟩⟩, ?_⟩
    · obtain ⟨c, hc, rfl⟩ := List.mem_map.mp hcp
      exact hcs c hc
    · rw [← Bool.not_eq_true, Utf8.beyondUnicode_flatMap hlt]
      rintro ⟨cp, hcp, hinvalid⟩
      exact hinvalid (hvalid cp hcp)
  · rintro ⟨⟨cps, rfl, hcps⟩, hbeyond⟩
    rw [← Bool.not_eq_true, Utf8.beyondUnicode_flatMap fun cp hcp => (hcps cp hcp).1] at hbeyond
    have hvalid : ∀ cp ∈ cps, cp.isValidChar := fun cp hcp => by
      by_contra hinvalid
      exact hbeyond ⟨cp, hcp, hinvalid⟩
    obtain ⟨cs, rfl⟩ := Utf8.exists_chars hvalid
    exact ⟨cs, (Utf8.flatMap_utf8EncodeChar cs).symm, fun c hc =>
      (hcps c.toNat (List.mem_map_of_mem hc)).2⟩

/-- A key is judged as it should be exactly when nothing in it is outside of Unicode, or something
else is wrong with it. -/
theorem isValidKey_exact_iff (key : Bytes) :
    (isValidKey key = true ↔ PlainRules key ∧ UnicodeText key) ↔
      Utf8.beyondUnicode key = false ∨ ¬PlainRules key ∨ ¬LooseText key := by
  rw [isValidKey_iff, unicodeText_iff]
  tauto

/-- The key `ED A0 80`, a surrogate, is accepted. -/
theorem isValidKey_surrogate :
    ¬∀ key : Bytes, isValidKey key = true ↔ PlainRules key ∧ UnicodeText key := by
  intro h
  have htext := ((h [0xed, 0xa0, 0x80]).mp (by decide +kernel)).2
  have hbeyond := (unicodeText_iff.mp htext).2
  revert hbeyond
  decide

/-- A text of one, two, three and four bytes a character. -/
example : isValidKey "a/é€😀".toUTF8.toList = true := by decide +kernel

end Nplex
