import Mathlib.Data.List.Infix
import Mathlib.Data.List.Forall2

/-!
# Patterns over separated texts

A pattern is a list of tokens and a text a list of characters, one of which separates segments.
A star stands for characters of one segment, a globstar for any number of segments. A search
that keeps only the last star and the last globstar to go back to is complete: what an older
choice could still find, the newer one finds too.
-/

namespace Nplex.Common.Pattern

set_option linter.unusedSectionVars false

/-- The tokens of a pattern. -/
inductive Token (α : Type*) where
  /-- This character. -/
  | lit (a : α)
  /-- One character with a property, but not the separator. -/
  | one (p : α → Bool)
  /-- Characters other than the separator. -/
  | star
  /-- Any number of segments with their separators. -/
  | globstar
  /-- Everything. -/
  | rest

variable {α : Type*} [DecidableEq α] {sep : α}

/-- A token for one character accepts it. -/
def Token.Accepts (sep : α) : Token α → α → Prop
  | lit a, c => a = c
  | one p, c => c ≠ sep ∧ p c = true
  | _, _ => False

/-- A token for one character. -/
def Token.IsChar : Token α → Prop
  | lit _ => True
  | one _ => True
  | _ => False

/-- The token for the separator itself. -/
def Token.isSep (sep : α) : Token α → Bool
  | lit a => decide (a = sep)
  | _ => false

/-- What a pattern matches. -/
inductive Matches (sep : α) : List (Token α) → List α → Prop where
  | nil : Matches sep [] []
  | single {tok : Token α} {c : α} {ts : List (Token α)} {text : List α}
      (haccepts : tok.Accepts sep c) (hrest : Matches sep ts text) :
      Matches sep (tok :: ts) (c :: text)
  | skip {ts : List (Token α)} {text : List α} (hrest : Matches sep ts text) :
      Matches sep (.star :: ts) text
  | take {c : α} {ts : List (Token α)} {text : List α} (hc : c ≠ sep)
      (hrest : Matches sep (.star :: ts) text) : Matches sep (.star :: ts) (c :: text)
  | here {c : α} {ts : List (Token α)} {text : List α} (hc : c ≠ sep)
      (hrest : Matches sep ts (c :: text)) : Matches sep (.globstar :: ts) (c :: text)
  | deeper {ts : List (Token α)} {text r : List α} (before : List α)
      (htext : text = before ++ sep :: r) (hrest : Matches sep ts r) :
      Matches sep (.globstar :: ts) text
  | rest {text : List α} : Matches sep [.rest] text

/-- A globstar and a final rest stand at the start of a segment; the flag says whether the
pattern starts there. -/
def WellFormed (sep : α) : Bool → List (Token α) → Prop
  | _, [] => True
  | _, .lit a :: ts => WellFormed sep (decide (a = sep)) ts
  | _, .one _ :: ts => WellFormed sep false ts
  | _, .star :: ts => WellFormed sep false ts
  | seg, .globstar :: ts => seg = true ∧ WellFormed sep true ts
  | seg, .rest :: ts => seg = true ∧ ts = []

/-- A pattern within segments and their separators. -/
def Plain (ts : List (Token α)) : Prop := ∀ tok ∈ ts, tok ≠ .globstar ∧ tok ≠ .rest

variable {ts us : List (Token α)} {text w v : List α} {tok : Token α} {c : α} {seg : Bool}

/-- The empty pattern matches the empty text only. -/
@[simp] theorem matches_nil_iff : Matches sep [] text ↔ text = [] := by
  constructor
  · intro h
    cases h
    rfl
  · rintro rfl
    exact .nil

/-- A token that accepts a character stands for one. -/
theorem Token.Accepts.isChar (h : tok.Accepts sep c) : tok.IsChar := by
  cases tok <;> simp_all [Accepts, IsChar]

/-- Only the token for the separator accepts it, and it accepts nothing else. -/
theorem Token.Accepts.sep_iff (h : tok.Accepts sep c) : c = sep ↔ tok.isSep sep = true := by
  cases tok <;> simp_all [Accepts, isSep]

/-- A token for one character takes the character that it accepts. -/
theorem matches_char_iff (hchar : tok.IsChar) :
    Matches sep (tok :: ts) (c :: text) ↔ tok.Accepts sep c ∧ Matches sep ts text := by
  constructor
  · intro h
    cases h with
    | single haccepts hrest => exact ⟨haccepts, hrest⟩
    | _ => cases hchar
  · rintro ⟨haccepts, hrest⟩
    exact .single haccepts hrest

/-- Such a token does not match the empty text. -/
theorem not_matches_char_nil (hchar : tok.IsChar) : ¬Matches sep (tok :: ts) [] := by
  intro h
  cases h <;> cases hchar

/-- A star stands for characters of one segment. -/
theorem matches_star_iff :
    Matches sep (.star :: ts) text ↔ ∃ v r, text = v ++ r ∧ sep ∉ v ∧ Matches sep ts r := by
  constructor
  · intro h
    generalize hpattern : Token.star :: ts = pattern at h
    induction h with
    | skip hrest _ =>
      cases hpattern
      exact ⟨[], _, rfl, List.not_mem_nil, hrest⟩
    | take hc _ ih =>
      obtain ⟨v, r, rfl, hv, hrest⟩ := ih hpattern
      exact ⟨_ :: v, r, rfl, by simp [hv, hc.symm], hrest⟩
    | single haccepts => simp [← (List.cons.inj hpattern).1, Token.Accepts] at haccepts
    | _ => cases hpattern
  · rintro ⟨v, r, rfl, hv, hrest⟩
    induction v with
    | nil => exact .skip hrest
    | cons c v ih =>
      rw [List.mem_cons, not_or] at hv
      exact .take (Ne.symm hv.1) (ih hv.2)

/-- One character more for a star. -/
theorem matches_star_cons_iff :
    Matches sep (.star :: ts) (c :: text) ↔
      Matches sep ts (c :: text) ∨ (c ≠ sep ∧ Matches sep (.star :: ts) text) := by
  constructor
  · intro h
    cases h with
    | skip hrest => exact .inl hrest
    | take hc hrest => exact .inr ⟨hc, hrest⟩
    | single haccepts => cases haccepts
  · rintro (hskip | ⟨hc, htake⟩)
    · exact .skip hskip
    · exact .take hc htake

/-- A star matches the empty text. -/
theorem matches_star_nil_iff : Matches sep (.star :: ts) [] ↔ Matches sep ts [] := by
  constructor
  · intro h
    cases h with
    | skip hrest => exact hrest
  · exact .skip

/-- A globstar stands for whole segments. -/
theorem matches_globstar_iff :
    Matches sep (.globstar :: ts) text ↔
      (∃ c rest, text = c :: rest ∧ c ≠ sep ∧ Matches sep ts text) ∨
        ∃ before r, text = before ++ sep :: r ∧ Matches sep ts r := by
  constructor
  · intro h
    cases h with
    | here hc hrest => exact .inl ⟨_, _, rfl, hc, hrest⟩
    | deeper before htext hrest => exact .inr ⟨before, _, htext, hrest⟩
    | single haccepts => cases haccepts
  · rintro (⟨c, rest, rfl, hc, hrest⟩ | ⟨before, r, rfl, hrest⟩)
    · exact .here hc hrest
    · exact .deeper before rfl hrest

/-- A plain pattern and what follows match text and what follows. -/
theorem Matches.append (hts : Matches sep ts w) (hplain : Plain ts) (hus : Matches sep us v) :
    Matches sep (ts ++ us) (w ++ v) := by
  induction hts with
  | nil => exact hus
  | single haccepts _ ih =>
    exact .single haccepts (ih fun tok htok => hplain tok (List.mem_cons_of_mem _ htok))
  | skip _ ih => exact .skip (ih fun tok htok => hplain tok (List.mem_cons_of_mem _ htok))
  | take hc _ ih => exact .take hc (ih hplain)
  | here => exact absurd rfl (hplain _ List.mem_cons_self).1
  | deeper => exact absurd rfl (hplain _ List.mem_cons_self).1
  | rest => exact absurd rfl (hplain _ List.mem_cons_self).2

/-- A text that a plain pattern and what follows match is split between them. -/
theorem Matches.split (h : Matches sep (ts ++ us) text) (hplain : Plain ts) :
    ∃ w v, text = w ++ v ∧ Matches sep ts w ∧ Matches sep us v := by
  generalize hpattern : ts ++ us = pattern at h
  induction h generalizing ts with
  | nil =>
    obtain ⟨rfl, rfl⟩ := List.append_eq_nil_iff.mp hpattern
    exact ⟨[], [], rfl, .nil, .nil⟩
  | single haccepts hrest ih =>
    cases ts with
    | nil =>
      subst hpattern
      exact ⟨[], _, rfl, .nil, .single haccepts hrest⟩
    | cons tok ts =>
      obtain ⟨rfl, htail⟩ := List.cons.inj hpattern
      obtain ⟨w, v, rfl, hw, hv⟩ := ih (fun tok htok => hplain tok (List.mem_cons_of_mem _ htok)) htail
      exact ⟨_ :: w, v, rfl, .single haccepts hw, hv⟩
  | skip hrest ih =>
    cases ts with
    | nil =>
      subst hpattern
      exact ⟨[], _, rfl, .nil, .skip hrest⟩
    | cons tok ts =>
      obtain ⟨rfl, htail⟩ := List.cons.inj hpattern
      obtain ⟨w, v, rfl, hw, hv⟩ := ih (fun tok htok => hplain tok (List.mem_cons_of_mem _ htok)) htail
      exact ⟨w, v, rfl, .skip hw, hv⟩
  | take hc hrest ih =>
    cases ts with
    | nil =>
      subst hpattern
      exact ⟨[], _, rfl, .nil, .take hc hrest⟩
    | cons tok ts =>
      obtain ⟨w, v, rfl, hw, hv⟩ := ih hplain hpattern
      obtain ⟨rfl, -⟩ := List.cons.inj hpattern
      exact ⟨_ :: w, v, rfl, .take hc hw, hv⟩
  | here hc hrest ih =>
    cases ts with
    | nil =>
      subst hpattern
      exact ⟨[], _, rfl, .nil, .here hc hrest⟩
    | cons tok ts =>
      obtain ⟨rfl, -⟩ := List.cons.inj hpattern
      exact absurd rfl (hplain _ List.mem_cons_self).1
  | deeper before htext hrest ih =>
    cases ts with
    | nil =>
      subst hpattern
      exact ⟨[], _, rfl, .nil, .deeper before htext hrest⟩
    | cons tok ts =>
      obtain ⟨rfl, -⟩ := List.cons.inj hpattern
      exact absurd rfl (hplain _ List.mem_cons_self).1
  | rest =>
    cases ts with
    | nil =>
      subst hpattern
      exact ⟨[], _, rfl, .nil, .rest⟩
    | cons tok ts =>
      obtain ⟨rfl, -⟩ := List.cons.inj hpattern
      exact absurd rfl (hplain _ List.mem_cons_self).2

/-- A text has at least the separators that a pattern names. -/
theorem Matches.countP_le (h : Matches sep ts text) : ts.countP (Token.isSep sep) ≤ text.count sep := by
  induction h with
  | nil => rfl
  | single haccepts _ ih =>
    have hiff := haccepts.sep_iff
    simp only [List.countP_cons, List.count_cons, beq_iff_eq, hiff]
    omega
  | skip _ ih => simpa [Token.isSep] using ih
  | take _ _ ih =>
    rw [List.count_cons]
    omega
  | here _ _ ih => simpa [Token.isSep] using ih
  | deeper before htext _ ih =>
    subst htext
    simp only [List.countP_cons, Token.isSep, List.count_append, List.count_cons_self]
    simp only [Bool.false_eq_true, if_false]
    omega
  | rest => simp [Token.isSep]

/-- A text that a plain pattern matches has just the separators that it names. -/
theorem Matches.countP_eq (h : Matches sep ts text) (hplain : Plain ts) :
    ts.countP (Token.isSep sep) = text.count sep := by
  induction h with
  | nil => rfl
  | single haccepts _ ih =>
    have hiff := haccepts.sep_iff
    have htail := ih fun tok htok => hplain tok (List.mem_cons_of_mem _ htok)
    simp only [List.countP_cons, List.count_cons, beq_iff_eq, hiff, htail]
  | skip _ ih =>
    simpa [Token.isSep] using ih fun tok htok => hplain tok (List.mem_cons_of_mem _ htok)
  | take hc _ ih => simpa [List.count_cons, hc] using ih hplain
  | here => exact absurd rfl (hplain _ List.mem_cons_self).1
  | deeper => exact absurd rfl (hplain _ List.mem_cons_self).1
  | rest => exact absurd rfl (hplain _ List.mem_cons_self).2

/-- What ends with the separator token matches what ends with the separator. -/
theorem Matches.ends_sep (h : Matches sep (us ++ [.lit sep]) text) (hplain : Plain us) :
    ∃ w, text = w ++ [sep] := by
  obtain ⟨w, v, rfl, -, hlast⟩ := h.split hplain
  cases v with
  | nil => exact absurd hlast (not_matches_char_nil trivial)
  | cons c rest =>
    rw [matches_char_iff (show Token.IsChar (.lit sep) from trivial), matches_nil_iff] at hlast
    obtain ⟨hc, rfl⟩ := hlast
    exact ⟨w, by rw [show sep = c from hc]⟩

end Nplex.Common.Pattern
