import Nplex.Common.Pattern

/-!
# Searching with two saved positions

A search walks a text and a pattern together. At a star and at a globstar it saves both
positions, in place of the last ones, to go back to after a mismatch. The search can still
succeed from where it is, from a longer choice for the last star, or from a later start after the
last globstar. No step changes whether it can, so forgetting older choices loses nothing.
-/

namespace Nplex.Common.Pattern

set_option linter.unusedSectionVars false

variable {α : Type*} [DecidableEq α] {sep : α}

/-- The text and the pattern that are left, and those saved at the last star and globstar. -/
structure Search (α : Type*) where
  text : List α
  ts : List (Token α)
  star : Option (List α × List (Token α))
  globstar : Option (List α × List (Token α))

namespace Search

/-- The last star may take one more character. -/
def StarAlive (sep : α) (s : Search α) (c : α) (text : List α) (ts : List (Token α)) : Prop :=
  s.star = some (c :: text, ts) ∧ c ≠ sep

/-- The last star succeeds with more characters. -/
def ByStar (sep : α) (s : Search α) : Prop :=
  ∃ c text ts, s.StarAlive sep c text ts ∧ Matches sep (.star :: ts) text

/-- The last globstar succeeds with more segments. -/
def ByGlobstar (sep : α) (s : Search α) : Prop :=
  ∃ c before r ts, s.globstar = some (c :: (before ++ sep :: r), ts) ∧ Matches sep ts r

/-- The search can still succeed. -/
def Solvable (sep : α) (s : Search α) : Prop :=
  Matches sep s.ts s.text ∨ s.ByStar sep ∨ s.ByGlobstar sep

/-- The way from the last star to here, over tokens for one character each. -/
def StarLink (sep : α) (s : Search α) : Prop :=
  ∀ c text ts, s.StarAlive sep c text ts →
    ∃ us w, ts = us ++ s.ts ∧ c :: text = w ++ s.text ∧ List.Forall₂ (Token.Accepts sep) us w

/-- The way from the last globstar to here, through the last star. -/
def GlobstarLink (sep : α) (s : Search α) (text : List α) (ts : List (Token α)) : Prop :=
  (s.ts = .lit sep :: ts ∧ s.text = text ∧ ∀ c text' ts', ¬s.StarAlive sep c text' ts') ∨
  ∃ start, (∀ c before r, text = c :: (before ++ sep :: r) → ∃ before', start = before' ++ sep :: r) ∧
    (∃ us w, ts = us ++ s.ts ∧ start = w ++ s.text ∧ Plain us ∧ Matches sep us w) ∧
    ∀ c text' ts', s.StarAlive sep c text' ts' → ∃ us w, ts = us ++ .star :: ts' ∧
      start = w ++ c :: text' ∧ Plain us ∧ Matches sep (us ++ [.star]) w

/-- What a search keeps. -/
structure Linked (sep : α) (s : Search α) : Prop where
  wellFormed : ∃ seg, WellFormed sep seg s.ts
  star : s.StarLink sep
  starWellFormed : ∀ text ts, s.star = some (text, ts) → WellFormed sep false ts
  globstar : ∀ text ts, s.globstar = some (text, ts) → s.GlobstarLink sep text ts
  globstarWellFormed : ∀ text ts, s.globstar = some (text, ts) → WellFormed sep true ts

/-- Take a character. -/
def advance (s : Search α) (text : List α) (ts : List (Token α)) : Search α := { s with text, ts }

/-- Start a star without characters. -/
def saveStar (s : Search α) (ts : List (Token α)) : Search α :=
  { s with ts, star := some (s.text, ts) }

/-- Start a globstar without segments, or at a separator. -/
def saveGlobstar (sep : α) (c : α) (text : List α) (ts : List (Token α)) : Search α :=
  ⟨c :: text, if c ≠ sep then ts else .lit sep :: ts, none, some (c :: text, ts)⟩

/-- Let the last star take one more character. -/
def backStar (s : Search α) (text : List α) (ts : List (Token α)) : Search α :=
  { s with text, ts, star := some (text, ts) }

/-- Look for the next separator from the last globstar on. -/
def backGlobstar (sep : α) (s : Search α) (text : List α) (ts : List (Token α)) : Search α :=
  { s with text, ts := .lit sep :: ts, globstar := some (text, ts) }

end Search

variable {ts us : List (Token α)} {text w v : List α} {tok : Token α} {c : α} {s : Search α}

/-- Tokens for one character each match the characters that they accept. -/
theorem matches_of_forall₂ (h : List.Forall₂ (Token.Accepts sep) us w) :
    Plain us ∧ Matches sep us w := by
  induction h with
  | nil => exact ⟨fun _ htok => absurd htok List.not_mem_nil, .nil⟩
  | cons haccepts _ ih =>
    refine ⟨fun tok htok => ?_, .single haccepts ih.2⟩
    rcases List.mem_cons.mp htok with rfl | htok
    · have hchar := haccepts.isChar
      cases tok <;> simp_all [Token.IsChar]
    · exact ih.1 tok htok

/-- What such tokens match has their number of characters. -/
theorem length_of_matches (h : List.Forall₂ (Token.Accepts sep) us w) (hv : Matches sep us v) :
    v.length = w.length := by
  induction h generalizing v with
  | nil =>
    rw [matches_nil_iff] at hv
    rw [hv]
  | cons haccepts _ ih =>
    cases v with
    | nil => exact absurd hv (not_matches_char_nil haccepts.isChar)
    | cons c v =>
      rw [matches_char_iff haccepts.isChar] at hv
      rw [List.length_cons, List.length_cons, ih hv.2]

/-- A star takes one more character. -/
theorem Matches.extend (h : Matches sep (us ++ [.star]) w) (hplain : Plain us) (hc : c ≠ sep) :
    Matches sep (us ++ [.star]) (w ++ [c]) := by
  obtain ⟨w₁, w₂, rfl, hus, hstar⟩ := h.split hplain
  obtain ⟨v, r, rfl, hv, hr⟩ := matches_star_iff.mp hstar
  rw [matches_nil_iff] at hr
  subst hr
  rw [List.append_nil, List.append_assoc]
  refine hus.append hplain (matches_star_iff.mpr ⟨v ++ [c], [], by simp, ?_, .nil⟩)
  simp [hv, hc.symm]

/-- In a well-formed pattern a globstar has the start or a separator before it. -/
theorem WellFormed.before {seg : Bool} (h : WellFormed sep seg (us ++ .globstar :: ts))
    (hplain : Plain us) : (us = [] ∧ seg = true) ∨ ∃ us', us = us' ++ [.lit sep] := by
  induction us generalizing seg with
  | nil => exact .inl ⟨rfl, h.1⟩
  | cons tok us ih =>
    have htail : Plain us := fun tok htok => hplain tok (List.mem_cons_of_mem _ htok)
    have hlast : ∀ seg', WellFormed sep seg' (us ++ .globstar :: ts) → (seg' = true → tok = .lit sep) →
        ∃ us', tok :: us = us' ++ [.lit sep] := by
      intro seg' hrest hseg
      rcases ih hrest htail with ⟨rfl, htrue⟩ | ⟨us', rfl⟩
      · exact ⟨[], by rw [hseg htrue]; rfl⟩
      · exact ⟨tok :: us', rfl⟩
    cases tok with
    | lit a => exact .inr (hlast _ h (by simp))
    | one p => exact .inr (hlast _ h (by simp))
    | star => exact .inr (hlast _ h (by simp))
    | globstar => exact absurd rfl (hplain _ List.mem_cons_self).1
    | rest => exact absurd rfl (hplain _ List.mem_cons_self).2

/-- What a longer choice for the last star leaves for the rest of the pattern is left by a few
characters more of the same segment from here. -/
theorem star_shift {text' : List α} (hus : List.Forall₂ (Token.Accepts sep) us w)
    (htext : c :: text' = w ++ text) (hc : c ≠ sep) (h : Matches sep (.star :: (us ++ ts)) text') :
    ∃ u r w', text = u ++ r ∧ sep ∉ u ∧ u ≠ [] ∧ Matches sep ts r ∧ Matches sep us w' ∧
      ∃ v, v ++ w' = w ++ u := by
  obtain ⟨v, r₁, rfl, hv, hr⟩ := matches_star_iff.mp h
  obtain ⟨hplain, hmatches⟩ := matches_of_forall₂ hus
  obtain ⟨w', r, rfl, hw', hrest⟩ := hr.split hplain
  have hlength := length_of_matches hus hw'
  have hwhole : w ++ text = (c :: v ++ w') ++ r := by
    rw [← htext]
    simp
  rcases List.append_eq_append_iff.mp hwhole with ⟨u, hu, htext'⟩ | ⟨u, hu, -⟩
  · refine ⟨u, r, w', htext', ?_, ?_, hrest, hw', c :: v, hu⟩
    · have hcount := congrArg (List.count sep) hu
      rw [List.count_append, List.count_append, List.count_cons_of_ne hc, ← hw'.countP_eq hplain,
        ← hmatches.countP_eq hplain, List.count_eq_zero.mpr hv] at hcount
      exact List.count_eq_zero.mp (by omega)
    · rintro rfl
      have hlengths := congrArg List.length hu
      simp only [List.length_append, List.length_cons, List.length_nil] at hlengths
      omega
  · have hlengths := congrArg List.length hu
    simp only [List.length_append, List.length_cons] at hlengths
    omega

namespace Search

variable {ts' : List (Token α)} {text' : List α}

/-- Without a living star, a search succeeds from where it is or from its globstar. -/
theorem solvable_iff_of_not_alive (hdead : ∀ c text ts, ¬s.StarAlive sep c text ts) :
    s.Solvable sep ↔ Matches sep s.ts s.text ∨ s.ByGlobstar sep := by
  have hstar : ¬s.ByStar sep := fun ⟨c, text, ts, halive, _⟩ => hdead c text ts halive
  simp [Solvable, hstar]

/-- Taking a character leaves the choices as they are. -/
theorem solvable_advance (hts : s.ts = tok :: ts) (htext : s.text = c :: text)
    (haccepts : tok.Accepts sep c) : (s.advance text ts).Solvable sep ↔ s.Solvable sep := by
  unfold Solvable
  rw [hts, htext, matches_char_iff haccepts.isChar]
  simp only [haccepts, true_and]
  exact Iff.rfl

/-- A search stays linked as a character is accepted. -/
theorem Linked.advance {seg : Bool} (h : s.Linked sep) (hts : s.ts = tok :: ts)
    (htext : s.text = c :: text) (haccepts : tok.Accepts sep c) (hwf : WellFormed sep seg ts) :
    (s.advance text ts).Linked sep := by
  refine ⟨⟨seg, hwf⟩, fun c' text' ts' halive => ?_, h.starWellFormed, fun text' ts' hglobstar => ?_,
    h.globstarWellFormed⟩
  · obtain ⟨us, w, rfl, hw, hus⟩ := h.star c' text' ts' halive
    refine ⟨us ++ [tok], w ++ [c], by simp [Search.advance, hts], by simp [Search.advance, hw, htext],
      ?_⟩
    exact List.rel_append hus (.cons haccepts .nil)
  · rcases h.globstar text' ts' hglobstar with ⟨hlit, hstart, hdead⟩ | ⟨start, hstart, hway, hstar⟩
    · -- the separator that the search was looking for
      rw [hts, List.cons.injEq] at hlit
      obtain ⟨rfl, rfl⟩ := hlit
      have hsep : sep = c := haccepts
      refine .inr ⟨text, fun c' before r hafter => ⟨before, ?_⟩, ⟨[], [], rfl, rfl, ?_, .nil⟩,
        fun c' text'' ts'' halive => absurd halive (hdead c' text'' ts'')⟩
      · rw [← hstart, htext] at hafter
        exact (List.cons.inj hafter).2
      · exact fun _ htok => absurd htok List.not_mem_nil
    · obtain ⟨us, w, hus, hw, hplain, hmatches⟩ := hway
      refine .inr ⟨start, hstart, ⟨us ++ [tok], w ++ [c], by simp [hus, hts, Search.advance],
        by simp [hw, htext, Search.advance], ?_, ?_⟩, hstar⟩
      · intro tok' htok'
        rcases List.mem_append.mp htok' with hin | hlast
        · exact hplain tok' hin
        · rw [List.mem_singleton.mp hlast]
          have hchar := haccepts.isChar
          cases tok <;> simp_all [Token.IsChar]
      · exact hmatches.append hplain (.single haccepts .nil)

/-- A new star: the older one finds nothing that it does not. -/
theorem Linked.solvable_saveStar (h : s.Linked sep) (hts : s.ts = .star :: ts)
    (htext : s.text = c :: text) : (s.saveStar ts).Solvable sep ↔ s.Solvable sep := by
  have hbyStar : (s.saveStar ts).ByStar sep ↔ c ≠ sep ∧ Matches sep (.star :: ts) text := by
    constructor
    · rintro ⟨c', text', ts', ⟨hstar, hc'⟩, hmatches⟩
      simp only [saveStar, htext, Option.some.injEq, Prod.mk.injEq, List.cons.injEq] at hstar
      obtain ⟨⟨rfl, rfl⟩, rfl⟩ := hstar
      exact ⟨hc', hmatches⟩
    · rintro ⟨hc, hmatches⟩
      exact ⟨c, text, ts, ⟨by simp [saveStar, htext], hc⟩, hmatches⟩
  have holder : s.ByStar sep → Matches sep (.star :: ts) (c :: text) := by
    rintro ⟨c', text', ts', halive, hmatches⟩
    obtain ⟨us, w, rfl, hw, hus⟩ := h.star c' text' ts' halive
    rw [hts] at hmatches
    rw [htext] at hw
    obtain ⟨u, r, w', hu, hsep, -, hrest, -⟩ := star_shift hus hw halive.2 hmatches
    obtain ⟨v, r', rfl, hv, hr'⟩ := matches_star_iff.mp hrest
    exact matches_star_iff.mpr ⟨u ++ v, r', by rw [hu, List.append_assoc], by simp [hsep, hv], hr'⟩
  rw [matches_star_cons_iff] at holder
  have hglobstar : (s.saveStar ts).ByGlobstar sep ↔ s.ByGlobstar sep := Iff.rfl
  rw [Solvable, Solvable, hbyStar, hglobstar, hts, htext, matches_star_cons_iff]
  rw [show (s.saveStar ts).ts = ts from rfl, show (s.saveStar ts).text = c :: text from htext]
  constructor
  · rintro (hskip | htake | hglobstar)
    · exact .inl (.inl hskip)
    · exact .inl (.inr htake)
    · exact .inr (.inr hglobstar)
  · rintro ((hskip | htake) | hstar | hglobstar)
    · exact .inl hskip
    · exact .inr (.inl htake)
    · rcases holder hstar with hskip | htake
      · exact .inl hskip
      · exact .inr (.inl htake)
    · exact .inr (.inr hglobstar)

/-- It stays linked as a star is saved. -/
theorem Linked.saveStar (h : s.Linked sep) (hts : s.ts = .star :: ts) :
    (s.saveStar ts).Linked sep := by
  obtain ⟨seg, hwf⟩ := h.wellFormed
  rw [hts] at hwf
  refine ⟨⟨false, hwf⟩, fun c' text' ts' halive => ?_, fun text' ts' hstar => ?_,
    fun text' ts' hglobstar => ?_, h.globstarWellFormed⟩
  · obtain ⟨htext, rfl⟩ := Prod.mk.inj (Option.some.inj halive.1)
    exact ⟨[], [], rfl, htext.symm, .nil⟩
  · obtain ⟨-, rfl⟩ := Prod.mk.inj (Option.some.inj hstar)
    exact hwf
  · rcases h.globstar text' ts' hglobstar with ⟨hlit, -⟩ | ⟨start, hstart, hway, -⟩
    · rw [hts] at hlit
      cases hlit
    · obtain ⟨us, w, hus, hw, hplain, hmatches⟩ := hway
      have hempty : Matches sep (us ++ [.star]) w := by
        have happend := hmatches.append hplain (.skip .nil)
        rwa [List.append_nil] at happend
      refine .inr ⟨start, hstart, ⟨us ++ [.star], w, by simp [hus, hts, Search.saveStar], hw, ?_,
        hempty⟩, fun c' text'' ts'' halive => ?_⟩
      · intro tok htok
        rcases List.mem_append.mp htok with hin | hlast
        · exact hplain tok hin
        · rw [List.mem_singleton.mp hlast]
          exact ⟨by simp, by simp⟩
      · obtain ⟨htext, rfl⟩ := Prod.mk.inj (Option.some.inj halive.1)
        exact ⟨us, w, by rw [hus, hts], by rw [hw, htext], hplain, hempty⟩

/-- After a new globstar the search can succeed just where the globstar can. -/
theorem solvable_saveGlobstar_iff : (saveGlobstar sep c text ts).Solvable sep ↔
    Matches sep (.globstar :: ts) (c :: text) := by
  rw [solvable_iff_of_not_alive (by simp [StarAlive, saveGlobstar]), matches_globstar_iff]
  have hlater : (saveGlobstar sep c text ts).ByGlobstar sep ↔
      ∃ before r, text = before ++ sep :: r ∧ Matches sep ts r := by
    constructor
    · rintro ⟨c', before, r, ts', hglobstar, hmatches⟩
      simp only [saveGlobstar, Option.some.injEq, Prod.mk.injEq, List.cons.injEq] at hglobstar
      obtain ⟨⟨-, rfl⟩, rfl⟩ := hglobstar
      exact ⟨before, r, rfl, hmatches⟩
    · rintro ⟨before, r, rfl, hmatches⟩
      exact ⟨c, before, r, ts, rfl, hmatches⟩
  rw [hlater]
  by_cases hc : c = sep
  · have hhere : Matches sep (saveGlobstar sep c text ts).ts (saveGlobstar sep c text ts).text ↔
        Matches sep ts text := by
      simp only [saveGlobstar, hc, ne_eq, not_true_eq_false, if_false]
      rw [matches_char_iff (show Token.IsChar (.lit sep) from trivial)]
      exact and_iff_right rfl
    rw [hhere]
    constructor
    · rintro (hmatches | ⟨before, r, rfl, hmatches⟩)
      · exact .inr ⟨[], text, by rw [hc]; rfl, hmatches⟩
      · exact .inr ⟨c :: before, r, rfl, hmatches⟩
    · rintro (⟨c', rest, hcons, hc', -⟩ | ⟨before, r, hcons, hmatches⟩)
      · exact absurd ((List.cons.inj hcons).1.symm.trans hc) hc'
      · cases before with
        | nil =>
          obtain ⟨-, rfl⟩ := List.cons.inj hcons
          exact .inl hmatches
        | cons c' before =>
          obtain ⟨-, rfl⟩ := List.cons.inj hcons
          exact .inr ⟨before, r, rfl, hmatches⟩
  · have hhere : Matches sep (saveGlobstar sep c text ts).ts (saveGlobstar sep c text ts).text ↔
        Matches sep ts (c :: text) := by
      simp only [saveGlobstar, ne_eq, hc, not_false_eq_true, if_true]
    rw [hhere]
    constructor
    · rintro (hmatches | ⟨before, r, rfl, hmatches⟩)
      · exact .inl ⟨c, text, rfl, hc, hmatches⟩
      · exact .inr ⟨c :: before, r, rfl, hmatches⟩
    · rintro (⟨c', rest, hcons, -, hmatches⟩ | ⟨before, r, hcons, hmatches⟩)
      · exact .inl hmatches
      · cases before with
        | nil => exact absurd (List.cons.inj hcons).1 hc
        | cons c' before =>
          obtain ⟨-, rfl⟩ := List.cons.inj hcons
          exact .inr ⟨before, r, rfl, hmatches⟩

/-- A star before a globstar ends at the separator in front of it, whatever it takes. -/
theorem Linked.not_byStar (h : s.Linked sep) (hts : s.ts = .globstar :: ts) : ¬s.ByStar sep := by
  intro hstar
  obtain ⟨c', text', ts', halive, hmatches⟩ := hstar
  obtain ⟨us, w, rfl, hw, hus⟩ := h.star c' text' ts' halive
  rw [hts] at hmatches
  obtain ⟨hplain, -⟩ := matches_of_forall₂ hus
  have hwf := h.starWellFormed _ _ halive.1
  rw [hts] at hwf
  obtain ⟨u, r, w', -, hsep, hne, -, hw', v, hv⟩ := star_shift hus hw halive.2 hmatches
  rcases hwf.before hplain with ⟨-, hfalse⟩ | ⟨us', rfl⟩
  · cases hfalse
  · obtain ⟨w₁, rfl⟩ := hw'.ends_sep fun tok htok => hplain tok (List.mem_append_left _ htok)
    obtain ⟨u', last, rfl⟩ := List.eq_nil_or_concat u |>.resolve_left hne
    rw [List.concat_eq_append, ← List.append_assoc, ← List.append_assoc] at hv
    obtain ⟨-, hends⟩ := List.append_inj' hv rfl
    rw [List.concat_eq_append, ← (List.cons.inj hends).1] at hsep
    simp at hsep

/-- What an older globstar finds, one that starts here finds. -/
theorem Linked.matches_of_byGlobstar (h : s.Linked sep) (hts : s.ts = .globstar :: ts)
    (htext : s.text = c :: text) (hglobstar : s.ByGlobstar sep) :
    Matches sep (.globstar :: ts) (c :: text) := by
  obtain ⟨c', before, r, ts', hglobstar, hmatches⟩ := hglobstar
  rcases h.globstar _ _ hglobstar with ⟨hlit, -⟩ | ⟨start, hstart, hway, -⟩
  · rw [hts] at hlit
    cases hlit
  · obtain ⟨us, w, rfl, hw, hplain, hus⟩ := hway
    obtain ⟨before', rfl⟩ := hstart c' before r rfl
    rw [hts] at hmatches
    rw [htext] at hw
    obtain ⟨w', r', rfl, hw', hrest⟩ := hmatches.split hplain
    have hwf := h.globstarWellFormed _ _ hglobstar
    rw [hts] at hwf
    -- the separator before the later start, or the last one of the way from there
    obtain ⟨p, hp⟩ : ∃ p, before' ++ sep :: w' = p ++ [sep] := by
      rcases hwf.before hplain with ⟨rfl, -⟩ | ⟨us', rfl⟩
      · rw [matches_nil_iff] at hw'
        exact ⟨before', by rw [hw']⟩
      · obtain ⟨w₁, rfl⟩ := hw'.ends_sep fun tok htok => hplain tok (List.mem_append_left _ htok)
        exact ⟨before' ++ sep :: w₁, by simp⟩
    have hwhole : (before' ++ sep :: w') ++ r' = w ++ (c :: text) := by
      rw [← hw]
      simp
    have hcount : (before' ++ sep :: w').count sep = before'.count sep + 1 + w.count sep := by
      rw [List.count_append, List.count_cons_self, ← hw'.countP_eq hplain,
        ← hus.countP_eq hplain]
      omega
    rcases List.append_eq_append_iff.mp hwhole with ⟨u, hu, -⟩ | ⟨u, hu, hafter⟩
    · have hless := congrArg (List.count sep) hu
      rw [List.count_append, hcount] at hless
      omega
    · have hne : u ≠ [] := by
        rintro rfl
        rw [List.append_nil] at hu
        rw [hu] at hcount
        omega
      obtain ⟨u', last, rfl⟩ := List.eq_nil_or_concat u |>.resolve_left hne
      rw [List.concat_eq_append, ← List.append_assoc, hp] at hu
      obtain ⟨-, hends⟩ := List.append_inj' hu rfl
      obtain ⟨rfl, -⟩ := List.cons.inj hends
      rw [hafter, List.concat_eq_append, List.append_assoc]
      rcases matches_globstar_iff.mp hrest with ⟨-, -, -, -, hts'⟩ | ⟨before'', r'', rfl, hts'⟩
      · exact .deeper u' rfl hts'
      · exact .deeper (u' ++ sep :: before'') (by simp) hts'

/-- A new globstar: neither the last star nor the last globstar finds anything that it does not. -/
theorem Linked.solvable_saveGlobstar (h : s.Linked sep) (hts : s.ts = .globstar :: ts)
    (htext : s.text = c :: text) :
    (Search.saveGlobstar sep c text ts).Solvable sep ↔ s.Solvable sep := by
  rw [solvable_saveGlobstar_iff, Solvable, hts, htext]
  constructor
  · exact .inl
  · rintro (hmain | hstar | hglobstar)
    · exact hmain
    · exact absurd hstar (h.not_byStar hts)
    · exact h.matches_of_byGlobstar hts htext hglobstar

/-- It stays linked as a globstar is saved. -/
theorem Linked.saveGlobstar (h : s.Linked sep) (hts : s.ts = .globstar :: ts) :
    (Search.saveGlobstar sep c text ts).Linked sep := by
  obtain ⟨seg, hwf⟩ := h.wellFormed
  rw [hts] at hwf
  have hdead : ∀ c' text' ts', ¬(Search.saveGlobstar sep c text ts).StarAlive sep c' text' ts' := by
    simp [StarAlive, Search.saveGlobstar]
  refine ⟨⟨true, ?_⟩, fun c' text' ts' halive => absurd halive (hdead c' text' ts'),
    fun text' ts' hstar => by simp [Search.saveGlobstar] at hstar, fun text' ts' hglobstar => ?_,
    fun text' ts' hglobstar => ?_⟩
  · unfold Search.saveGlobstar
    dsimp only
    split
    · exact hwf.2
    · simpa [WellFormed] using hwf.2
  · simp only [Search.saveGlobstar, Option.some.injEq, Prod.mk.injEq] at hglobstar
    obtain ⟨rfl, rfl⟩ := hglobstar
    by_cases hc : c = sep
    · refine .inl ⟨?_, rfl, hdead⟩
      simp [Search.saveGlobstar, hc]
    · refine .inr ⟨c :: text, fun c' before r hafter => ⟨c' :: before, hafter⟩,
        ⟨[], [], ?_, rfl, fun _ htok => absurd htok List.not_mem_nil, .nil⟩,
        fun c' text' ts' halive => absurd halive (hdead c' text' ts')⟩
      simp [Search.saveGlobstar, hc]
  · simp only [Search.saveGlobstar, Option.some.injEq, Prod.mk.injEq] at hglobstar
    rw [← hglobstar.2]
    exact hwf.2

/-- After a mismatch the last star takes one more character. -/
theorem solvable_backStar (hmismatch : ¬Matches sep s.ts s.text) (halive : s.StarAlive sep c text ts) :
    (s.backStar text ts).Solvable sep ↔ s.Solvable sep := by
  have hbefore : s.ByStar sep ↔ Matches sep (.star :: ts) text := by
    constructor
    · rintro ⟨c', text', ts', halive', hmatches⟩
      obtain ⟨htext, rfl⟩ := Prod.mk.inj (Option.some.inj (halive.1.symm.trans halive'.1))
      obtain ⟨-, rfl⟩ := List.cons.inj htext
      exact hmatches
    · exact fun hmatches => ⟨c, text, ts, halive, hmatches⟩
  have hafter : (s.backStar text ts).ByStar sep ↔
      ∃ c' rest, text = c' :: rest ∧ c' ≠ sep ∧ Matches sep (.star :: ts) rest := by
    constructor
    · rintro ⟨c', text', ts', halive', hmatches⟩
      obtain ⟨rfl, rfl⟩ := Prod.mk.inj (Option.some.inj halive'.1)
      exact ⟨c', text', rfl, halive'.2, hmatches⟩
    · rintro ⟨c', rest, rfl, hc', hmatches⟩
      exact ⟨c', rest, ts, ⟨rfl, hc'⟩, hmatches⟩
  have hsame : Matches sep (.star :: ts) text ↔ Matches sep ts text ∨
      ∃ c' rest, text = c' :: rest ∧ c' ≠ sep ∧ Matches sep (.star :: ts) rest := by
    cases text with
    | nil => simp [matches_star_nil_iff]
    | cons c' rest =>
      rw [matches_star_cons_iff]
      constructor
      · rintro (hskip | htake)
        · exact .inl hskip
        · exact .inr ⟨c', rest, rfl, htake⟩
      · rintro (hskip | ⟨c'', rest', hcons, htake⟩)
        · exact .inl hskip
        · obtain ⟨rfl, rfl⟩ := List.cons.inj hcons
          exact .inr htake
  have hglobstar : (s.backStar text ts).ByGlobstar sep ↔ s.ByGlobstar sep := Iff.rfl
  rw [Solvable, Solvable, hbefore, hafter, hglobstar, hsame, or_iff_right hmismatch, or_assoc]
  exact Iff.rfl

/-- It stays linked as it goes back to its star. -/
theorem Linked.backStar (h : s.Linked sep) (halive : s.StarAlive sep c text ts) :
    (s.backStar text ts).Linked sep := by
  have hwf := h.starWellFormed _ _ halive.1
  refine ⟨⟨false, hwf⟩, fun c' text' ts' halive' => ?_, fun text' ts' hstar => ?_,
    fun text' ts' hglobstar => ?_, h.globstarWellFormed⟩
  · obtain ⟨htext, rfl⟩ := Prod.mk.inj (Option.some.inj halive'.1)
    exact ⟨[], [], rfl, htext.symm, .nil⟩
  · obtain ⟨-, rfl⟩ := Prod.mk.inj (Option.some.inj hstar)
    exact hwf
  · rcases h.globstar text' ts' hglobstar with ⟨-, -, hdead⟩ | ⟨start, hstart, -, hstar⟩
    · exact absurd halive (hdead c text ts)
    · obtain ⟨us, w, hus, hw, hplain, hmatches⟩ := hstar c text ts halive
      have hmore := hmatches.extend hplain halive.2
      refine .inr ⟨start, hstart, ⟨us ++ [.star], w ++ [c], by simp [hus, Search.backStar],
        by simp [hw, Search.backStar], ?_, hmore⟩, fun c' text'' ts'' halive' => ?_⟩
      · intro tok htok
        rcases List.mem_append.mp htok with hin | hlast
        · exact hplain tok hin
        · rw [List.mem_singleton.mp hlast]
          exact ⟨by simp, by simp⟩
      · obtain ⟨rfl, rfl⟩ := Prod.mk.inj (Option.some.inj halive'.1)
        exact ⟨us, w ++ [c], hus, by simp [hw], hplain, hmore⟩

/-- After a mismatch without a star to go back to the last globstar looks for the next separator. -/
theorem solvable_backGlobstar (hmismatch : ¬Matches sep s.ts s.text)
    (hdead : ∀ c text ts, ¬s.StarAlive sep c text ts) (hglobstar : s.globstar = some (c :: text, ts)) :
    (s.backGlobstar sep text ts).Solvable sep ↔ s.Solvable sep := by
  have hbefore : s.ByGlobstar sep ↔ ∃ before r, text = before ++ sep :: r ∧ Matches sep ts r := by
    constructor
    · rintro ⟨c', before, r, ts', hsaved, hmatches⟩
      obtain ⟨htext, rfl⟩ := Prod.mk.inj (Option.some.inj (hglobstar.symm.trans hsaved))
      obtain ⟨-, rfl⟩ := List.cons.inj htext
      exact ⟨before, r, rfl, hmatches⟩
    · rintro ⟨before, r, rfl, hmatches⟩
      exact ⟨c, before, r, ts, hglobstar, hmatches⟩
  have hafter : (s.backGlobstar sep text ts).ByGlobstar sep ↔
      ∃ c' before r, text = c' :: (before ++ sep :: r) ∧ Matches sep ts r := by
    constructor
    · rintro ⟨c', before, r, ts', hsaved, hmatches⟩
      obtain ⟨rfl, rfl⟩ := Prod.mk.inj (Option.some.inj hsaved)
      exact ⟨c', before, r, rfl, hmatches⟩
    · rintro ⟨c', before, r, rfl, hmatches⟩
      exact ⟨c', before, r, ts, rfl, hmatches⟩
  rw [solvable_iff_of_not_alive hdead, solvable_iff_of_not_alive (s := s.backGlobstar sep text ts) hdead,
    or_iff_right hmismatch, hbefore, hafter]
  change Matches sep (.lit sep :: ts) text ∨ _ ↔ _
  constructor
  · rintro (hmatches | ⟨c', before, r, rfl, hmatches⟩)
    · cases text with
      | nil => exact absurd hmatches (not_matches_char_nil trivial)
      | cons c' rest =>
        rw [matches_char_iff (show Token.IsChar (.lit sep) from trivial)] at hmatches
        obtain ⟨hc', hrest⟩ := hmatches
        exact ⟨[], rest, by rw [show sep = c' from hc']; rfl, hrest⟩
    · exact ⟨c' :: before, r, rfl, hmatches⟩
  · rintro ⟨before, r, rfl, hmatches⟩
    cases before with
    | nil => exact .inl (.single rfl hmatches)
    | cons c' before => exact .inr ⟨c', before, r, rfl, hmatches⟩

/-- It stays linked as it goes back to its globstar. -/
theorem Linked.backGlobstar (h : s.Linked sep) (hdead : ∀ c text ts, ¬s.StarAlive sep c text ts)
    (hglobstar : s.globstar = some (c :: text, ts)) : (s.backGlobstar sep text ts).Linked sep := by
  have hwf := h.globstarWellFormed _ _ hglobstar
  refine ⟨⟨true, ?_⟩, fun c' text' ts' halive => absurd halive (hdead c' text' ts'), h.starWellFormed,
    fun text' ts' hsaved => ?_, fun text' ts' hsaved => ?_⟩
  · simpa [Search.backGlobstar, WellFormed] using hwf
  · obtain ⟨rfl, rfl⟩ := Prod.mk.inj (Option.some.inj hsaved)
    exact .inl ⟨rfl, rfl, hdead⟩
  · obtain ⟨-, rfl⟩ := Prod.mk.inj (Option.some.inj hsaved)
    exact hwf

/-- Without a saved position to go back to a mismatch is final. -/
theorem not_solvable (hmismatch : ¬Matches sep s.ts s.text)
    (hdead : ∀ c text ts, ¬s.StarAlive sep c text ts)
    (hnone : ∀ c text ts, s.globstar ≠ some (c :: text, ts)) : ¬s.Solvable sep := by
  rw [solvable_iff_of_not_alive hdead]
  rintro (hmain | ⟨c, before, r, ts, hglobstar, -⟩)
  · exact hmismatch hmain
  · exact hnone _ _ _ hglobstar

/-- At the end of the text no other choice helps. -/
theorem Linked.solvable_end (h : s.Linked sep) (htext : s.text = []) :
    s.Solvable sep ↔ Matches sep s.ts [] := by
  rw [Solvable, htext]
  constructor
  · rintro (hmain | hstar | hglobstar)
    · exact hmain
    · -- the star would leave too few characters for the tokens matched since
      obtain ⟨c, text, ts, halive, hmatches⟩ := hstar
      obtain ⟨us, w, rfl, hw, hus⟩ := h.star c text ts halive
      rw [htext] at hw
      obtain ⟨u, r, w', hu, -, hne, -⟩ := star_shift hus hw halive.2 hmatches
      exact absurd (List.append_eq_nil_iff.mp hu.symm).1 hne
    · -- a later start would leave too few separators
      obtain ⟨c, before, r, ts, hglobstar, hmatches⟩ := hglobstar
      rcases h.globstar _ _ hglobstar with ⟨-, hpending, -⟩ | ⟨start, hstart, hway, -⟩
      · rw [htext] at hpending
        cases hpending
      · obtain ⟨us, w, rfl, hw, hplain, hus⟩ := hway
        obtain ⟨before', rfl⟩ := hstart c before r rfl
        rw [htext, List.append_nil] at hw
        have hmore := hus.countP_eq hplain
        have hless := hmatches.countP_le
        rw [← hw, List.count_append, List.count_cons_self] at hmore
        rw [List.countP_append] at hless
        omega
  · exact .inl

end Search

end Nplex.Common.Pattern
