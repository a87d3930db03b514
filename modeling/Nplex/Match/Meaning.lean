import Nplex.Common.PatternSearch
import Nplex.Match

/-!
# What a glob means

A glob spells a pattern: `?` is one character of a segment, `[...]` one that is in the class, `*`
any characters of a segment and `**` any number of segments. A `**` must be a segment of its own,
otherwise the matcher gives up. For every glob that spells a pattern `glob_match` decides whether
the pattern matches the text.
-/

namespace Nplex.Match

open Nplex.Common.Pattern

/-- A character or a range of characters in a class. -/
inductive ClassItem where
  | char (c : UInt8)
  | range (low high : UInt8)
  deriving DecidableEq, Repr

/-- An item has a character. -/
def ClassItem.has : ClassItem → UInt8 → Bool
  | char c, chr => chr = c
  | range low high, chr => charLe chr high && charLe low chr

/-- The items of a class, and the glob from its `]` on. -/
def classItems : Option UInt8 → Bytes → List ClassItem × Bytes
  | _, [] => ([], [])
  | some last, 45 :: high :: rest =>
    if high = 93 then ([.char 45], high :: rest)
    else
      let items := classItems (some high) rest
      (.range last high :: items.1, items.2)
  | _, c :: rest =>
    if c = 93 then ([], c :: rest)
    else
      let items := classItems (some c) rest
      (.char c :: items.1, items.2)

/-- A character is in a class. -/
def inClass (glob : Bytes) (chr : UInt8) : Bool := (classItems none glob).1.any fun item => item.has chr

/-- The glob after a class; an unfinished class takes all of it. -/
def afterClass (glob : Bytes) : Bytes := (classItems none glob).2.drop 1

/-- The pattern that a glob spells, from the start of a segment or within one. -/
inductive Spells : Bool → Bytes → List (Token UInt8) → Prop where
  | nil {seg : Bool} : Spells seg [] []
  | rest : Spells true [42, 42] [.rest]
  | globstar {glob : Bytes} {ts : List (Token UInt8)} (h : Spells true glob ts) :
      Spells true (42 :: 42 :: 47 :: glob) (.globstar :: ts)
  | star {seg : Bool} {glob : Bytes} {ts : List (Token UInt8)} (hsingle : glob.head? ≠ some 42)
      (h : Spells false glob ts) : Spells seg (42 :: glob) (.star :: ts)
  | any {seg : Bool} {glob : Bytes} {ts : List (Token UInt8)} (h : Spells false glob ts) :
      Spells seg (63 :: glob) (.one (fun _ => true) :: ts)
  | notClass {seg : Bool} {glob : Bytes} {ts : List (Token UInt8)} {neg : UInt8}
      (hneg : neg = 94 ∨ neg = 33) (h : Spells false (afterClass glob) ts) :
      Spells seg (91 :: neg :: glob) (.one (fun chr => !inClass glob chr) :: ts)
  | isClass {seg : Bool} {glob : Bytes} {ts : List (Token UInt8)} (hcaret : glob.head? ≠ some 94)
      (hbang : glob.head? ≠ some 33) (h : Spells false (afterClass glob) ts) :
      Spells seg (91 :: glob) (.one (inClass glob) :: ts)
  | escape {seg : Bool} {c : UInt8} {glob : Bytes} {ts : List (Token UInt8)}
      (h : Spells (decide (c = 47)) glob ts) : Spells seg (92 :: c :: glob) (.lit c :: ts)
  | escapeEnd {seg : Bool} : Spells seg [92] [.one fun _ => false]
  | lit {seg : Bool} {c : UInt8} {glob : Bytes} {ts : List (Token UInt8)} (hc : isLiteral c = true)
      (h : Spells (decide (c = 47)) glob ts) : Spells seg (c :: glob) (.lit c :: ts)

variable {seg : Bool} {text glob : Bytes} {ts : List (Token UInt8)} {chr : UInt8}

/-- The loop over a class looks at all its items, whatever the character. -/
theorem matchClass_eq (chr : UInt8) (last : Option UInt8) (matched : Bool) (glob : Bytes) :
    matchClass chr last matched glob =
      (matched || (classItems last glob).1.any fun item => item.has chr, (classItems last glob).2) := by
  induction last, matched, glob using matchClass.induct chr with
  | case1 last matched => cases last <;> simp [matchClass, classItems]
  | case2 last matched rest => simp [matchClass, classItems, ClassItem.has]
  | case3 last matched high rest hhigh ih =>
    rw [matchClass, if_neg hhigh, ih, classItems, if_neg hhigh]
    simp [ClassItem.has, Bool.or_assoc]
  | case4 => simp_all [matchClass, classItems]
  | case5 => simp_all [matchClass, classItems, ClassItem.has, Bool.or_assoc]

/-- A spelled pattern is well formed. -/
theorem Spells.wellFormed (h : Spells seg glob ts) : WellFormed 47 seg ts := by
  induction h with
  | nil => trivial
  | rest => exact ⟨rfl, rfl⟩
  | globstar _ ih => exact ⟨rfl, ih⟩
  | escapeEnd => trivial
  | star _ _ ih => exact ih
  | any _ ih => exact ih
  | notClass _ _ ih => exact ih
  | isClass _ _ _ ih => exact ih
  | escape _ ih => exact ih
  | lit _ _ ih => exact ih

/-- At the end of the text only stars may be left. -/
theorem Spells.matches_nil_iff (h : Spells seg glob ts) :
    Matches 47 ts [] ↔ (glob.dropWhile (· = 42)).isEmpty = true := by
  have hone : ∀ (p : UInt8 → Bool) (ts : List (Token UInt8)), ¬Matches 47 (.one p :: ts) [] :=
    fun p ts => not_matches_char_nil trivial
  have hlit : ∀ (a : UInt8) (ts : List (Token UInt8)), ¬Matches 47 (.lit a :: ts) [] :=
    fun a ts => not_matches_char_nil trivial
  induction h with
  | nil => simp
  | rest => simp [Matches.rest]
  | globstar _ ih => simp [matches_globstar_iff]
  | star hsingle _ ih =>
    rw [matches_star_nil_iff, List.dropWhile_cons_of_pos (by simp)]
    exact ih
  | any => simp [hone]
  | notClass => simp [hone]
  | isClass => simp [hone]
  | escape => simp [hlit]
  | escapeEnd => simp [hone]
  | @lit seg c glob ts hc _ _ =>
    have hstar : c ≠ 42 := by
      rintro rfl
      simp [isLiteral] at hc
    simp [hlit, hstar]

/-- A cursor of the matcher stands for a search. -/
structure Represents (c : Cursor) (s : Search UInt8) : Prop where
  text : c.text = s.text
  glob : ∃ seg, Spells seg c.glob s.ts
  star : Option.Rel (fun saved entry => saved.1 = entry.1 ∧ Spells false saved.2 entry.2) c.star s.star
  globstar : Option.Rel (fun saved entry => saved.1 = entry.1 ∧
    ∃ glob, saved.2 = 47 :: glob ∧ Spells true glob entry.2) c.globstar s.globstar

/-- A turn decides what the search can still do, or leaves it as it is. -/
def Decides (s : Search UInt8) : Turn → Prop
  | .decided b => b = true ↔ s.Solvable 47
  | .moved c => ∃ s', Represents c s' ∧ s'.Linked 47 ∧ (s'.Solvable 47 ↔ s.Solvable 47)

variable {c : Cursor} {s : Search UInt8}

/-- Going back to the last `**`. -/
theorem decides_backGlobstar (h : Represents c s) (hlink : s.Linked 47)
    (hmismatch : ¬Matches 47 s.ts s.text) (hdead : ∀ chr text ts, ¬s.StarAlive 47 chr text ts) :
    Decides s c.backGlobstar := by
  have hglobstar := h.globstar
  unfold Cursor.backGlobstar
  cases hc : c.globstar with
  | none =>
    rw [hc] at hglobstar
    cases hs : s.globstar with
    | none =>
      have hfinal := Search.not_solvable hmismatch hdead (by simp [hs])
      simp [Decides, hfinal]
    | some entry =>
      rw [hs] at hglobstar
      cases hglobstar
  | some saved =>
    obtain ⟨text, glob⟩ := saved
    rw [hc] at hglobstar
    cases hs : s.globstar with
    | none =>
      rw [hs] at hglobstar
      cases hglobstar
    | some entry =>
      obtain ⟨text', ts⟩ := entry
      rw [hs] at hglobstar
      cases hglobstar with
      | some hsaved =>
        obtain ⟨htext, glob', hglob, hspells⟩ := hsaved
        dsimp only at htext hglob hspells
        subst htext hglob
        cases text with
        | nil =>
          have hfinal := Search.not_solvable hmismatch hdead (by simp [hs])
          simp [Decides, hfinal]
        | cons t text =>
          refine ⟨s.backGlobstar 47 text ts, ⟨rfl, ⟨true, .lit rfl hspells⟩, h.star, ?_⟩,
            hlink.backGlobstar hdead hs, Search.solvable_backGlobstar hmismatch hdead hs⟩
          exact .some ⟨rfl, glob', rfl, hspells⟩

/-- Going back after a mismatch. -/
theorem decides_backtrack (h : Represents c s) (hlink : s.Linked 47)
    (hmismatch : ¬Matches 47 s.ts s.text) : Decides s c.backtrack := by
  have hstar := h.star
  unfold Cursor.backtrack
  cases hc : c.star with
  | none =>
    refine decides_backGlobstar h hlink hmismatch fun chr text ts halive => ?_
    rw [hc, halive.1] at hstar
    cases hstar
  | some saved =>
    obtain ⟨text, glob⟩ := saved
    cases hs : s.star with
    | none =>
      rw [hc, hs] at hstar
      cases hstar
    | some entry =>
      obtain ⟨text', ts⟩ := entry
      rw [hc, hs] at hstar
      cases hstar with
      | some hsaved =>
        obtain ⟨htext, hspells⟩ := hsaved
        dsimp only at htext hspells
        subst htext
        cases text with
        | nil =>
          refine decides_backGlobstar h hlink hmismatch fun chr text ts halive => ?_
          simp [Search.StarAlive, hs] at halive
        | cons t text =>
          dsimp only
          by_cases ht : t = 47
          · rw [if_neg (by simpa using ht)]
            refine decides_backGlobstar h hlink hmismatch fun chr text' ts' halive => ?_
            obtain ⟨hsame, hchr⟩ := halive
            rw [hs, Option.some.injEq, Prod.mk.injEq, List.cons.injEq] at hsame
            exact hchr (hsame.1.1 ▸ ht)
          · rw [if_pos ht]
            have halive : s.StarAlive 47 t text ts := ⟨hs, ht⟩
            exact ⟨s.backStar text ts, ⟨rfl, ⟨false, hspells⟩, .some ⟨rfl, hspells⟩, h.globstar⟩,
              hlink.backStar halive, Search.solvable_backStar hmismatch halive⟩

/-- A token for one character takes it or starts over. -/
theorem decides_char {tok : Token UInt8} {glob : Bytes} {accepts : Bool} (h : Represents c s)
    (hlink : s.Linked 47) (htext : c.text = chr :: text) (hts : s.ts = tok :: ts)
    (hchar : tok.IsChar) (haccepts : accepts = true ↔ tok.Accepts 47 chr)
    (hspells : Spells seg glob ts) :
    Decides s (if accepts = true then .moved { c with text := text, glob := glob } else c.backtrack) := by
  have htext' : s.text = chr :: text := h.text.symm.trans htext
  split
  · next htrue =>
    have htok := haccepts.mp htrue
    exact ⟨s.advance text ts, ⟨rfl, ⟨seg, hspells⟩, h.star, h.globstar⟩,
      hlink.advance hts htext' htok hspells.wellFormed, Search.solvable_advance hts htext' htok⟩
  · next hfalse =>
    refine decides_backtrack h hlink ?_
    rw [hts, htext', matches_char_iff hchar]
    exact fun hmatches => hfalse (haccepts.mpr hmatches.1)

/-- A turn at a literal byte. -/
theorem turn_of_literal {g : UInt8} (hg : isLiteral g = true) (hglob : c.glob = g :: glob) :
    c.turn chr text = if decide (g = chr) = true then .moved { c with text := text, glob := glob }
      else c.backtrack := by
  simp only [isLiteral, Bool.and_eq_true, decide_eq_true_eq] at hg
  obtain ⟨⟨⟨hstar, hany⟩, hclass⟩, hescape⟩ := hg
  unfold Cursor.turn
  split <;> simp_all [Cursor.literal]

/-- A turn at an escaped byte. -/
theorem turn_of_escape {g : UInt8} (hglob : c.glob = 92 :: g :: glob) :
    c.turn chr text = if decide (g = chr) = true then .moved { c with text := text, glob := glob }
      else c.backtrack := by
  by_cases hchr : g = chr <;> simp [Cursor.turn, hglob, hchr, Cursor.literal]

/-- A turn where the glob does not go on. -/
theorem turn_of_end (hglob : c.glob = [] ∨ c.glob = [92]) : c.turn chr text = c.backtrack := by
  rcases hglob with hglob | hglob <;> simp only [Cursor.turn, hglob, Cursor.literal]

/-- A turn at `?`. -/
theorem turn_of_any (hglob : c.glob = 63 :: glob) :
    c.turn chr text = if decide (chr ≠ 47) = true then .moved { c with text := text, glob := glob }
      else c.backtrack := by
  by_cases hchr : chr = 47 <;> simp [Cursor.turn, hglob, hchr]

/-- A turn at a class. -/
theorem classTurn_eq (reverse : Bool) :
    c.classTurn chr text reverse glob =
      if (inClass glob chr != reverse) = true then
        .moved { c with text := text, glob := afterClass glob }
      else c.backtrack := by
  rw [Cursor.classTurn, matchClass_eq]
  simp only [Bool.false_or]
  cases hin : inClass glob chr <;> cases reverse <;> simp_all [inClass, afterClass]

/-- A negated class takes a character outside of it, but `/`. -/
theorem turn_of_notClass {neg : UInt8} (hneg : neg = 94 ∨ neg = 33)
    (hglob : c.glob = 91 :: neg :: glob) :
    c.turn chr text = if (decide (chr ≠ 47) && !inClass glob chr) = true then
        .moved { c with text := text, glob := afterClass glob }
      else c.backtrack := by
  rcases hneg with hneg | hneg <;> by_cases hchr : chr = 47 <;>
    simp [Cursor.turn, hglob, hneg, hchr, classTurn_eq]

/-- A class takes a character inside of it, but `/`. -/
theorem turn_of_isClass (hcaret : glob.head? ≠ some 94) (hbang : glob.head? ≠ some 33)
    (hglob : c.glob = 91 :: glob) :
    c.turn chr text = if (decide (chr ≠ 47) && inClass glob chr) = true then
        .moved { c with text := text, glob := afterClass glob }
      else c.backtrack := by
  have hclass : c.turn chr text =
      if chr = 47 then c.backtrack else c.classTurn chr text false glob := by
    cases glob with
    | nil => simp only [Cursor.turn, hglob]
    | cons g rest =>
      unfold Cursor.turn
      split <;> simp_all
  rw [hclass]
  by_cases hchr : chr = 47 <;> simp [hchr, classTurn_eq]

/-- A turn at a single `*`. -/
theorem turn_of_star (hsingle : glob.head? ≠ some 42) (hglob : c.glob = 42 :: glob) :
    c.turn chr text = .moved { c with glob := glob, star := some (chr :: text, glob) } := by
  cases glob with
  | nil => simp only [Cursor.turn, hglob]
  | cons g rest =>
    have hg : g ≠ 42 := by simpa using hsingle
    unfold Cursor.turn
    split <;> simp_all

/-- A turn at a `**` in front of a separator. -/
theorem turn_of_globstar (hglob : c.glob = 42 :: 42 :: 47 :: glob) :
    c.turn chr text = .moved ⟨chr :: text, if chr ≠ 47 then glob else 47 :: glob, none,
      some (chr :: text, 47 :: glob)⟩ := by
  simp only [Cursor.turn, hglob, ne_eq, not_true_eq_false, if_false]

/-- A turn at a final `**`. -/
theorem turn_of_rest (hglob : c.glob = [42, 42]) : c.turn chr text = .decided true := by
  simp only [Cursor.turn, hglob]

/-- Every turn at a character decides what the search can do or leaves it as it is. -/
theorem decides_turn (h : Represents c s) (hlink : s.Linked 47) (htext : c.text = chr :: text) :
    Decides s (c.turn chr text) := by
  have htext' : s.text = chr :: text := h.text.symm.trans htext
  obtain ⟨seg, hspells⟩ := h.glob
  generalize hglob : c.glob = glob at hspells
  generalize hts : s.ts = ts at hspells
  cases hspells with
  | nil =>
    rw [turn_of_end (.inl hglob)]
    exact decides_backtrack h hlink (by simp [hts, htext'])
  | rest =>
    rw [turn_of_rest hglob]
    refine ⟨fun _ => .inl ?_, fun _ => rfl⟩
    rw [hts]
    exact .rest
  | globstar hrest =>
    rw [turn_of_globstar hglob]
    refine ⟨.saveGlobstar 47 chr text _, ⟨rfl, ?_, .none, .some ⟨rfl, _, rfl, hrest⟩⟩,
      hlink.saveGlobstar hts, hlink.solvable_saveGlobstar hts htext'⟩
    simp only [Search.saveGlobstar]
    split
    · exact ⟨true, hrest⟩
    · exact ⟨true, .lit rfl hrest⟩
  | star hsingle hrest =>
    rw [turn_of_star hsingle hglob]
    exact ⟨s.saveStar _, ⟨h.text, ⟨false, hrest⟩, .some ⟨htext'.symm, hrest⟩, h.globstar⟩,
      hlink.saveStar hts, hlink.solvable_saveStar hts htext'⟩
  | any hrest =>
    rw [turn_of_any hglob]
    exact decides_char h hlink htext hts trivial (by simp [Token.Accepts]) hrest
  | notClass hneg hrest =>
    rw [turn_of_notClass hneg hglob]
    exact decides_char h hlink htext hts trivial (by simp [Token.Accepts]) hrest
  | isClass hcaret hbang hrest =>
    rw [turn_of_isClass hcaret hbang hglob]
    exact decides_char h hlink htext hts trivial (by simp [Token.Accepts]) hrest
  | escape hrest =>
    rw [turn_of_escape hglob]
    exact decides_char h hlink htext hts trivial (by simp [Token.Accepts]) hrest
  | escapeEnd =>
    rw [turn_of_end (.inr hglob)]
    refine decides_backtrack h hlink ?_
    rw [hts, htext', matches_char_iff (show Token.IsChar (.one _) from trivial)]
    simp [Token.Accepts]
  | lit hg hrest =>
    rw [turn_of_literal hg hglob]
    exact decides_char h hlink htext hts trivial (by simp [Token.Accepts]) hrest

/-- The loop decides what the search can do. -/
theorem matchLoop_iff (hok : c.Ok) (h : Represents c s) (hlink : s.Linked 47) :
    matchLoop c hok = true ↔ s.Solvable 47 := by
  induction hrank : c.rank using WellFoundedLT.induction generalizing c s with
  | ind rank ih =>
    cases htext : c.text with
    | nil =>
      obtain ⟨seg, hspells⟩ := h.glob
      rw [matchLoop_nil hok htext, hlink.solvable_end (h.text.symm.trans htext),
        hspells.matches_nil_iff]
    | cons chr text =>
      have hturn := decides_turn h hlink htext
      cases hnext : c.turn chr text with
      | decided b =>
        rw [matchLoop_decided hok htext hnext]
        rw [hnext] at hturn
        exact hturn
      | moved c' =>
        rw [hnext] at hturn
        obtain ⟨s', h', hlink', hsolvable⟩ := hturn
        obtain ⟨hok', hless⟩ := hok.turn htext c' hnext
        rw [matchLoop_moved hok hok' htext hnext, ← hsolvable]
        exact ih _ (hrank ▸ hless) hok' h' hlink' rfl

/-- `glob_match` decides whether the pattern that the glob spells matches the text. -/
theorem globMatch_iff (hspells : Spells true (cStr glob) ts) :
    globMatch text glob = true ↔ Matches 47 ts (cStr text) := by
  have hrep : Represents ⟨cStr text, cStr glob, none, none⟩ ⟨cStr text, ts, none, none⟩ :=
    ⟨rfl, ⟨true, hspells⟩, .none, .none⟩
  have hdead : ∀ chr text' ts', ¬Search.StarAlive 47 ⟨cStr text, ts, none, none⟩ chr text' ts' := by
    simp [Search.StarAlive]
  have hlink : Search.Linked 47 ⟨cStr text, ts, none, none⟩ :=
    ⟨⟨true, hspells.wellFormed⟩, fun chr text' ts' halive => absurd halive (hdead chr text' ts'),
      by simp, by simp, by simp⟩
  rw [globMatch, matchLoop_iff _ hrep hlink, Search.solvable_iff_of_not_alive hdead]
  simp [Search.ByGlobstar]

/-- The glob `a/**/[b-d]*` accepts a key two segments further down. -/
theorem globMatch_iff_segments :
    globMatch [97, 47, 120, 47, 99, 122] [97, 47, 42, 42, 47, 91, 98, 45, 100, 93, 42] = true := by
  have hspells : Spells true (cStr [97, 47, 42, 42, 47, 91, 98, 45, 100, 93, 42])
      [.lit 97, .lit 47, .globstar, .one (inClass [98, 45, 100, 93, 42]), .star] := by
    apply Spells.lit (by decide)
    apply Spells.lit (by decide)
    apply Spells.globstar
    apply Spells.isClass (by decide) (by decide)
    apply Spells.star (by decide)
    exact .nil
  have hclass : Matches 47 [.one (inClass [98, 45, 100, 93, 42]), .star] [99, 122] := by
    refine .single ⟨?_, ?_⟩ (.take ?_ (.skip .nil)) <;> decide
  have hmatches : Matches 47 [.lit 97, .lit 47, .globstar, .one (inClass [98, 45, 100, 93, 42]), .star]
      [97, 47, 120, 47, 99, 122] := by
    refine .single ?_ (.single ?_ (.deeper [120] rfl hclass)) <;> rfl
  exact (globMatch_iff hspells).mpr hmatches

end Nplex.Match
