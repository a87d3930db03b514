import Nplex.User

/-!
# The glob matcher

`glob_match` of `match.c`. The matcher walks the text and the pattern together and backs up
both positions at every star, so that a later mismatch can let the star take one more
character. A single star never takes a `/`; `**` must end the pattern or be followed by `/`.
Both strings are C strings, given here by their content, so the end of a list stands for
the NUL. `DOTGLOB` is set, which makes `nodot` always zero.
-/

namespace Nplex.Match

/-- The positions of the matcher: the text and the pattern that are left, and those saved at the
last `*` and at the last `**`. -/
structure Cursor where
  text : Bytes
  glob : Bytes
  star : Option (Bytes × Bytes) := none
  globstar : Option (Bytes × Bytes) := none

/-- How one turn of the loop ends. -/
inductive Turn
  | decided (b : Bool)
  | moved (c : Cursor)

/-- `char` comparison; the type is signed. -/
def charLe (a b : UInt8) : Bool := a.toInt8 ≤ b.toInt8

/-- The loop over a character class: whether `chr` is in it, and the pattern from its `]` on.
`last` is the previous character, absent at the start. -/
def matchClass (chr : UInt8) : Option UInt8 → Bool → Bytes → Bool × Bytes
  | _, matched, [] => (matched, [])
  | some last, matched, 45 :: high :: rest =>
    if high = 93 then
      -- a `-` before the `]` is an ordinary character
      (matched || chr = 45, high :: rest)
    else matchClass chr (some high) (matched || (charLe chr high && charLe last chr)) rest
  | _, matched, c :: rest =>
    if c = 93 then (matched, c :: rest) else matchClass chr (some c) (matched || chr = c) rest

namespace Cursor

/-- Go back to the last `**`, which takes one more character. -/
def backGlobstar (c : Cursor) : Turn :=
  match c.globstar with
  | some (_ :: text, glob) =>
    .moved { c with text := text, glob := glob, globstar := some (text, glob) }
  | _ => .decided false

/-- The end of a turn after a mismatch: go back to the last `*`, which may not take a `/`, or
else to the last `**`. -/
def backtrack (c : Cursor) : Turn :=
  match c.star with
  | some (t :: text, glob) =>
    if t ≠ 47 then .moved { c with text := text, glob := glob, star := some (text, glob) }
    else c.backGlobstar
  | _ => c.backGlobstar

/-- Match one character against the pattern as it is. -/
def literal (c : Cursor) (chr : UInt8) (text : Bytes) : Bytes → Turn
  | g :: rest => if g = chr then .moved { c with text := text, glob := rest } else c.backtrack
  | [] => c.backtrack

/-- Match one character against a class; `reverse` says that it is inverted. -/
def classTurn (c : Cursor) (chr : UInt8) (text : Bytes) (reverse : Bool) (glob : Bytes) : Turn :=
  match matchClass chr none false glob with
  | (matched, rest) =>
    if matched = reverse then c.backtrack
    else .moved { c with text := text, glob := rest.drop 1 }

/-- One turn of the loop, at a character of the text. -/
def turn (c : Cursor) (chr : UInt8) (text : Bytes) : Turn :=
  match c.glob with
  | [42, 42] => .decided true
  | 42 :: 42 :: g :: rest =>
    if g ≠ 47 then .decided false
    else
      .moved ⟨chr :: text, if chr ≠ 47 then rest else g :: rest, none,
        some (chr :: text, g :: rest)⟩
  | 42 :: rest => .moved { c with glob := rest, star := some (chr :: text, rest) }
  | 63 :: rest => if chr = 47 then c.backtrack else .moved { c with text := text, glob := rest }
  | 91 :: 94 :: rest => if chr = 47 then c.backtrack else c.classTurn chr text true rest
  | 91 :: 33 :: rest => if chr = 47 then c.backtrack else c.classTurn chr text true rest
  | 91 :: rest => if chr = 47 then c.backtrack else c.classTurn chr text false rest
  | 92 :: rest => c.literal chr text rest
  | glob => c.literal chr text glob

/-- The pattern position saved at the last `*`, while it may still take a character. -/
def starGlob (c : Cursor) : Option Bytes :=
  match c.star with
  | some (t :: _, glob) => if t ≠ 47 then some glob else none
  | _ => none

/-- A saved pattern position is not after the current one. -/
structure Ok (c : Cursor) : Prop where
  star : ∀ glob ∈ c.starGlob, c.glob.length ≤ glob.length
  globstar : ∀ saved ∈ c.globstar, c.glob.length ≤ saved.2.length
  nested : ∀ inner ∈ c.star, ∀ outer ∈ c.globstar, inner.2.length ≤ outer.2.length

/-- What decreases at every turn: the pattern left at the last `**`, the text left there, the
pattern left at the last `*` that can still move, the text left there, and the text. -/
def rank (c : Cursor) : ℕ ×ₗ ℕ ×ₗ ℕ ×ₗ ℕ ×ₗ ℕ ×ₗ ℕ :=
  toLex (if c.globstar = none then 1 else 0, toLex (c.globstar.elim 0 (·.2.length),
    toLex (c.globstar.elim 0 (·.1.length), toLex ((c.starGlob.getD c.glob).length,
      toLex (c.star.elim 0 (·.1.length), c.text.length)))))

variable {c c' : Cursor} {chr : UInt8} {text : Bytes}

/-- A turn that is not decided keeps the saved positions in order and lowers the rank. -/
def Turn.Progresses (c : Cursor) (t : Turn) : Prop :=
  ∀ c', t = .moved c' → c'.Ok ∧ c'.rank < c.rank

/-- Going back to the globstar makes progress. -/
theorem Ok.backGlobstar (h : c.Ok) (hdead : c.starGlob = none) :
    Turn.Progresses c c.backGlobstar := by
  intro c' hturn
  unfold Cursor.backGlobstar at hturn
  split at hturn
  · next t text glob hglobstar =>
    obtain rfl := Turn.moved.inj hturn
    refine ⟨⟨fun g hg => ?_, ?_, ?_⟩, ?_⟩
    · have hnone : c.starGlob = some g := hg
      simp [hdead] at hnone
    · simp
    · intro inner hinner outer houter
      obtain rfl := Option.some.inj houter
      exact h.nested inner hinner (t :: text, glob) hglobstar
    · simp [rank, hglobstar, Prod.Lex.toLex_lt_toLex]
  · cases hturn

/-- So does going back. -/
theorem Ok.backtrack (h : c.Ok) : Turn.Progresses c c.backtrack := by
  intro c' hturn
  unfold Cursor.backtrack at hturn
  split at hturn
  · next t text glob hstar =>
    split_ifs at hturn with ht
    · obtain rfl := Turn.moved.inj hturn
      have halive : c.starGlob = some glob := by simp [starGlob, hstar, ht]
      refine ⟨⟨fun g hg => ?_, fun saved hsaved => ?_, fun inner hinner outer houter => ?_⟩, ?_⟩
      · unfold starGlob at hg
        dsimp only at hg
        split at hg
        · next t' text' glob' heq =>
          obtain ⟨rfl, rfl⟩ := Prod.mk.inj (Option.some.inj heq)
          split_ifs at hg
          · obtain rfl := Option.some.inj hg
            exact le_rfl
          · cases hg
        · cases hg
      · exact h.nested _ hstar saved hsaved
      · obtain rfl := Option.some.inj hinner
        exact h.nested _ hstar outer houter
      · have hsame : (Cursor.starGlob ⟨text, glob, some (text, glob), c.globstar⟩).getD glob =
            glob := by
          unfold starGlob
          dsimp only
          split
          · next t' text' glob' heq =>
            obtain ⟨rfl, rfl⟩ := Prod.mk.inj (Option.some.inj heq)
            split_ifs <;> rfl
          · rfl
        simp [rank, hsame, halive, hstar, Prod.Lex.toLex_lt_toLex]
    · exact h.backGlobstar (by simp [starGlob, hstar, ht]) c' hturn
  · next hstar =>
    refine h.backGlobstar ?_ c' hturn
    unfold starGlob
    split
    · next t text glob heq => exact absurd heq (hstar t text glob)
    · rfl

/-- A character of the text is taken, with at least one of the pattern. -/
theorem Ok.advance (h : c.Ok) (htext : c.text = chr :: text) {glob : Bytes}
    (hglob : glob.length < c.glob.length) :
    Turn.Progresses c (.moved { c with text := text, glob := glob }) := by
  intro c' hturn
  obtain rfl := Turn.moved.inj hturn
  have hstarGlob : starGlob { c with text := text, glob := glob } = c.starGlob := rfl
  refine ⟨⟨fun g hg => ?_, fun saved hsaved => ?_, h.nested⟩, ?_⟩
  · exact hglob.le.trans (h.star g hg)
  · exact hglob.le.trans (h.globstar saved hsaved)
  · cases halive : c.starGlob with
    | none => simp [rank, hstarGlob, halive, hglob, Prod.Lex.toLex_lt_toLex]
    | some g => simp [rank, hstarGlob, halive, htext, Prod.Lex.toLex_lt_toLex]

/-- So does a literal, matched or not. -/
theorem Ok.literal (h : c.Ok) (htext : c.text = chr :: text) {glob : Bytes}
    (hglob : glob.length ≤ c.glob.length) : Turn.Progresses c (c.literal chr text glob) := by
  unfold Cursor.literal
  cases glob with
  | nil => exact h.backtrack
  | cons g rest =>
    dsimp only
    split_ifs
    · exact h.advance htext (by simpa using hglob)
    · exact h.backtrack

/-- The class does not reach beyond the pattern. -/
theorem matchClass_length (chr : UInt8) (last : Option UInt8) (matched : Bool) (glob : Bytes) :
    (matchClass chr last matched glob).2.length ≤ glob.length := by
  induction last, matched, glob using matchClass.induct chr with
  | case1 => simp [matchClass]
  | case2 => simp [matchClass]
  | case3 last matched high rest hhigh ih =>
    rw [matchClass, if_neg hhigh]
    simp only [List.length_cons]
    omega
  | case4 => simp_all [matchClass]
  | case5 => simp_all [matchClass]; omega

/-- So does a class. -/
theorem Ok.classTurn (h : c.Ok) (htext : c.text = chr :: text) {reverse : Bool} {glob : Bytes}
    (hglob : glob.length < c.glob.length) :
    Turn.Progresses c (c.classTurn chr text reverse glob) := by
  have hlength := matchClass_length chr none false glob
  unfold Cursor.classTurn
  dsimp only
  split_ifs
  · exact h.backtrack
  · refine h.advance htext ?_
    rw [List.length_drop]
    omega

/-- A star saves the positions. -/
theorem Ok.saveStar (h : c.Ok) {rest : Bytes}
    (hglob : c.glob = 42 :: rest) :
    Turn.Progresses c (.moved { c with glob := rest, star := some (chr :: text, rest) }) := by
  intro c' hturn
  obtain rfl := Turn.moved.inj hturn
  have hshorter : rest.length < c.glob.length := by simp [hglob]
  have hsaved : ∀ g ∈ starGlob { c with glob := rest, star := some (chr :: text, rest) }, g = rest := by
    intro g hg
    unfold starGlob at hg
    dsimp only at hg
    split_ifs at hg
    · exact (Option.some.inj hg).symm
    · cases hg
  refine ⟨⟨fun g hg => ?_, fun saved hsaved => ?_, fun inner hinner outer houter => ?_⟩, ?_⟩
  · rw [hsaved g hg]
  · exact hshorter.le.trans (h.globstar saved hsaved)
  · obtain rfl := Option.some.inj hinner
    exact hshorter.le.trans (h.globstar outer houter)
  · have hafter : ((starGlob { c with glob := rest, star := some (chr :: text, rest) }).getD
        rest).length = rest.length := by
      cases hg : starGlob { c with glob := rest, star := some (chr :: text, rest) } with
      | none => rfl
      | some g => rw [hsaved g hg]; rfl
    have hbefore : rest.length < (c.starGlob.getD c.glob).length := by
      cases hg : c.starGlob with
      | none => exact hshorter
      | some g => exact hshorter.trans_le (h.star g hg)
    simp [rank, hafter, hbefore, Prod.Lex.toLex_lt_toLex]

/-- A `**` saves the positions and forgets those of the last `*`. -/
theorem Ok.saveGlobstar (h : c.Ok) {rest saved glob : Bytes} (hglob : c.glob = 42 :: 42 :: saved)
    (hle : glob.length ≤ saved.length) :
    Turn.Progresses c (.moved ⟨c.text, glob, none, some (rest, saved)⟩) := by
  intro c' hturn
  obtain rfl := Turn.moved.inj hturn
  refine ⟨⟨fun g hg => ?_, fun pair hpair => ?_, fun inner hinner => ?_⟩, ?_⟩
  · simp [starGlob] at hg
  · obtain rfl := Option.some.inj hpair
    exact hle
  · cases hinner
  · cases hglobstar : c.globstar with
    | none => simp [rank, hglobstar, Prod.Lex.toLex_lt_toLex]
    | some pair =>
      have hlonger : saved.length < pair.2.length := by
        have hle' := h.globstar pair hglobstar
        simp only [hglob, List.length_cons] at hle'
        omega
      simp [rank, hglobstar, hlonger, Prod.Lex.toLex_lt_toLex]

/-- Every turn that is not decided makes progress. -/
theorem Ok.turn (h : c.Ok) (htext : c.text = chr :: text) :
    Turn.Progresses c (c.turn chr text) := by
  unfold Cursor.turn
  split
  · intro c' hturn
    cases hturn
  · next g rest hglob =>
    split_ifs with hg hchr
    · intro c' hturn
      cases hturn
    · exact htext ▸ h.saveGlobstar hglob (by simp)
    · exact htext ▸ h.saveGlobstar hglob (by simp)
  · next rest _ _ hglob => exact h.saveStar hglob
  · next rest hglob =>
    split_ifs
    · exact h.backtrack
    · exact h.advance htext (by simp [hglob])
  · next rest hglob =>
    split_ifs
    · exact h.backtrack
    · exact h.classTurn htext (by simp [hglob])
  · next rest hglob =>
    split_ifs
    · exact h.backtrack
    · exact h.classTurn htext (by simp [hglob])
  · next rest _ _ hglob =>
    split_ifs
    · exact h.backtrack
    · exact h.classTurn htext (by simp [hglob])
  · next rest hglob => exact h.literal htext (by simp [hglob])
  · exact h.literal htext le_rfl

end Cursor

/-- The loop of `glob_match`. At the end of the text, trailing stars are ignored. -/
def matchLoop (c : Cursor) (h : c.Ok) : Bool :=
  match _htext : c.text with
  | [] => (c.glob.dropWhile (· = 42)).isEmpty
  | chr :: text =>
    match _hturn : c.turn chr text with
    | .decided b => b
    | .moved c' => matchLoop c' (h.turn _htext c' _hturn).1
termination_by c.rank
decreasing_by exact (h.turn _htext c' _hturn).2

/-- The start of a match. -/
theorem ok_start (text glob : Bytes) : Cursor.Ok ⟨text, glob, none, none⟩ := by
  constructor <;> simp [Cursor.starGlob]

/-- `glob_match`. -/
def globMatch : Glob := fun text glob => matchLoop ⟨cStr text, cStr glob, none, none⟩ (ok_start _ _)

/-- At the end of the text only stars may be left of the pattern. -/
theorem matchLoop_nil {c : Cursor} (h : c.Ok) (htext : c.text = []) :
    matchLoop c h = (c.glob.dropWhile (· = 42)).isEmpty := by
  rw [matchLoop]
  split
  · rfl
  · next hcons =>
    rw [htext] at hcons
    cases hcons

/-- A turn that decides ends the loop. -/
theorem matchLoop_decided {c : Cursor} (h : c.Ok) {chr : UInt8} {text : Bytes} {b : Bool}
    (htext : c.text = chr :: text) (hturn : c.turn chr text = .decided b) :
    matchLoop c h = b := by
  rw [matchLoop]
  split
  · next hnil =>
    rw [htext] at hnil
    cases hnil
  · next chr' text' hcons =>
    obtain ⟨rfl, rfl⟩ := List.cons.inj (htext.symm.trans hcons)
    split
    · next b' hb => exact Turn.decided.inj (hb.symm.trans hturn)
    · next c' hmoved =>
      rw [hturn] at hmoved
      cases hmoved

/-- A turn that moves goes on from there. -/
theorem matchLoop_moved {c c' : Cursor} (h : c.Ok) (h' : c'.Ok) {chr : UInt8} {text : Bytes}
    (htext : c.text = chr :: text) (hturn : c.turn chr text = .moved c') :
    matchLoop c h = matchLoop c' h' := by
  rw [matchLoop]
  split
  · next hnil =>
    rw [htext] at hnil
    cases hnil
  · next chr' text' hcons =>
    obtain ⟨rfl, rfl⟩ := List.cons.inj (htext.symm.trans hcons)
    split
    · next b hdecided =>
      rw [hturn] at hdecided
      cases hdecided
    · next c'' hmoved =>
      obtain rfl := Turn.moved.inj (hmoved.symm.trans hturn)
      rfl

/-- The pattern `**` matches every text. -/
theorem globMatch_all (text : Bytes) : globMatch text [42, 42] = true := by
  have hstart : ∀ t (h : Cursor.Ok ⟨t, [42, 42], none, none⟩),
      matchLoop ⟨t, [42, 42], none, none⟩ h = true := by
    intro t h
    cases t with
    | nil => exact matchLoop_nil h rfl
    | cons chr rest => exact matchLoop_decided h rfl rfl
  exact hstart (cStr text) (ok_start _ _)

/-- The loop cut off after some turns, for evaluation. -/
def turns : ℕ → Cursor → Option Bool
  | 0, _ => none
  | n + 1, c =>
    match c.text with
    | [] => some (c.glob.dropWhile (· = 42)).isEmpty
    | chr :: text =>
      match c.turn chr text with
      | .decided b => some b
      | .moved c' => turns n c'

/-- Turns that come to a decision are those of the loop. -/
theorem matchLoop_of_turns {n : ℕ} {c : Cursor} {b : Bool} (h : c.Ok) (hturns : turns n c = some b) :
    matchLoop c h = b := by
  induction n generalizing c with
  | zero => simp [turns] at hturns
  | succ n ih =>
    unfold turns at hturns
    split at hturns
    · next htext =>
      rw [matchLoop_nil h htext]
      exact Option.some.inj hturns
    · next chr text htext =>
      split at hturns
      · next b' hturn =>
        rw [matchLoop_decided h htext hturn]
        exact Option.some.inj hturns
      · next c' hturn =>
        have h' := (h.turn htext c' hturn).1
        rw [matchLoop_moved h h' htext hturn]
        exact ih h' hturns

/-- The result of the turns is that of `glob_match`. -/
theorem globMatch_of_turns {text glob : Bytes} {b : Bool} (n : ℕ)
    (h : turns n ⟨cStr text, cStr glob, none, none⟩ = some b) : globMatch text glob = b :=
  matchLoop_of_turns _ h

/-- `x/**/baz` matches `x/foo/bar/foo/baz`, by going back to the `**`. -/
example : globMatch "x/foo/bar/foo/baz".toUTF8.toList "x/**/baz".toUTF8.toList = true :=
  globMatch_of_turns 40 (by decide +kernel)

/-- A pattern byte that the matcher compares as it is. -/
def isLiteral (b : UInt8) : Bool := b ≠ 42 && b ≠ 63 && b ≠ 91 && b ≠ 92

/-- At a literal byte the turn compares it. -/
theorem turn_literal {g : UInt8} (hliteral : isLiteral g = true) (chr : UInt8)
    (text glob text' : Bytes) :
    Cursor.turn ⟨text', g :: glob, none, none⟩ chr text =
      if g = chr then .moved ⟨text, glob, none, none⟩ else .decided false := by
  simp only [isLiteral, Bool.and_eq_true, decide_eq_true_eq] at hliteral
  obtain ⟨⟨⟨hstar, hany⟩, hclass⟩, hescape⟩ := hliteral
  unfold Cursor.turn
  split <;> simp_all [Cursor.literal, Cursor.backtrack, Cursor.backGlobstar]

/-- A text that a pattern matches starts with the literal bytes the pattern starts with. -/
theorem isPrefix_of_matchLoop {pre text glob : Bytes} (hpre : ∀ b ∈ pre, isLiteral b = true)
    (h : matchLoop ⟨text, pre ++ glob, none, none⟩ (ok_start _ _) = true) : pre <+: text := by
  induction pre generalizing text with
  | nil => exact List.nil_prefix
  | cons g pre ih =>
    have hliteral := hpre g List.mem_cons_self
    cases text with
    | nil =>
      rw [matchLoop_nil _ rfl] at h
      have hstar : g ≠ 42 := by
        rintro rfl
        simp [isLiteral] at hliteral
      simp [hstar] at h
    | cons chr text =>
      have hturn : Cursor.turn ⟨chr :: text, g :: pre ++ glob, none, none⟩ chr text =
          if g = chr then .moved ⟨text, pre ++ glob, none, none⟩ else .decided false :=
        turn_literal hliteral chr text (pre ++ glob) (chr :: text)
      by_cases hchr : g = chr
      · rw [if_pos hchr] at hturn
        rw [matchLoop_moved _ (ok_start _ _) rfl hturn] at h
        subst hchr
        exact (List.prefix_cons_inj g).mpr (ih (fun b hb => hpre b (List.mem_cons_of_mem g hb)) h)
      · rw [if_neg hchr] at hturn
        rw [matchLoop_decided _ rfl hturn] at h
        cases h

/-- The empty pattern matches the empty text only. -/
theorem eq_nil_of_globMatch_nil {text : Bytes} (h : globMatch text [] = true) : cStr text = [] := by
  cases htext : cStr text with
  | nil => rfl
  | cons chr rest =>
    have hglob : cStr [] = [] := rfl
    have hturn : Cursor.turn ⟨cStr text, cStr [], none, none⟩ chr rest = .decided false := rfl
    rw [globMatch, matchLoop_decided _ htext hturn] at h
    cases h

/-- A text that a pattern matches starts with the literal bytes the pattern starts with. -/
theorem isPrefix_of_globMatch {text pre glob : Bytes}
    (hpre : ∀ b ∈ pre, b ≠ 0 ∧ isLiteral b = true) (h : globMatch text (pre ++ glob) = true) :
    pre <+: text := by
  have hglob : cStr (pre ++ glob) = pre ++ cStr glob :=
    List.takeWhile_append_of_pos fun b hb => by simpa using (hpre b hb).1
  have hloop : matchLoop ⟨cStr text, pre ++ cStr glob, none, none⟩ (ok_start _ _) = true := by
    simpa only [globMatch, hglob] using h
  exact (isPrefix_of_matchLoop (fun b hb => (hpre b hb).2) hloop).trans (List.takeWhile_prefix _)

end Nplex.Match
