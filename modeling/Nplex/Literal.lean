import Nplex.Match

/-!
# Keys as patterns

What a pattern without stars matches. Its tokens are taken one after the other, with nothing to
go back to. A pattern of literal bytes matches itself and nothing else. A class or an escape
takes more of the pattern than of the text, so a text that such a pattern matches is shorter
than the pattern, and a `?` also matches other bytes than itself.
-/

namespace Nplex.Match

/-- A text against a pattern, with nothing saved. -/
def matchPlain (text glob : Bytes) : Bool := matchLoop ⟨text, glob, none, none⟩ (ok_start _ _)

/-- A literal byte is compared with the next byte of the text. -/
theorem matchPlain_literal {g : UInt8} (hliteral : isLiteral g = true) (chr : UInt8)
    (text glob : Bytes) :
    matchPlain (chr :: text) (g :: glob) = (g = chr && matchPlain text glob) := by
  have hturn := turn_literal hliteral chr text glob (chr :: text)
  unfold matchPlain
  by_cases hchr : g = chr
  · rw [if_pos hchr] at hturn
    rw [matchLoop_moved _ (ok_start _ _) rfl hturn]
    simp [hchr]
  · rw [if_neg hchr] at hturn
    rw [matchLoop_decided _ rfl hturn]
    simp [hchr]

/-- At the end of the text the pattern must be used up, up to stars. -/
theorem matchPlain_nil (glob : Bytes) :
    matchPlain [] glob = (glob.dropWhile (· = 42)).isEmpty := matchLoop_nil _ rfl

/-- A pattern of literal bytes matches itself only. -/
theorem matchPlain_of_literal {glob : Bytes} (hliteral : ∀ b ∈ glob, isLiteral b = true)
    (text : Bytes) : matchPlain text glob = true ↔ text = glob := by
  induction glob generalizing text with
  | nil =>
    cases text with
    | nil => simp [matchPlain_nil]
    | cons chr text =>
      have hturn : Cursor.turn ⟨chr :: text, [], none, none⟩ chr text = .decided false := rfl
      have hdecided : matchPlain (chr :: text) [] = false := matchLoop_decided _ rfl hturn
      simp [hdecided]
  | cons g glob ih =>
    have hg := hliteral g List.mem_cons_self
    cases text with
    | nil =>
      have hstar : g ≠ 42 := by
        rintro rfl
        simp [isLiteral] at hg
      simp [matchPlain_nil, hstar]
    | cons chr text =>
      rw [matchPlain_literal hg, Bool.and_eq_true, decide_eq_true_eq,
        ih (fun b hb => hliteral b (List.mem_cons_of_mem g hb)), List.cons.injEq, eq_comm]

/-- What is left of the pattern after a class is a part of it. -/
theorem matchClass_suffix (chr : UInt8) (last : Option UInt8) (matched : Bool) (glob : Bytes) :
    (matchClass chr last matched glob).2 <:+ glob := by
  induction last, matched, glob using matchClass.induct chr with
  | case1 => simp [matchClass]
  | case2 => simp [matchClass]
  | case3 last matched high rest hhigh ih =>
    rw [matchClass, if_neg hhigh]
    exact ih.trans ((List.suffix_cons high rest).trans (List.suffix_cons 45 (high :: rest)))
  | case4 => simp_all [matchClass]
  | case5 =>
    simp_all [matchClass]
    exact List.IsSuffix.trans ‹_› (List.suffix_cons _ _)

/-- A class that takes a byte has members. -/
theorem matchClass_shrinks {chr : UInt8} {glob : Bytes} (h : (matchClass chr none false glob).1 = true) :
    (matchClass chr none false glob).2.length < glob.length := by
  cases glob with
  | nil => simp [matchClass] at h
  | cons c rest =>
    by_cases hend : c = 93
    · simp [matchClass, hend] at h
    · have hclass : matchClass chr none false (c :: rest) =
          matchClass chr (some c) (chr = c) rest := by
        simp [matchClass, hend]
      rw [hclass]
      exact (Cursor.matchClass_length chr _ _ rest).trans_lt (by simp)

/-- How a turn takes a byte of the text when nothing is saved and no star comes: one byte of the
pattern that opens neither a class nor an escape, or more than one byte. -/
def Takes (glob glob' : Bytes) : Prop :=
  glob' <:+ glob ∧ (glob'.length + 2 ≤ glob.length ∨ ∃ b, glob = b :: glob' ∧ b ≠ 91 ∧ b ≠ 92)

/-- The outcome of a turn when nothing is saved and no star comes: it refuses the text, or it takes
a byte of it. -/
def Steps (text glob : Bytes) (turn : Turn) : Prop :=
  turn = .decided false ∨ ∃ glob', turn = .moved ⟨text, glob', none, none⟩ ∧ Takes glob glob'

/-- A class takes one character of the text. -/
theorem steps_class {chr : UInt8} {text text' glob rest : Bytes} {reverse : Bool}
    (hrest : rest <:+ glob) (hshorter : rest.length < glob.length)
    (hreverse : reverse = true → rest.length + 2 ≤ glob.length) :
    Steps text glob (Cursor.classTurn ⟨text', glob, none, none⟩ chr text reverse rest) := by
  have hsuffix := matchClass_suffix chr none false rest
  have hlength := Cursor.matchClass_length chr none false rest
  unfold Cursor.classTurn
  split
  next matched left hclass =>
  rw [hclass] at hsuffix hlength
  split_ifs with hmatched
  · exact Or.inl rfl
  · refine Or.inr ⟨left.drop 1, rfl, ((List.drop_suffix 1 left).trans hsuffix).trans hrest, Or.inl ?_⟩
    rw [List.length_drop]
    dsimp only at hlength
    cases reverse with
    | true =>
      have hlonger := hreverse rfl
      omega
    | false =>
      have hmem : (matchClass chr none false rest).1 = true := by
        rw [hclass]
        simpa using hmatched
      have hshrinks := matchClass_shrinks hmem
      rw [hclass] at hshrinks
      dsimp only at hshrinks
      omega

/-- Every turn refuses the text or takes a byte. -/
theorem turn_steps {chr : UInt8} {text text' glob : Bytes} (hstar : ∀ b ∈ glob, b ≠ 42) :
    Steps text glob (Cursor.turn ⟨text', glob, none, none⟩ chr text) := by
  unfold Cursor.turn
  split
  · exact absurd rfl (hstar 42 (by simp_all))
  · exact absurd rfl (hstar 42 (by simp_all))
  · exact absurd rfl (hstar 42 (by simp_all))
  · next rest hglob =>
    dsimp only at hglob
    subst hglob
    split_ifs with hslash
    · exact Or.inl rfl
    · exact Or.inr ⟨rest, rfl, List.suffix_cons _ _, Or.inr ⟨63, rfl, by decide, by decide⟩⟩
  · next rest hglob =>
    dsimp only at hglob
    subst hglob
    split_ifs with hslash
    · exact Or.inl rfl
    · exact steps_class ((List.suffix_cons 94 rest).trans (List.suffix_cons 91 _)) (by simp)
        fun _ => by simp
  · next rest hglob =>
    dsimp only at hglob
    subst hglob
    split_ifs with hslash
    · exact Or.inl rfl
    · exact steps_class ((List.suffix_cons 33 rest).trans (List.suffix_cons 91 _)) (by simp)
        fun _ => by simp
  · next rest _ _ hglob =>
    dsimp only at hglob
    subst hglob
    split_ifs with hslash
    · exact Or.inl rfl
    · exact steps_class (List.suffix_cons 91 rest) (by simp) (by simp)
  · next rest hglob =>
    dsimp only at hglob
    subst hglob
    cases rest with
    | nil => exact Or.inl rfl
    | cons g rest =>
      simp only [Cursor.literal]
      split_ifs with hchr
      · exact Or.inr ⟨rest, rfl, (List.suffix_cons g rest).trans (List.suffix_cons 92 _),
          Or.inl (by simp)⟩
      · exact Or.inl rfl
  · next hother =>
    cases glob with
    | nil => exact Or.inl rfl
    | cons g rest =>
      simp only [Cursor.literal]
      split_ifs with hchr
      · refine Or.inr ⟨rest, rfl, List.suffix_cons _ _, Or.inr ⟨g, rfl, ?_, ?_⟩⟩
        · rintro rfl
          simp_all
        · rintro rfl
          simp_all
      · exact Or.inl rfl

/-- A text that a pattern without stars matches is not longer than the pattern, and shorter when
the pattern has a class or an escape. -/
theorem matchPlain_length {text glob : Bytes} (hstar : ∀ b ∈ glob, b ≠ 42)
    (h : matchPlain text glob = true) : text.length ≤ glob.length ∧
      (text.length = glob.length → ∀ b ∈ glob, b ≠ 91 ∧ b ≠ 92) := by
  induction text generalizing glob with
  | nil =>
    refine ⟨by simp, fun hlength => ?_⟩
    obtain rfl : glob = [] := by simpa [eq_comm] using hlength
    simp
  | cons chr text ih =>
    unfold matchPlain at h
    have hsteps : Steps text glob (Cursor.turn ⟨chr :: text, glob, none, none⟩ chr text) :=
      turn_steps hstar
    rcases hsteps with hturn | ⟨glob', hturn, hsuffix, htaken⟩
    · rw [matchLoop_decided _ rfl hturn] at h
      cases h
    · rw [matchLoop_moved _ (ok_start _ _) rfl hturn] at h
      obtain ⟨hle, hshape⟩ := ih (fun b hb => hstar b (hsuffix.subset hb)) h
      rcases htaken with hmore | ⟨b, rfl, hclass, hescape⟩
      · refine ⟨by simp only [List.length_cons]; omega, fun hlength => ?_⟩
        simp only [List.length_cons] at hlength
        omega
      · refine ⟨by simpa using hle, fun hlength => ?_⟩
        intro b' hb'
        rcases List.mem_cons.mp hb' with rfl | hb'
        · exact ⟨hclass, hescape⟩
        · exact hshape (by simpa using hlength) b' hb'

/-- A pattern byte other than `?` that the matcher compares as it is, or a `?`. -/
def isSimple (b : UInt8) : Bool := b ≠ 42 && b ≠ 91 && b ≠ 92

/-- An `x` for a `?`. -/
def fillByte (b : UInt8) : UInt8 := if b = 63 then 120 else b

/-- The text with an `x` for every `?`. -/
def fillAny (glob : Bytes) : Bytes := glob.map fillByte

/-- It is matched. -/
theorem matchPlain_fillAny {glob : Bytes} (hsimple : ∀ b ∈ glob, isSimple b = true) :
    matchPlain (fillAny glob) glob = true := by
  induction glob with
  | nil => exact matchPlain_nil []
  | cons g glob ih =>
    have hg := hsimple g List.mem_cons_self
    have hrest := ih fun b hb => hsimple b (List.mem_cons_of_mem g hb)
    by_cases hany : g = 63
    · subst hany
      have hturn : Cursor.turn ⟨120 :: fillAny glob, 63 :: glob, none, none⟩ 120 (fillAny glob) =
          .moved ⟨fillAny glob, glob, none, none⟩ := rfl
      exact (matchLoop_moved _ (ok_start _ _) rfl hturn).trans hrest
    · have hfill : fillAny (g :: glob) = g :: fillAny glob := by simp [fillAny, fillByte, hany]
      have hliteral : isLiteral g = true := by
        simp only [isSimple, Bool.and_eq_true, decide_eq_true_eq] at hg
        simp [isLiteral, hg, hany]
      rw [hfill, matchPlain_literal hliteral, hrest]
      simp

/-- A byte other than `?` stays. -/
theorem fillByte_of_ne {b : UInt8} (h : b ≠ 63) : fillByte b = b := if_neg h

/-- A continuation byte is kept. -/
theorem fillByte_of_isContinuation {b : UInt8} (h : isContinuation b = true) : fillByte b = b := by
  refine fillByte_of_ne ?_
  rintro rfl
  exact absurd h (by decide)

/-- Filling keeps the bytes that continue a code point. -/
theorem isContinuation_fillByte (b : UInt8) : isContinuation (fillByte b) = isContinuation b := by
  by_cases h : b = 63
  · subst h
    decide
  · rw [fillByte_of_ne h]

/-- Filling keeps the ends of the code points. -/
theorem endsCodepoint_fillAny (l : Bytes) : endsCodepoint (fillAny l) = endsCodepoint l := by
  cases l with
  | nil => rfl
  | cons b rest => simp [fillAny, endsCodepoint, isContinuation_fillByte]

/-- Filling goes byte by byte. -/
theorem fillAny_cons (b : UInt8) (l : Bytes) : fillAny (b :: l) = fillByte b :: fillAny l := rfl

/-- A byte that the filling tells from no other stays what it is. -/
theorem fillByte_eq_iff {b c : UInt8} (h : c ≠ 63) (h' : c ≠ 120) : fillByte b = c ↔ b = c := by
  by_cases hb : b = 63
  · subst hb
    simp [fillByte, h.symm, h'.symm]
  · rw [fillByte_of_ne hb]

/-- The filled text has the same code points, but for the `?`. -/
theorem codepoints_fillAny {l : Bytes} (h : utf8nvalid l = true) :
    utf8nvalid (fillAny l) = true ∧ (noControls l = true → noControls (fillAny l) = true) := by
  induction hlength : l.length using Nat.strong_induction_on generalizing l with
  | _ n ih =>
    subst hlength
    cases l with
    | nil => exact ⟨rfl, id⟩
    | cons b rest =>
      unfold utf8nvalid at h
      split_ifs at h with hb hlead4 hlead3 hlead2 hascii
      · split at h
        · next b1 b2 b3 tail =>
          simp only [Bool.and_eq_true] at h
          obtain ⟨⟨⟨⟨⟨h1, h2⟩, h3⟩, hends⟩, hlong⟩, htail⟩ := h
          obtain ⟨htail', hcontrols⟩ := ih _ (by simp only [List.length_cons]; omega) htail rfl
          have hkept : fillByte b = b := fillByte_of_ne (by rintro rfl; exact absurd hlead4 (by decide))
          simp only [fillAny_cons, hkept, fillByte_of_isContinuation h1, fillByte_of_isContinuation h2,
            fillByte_of_isContinuation h3]
          constructor
          · rw [utf8nvalid.eq_def]
            simp only [hb, hlead4, Bool.false_eq_true, if_false, if_true, Bool.and_eq_true, endsCodepoint_fillAny]
            exact ⟨⟨⟨⟨⟨h1, h2⟩, h3⟩, hends⟩, hlong⟩, htail'⟩
          · rw [noControls.eq_def, noControls.eq_def (b :: _)]
            simp only [hlead4, if_true, Bool.and_eq_true]
            exact And.imp_right hcontrols
        · cases h
      · split at h
        · next b1 b2 tail =>
          simp only [Bool.and_eq_true] at h
          obtain ⟨⟨⟨⟨h1, h2⟩, hends⟩, hlong⟩, htail⟩ := h
          obtain ⟨htail', hcontrols⟩ := ih _ (by simp only [List.length_cons]; omega) htail rfl
          have hkept : fillByte b = b := fillByte_of_ne (by rintro rfl; exact absurd hlead3 (by decide))
          simp only [fillAny_cons, hkept, fillByte_of_isContinuation h1, fillByte_of_isContinuation h2]
          constructor
          · rw [utf8nvalid.eq_def]
            simp only [hb, hlead4, hlead3, Bool.false_eq_true, if_false, if_true, Bool.and_eq_true, endsCodepoint_fillAny]
            exact ⟨⟨⟨⟨h1, h2⟩, hends⟩, hlong⟩, htail'⟩
          · rw [noControls.eq_def, noControls.eq_def (b :: _)]
            simp only [hlead4, hlead3, Bool.false_eq_true, if_false, if_true, Bool.and_eq_true]
            exact And.imp_right hcontrols
        · cases h
      · split at h
        · next b1 tail =>
          simp only [Bool.and_eq_true] at h
          obtain ⟨⟨⟨h1, hends⟩, hlong⟩, htail⟩ := h
          obtain ⟨htail', hcontrols⟩ := ih _ (by simp only [List.length_cons]; omega) htail rfl
          have hkept : fillByte b = b := fillByte_of_ne (by rintro rfl; exact absurd hlead2 (by decide))
          simp only [fillAny_cons, hkept, fillByte_of_isContinuation h1]
          constructor
          · rw [utf8nvalid.eq_def]
            simp only [hb, hlead4, hlead3, hlead2, Bool.false_eq_true, if_false, if_true,
              Bool.and_eq_true, endsCodepoint_fillAny]
            exact ⟨⟨⟨h1, hends⟩, hlong⟩, htail'⟩
          · rw [noControls.eq_def, noControls.eq_def (b :: _)]
            simp only [hlead4, hlead3, hlead2, Bool.false_eq_true, if_false, if_true, Bool.and_eq_true]
            exact And.imp_right hcontrols
        · cases h
      · obtain ⟨htail', hcontrols⟩ := ih _ (by simp only [List.length_cons]; omega) h rfl
        rw [fillAny_cons]
        by_cases hany : b = 63
        · subst hany
          have hvalid : utf8nvalid (120 :: fillAny rest) = utf8nvalid (fillAny rest) := by
            rw [utf8nvalid.eq_def]
            rfl
          have hfill : noControls (120 :: fillAny rest) = noControls (fillAny rest) := by
            rw [noControls.eq_def]
            rfl
          have hany : noControls (63 :: rest) = noControls rest := by
            rw [noControls.eq_def]
            rfl
          have hx : fillByte 63 = 120 := rfl
          rw [hx, hvalid, hfill, hany]
          exact ⟨htail', hcontrols⟩
        · rw [fillByte_of_ne hany]
          constructor
          · rw [utf8nvalid.eq_def]
            simpa only [hb, hlead4, hlead3, hlead2, hascii, Bool.false_eq_true, if_false, if_true]
              using htail'
          · rw [noControls.eq_def, noControls.eq_def (b :: _)]
            simp only [hlead4, hlead3, hlead2, Bool.false_eq_true, if_false, Bool.and_eq_true]
            exact And.imp_right hcontrols

/-- Filling makes no double slash. -/
theorem hasDoubleSlash_fillAny (l : Bytes) : hasDoubleSlash (fillAny l) = hasDoubleSlash l := by
  have hslash : ∀ b, (fillByte b == 47) = (b == 47) := by
    intro b
    rw [Bool.eq_iff_iff, beq_iff_eq, beq_iff_eq]
    exact fillByte_eq_iff (by decide) (by decide)
  induction l with
  | nil => rfl
  | cons a l ih =>
    cases l with
    | nil => rfl
    | cons b l =>
      simp only [fillAny_cons, hasDoubleSlash, hslash] at ih ⊢
      rw [ih]

/-- The filled text of a valid key is a valid key. -/
theorem isValidKey_fillAny {k : Key} (h : isValidKey k = true) : isValidKey (fillAny k) = true := by
  simp only [isValidKey, Bool.and_eq_true, Bool.not_eq_true', bne_iff_ne, ne_eq] at h ⊢
  obtain ⟨⟨⟨⟨⟨⟨hempty, hhead⟩, hlast⟩, hslash⟩, hnul⟩, hutf8⟩, hcontrols⟩ := h
  obtain ⟨hutf8', hcontrols'⟩ := codepoints_fillAny hutf8
  have hspace : ∀ o : Option UInt8, o ≠ some 32 → o.map fillByte ≠ some 32 := by
    rintro o ho hmap
    obtain ⟨b, rfl, hb⟩ := Option.map_eq_some_iff.mp hmap
    exact ho (congrArg some ((fillByte_eq_iff (by decide) (by decide)).mp hb))
  refine ⟨⟨⟨⟨⟨⟨?_, ?_⟩, ?_⟩, ?_⟩, ?_⟩, hutf8'⟩, hcontrols' hcontrols⟩
  · simpa [fillAny] using hempty
  · rw [fillAny, List.head?_map]
    exact hspace _ hhead
  · rw [fillAny, List.getLast?_map]
    exact hspace _ hlast
  · rw [hasDoubleSlash_fillAny, hslash]
  · rw [List.contains_eq_mem, decide_eq_false_iff_not] at hnul ⊢
    intro hmem
    obtain ⟨b, hb, hzero⟩ := List.mem_map.mp hmem
    rw [fillByte_eq_iff (by decide) (by decide)] at hzero
    exact hnul (hzero ▸ hb)

end Nplex.Match
