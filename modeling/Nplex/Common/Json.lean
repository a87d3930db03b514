import Nplex.Common.Decimal
import Nplex.Common.Utf8

/-!
# JSON texts

The grammar of JSON over bytes, as a relation between a value and its texts, and a reader.
Strings are kept as the bytes that their characters and escapes stand for, numbers as they are
written. An escaped surrogate counts only as one of a pair. The reader accepts every text of the
grammar and gives back its value, so that a text has one value.
-/

namespace Nplex.Common

/-- A JSON value. -/
inductive Json
  | null
  | bool (value : Bool)
  | number (literal : List UInt8)
  | string (content : List UInt8)
  | array (items : List Json)
  | object (members : List (List UInt8 × Json))

namespace Json

/-- Whitespace between tokens. -/
def isBlank (b : UInt8) : Bool := b == 0x20 || b == 0x09 || b == 0x0a || b == 0x0d

/-- A text of whitespace only. -/
def Blank (w : List UInt8) : Prop := ∀ b ∈ w, isBlank b = true

/-- A character that a string holds unescaped: no control, no quote and no backslash. -/
def isPlain (b : UInt8) : Bool := 0x20 ≤ b && b != 0x22 && b != 0x5c

/-- What a letter after a backslash stands for. -/
def escapeValue (e : UInt8) : Option UInt8 :=
  if e == 0x22 || e == 0x5c || e == 0x2f then some e
  else if e == 0x62 then some 0x08
  else if e == 0x66 then some 0x0c
  else if e == 0x6e then some 0x0a
  else if e == 0x72 then some 0x0d
  else if e == 0x74 then some 0x09
  else none

/-- The number of a hexadecimal digit. -/
def hexValue (b : UInt8) : Option ℕ :=
  if isDigit b then some (b.toNat - 48)
  else if 0x61 ≤ b && b ≤ 0x66 then some (b.toNat - 87)
  else if 0x41 ≤ b && b ≤ 0x46 then some (b.toNat - 55)
  else none

/-- The number of four hexadecimal digits. -/
def codeUnit (a b c d : UInt8) : Option ℕ := do
  let a ← hexValue a
  let b ← hexValue b
  let c ← hexValue c
  let d ← hexValue d
  some (((a * 16 + b) * 16 + c) * 16 + d)

/-- The first half of a surrogate pair. -/
def isHigh (n : ℕ) : Bool := 0xd800 ≤ n && n < 0xdc00

/-- The second half of a surrogate pair. -/
def isLow (n : ℕ) : Bool := 0xdc00 ≤ n && n < 0xe000

/-- The code point of a surrogate pair. -/
def ofPair (high low : ℕ) : ℕ := 0x10000 + (high - 0xd800) * 0x400 + (low - 0xdc00)

/-- The characters of a string between its quotes, and the bytes they stand for. -/
inductive Chars : List UInt8 → List UInt8 → Prop
  | nil : Chars [] []
  | plain {b : UInt8} {t s : List UInt8} (hb : isPlain b = true) (ht : Chars t s) :
      Chars (b :: t) (b :: s)
  | escape {e b : UInt8} {t s : List UInt8} (he : escapeValue e = some b) (ht : Chars t s) :
      Chars (0x5c :: e :: t) (b :: s)
  | unicode {a b c d : UInt8} {n : ℕ} {t s : List UInt8} (hn : codeUnit a b c d = some n)
      (hhigh : isHigh n = false) (hlow : isLow n = false) (ht : Chars t s) :
      Chars (0x5c :: 0x75 :: a :: b :: c :: d :: t) (Utf8.encode n ++ s)
  | pair {a b c d a' b' c' d' : UInt8} {n m : ℕ} {t s : List UInt8}
      (hn : codeUnit a b c d = some n) (hhigh : isHigh n = true)
      (hm : codeUnit a' b' c' d' = some m) (hlow : isLow m = true) (ht : Chars t s) :
      Chars (0x5c :: 0x75 :: a :: b :: c :: d :: 0x5c :: 0x75 :: a' :: b' :: c' :: d' :: t)
        (Utf8.encode (ofPair n m) ++ s)

/-- How far a number is written. -/
inductive NumberPart
  | start
  | minus
  | zero
  | integer
  | point
  | fraction
  | exponent
  | sign
  | power
  deriving DecidableEq, Repr

namespace NumberPart

/-- The first digit of a number; a zero stands alone. -/
def firstDigit (b : UInt8) : Option NumberPart :=
  if b == 0x30 then some .zero else if isDigit b then some .integer else none

/-- The exponent may follow. -/
def startsExponent (b : UInt8) : Option NumberPart :=
  if b == 0x65 || b == 0x45 then some .exponent else none

/-- The fraction or the exponent may follow. -/
def afterInteger (b : UInt8) : Option NumberPart :=
  if b == 0x2e then some .point else startsExponent b

/-- One more character of a number. -/
def next : NumberPart → UInt8 → Option NumberPart
  | start, b => if b == 0x2d then some minus else firstDigit b
  | minus, b => firstDigit b
  | zero, b => afterInteger b
  | integer, b => if isDigit b then some integer else afterInteger b
  | point, b => if isDigit b then some fraction else none
  | fraction, b => if isDigit b then some fraction else startsExponent b
  | exponent, b =>
    if b == 0x2b || b == 0x2d then some sign else if isDigit b then some power else none
  | sign, b => if isDigit b then some power else none
  | power, b => if isDigit b then some power else none

/-- The number may end. -/
def complete : NumberPart → Bool
  | zero | integer | fraction | power => true
  | start | minus | point | exponent | sign => false

/-- The characters of a number from some part on. -/
def accepts : NumberPart → List UInt8 → Bool
  | part, [] => part.complete
  | part, b :: rest =>
    match part.next b with
    | some part' => part'.accepts rest
    | none => false

end NumberPart

/-- A number as it is written. -/
def isNumber (literal : List UInt8) : Bool := NumberPart.start.accepts literal

/-- The value of a bare word: one of the three names, or a number. -/
def scalar (word : List UInt8) : Option Json :=
  if word = [0x6e, 0x75, 0x6c, 0x6c] then some .null
  else if word = [0x74, 0x72, 0x75, 0x65] then some (.bool true)
  else if word = [0x66, 0x61, 0x6c, 0x73, 0x65] then some (.bool false)
  else if isNumber word then some (.number word)
  else none

/-- The parts of a JSON text. -/
inductive Part
  | value (j : Json)
  /-- A value with whitespace around it. -/
  | element (j : Json)
  /-- The items of an array, at least one. -/
  | items (js : List Json)
  | member (name : List UInt8) (j : Json)
  /-- The members of an object, at least one. -/
  | members (ms : List (List UInt8 × Json))

/-- The texts of a part: the grammar of JSON. -/
inductive Text : Part → List UInt8 → Prop
  | scalar {word : List UInt8} {j : Json} (hword : Json.scalar word = some j) :
      Text (.value j) word
  | string {t s : List UInt8} (ht : Chars t s) : Text (.value (.string s)) (0x22 :: (t ++ [0x22]))
  | emptyArray {w : List UInt8} (hw : Blank w) : Text (.value (.array [])) (0x5b :: (w ++ [0x5d]))
  | array {js : List Json} {t : List UInt8} (ht : Text (.items js) t) :
      Text (.value (.array js)) (0x5b :: (t ++ [0x5d]))
  | emptyObject {w : List UInt8} (hw : Blank w) :
      Text (.value (.object [])) (0x7b :: (w ++ [0x7d]))
  | object {ms : List (List UInt8 × Json)} {t : List UInt8} (ht : Text (.members ms) t) :
      Text (.value (.object ms)) (0x7b :: (t ++ [0x7d]))
  | element {j : Json} {w t w' : List UInt8} (hw : Blank w) (ht : Text (.value j) t)
      (hw' : Blank w') : Text (.element j) (w ++ (t ++ w'))
  | lastItem {j : Json} {t : List UInt8} (ht : Text (.element j) t) : Text (.items [j]) t
  | item {j : Json} {js : List Json} {t t' : List UInt8} (ht : Text (.element j) t)
      (ht' : Text (.items js) t') : Text (.items (j :: js)) (t ++ 0x2c :: t')
  | member {name n w w' t : List UInt8} {j : Json} (hw : Blank w) (hn : Chars n name)
      (hw' : Blank w') (ht : Text (.element j) t) :
      Text (.member name j) (w ++ 0x22 :: (n ++ 0x22 :: (w' ++ 0x3a :: t)))
  | lastMember {name t : List UInt8} {j : Json} (ht : Text (.member name j) t) :
      Text (.members [(name, j)]) t
  | moreMembers {name t t' : List UInt8} {j : Json} {ms : List (List UInt8 × Json)}
      (ht : Text (.member name j) t) (ht' : Text (.members ms) t') :
      Text (.members ((name, j) :: ms)) (t ++ 0x2c :: t')

/-! ## The reader -/

/-- A character of a bare word. -/
def isWordByte (b : UInt8) : Bool :=
  isDigit b || (0x61 ≤ b && b ≤ 0x7a) || b == 0x2b || b == 0x2d || b == 0x2e || b == 0x45

/-- Pass over whitespace. -/
def skip (t : List UInt8) : List UInt8 := t.dropWhile isBlank

/-- Read a bare word, as long as it goes on. -/
def readScalar (t : List UInt8) : Option (Json × List UInt8) :=
  (scalar (t.takeWhile isWordByte)).map fun j => (j, t.dropWhile isWordByte)

/-- Put bytes before the content of a string that has been read. -/
def prepend (bytes : List UInt8) (r : List UInt8 × List UInt8) : List UInt8 × List UInt8 :=
  (bytes ++ r.1, r.2)

/-- Read the characters of a string and its closing quote. -/
def readChars : List UInt8 → Option (List UInt8 × List UInt8)
  | [] => none
  | b :: t =>
    if b == 0x22 then some ([], t)
    else if b == 0x5c then
      match t with
      | [] => none
      | e :: t =>
        if e == 0x75 then
          match t with
          | a :: b :: c :: d :: t =>
            match codeUnit a b c d with
            | none => none
            | some n =>
              if isHigh n then
                match t with
                | 0x5c :: 0x75 :: a :: b :: c :: d :: t =>
                  match codeUnit a b c d with
                  | none => none
                  | some m =>
                    if isLow m then (readChars t).map (prepend (Utf8.encode (ofPair n m)))
                    else none
                | _ => none
              else if isLow n then none
              else (readChars t).map (prepend (Utf8.encode n))
          | _ => none
        else
          match escapeValue e with
          | none => none
          | some v => (readChars t).map (prepend [v])
    else if isPlain b then (readChars t).map (prepend [b])
    else none

section Sequences

variable {A : Type}

/-- Read with whitespace around. -/
def spaced (read : List UInt8 → Option (A × List UInt8)) (t : List UInt8) :
    Option (A × List UInt8) :=
  (read (skip t)).map fun (a, t) => (a, skip t)

/-- Read what commas separate, up to a closing bracket; the number bounds how many there are. -/
def readList (read : List UInt8 → Option (A × List UInt8)) (close : UInt8) :
    ℕ → List UInt8 → Option (List A × List UInt8)
  | 0, _ => none
  | k + 1, t =>
    match read t with
    | some (a, b :: t) =>
      if b == 0x2c then (readList read close k t).map fun (as, t) => (a :: as, t)
      else if b == close then some ([a], t)
      else none
    | _ => none

/-- Read what brackets hold, after the opening one. -/
def readBracketed (read : List UInt8 → Option (A × List UInt8)) (close : UInt8)
    (t : List UInt8) : Option (List A × List UInt8) :=
  match skip t with
  | [] => none
  | b :: rest => if b == close then some ([], rest) else readList read close t.length t

/-- Read a name, the colon and what it names. -/
def readMember (read : List UInt8 → Option (A × List UInt8)) (t : List UInt8) :
    Option ((List UInt8 × A) × List UInt8) :=
  match skip t with
  | 0x22 :: t =>
    match readChars t with
    | some (name, t) =>
      match skip t with
      | 0x3a :: t => (spaced read t).map fun (a, t) => ((name, a), t)
      | _ => none
    | none => none
  | _ => none

end Sequences

/-- Read a value; the number bounds how deep it is nested. -/
def readValue : ℕ → List UInt8 → Option (Json × List UInt8)
  | 0, _ => none
  | _ + 1, [] => none
  | k + 1, b :: t =>
    if b == 0x22 then (readChars t).map fun (s, t) => (.string s, t)
    else if b == 0x5b then
      (readBracketed (spaced (readValue k)) 0x5d t).map fun (js, t) => (.array js, t)
    else if b == 0x7b then
      (readBracketed (readMember (readValue k)) 0x7d t).map fun (ms, t) => (.object ms, t)
    else readScalar (b :: t)

/-- The value of a whole text. A text is never shorter than its value is nested. -/
def parse (t : List UInt8) : Option Json :=
  match spaced (readValue t.length) t with
  | some (j, []) => some j
  | _ => none

/-! ## The reader accepts the grammar -/

variable {j : Json} {t s w rest : List UInt8}

/-- What follows a value: not a bare word. -/
def Ends (rest : List UInt8) : Prop := ∀ b ∈ rest.head?, isWordByte b = false

/-- What follows an element: neither a bare word nor whitespace. -/
def Closes (rest : List UInt8) : Prop :=
  ∀ b ∈ rest.head?, isWordByte b = false ∧ isBlank b = false

/-- What closes a value ends a word. -/
theorem Closes.ends (h : Closes rest) : Ends rest := fun b hb => (h b hb).1

/-- A byte that is neither of a word nor blank closes a value. -/
theorem closes_cons {b : UInt8} (hword : isWordByte b = false) (hblank : isBlank b = false)
    (rest : List UInt8) : Closes (b :: rest) := by
  intro c hc
  rw [List.head?_cons, Option.mem_some_iff] at hc
  rw [← hc]
  exact ⟨hword, hblank⟩

/-- Whitespace does not carry a bare word on. -/
theorem Ends.blank (h : Ends rest) (hw : Blank w) : Ends (w ++ rest) := by
  cases w with
  | nil => exact h
  | cons b w =>
    intro c hc
    rw [List.cons_append, List.head?_cons, Option.mem_some_iff] at hc
    have hblank := hw b List.mem_cons_self
    rw [hc] at hblank
    simp only [isBlank, Bool.or_eq_true, beq_iff_eq] at hblank
    rcases hblank with ((rfl | rfl) | rfl) | rfl <;> rfl

namespace NumberPart

variable {p p' : NumberPart} {b : UInt8}

/-- Digits are bytes of words. -/
theorem isWordByte_of_isDigit (h : isDigit b = true) : isWordByte b = true := by
  simp [isWordByte, h]

/-- So are the first digits of numbers. -/
theorem isWordByte_of_firstDigit (h : firstDigit b = some p) : isWordByte b = true := by
  unfold firstDigit at h
  split_ifs at h with hzero hdigit
  · rw [eq_of_beq hzero]
    rfl
  · exact isWordByte_of_isDigit hdigit

/-- So is the start of an exponent. -/
theorem isWordByte_of_startsExponent (h : startsExponent b = some p) : isWordByte b = true := by
  unfold startsExponent at h
  split_ifs at h with hb
  simp only [Bool.or_eq_true, beq_iff_eq] at hb
  rcases hb with rfl | rfl <;> rfl

/-- So is what follows an integer part. -/
theorem isWordByte_of_afterInteger (h : afterInteger b = some p) : isWordByte b = true := by
  unfold afterInteger at h
  split_ifs at h with hb
  · rw [eq_of_beq hb]
    rfl
  · exact isWordByte_of_startsExponent h

/-- The characters of a number may stand in a bare word. -/
theorem isWordByte_of_next (h : p.next b = some p') : isWordByte b = true := by
  cases p with
  | zero => exact isWordByte_of_afterInteger h
  | minus => exact isWordByte_of_firstDigit h
  | start =>
    simp only [next] at h
    split_ifs at h with hb
    · rw [eq_of_beq hb]
      rfl
    · exact isWordByte_of_firstDigit h
  | integer =>
    simp only [next] at h
    split_ifs at h with hb
    · exact isWordByte_of_isDigit hb
    · exact isWordByte_of_afterInteger h
  | fraction =>
    simp only [next] at h
    split_ifs at h with hb
    · exact isWordByte_of_isDigit hb
    · exact isWordByte_of_startsExponent h
  | exponent =>
    simp only [next] at h
    split_ifs at h with hsign hb
    · simp only [Bool.or_eq_true, beq_iff_eq] at hsign
      rcases hsign with rfl | rfl <;> rfl
    · exact isWordByte_of_isDigit hb
  | point | sign | power =>
    simp only [next] at h
    split_ifs at h with hb
    exact isWordByte_of_isDigit hb

/-- So are all the bytes of an accepted number. -/
theorem isWordByte_of_accepts (h : p.accepts w = true) : ∀ b ∈ w, isWordByte b = true := by
  induction w generalizing p with
  | nil => simp
  | cons b w ih =>
    unfold accepts at h
    split at h
    · next p' hnext =>
      intro c hc
      rcases List.mem_cons.mp hc with rfl | hc
      · exact isWordByte_of_next hnext
      · exact ih h c hc
    · exact absurd h Bool.false_ne_true

end NumberPart

/-- A scalar is a word. -/
theorem scalar_word (h : scalar w = some j) : w ≠ [] ∧ ∀ b ∈ w, isWordByte b = true := by
  unfold scalar at h
  split_ifs at h with h1 h2 h3 h4
  · rw [h1]
    exact ⟨List.cons_ne_nil _ _, List.all_eq_true.mp rfl⟩
  · rw [h2]
    exact ⟨List.cons_ne_nil _ _, List.all_eq_true.mp rfl⟩
  · rw [h3]
    exact ⟨List.cons_ne_nil _ _, List.all_eq_true.mp rfl⟩
  · refine ⟨?_, NumberPart.isWordByte_of_accepts h4⟩
    rintro rfl
    exact absurd h4 (by decide)

/-- A scalar is read up to the end of its word. -/
theorem readScalar_append (h : scalar w = some j) (hrest : Ends rest) :
    readScalar (w ++ rest) = some (j, rest) := by
  have hword := (scalar_word h).2
  have hnone : rest.takeWhile isWordByte = [] ∧ rest.dropWhile isWordByte = rest := by
    cases rest with
    | nil => exact ⟨rfl, rfl⟩
    | cons b rest =>
      have hb := hrest b rfl
      exact ⟨by simp [hb], by simp [hb]⟩
  unfold readScalar
  rw [List.takeWhile_append_of_pos hword, List.dropWhile_append_of_pos hword, hnone.1, hnone.2,
    List.append_nil, h]
  rfl

/-- Blanks are skipped up to the first byte that is none. -/
theorem skip_append (hw : Blank w) (ht : ∀ b ∈ t.head?, isBlank b = false) : skip (w ++ t) = t := by
  unfold skip
  rw [List.dropWhile_append_of_pos hw]
  cases t with
  | nil => rfl
  | cons b t => simp [ht b rfl]

/-- Such a byte stays. -/
theorem skip_cons {b : UInt8} (hw : Blank w) (hb : isBlank b = false) :
    skip (w ++ b :: t) = b :: t := by
  refine skip_append hw fun c hc => ?_
  rw [List.head?_cons, Option.mem_some_iff] at hc
  rwa [← hc]

/-- The reader of strings gives back what the characters stand for. -/
theorem readChars_append (h : Chars t s) (rest : List UInt8) :
    readChars (t ++ 0x22 :: rest) = some (s, rest) := by
  induction h with
  | nil =>
    rw [List.nil_append]
    unfold readChars
    rfl
  | plain hb ht ih =>
    have hne := hb
    simp only [isPlain, Bool.and_eq_true, bne_iff_ne, decide_eq_true_eq] at hne
    rw [List.cons_append]
    unfold readChars
    simp [hne.1.2, hne.2, hb, ih, prepend]
  | @escape e b t s he ht ih =>
    have hu : e ≠ 0x75 := by
      rintro rfl
      simp [escapeValue] at he
    rw [List.cons_append, List.cons_append]
    unfold readChars
    simp [hu, he, ih, prepend]
  | unicode hn hhigh hlow ht ih =>
    simp only [List.cons_append]
    unfold readChars
    simp [hn, hhigh, hlow, ih, prepend]
  | pair hn hhigh hm hlow ht ih =>
    simp only [List.cons_append]
    unfold readChars
    simp [hn, hhigh, hm, hlow, ih, prepend]

/-- Where a text starts: after whitespace, which a value does not have, with a byte that closes
no bracket. -/
theorem Text.start {p : Part} (h : Text p t) :
    ∃ w b t', t = w ++ b :: t' ∧ Blank w ∧ (∀ j, p = .value j → w = []) ∧ isBlank b = false ∧
      b ≠ 0x5d ∧ b ≠ 0x7d := by
  have hnil : Blank [] := fun b hb => absurd hb List.not_mem_nil
  induction h with
  | @scalar word j hword =>
    obtain ⟨hne, hbytes⟩ := scalar_word hword
    cases word with
    | nil => exact absurd rfl hne
    | cons b word =>
      have hb := hbytes b List.mem_cons_self
      refine ⟨[], b, word, rfl, hnil, fun _ _ => rfl, ?_, ?_, ?_⟩
      · by_contra hblank
        rw [Bool.not_eq_false] at hblank
        simp only [isBlank, Bool.or_eq_true, beq_iff_eq] at hblank
        rcases hblank with ((rfl | rfl) | rfl) | rfl <;> exact absurd hb (by decide)
      · rintro rfl
        exact absurd hb (by decide)
      · rintro rfl
        exact absurd hb (by decide)
  | string | emptyArray | array | emptyObject | object =>
    exact ⟨[], _, _, rfl, hnil, fun _ _ => rfl, by decide, by decide, by decide⟩
  | @element j w t w' hw ht hw' ih =>
    obtain ⟨w₀, b, t', rfl, hw₀, -, hb⟩ := ih
    refine ⟨w ++ w₀, b, t' ++ w', by simp, fun c hc => ?_, nofun, hb⟩
    rcases List.mem_append.mp hc with hc | hc
    · exact hw c hc
    · exact hw₀ c hc
  | lastItem ht ih | lastMember ht ih =>
    obtain ⟨w, b, t', rfl, hw, -, hb⟩ := ih
    exact ⟨w, b, t', rfl, hw, nofun, hb⟩
  | item ht ht' ih _ | moreMembers ht ht' ih _ =>
    obtain ⟨w, b, t', rfl, hw, -, hb⟩ := ih
    exact ⟨w, b, _, List.append_assoc _ _ _, hw, nofun, hb⟩
  | member hw hn hw' ht ih =>
    exact ⟨_, 0x22, _, rfl, hw, nofun, by decide, by decide, by decide⟩

section Sequences

variable {A : Type} {read : List UInt8 → Option (A × List UInt8)} {a : A} {as : List A}
  {close : UInt8} {k : ℕ}

/-- The last item of a list is followed by its end. -/
theorem readList_last (h : read t = some (a, close :: rest)) (hclose : close ≠ 0x2c) :
    readList read close (k + 1) t = some ([a], rest) := by
  simp [readList, h, hclose]

/-- Any other item is followed by a comma and the rest. -/
theorem readList_more {t' : List UInt8} (h : read t = some (a, 0x2c :: t'))
    (hmore : readList read close k t' = some (as, rest)) :
    readList read close (k + 1) t = some (a :: as, rest) := by
  simp [readList, h, hmore]

/-- Brackets that hold nothing. -/
theorem readBracketed_empty (hw : Blank w) (close : UInt8) (hclose : isBlank close = false) :
    readBracketed read close (w ++ close :: rest) = some ([], rest) := by
  unfold readBracketed
  rw [skip_cons hw hclose]
  simp

/-- Brackets that hold something. -/
theorem readBracketed_list {p : Part} (ht : Text p t)
    (hclose : close = 0x5d ∨ close = 0x7d) :
    readBracketed read close (t ++ rest) = readList read close (t ++ rest).length (t ++ rest) := by
  obtain ⟨w, b, t', rfl, hw, -, hb, hsquare, hcurly⟩ := ht.start
  have hskip : skip (w ++ b :: t' ++ rest) = b :: (t' ++ rest) := by
    rw [List.append_assoc, List.cons_append]
    exact skip_cons hw hb
  have hne : b ≠ close := by
    rcases hclose with rfl | rfl
    · exact hsquare
    · exact hcurly
  unfold readBracketed
  rw [hskip]
  simp [hne]

end Sequences

/-- What the reader makes of the texts of a part, when it may nest as deep as they are long. -/
def Reads : Part → List UInt8 → Prop
  | .value j, t => ∀ k rest, t.length ≤ k → Ends rest → readValue k (t ++ rest) = some (j, rest)
  | .element j, t => ∀ k rest, t.length ≤ k → Closes rest →
      spaced (readValue k) (t ++ rest) = some (j, rest)
  | .items js, t => ∀ k n rest, t.length ≤ k → t.length < n →
      readList (spaced (readValue k)) 0x5d n (t ++ 0x5d :: rest) = some (js, rest)
  | .member name j, t => ∀ k rest, t.length ≤ k → Closes rest →
      readMember (readValue k) (t ++ rest) = some ((name, j), rest)
  | .members ms, t => ∀ k n rest, t.length ≤ k → t.length < n →
      readList (readMember (readValue k)) 0x7d n (t ++ 0x7d :: rest) = some (ms, rest)

/-- An element is read with the blanks around its value. -/
theorem reads_element {w' : List UInt8} (hw : Blank w) (ht : Text (.value j) t) (hw' : Blank w')
    (ih : Reads (.value j) t) : Reads (.element j) (w ++ (t ++ w')) := by
  intro k rest hk hrest
  have hstart : skip (w ++ (t ++ (w' ++ rest))) = t ++ (w' ++ rest) := by
    obtain ⟨w₀, b, t', rfl, -, hw₀, hb, -⟩ := ht.start
    rw [hw₀ j rfl]
    exact skip_cons hw hb
  have hend : skip (w' ++ rest) = rest := skip_append hw' fun b hb => (hrest b hb).2
  simp only [List.length_append] at hk
  unfold spaced
  rw [List.append_assoc, List.append_assoc, hstart, ih k _ (by omega) (hrest.ends.blank hw')]
  simp only [Option.map_some, hend]

/-- What brackets enclose is read with the depth that is left. -/
theorem readBracketed_reads {A : Type} {p : Part} {read : List UInt8 → Option (A × List UInt8)}
    {as : List A} {close : UInt8} (ht : Text p t) (hclose : close = 0x5d ∨ close = 0x7d)
    (ih : ∀ n, t.length < n → readList read close n (t ++ close :: rest) = some (as, rest)) :
    readBracketed read close (t ++ [close] ++ rest) = some (as, rest) := by
  rw [List.append_assoc, List.singleton_append, readBracketed_list ht hclose]
  refine ih _ ?_
  rw [List.length_append, List.length_cons]
  omega

/-- The reader reads the texts of every part. -/
theorem Text.reads {p : Part} (h : Text p t) : Reads p t := by
  induction h with
  | @scalar word j hword =>
    intro k rest hk hrest
    obtain ⟨hne, hbytes⟩ := scalar_word hword
    cases word with
    | nil => exact absurd rfl hne
    | cons b word =>
      have hb := hbytes b List.mem_cons_self
      have hother : ∀ c, isWordByte c = false → (b == c) = false := by
        intro c hc
        rw [beq_eq_false_iff_ne]
        rintro rfl
        rw [hb] at hc
        exact absurd hc (by decide)
      cases k with
      | zero => simp at hk
      | succ k =>
        rw [List.cons_append, readValue, hother 0x22 rfl, hother 0x5b rfl, hother 0x7b rfl,
          ← List.cons_append]
        exact readScalar_append hword hrest
  | @string t s ht =>
    intro k rest hk _
    cases k with
    | zero => simp at hk
    | succ k => simp [readValue, readChars_append ht]
  | @emptyArray w hw =>
    intro k rest hk _
    cases k with
    | zero => simp at hk
    | succ k => simp [readValue, readBracketed_empty hw 0x5d rfl]
  | @array js t ht ih =>
    intro k rest hk _
    cases k with
    | zero => simp at hk
    | succ k =>
      simp only [List.length_cons, List.length_append, List.length_nil] at hk
      have hread := readBracketed_reads ht (.inl rfl) fun n hn => ih k n rest (by omega) hn
      simp only [List.cons_append, readValue, hread]
      rfl
  | @emptyObject w hw =>
    intro k rest hk _
    cases k with
    | zero => simp at hk
    | succ k => simp [readValue, readBracketed_empty hw 0x7d rfl]
  | @object ms t ht ih =>
    intro k rest hk _
    cases k with
    | zero => simp at hk
    | succ k =>
      simp only [List.length_cons, List.length_append, List.length_nil] at hk
      have hread := readBracketed_reads ht (.inr rfl) fun n hn => ih k n rest (by omega) hn
      simp only [List.cons_append, readValue, hread]
      rfl
  | element hw ht hw' ih => exact reads_element hw ht hw' ih
  | @lastItem j t ht ih =>
    intro k n rest hk hn
    cases n with
    | zero => omega
    | succ n => exact readList_last (ih k _ hk (closes_cons rfl rfl rest)) (by decide)
  | @item j js t t' ht ht' ih ih' =>
    intro k n rest hk hn
    rw [List.length_append, List.length_cons] at hk hn
    cases n with
    | zero => omega
    | succ n =>
      rw [List.append_assoc]
      exact readList_more (ih k _ (by omega) (closes_cons rfl rfl _))
        (ih' k n rest (by omega) (by omega))
  | @member name n w w' t j hw hn hw' ht ih =>
    intro k rest hk hrest
    have hname : skip (w ++ 0x22 :: (n ++ 0x22 :: (w' ++ 0x3a :: (t ++ rest)))) =
        0x22 :: (n ++ 0x22 :: (w' ++ 0x3a :: (t ++ rest))) :=
      skip_cons hw rfl
    have hcolon : skip (w' ++ 0x3a :: (t ++ rest)) = 0x3a :: (t ++ rest) :=
      skip_cons hw' rfl
    have hvalue := ih k rest (by simp at hk; omega) hrest
    simp only [List.append_assoc, List.cons_append, readMember, hname, readChars_append hn, hcolon,
      hvalue]
    rfl
  | @lastMember name t j ht ih =>
    intro k n rest hk hn
    cases n with
    | zero => omega
    | succ n => exact readList_last (ih k _ hk (closes_cons rfl rfl rest)) (by decide)
  | @moreMembers name t t' j ms ht ht' ih ih' =>
    intro k n rest hk hn
    rw [List.length_append, List.length_cons] at hk hn
    cases n with
    | zero => omega
    | succ n =>
      rw [List.append_assoc]
      exact readList_more (ih k _ (by omega) (closes_cons rfl rfl _))
        (ih' k n rest (by omega) (by omega))

/-- The reader gives back the value of a JSON text. -/
theorem parse_text (h : Text (.element j) t) : parse t = some j := by
  have hread := h.reads t.length [] le_rfl nofun
  rw [List.append_nil] at hread
  rw [parse, hread]

/-! ## Texts without whitespace -/

/-- No byte is blank. -/
theorem blank_nil : Blank [] := fun _ hb => absurd hb List.not_mem_nil

/-- A value is an element without blanks. -/
theorem Text.bare (h : Text (.value j) t) : Text (.element j) t := by
  have helement := Text.element blank_nil h blank_nil
  rwa [List.nil_append, List.append_nil] at helement

/-- A name, a colon and a value are a member. -/
theorem Text.named {name n : List UInt8} (hn : Chars n name) (h : Text (.value j) t) :
    Text (.member name j) (0x22 :: (n ++ 0x22 :: 0x3a :: t)) :=
  Text.member blank_nil hn blank_nil h.bare

/-- The digits after the first one. -/
theorem accepts_digits (h : ∀ b ∈ t, isDigit b = true) : NumberPart.integer.accepts t = true := by
  induction t with
  | nil => rfl
  | cons b t ih =>
    simp only [NumberPart.accepts, NumberPart.next, h b List.mem_cons_self, if_true]
    exact ih fun c hc => h c (List.mem_cons_of_mem _ hc)

/-- A numeral is a number. -/
theorem isNumber_decimal (n : ℕ) : isNumber (decimal n) = true := by
  have hdigits : ∀ b ∈ decimal n, isDigit b = true := fun b hb => isDigit_of_mem_decimal hb
  by_cases hn : n = 0
  · rw [hn]
    rfl
  · have hhead := decimal_head hn
    cases hnumeral : decimal n with
    | nil => exact absurd hnumeral (decimal_ne_nil n)
    | cons b rest =>
      rw [hnumeral] at hdigits hhead
      have hb := hdigits b List.mem_cons_self
      have hminus : (b == 0x2d) = false := by
        rw [beq_eq_false_iff_ne]
        rintro rfl
        exact absurd hb (by decide)
      have hzero : (b == 0x30) = false := by
        rw [beq_eq_false_iff_ne]
        exact hhead b rfl
      simp only [isNumber, NumberPart.accepts, NumberPart.next, NumberPart.firstDigit, hminus, hzero,
        hb, Bool.false_eq_true, if_false, if_true]
      exact accepts_digits fun c hc => hdigits c (List.mem_cons_of_mem _ hc)

/-- The text of a natural number. -/
theorem text_decimal (n : ℕ) : Text (.value (.number (decimal n))) (decimal n) := by
  have hdigits : ∀ b ∈ decimal n, isDigit b = true := fun b hb => isDigit_of_mem_decimal hb
  have hname : ∀ b rest, isDigit b = false → decimal n ≠ b :: rest := by
    intro b rest hb heq
    rw [heq] at hdigits
    exact absurd (hdigits b List.mem_cons_self) (by simp [hb])
  refine .scalar ?_
  unfold Json.scalar
  rw [if_neg (hname _ _ rfl), if_neg (hname _ _ rfl), if_neg (hname _ _ rfl),
    if_pos (isNumber_decimal n)]

/-! ## Writing -/

/-- A value and a text of it. -/
structure Spelled where
  value : Json
  text : List UInt8
  spells : Text (.value value) text

/-- A name as it is written, and the value it names. -/
structure Field where
  name : List UInt8
  chars : List UInt8
  spells : Chars chars name
  spelled : Spelled

/-- The text of a member. -/
def Field.text (f : Field) : List UInt8 := 0x22 :: (f.chars ++ 0x22 :: 0x3a :: f.spelled.text)

/-- The member of a field. -/
def Field.member (f : Field) : List UInt8 × Json := (f.name, f.spelled.value)

/-- Texts with commas between them. -/
def commaSeparated : List (List UInt8) → List UInt8
  | [] => []
  | [t] => t
  | t :: t' :: rest => t ++ 0x2c :: commaSeparated (t' :: rest)

/-- Spelled values with commas between them are items. -/
theorem items_commaSeparated (s : Spelled) (rest : List Spelled) :
    Text (.items ((s :: rest).map Spelled.value)) (commaSeparated ((s :: rest).map Spelled.text)) := by
  induction rest generalizing s with
  | nil => exact .lastItem s.spells.bare
  | cons s' rest ih => exact .item s.spells.bare (ih s')

/-- Spelled fields with commas between them are members. -/
theorem members_commaSeparated (f : Field) (rest : List Field) :
    Text (.members ((f :: rest).map Field.member)) (commaSeparated ((f :: rest).map Field.text)) := by
  induction rest generalizing f with
  | nil => exact .lastMember (f.spelled.spells.named f.spells)
  | cons f' rest ih => exact .moreMembers (f.spelled.spells.named f.spells) (ih f')

/-- Items in brackets are an array. -/
theorem array_spells (items : List Spelled) : Text (.value (.array (items.map Spelled.value)))
    (0x5b :: (commaSeparated (items.map Spelled.text) ++ [0x5d])) := by
  cases items with
  | nil => exact .emptyArray blank_nil
  | cons s rest => exact .array (items_commaSeparated s rest)

/-- Members in braces are an object. -/
theorem object_spells (fields : List Field) : Text (.value (.object (fields.map Field.member)))
    (0x7b :: (commaSeparated (fields.map Field.text) ++ [0x7d])) := by
  cases fields with
  | nil => exact .emptyObject blank_nil
  | cons f rest => exact .object (members_commaSeparated f rest)

namespace Spelled

/-- A natural number. -/
def natural (n : ℕ) : Spelled := ⟨.number (decimal n), decimal n, text_decimal n⟩

/-- A string between its quotes. -/
def quoted {chars content : List UInt8} (h : Chars chars content) : Spelled :=
  ⟨.string content, 0x22 :: (chars ++ [0x22]), .string h⟩

/-- An array of values. -/
def array (items : List Spelled) : Spelled := ⟨_, _, array_spells items⟩

/-- An object of named values. -/
def object (fields : List Field) : Spelled := ⟨_, _, object_spells fields⟩

end Spelled

/-! ## Access -/

/-- A member of an object by its name, the first one. -/
def member (name : List UInt8) : Json → Option Json
  | .object ms => (ms.find? fun m => m.1 == name).map Prod.snd
  | _ => none

/-- The content of a string. -/
def content : Json → Option (List UInt8)
  | .string s => some s
  | _ => none

/-- The number of a literal of digits. -/
def natural : Json → Option ℕ
  | .number literal => if literal.all isDigit then some (decimalValue literal) else none
  | _ => none

/-- The items of an array. -/
def items : Json → Option (List Json)
  | .array js => some js
  | _ => none

/-- A decimal is read as its number. -/
theorem natural_decimal (n : ℕ) : natural (.number (decimal n)) = some n := by
  have hdigits : (decimal n).all isDigit = true :=
    List.all_eq_true.mpr fun b hb => isDigit_of_mem_decimal hb
  rw [natural, if_pos hdigits, decimalValue_decimal]

end Json

end Nplex.Common
