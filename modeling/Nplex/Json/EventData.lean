import Nplex.Json
import Nplex.Store.Update

/-!
# Event documents

What `event_data_to_json` writes is a JSON text, and a reader of it finds the revision, the user,
the type and the changes again. The texts are built along with the values they spell; the
functions of the encoder append exactly these texts. The escape loop is the one place where a
string is not appended as it is.
-/

namespace Nplex

open Nplex.Common Nplex.Base64

/-! ## Strings -/

/-- What the escape loop writes for a character. -/
def writtenFor (c : UInt8) : Bytes := if Json.isPlain c then [c] else escapeCode c

/-- What the escape loop writes for a text. -/
def escaped (text : Bytes) : Bytes := text.flatMap writtenFor

/-- The pending run is appended. -/
theorem flushRun_eq (run out : Bytes) : flushRun run out = out ++ run := by
  cases run with
  | nil => exact (List.append_nil out).symm
  | cons c run => rfl

/-- The loop appends the run it has and what it writes for the rest. -/
theorem escapeLoop_eq (rest run out : Bytes) :
    escapeLoop rest run out = out ++ (run ++ escaped rest) := by
  induction rest generalizing run out with
  | nil => rw [escapeLoop, flushRun_eq, escaped, List.flatMap_nil, List.append_nil]
  | cons c rest ih =>
    have hcons : escaped (c :: rest) = writtenFor c ++ escaped rest := List.flatMap_cons
    have hloop : escapeLoop (c :: rest) run out =
        if Json.isPlain c then escapeLoop rest (run ++ [c]) out
        else escapeLoop rest [] (flushRun run out ++ escapeCode c) := rfl
    rw [hloop, hcons]
    by_cases hc : Json.isPlain c = true
    · rw [if_pos hc, ih, writtenFor, if_pos hc, List.append_assoc]
    · rw [if_neg hc, ih, writtenFor, if_neg hc, flushRun_eq, List.nil_append, List.append_assoc,
        List.append_assoc]

/-- The four digits of a control character. -/
theorem codeUnit_hex4 {n : ℕ} (h : n < 32) :
    Json.codeUnit (hexDigit (n / 4096 % 16)) (hexDigit (n / 256 % 16)) (hexDigit (n / 16 % 16))
      (hexDigit (n % 16)) = some n := by
  revert n
  decide

/-- What is written for a character stands for it. -/
theorem chars_writtenFor (c : UInt8) {t s : Bytes} (h : Json.Chars t s) :
    Json.Chars (writtenFor c ++ t) (c :: s) := by
  unfold writtenFor
  split_ifs with hplain
  · exact .plain hplain h
  · unfold escapeCode
    split
    case h_8 hquote hbackslash _ _ _ _ _ =>
      have hlow : c.toNat < 32 := by
        by_contra hle
        refine hplain ?_
        have hle' : (0x20 : UInt8) ≤ c := UInt8.le_iff_toNat_le.mpr (Nat.not_lt.mp hle)
        simp only [Json.isPlain, Bool.and_eq_true, decide_eq_true_eq, bne_iff_ne]
        exact ⟨⟨hle', hquote⟩, hbackslash⟩
      have hencode : Utf8.encode c.toNat = [c] := by
        rw [Utf8.encode, if_pos (by omega), UInt8.ofNat_toNat]
      have hchars := Json.Chars.unicode (codeUnit_hex4 hlow) (by simp [Json.isHigh]; omega)
        (by simp [Json.isLow]; omega) h
      rw [hencode] at hchars
      exact hchars
    all_goals exact .escape rfl h

/-- The escape loop writes the characters of its text. -/
theorem chars_escaped (text : Bytes) : Json.Chars (escaped text) text := by
  induction text with
  | nil => exact .nil
  | cons c text ih =>
    rw [escaped, List.flatMap_cons]
    exact chars_writtenFor c ih

/-- Plain characters are not escaped. -/
theorem escaped_of_plain {text : Bytes} (h : ∀ c ∈ text, Json.isPlain c = true) :
    escaped text = text := by
  induction text with
  | nil => rfl
  | cons c text ih =>
    rw [escaped, List.flatMap_cons, writtenFor, if_pos (h c List.mem_cons_self)]
    exact congrArg (c :: ·) (ih fun d hd => h d (List.mem_cons_of_mem _ hd))

/-- All characters are plain. -/
def Plain (text : Bytes) : Prop := ∀ c ∈ text, Json.isPlain c = true

/-- Plain texts together are plain. -/
theorem plain_append {s t : Bytes} (hs : Plain s) (ht : Plain t) : Plain (s ++ t) := by
  intro c hc
  exact (List.mem_append.mp hc).elim (hs c) (ht c)

/-- A literal without special characters is plain. -/
theorem plain_ascii (s : String) (h : (ascii s).all Json.isPlain = true) : Plain (ascii s) :=
  List.all_eq_true.mp h

/-- Decimals are plain. -/
theorem plain_decimal (n : ℕ) : Plain (decimal n) := by
  intro c hc
  have hdigit := isDigit_of_mem_decimal hc
  simp only [isDigit, Bool.and_eq_true, decide_eq_true_eq, UInt8.le_iff_toNat_le] at hdigit
  have hlow : 48 ≤ c.toNat := hdigit.1
  have hhigh : c.toNat ≤ 57 := hdigit.2
  simp only [Json.isPlain, Bool.and_eq_true, decide_eq_true_eq, bne_iff_ne,
    UInt8.le_iff_toNat_le]
  refine ⟨⟨?_, ?_⟩, ?_⟩
  · exact le_trans (by decide) hlow
  · rintro rfl
    exact absurd hlow (by decide)
  · rintro rfl
    exact absurd hhigh (by decide)

/-- So are padded numbers. -/
theorem plain_zeroPadded (width : ℕ) (n : ℤ) : Plain (zeroPadded width n) := by
  have hzeros : ∀ k, Plain (List.replicate k 48) := by
    intro k c hc
    rw [List.eq_of_mem_replicate hc]
    rfl
  unfold zeroPadded
  split_ifs
  · exact plain_append (plain_append (plain_ascii _ rfl) (hzeros _)) (plain_decimal _)
  · exact plain_append (hzeros _) (plain_decimal _)

/-- A printed time has no character to escape, whatever `gmtime_r` returns. -/
theorem plain_toIso8601 (gmtime : ℤ → Tm) (ms : ℤ) : Plain (toIso8601 gmtime ms) := by
  unfold toIso8601
  repeat' apply plain_append
  all_goals first | exact plain_zeroPadded _ _ | exact plain_ascii _ rfl

/-! ## What the functions append -/

/-- A string as the escape loop writes it. -/
def spelledString (text : Bytes) : Json.Spelled := .quoted (chars_escaped text)

/-- A named value. -/
def spelledField (name : String) (value : Json.Spelled) : Json.Field :=
  ⟨ascii name, escaped (ascii name), chars_escaped (ascii name), value⟩

/-- The spelling of a value. -/
def spelledValue (v : Value) : Json.Spelled :=
  .object
    [spelledField "data" (spelledString (if utf8nvalid v.data then v.data else toBase64 v.data)),
      spelledField "encoding" (spelledString (ascii (if utf8nvalid v.data then "text" else "base64"))),
      spelledField "rev" (.natural v.rev)]

/-- The field of a value that may be missing. -/
def optionalField (name : String) (v : Option Value) : List Json.Field :=
  v.toList.map fun v => spelledField name (spelledValue v)

/-- The spelling of a change. -/
def spelledChange (c : Change) : Json.Spelled :=
  .object (spelledField "action" (spelledString c.action.toText) ::
    spelledField "key" (spelledString c.key) ::
    (optionalField "new_value" c.newValue ++ optionalField "old_value" c.oldValue))

/-- The spelling of the data of an event. -/
def spelledEventData (gmtime : ℤ → Tm) (metadata : Option Meta) (changes : List Change) :
    Json.Spelled :=
  .object
    [spelledField "rev" (.natural (metadata.elim 0 Meta.rev)),
      spelledField "user" (spelledString (metadata.elim [] Meta.user)),
      spelledField "timestamp" (spelledString (toIso8601 gmtime (metadata.elim 0 Meta.millis))),
      spelledField "tx_type" (.natural (metadata.elim 0 Meta.txType)),
      spelledField "changes" (.array (changes.map spelledChange))]

/-- The text of a string is its escaped content in quotes. -/
theorem spelledString_text (text : Bytes) :
    (spelledString text).text = 34 :: (escaped text ++ [34]) := rfl

/-- The text of a field is its quoted name, a colon and its value. -/
theorem spelledField_text (name : String) (value : Json.Spelled) :
    (spelledField name value).text = 34 :: (escaped (ascii name) ++ 34 :: 58 :: value.text) := rfl

/-- The text of an object is its fields in braces. -/
theorem object_text (fields : List Json.Field) : (Json.Spelled.object fields).text =
    ascii "\x7b" ++ Json.commaSeparated (fields.map Json.Field.text) ++ ascii "\x7d" := rfl

/-- One text has no comma. -/
theorem commaSeparated_one (t : Bytes) : Json.commaSeparated [t] = t := rfl

/-- The first text is followed by a comma. -/
theorem commaSeparated_cons (t t' : Bytes) (rest : List Bytes) :
    Json.commaSeparated (t :: t' :: rest) = t ++ (ascii "," ++ Json.commaSeparated (t' :: rest)) :=
  rfl

variable (out : Bytes)

/-- `json_append_escaped_text` appends the spelling of the string. -/
theorem jsonAppendEscapedText_eq (text : Bytes) :
    jsonAppendEscapedText text out = out ++ (spelledString text).text := by
  have hquote : ascii "\"" = [34] := rfl
  rw [jsonAppendEscapedText, escapeLoop_eq, hquote, List.nil_append, List.append_assoc,
    List.append_assoc]
  rfl

/-- A string of plain characters needs no escaping. -/
theorem jsonAppendText_eq {text : Bytes} (h : Plain text) :
    jsonAppendText text out = out ++ (spelledString text).text := by
  rw [jsonAppendText, spelledString_text, escaped_of_plain h, List.append_assoc, List.append_assoc]
  rfl

/-- A name, a colon and a value. -/
theorem jsonAppendText_field (name : String) (value : Json.Spelled)
    (h : (ascii name).all Json.isPlain = true) :
    jsonAppendText (ascii name) out ++ ascii ":" ++ value.text =
      out ++ (spelledField name value).text := by
  rw [jsonAppendText, spelledField_text, escaped_of_plain (plain_ascii name h)]
  simp only [List.append_assoc]
  rfl

/-- `json_append_number` appends that of the number. -/
theorem jsonAppendNumber_eq (value : ℕ) :
    jsonAppendNumber value out = out ++ (Json.Spelled.natural value).text := rfl

/-- `json_append_value` appends that of the value. -/
theorem jsonAppendValue_eq (v : Value) : jsonAppendValue v out = out ++ (spelledValue v).text := by
  rw [spelledValue, object_text, jsonAppendValue]
  dsimp only
  split_ifs with hutf8
  · rw [jsonAppendNumber_eq, jsonAppendText_field _ "rev" _ rfl,
      jsonAppendText_eq _ (plain_ascii "text" rfl), jsonAppendText_field _ "encoding" _ rfl,
      jsonAppendEscapedText_eq, jsonAppendText_field _ "data" _ rfl]
    simp only [List.append_assoc, List.map_cons, List.map_nil, commaSeparated_cons,
      commaSeparated_one]
  · rw [jsonAppendNumber_eq, jsonAppendText_field _ "rev" _ rfl,
      jsonAppendText_eq _ (plain_ascii "base64" rfl), jsonAppendText_field _ "encoding" _ rfl,
      jsonAppendText_eq _ (isPlain_toBase64 v.data), jsonAppendText_field _ "data" _ rfl]
    simp only [List.append_assoc, List.map_cons, List.map_nil, commaSeparated_cons,
      commaSeparated_one]

/-- The names of the actions are plain. -/
theorem plain_toText (action : ChangeAction) : Plain action.toText := by
  cases action with
  | create => exact plain_ascii "CREATE" rfl
  | update => exact plain_ascii "UPDATE" rfl
  | delete => exact plain_ascii "DELETE" rfl

/-- A change with the values that its action asks for is written. -/
theorem jsonAppendChange_eq {c : Change} (h : c.actionFits) :
    jsonAppendChange c out = some (out ++ (spelledChange c).text) := by
  obtain ⟨action, key, newValue, oldValue⟩ := c
  obtain ⟨hcreate, hupdate, hdelete⟩ := h
  dsimp only at hcreate hupdate hdelete
  rw [spelledChange, object_text]
  unfold jsonAppendChange
  dsimp only
  rw [jsonAppendEscapedText_eq, jsonAppendText_field _ "key" _ rfl,
    jsonAppendText_eq _ (plain_toText action), jsonAppendText_field _ "action" _ rfl]
  cases newValue with
  | none =>
    obtain rfl : action = .delete := hdelete.mpr rfl
    cases oldValue with
    | none => exact absurd (hcreate.mpr rfl) (by decide)
    | some w =>
      change some (jsonAppendValue w (jsonAppendText (ascii "old_value") (_ ++ ascii ",") ++
        ascii ":") ++ ascii "\x7d") = _
      rw [jsonAppendValue_eq, jsonAppendText_field _ "old_value" _ rfl]
      simp only [List.append_assoc, optionalField, Option.toList, List.map_cons, List.map_nil,
        List.nil_append, commaSeparated_cons, commaSeparated_one]
  | some v =>
    cases oldValue with
    | none =>
      obtain rfl : action = .create := hcreate.mpr rfl
      change some (jsonAppendValue v (jsonAppendText (ascii "new_value") (_ ++ ascii ",") ++
        ascii ":") ++ ascii "\x7d") = _
      rw [jsonAppendValue_eq, jsonAppendText_field _ "new_value" _ rfl]
      simp only [List.append_assoc, optionalField, Option.toList, List.map_cons, List.map_nil,
        List.cons_append, List.nil_append, commaSeparated_cons, commaSeparated_one]
    | some w =>
      obtain rfl : action = .update := hupdate.mpr ⟨nofun, nofun⟩
      change some (jsonAppendValue w (jsonAppendText (ascii "old_value") (jsonAppendValue v
        (jsonAppendText (ascii "new_value") (_ ++ ascii ",") ++ ascii ":") ++ ascii ",") ++
          ascii ":") ++ ascii "\x7d") = _
      rw [jsonAppendValue_eq, jsonAppendText_field _ "old_value" _ rfl, jsonAppendValue_eq,
        jsonAppendText_field _ "new_value" _ rfl]
      simp only [List.append_assoc, optionalField, Option.toList, List.map_cons, List.map_nil,
        List.cons_append, List.nil_append, commaSeparated_cons, commaSeparated_one]

/-- The loop puts commas between the changes. -/
theorem jsonAppendChanges_eq {changes : List Change} (h : ∀ c ∈ changes, c.actionFits) :
    jsonAppendChanges changes out =
      some (out ++ Json.commaSeparated (changes.map fun c => (spelledChange c).text)) := by
  induction changes generalizing out with
  | nil => exact congrArg some (List.append_nil out).symm
  | cons c rest ih =>
    have hrest := fun out => ih out fun c hc => h c (List.mem_cons_of_mem _ hc)
    rw [jsonAppendChanges, jsonAppendChange_eq out (h c List.mem_cons_self)]
    cases rest with
    | nil => rfl
    | cons c' rest =>
      change jsonAppendChanges (c' :: rest) (out ++ (spelledChange c).text ++ ascii ",") = _
      rw [hrest]
      simp only [List.append_assoc]
      rfl

/-- The whole of the data is appended as its spelling. -/
theorem jsonAppendEventData_eq (gmtime : ℤ → Tm) (metadata : Option Meta) {changes : List Change}
    (h : ∀ c ∈ changes, c.actionFits) : jsonAppendEventData gmtime metadata changes out =
      some (out ++ (spelledEventData gmtime metadata changes).text) := by
  have hchanges : ∀ out, out ++ ascii "[" ++ Json.commaSeparated
      (changes.map fun c => (spelledChange c).text) ++ ascii "]" =
        out ++ (Json.Spelled.array (changes.map spelledChange)).text := by
    intro out
    simp only [Json.Spelled.array, List.map_map, List.append_assoc]
    rfl
  rw [spelledEventData, object_text]
  unfold jsonAppendEventData
  dsimp only
  rw [jsonAppendChanges_eq _ h]
  change some (_ ++ ascii "[" ++ _ ++ ascii "]" ++ ascii "\x7d") = _
  rw [hchanges, jsonAppendText_field _ "changes" _ rfl, jsonAppendNumber_eq,
    jsonAppendText_field _ "tx_type" _ rfl, jsonAppendText_eq _ (plain_toIso8601 _ _),
    jsonAppendText_field _ "timestamp" _ rfl, jsonAppendEscapedText_eq,
    jsonAppendText_field _ "user" _ rfl, jsonAppendNumber_eq, jsonAppendText_field _ "rev" _ rfl]
  simp only [List.append_assoc, List.map_cons, List.map_nil, commaSeparated_cons,
    commaSeparated_one]

/-- The document, and the value it spells. -/
def spelledDocument (gmtime : ℤ → Tm) (metadata : Option Meta) (changes : List Change) :
    Json.Spelled :=
  .object [spelledField "event_data" (spelledEventData gmtime metadata changes)]

/-- The document of changes whose values fit their actions. -/
theorem eventDataToJson_eq (gmtime : ℤ → Tm) (metadata : Option Meta) {changes : List Change}
    (h : ∀ c ∈ changes, c.actionFits) : eventDataToJson gmtime metadata changes =
      some (spelledDocument gmtime metadata changes).text := by
  unfold eventDataToJson
  dsimp only
  rw [jsonAppendEventData_eq _ gmtime metadata h]
  change some (_ ++ ascii "\x7d") = _
  rw [jsonAppendText_field _ "event_data" _ rfl]
  rfl

/-! ## Reading the document -/

/-- A value as a document gives it. -/
structure ValueRecord where
  data : Bytes
  rev : ℕ
  deriving DecidableEq, Repr

/-- A change as a document gives it. -/
structure ChangeRecord where
  action : ChangeAction
  key : Key
  newValue : Option ValueRecord
  oldValue : Option ValueRecord
  deriving DecidableEq, Repr

/-- An event as a document gives it. -/
structure EventRecord where
  rev : ℕ
  user : Bytes
  timestamp : Bytes
  txType : ℕ
  changes : List ChangeRecord
  deriving DecidableEq, Repr

/-- The action of a name. -/
def readAction (name : Bytes) : Option ChangeAction :=
  if name = ascii "CREATE" then some .create
  else if name = ascii "UPDATE" then some .update
  else if name = ascii "DELETE" then some .delete
  else none

/-- A value: its data is the string itself or the bytes that the string encodes. -/
def readValue (j : Json) : Option ValueRecord := do
  let data ← (← j.member (ascii "data")).content
  let encoding ← (← j.member (ascii "encoding")).content
  let rev ← (← j.member (ascii "rev")).natural
  if encoding = ascii "text" then some ⟨data, rev⟩
  else if encoding = ascii "base64" then do some ⟨← fromBase64 data, rev⟩
  else none

/-- A value that may be missing. -/
def readOptional (j : Json) (name : String) : Option (Option ValueRecord) :=
  match j.member (ascii name) with
  | none => some none
  | some v => (readValue v).map some

/-- A change read back from its JSON value. -/
def readChange (j : Json) : Option ChangeRecord := do
  let action ← readAction (← (← j.member (ascii "action")).content)
  let key ← (← j.member (ascii "key")).content
  some ⟨action, key, ← readOptional j "new_value", ← readOptional j "old_value"⟩

/-- The data of an event read back. -/
def readEventData (j : Json) : Option EventRecord := do
  let rev ← (← j.member (ascii "rev")).natural
  let user ← (← j.member (ascii "user")).content
  let timestamp ← (← j.member (ascii "timestamp")).content
  let txType ← (← j.member (ascii "tx_type")).natural
  let changes ← (← j.member (ascii "changes")).items
  some ⟨rev, user, timestamp, txType, ← changes.mapM readChange⟩

/-- The event of a document. -/
def decodeEventData (document : Bytes) : Option EventRecord := do
  readEventData (← (← Json.parse document).member (ascii "event_data"))

/-- What a document keeps of a value. -/
def Value.record (v : Value) : ValueRecord := ⟨v.data, v.rev⟩

/-- What a document keeps of a change. -/
def Change.record (c : Change) : ChangeRecord :=
  ⟨c.action, c.key, c.newValue.map Value.record, c.oldValue.map Value.record⟩

/-- A spelled value is read back. -/
theorem readValue_spelled (v : Value) : readValue (spelledValue v).value = some v.record := by
  have hdata : (spelledValue v).value.member (ascii "data") =
      some (.string (if utf8nvalid v.data then v.data else toBase64 v.data)) := rfl
  have hencoding : (spelledValue v).value.member (ascii "encoding") =
      some (.string (ascii (if utf8nvalid v.data then "text" else "base64"))) := rfl
  have hrev : (spelledValue v).value.member (ascii "rev") =
      some (.number (decimal v.rev)) := rfl
  rw [readValue, hdata, hencoding, hrev]
  simp only [Option.bind_eq_bind, Option.bind_some, Json.content, Json.natural_decimal]
  by_cases hutf8 : utf8nvalid v.data = true
  · simp only [if_pos hutf8]
    rfl
  · have hother : ascii "base64" ≠ ascii "text" := by decide
    simp only [if_neg hutf8, if_neg hother, if_true, fromBase64_toBase64]
    rfl

/-- So is the name of an action. -/
theorem readAction_toText (action : ChangeAction) : readAction action.toText = some action := by
  cases action <;> rfl

/-- Only the values that are there have fields. -/
theorem readOptional_spelled (c : Change) :
    readOptional (spelledChange c).value "new_value" = some (c.newValue.map Value.record) ∧
      readOptional (spelledChange c).value "old_value" = some (c.oldValue.map Value.record) := by
  obtain ⟨action, key, newValue, oldValue⟩ := c
  constructor
  · cases newValue with
    | none =>
      cases oldValue with
      | none => rfl
      | some w => rfl
    | some v => exact congrArg (Option.map some) (readValue_spelled v)
  · cases newValue with
    | none =>
      cases oldValue with
      | none => rfl
      | some w => exact congrArg (Option.map some) (readValue_spelled w)
    | some v =>
      cases oldValue with
      | none => rfl
      | some w => exact congrArg (Option.map some) (readValue_spelled w)

/-- So is a change. -/
theorem readChange_spelled (c : Change) : readChange (spelledChange c).value = some c.record := by
  have haction : (spelledChange c).value.member (ascii "action") =
      some (.string c.action.toText) := rfl
  have hkey : (spelledChange c).value.member (ascii "key") = some (.string c.key) := rfl
  rw [readChange, haction, hkey, (readOptional_spelled c).1, (readOptional_spelled c).2]
  simp only [Option.bind_eq_bind, Option.bind_some, Json.content, readAction_toText]
  rfl

/-- So are the changes, in their order. -/
theorem readChanges_spelled (changes : List Change) :
    ((changes.map spelledChange).map Json.Spelled.value).mapM readChange =
      some (changes.map Change.record) := by
  induction changes with
  | nil => rfl
  | cons c rest ih =>
    rw [List.map_cons, List.map_cons, List.mapM_cons, readChange_spelled, ih]
    rfl

/-- Reading what was written for an event. -/
theorem readEventData_spelled (gmtime : ℤ → Tm) (metadata : Option Meta) (changes : List Change) :
    readEventData (spelledEventData gmtime metadata changes).value =
      some ⟨metadata.elim 0 Meta.rev, metadata.elim [] Meta.user,
        toIso8601 gmtime (metadata.elim 0 Meta.millis), metadata.elim 0 Meta.txType,
        changes.map Change.record⟩ := by
  have hrev : (spelledEventData gmtime metadata changes).value.member (ascii "rev") =
      some (.number (decimal (metadata.elim 0 Meta.rev))) := rfl
  have huser : (spelledEventData gmtime metadata changes).value.member (ascii "user") =
      some (.string (metadata.elim [] Meta.user)) := rfl
  have htimestamp : (spelledEventData gmtime metadata changes).value.member (ascii "timestamp") =
      some (.string (toIso8601 gmtime (metadata.elim 0 Meta.millis))) := rfl
  have htxType : (spelledEventData gmtime metadata changes).value.member (ascii "tx_type") =
      some (.number (decimal (metadata.elim 0 Meta.txType))) := rfl
  have hchanges : (spelledEventData gmtime metadata changes).value.member (ascii "changes") =
      some (.array ((changes.map spelledChange).map Json.Spelled.value)) := rfl
  rw [readEventData, hrev, huser, htimestamp, htxType, hchanges]
  simp only [Option.bind_eq_bind, Option.bind_some, Json.content, Json.natural_decimal, Json.items,
    readChanges_spelled]

/-- The changes an update reports have the values that their actions ask for. -/
theorem Store.update_actionFits {s s' : Store} {u : Update} {changes : List Change} {m : Meta}
    (h : s.update u = (s', .ok (changes, m))) : ∀ c ∈ changes, c.actionFits := by
  obtain ⟨-, -, -, -, -, hchanges, -⟩ := Store.update_loops h
  intro c hc
  rw [hchanges] at hc
  obtain ⟨d, hd, rfl⟩ := List.mem_map.mp hc
  exact Change.ofDelta_actionFits (editDeltas_named hd)

/-- For all metadata and all changes that an update reports, whatever the bytes of the values and
of the user, `event_data_to_json` writes a JSON text, and reading the text gives back the revision,
the user, the type and the changes with their values. -/
theorem event_data_roundtrip (gmtime : ℤ → Tm) (metadata : Option Meta) {changes : List Change}
    {s s' : Store} {u : Update} {m : Meta} (hreported : s.update u = (s', .ok (changes, m))) :
    ∃ document, eventDataToJson gmtime metadata changes = some document ∧
      (∃ j, Json.Text (.element j) document) ∧
      ∃ event, decodeEventData document = some event ∧ event.rev = metadata.elim 0 Meta.rev ∧
        event.user = metadata.elim [] Meta.user ∧ event.txType = metadata.elim 0 Meta.txType ∧
        event.changes = changes.map Change.record := by
  have hwritten := eventDataToJson_eq gmtime metadata (Store.update_actionFits hreported)
  have htext := (spelledDocument gmtime metadata changes).spells.bare
  have hmember : (spelledDocument gmtime metadata changes).value.member (ascii "event_data") =
      some (spelledEventData gmtime metadata changes).value := rfl
  have hdecoded : decodeEventData (spelledDocument gmtime metadata changes).text =
      readEventData (spelledEventData gmtime metadata changes).value := by
    rw [decodeEventData, Json.parse_text htext, Option.bind_eq_bind, Option.bind_some, hmember,
      Option.bind_some]
  exact ⟨_, hwritten, ⟨_, htext⟩, _, hdecoded.trans (readEventData_spelled gmtime metadata changes),
    rfl, rfl, rfl, rfl⟩

/-- An update that creates one key and overwrites another, with bytes that are no text and with
characters that are escaped. -/
theorem event_data_roundtrip_escapes :
    ∃ document event,
      eventDataToJson (fun _ => ⟨126, 0, 1, 0, 0, 0⟩) (some ⟨2, [34, 1], 0, 7⟩)
          [⟨.update, [97, 92], some ⟨[0, 255], some ⟨2, [34, 1], 0, 7⟩⟩,
            some ⟨[10], some ⟨1, [], 0, 0⟩⟩⟩,
            ⟨.create, [98], some ⟨[0, 255], some ⟨2, [34, 1], 0, 7⟩⟩, none⟩] = some document ∧
        decodeEventData document = some event ∧ event.rev = 2 ∧ event.user = [34, 1] ∧
          event.txType = 7 ∧ event.changes =
            [⟨.update, [97, 92], some ⟨[0, 255], 2⟩, some ⟨[10], 1⟩⟩,
              ⟨.create, [98], some ⟨[0, 255], 2⟩, none⟩] := by
  have hreported : ((Store.empty.update (.writing 1 [[97, 92]] [10])).1.update
      { Update.writing 2 [[97, 92], [98]] [0, 255] with user := [34, 1], txType := 7 }).2 =
        .ok ([⟨.update, [97, 92], some ⟨[0, 255], some ⟨2, [34, 1], 0, 7⟩⟩,
            some ⟨[10], some ⟨1, [], 0, 0⟩⟩⟩,
            ⟨.create, [98], some ⟨[0, 255], some ⟨2, [34, 1], 0, 7⟩⟩, none⟩],
          ⟨2, [34, 1], 0, 7⟩) := by
    decide +kernel
  obtain ⟨document, hdocument, -, event, hevent, hrev, huser, htxType, hchanges⟩ :=
    event_data_roundtrip (fun _ => ⟨126, 0, 1, 0, 0, 0⟩) (some ⟨2, [34, 1], 0, 7⟩)
      (Prod.ext rfl hreported)
  exact ⟨document, event, hdocument, hevent, hrev, huser, htxType, hchanges⟩

end Nplex
