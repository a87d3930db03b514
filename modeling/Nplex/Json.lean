import Nplex.Base64
import Nplex.Utils

/-!
# JSON output

The functions of `json.cpp`. Each appends to an output, and a value that is not there makes the
output undefined. The strings of keys, values and users go through the escape loop, which copies
whole runs between the characters it escapes; the other strings are appended as they are.
`gmtime_r` is a parameter.
-/

namespace Nplex

open Nplex.Common Nplex.Base64

/-- The bytes of an ASCII literal. -/
def ascii (s : String) : Bytes := s.toList.map fun c => UInt8.ofNat c.toNat

/-- The fields of `std::tm` that are printed. -/
structure Tm where
  tmYear : ℤ
  tmMon : ℤ
  tmMday : ℤ
  tmHour : ℤ
  tmMin : ℤ
  tmSec : ℤ
  deriving DecidableEq, Repr

/-- The format `{:0Nd}`: zeros between the sign and the digits, up to a width. -/
def zeroPadded (width : ℕ) (n : ℤ) : Bytes :=
  let digits := decimal n.natAbs
  if n < 0 then ascii "-" ++ List.replicate (width - 1 - digits.length) 48 ++ digits
  else List.replicate (width - digits.length) 48 ++ digits

/-- `to_iso8601`; the division and the remainder round towards zero. -/
def toIso8601 (gmtime : ℤ → Tm) (msSinceEpoch : ℤ) : Bytes :=
  let tmUtc := gmtime (msSinceEpoch.tdiv 1000)
  zeroPadded 4 (tmUtc.tmYear + 1900) ++ ascii "-" ++ zeroPadded 2 (tmUtc.tmMon + 1) ++ ascii "-" ++
    zeroPadded 2 tmUtc.tmMday ++ ascii "T" ++ zeroPadded 2 tmUtc.tmHour ++ ascii ":" ++
    zeroPadded 2 tmUtc.tmMin ++ ascii ":" ++ zeroPadded 2 tmUtc.tmSec ++ ascii "." ++
    zeroPadded 3 (msSinceEpoch.tmod 1000) ++ ascii "Z"

/-- The timestamp of a metadata object as signed milliseconds (`millis_t`). -/
def Meta.millis (m : Meta) : ℤ := Int.bmod m.timestamp (2 ^ 64)

/-- `value_t::rev` -/
def Value.rev (v : Value) : ℕ := v.metadata.elim 0 Meta.rev

/-- `json_append_number`. -/
def jsonAppendNumber (value : ℕ) (out : Bytes) : Bytes := out ++ decimal value

/-- `json_append_text`. -/
def jsonAppendText (text out : Bytes) : Bytes := out ++ ascii "\"" ++ text ++ ascii "\""

/-- The lower-case hexadecimal digit of a number below 16. -/
def hexDigit (n : ℕ) : UInt8 := if n < 10 then UInt8.ofNat (48 + n) else UInt8.ofNat (87 + n)

/-- The format `%04x` of a number below `2 ^ 16`. -/
def hex4 (n : ℕ) : Bytes :=
  [hexDigit (n / 4096 % 16), hexDigit (n / 256 % 16), hexDigit (n / 16 % 16), hexDigit (n % 16)]

/-- What is written for a character that is escaped. -/
def escapeCode (c : UInt8) : Bytes :=
  match c with
  | 34 => ascii "\\\""
  | 92 => ascii "\\\\"
  | 8 => ascii "\\b"
  | 12 => ascii "\\f"
  | 10 => ascii "\\n"
  | 13 => ascii "\\r"
  | 9 => ascii "\\t"
  | c => ascii "\\u" ++ hex4 c.toNat

/-- Append the run from `start` to `p`, unless it is empty. -/
def flushRun (run out : Bytes) : Bytes := if run.isEmpty then out else out ++ run

/-- The loop of `json_append_escaped_text`: what is left from `p` on, the run since `start`, and
the output. -/
def escapeLoop : Bytes → Bytes → Bytes → Bytes
  | [], run, out => flushRun run out
  | c :: rest, run, out =>
    if 0x20 ≤ c && c != 34 && c != 92 then escapeLoop rest (run ++ [c]) out
    else escapeLoop rest [] (flushRun run out ++ escapeCode c)

/-- `json_append_escaped_text`. -/
def jsonAppendEscapedText (text out : Bytes) : Bytes :=
  escapeLoop text [] (out ++ ascii "\"") ++ ascii "\""

/-- `to_string` of an action. -/
def ChangeAction.toText : ChangeAction → Bytes
  | .create => ascii "CREATE"
  | .update => ascii "UPDATE"
  | .delete => ascii "DELETE"

/-- `json_append_value`. -/
def jsonAppendValue (value : Value) (out : Bytes) : Bytes :=
  let content := value.data
  let out := out ++ ascii "\x7b"
  let out := jsonAppendText (ascii "data") out
  let out := out ++ ascii ":"
  let out :=
    if utf8nvalid content then
      let out := jsonAppendEscapedText content out
      let out := out ++ ascii ","
      let out := jsonAppendText (ascii "encoding") out
      let out := out ++ ascii ":"
      jsonAppendText (ascii "text") out
    else
      let out := jsonAppendText (toBase64 content) out
      let out := out ++ ascii ","
      let out := jsonAppendText (ascii "encoding") out
      let out := out ++ ascii ":"
      jsonAppendText (ascii "base64") out
  let out := out ++ ascii ","
  let out := jsonAppendText (ascii "rev") out
  let out := out ++ ascii ":"
  let out := jsonAppendNumber value.rev out
  out ++ ascii "\x7d"

/-- A change; its values are dereferenced, each when the action says that it is there. -/
def jsonAppendChange (change : Change) (out : Bytes) : Option Bytes := do
  let out := out ++ ascii "\x7b"
  let out := jsonAppendText (ascii "action") out
  let out := out ++ ascii ":"
  let out := jsonAppendText change.action.toText out
  let out := out ++ ascii ","
  let out := jsonAppendText (ascii "key") out
  let out := out ++ ascii ":"
  let out := jsonAppendEscapedText change.key out
  let out ←
    if change.action ≠ .delete then do
      let out := out ++ ascii ","
      let out := jsonAppendText (ascii "new_value") out
      let out := out ++ ascii ":"
      some (jsonAppendValue (← change.newValue) out)
    else some out
  let out ←
    if change.action ≠ .create then do
      let out := out ++ ascii ","
      let out := jsonAppendText (ascii "old_value") out
      let out := out ++ ascii ":"
      some (jsonAppendValue (← change.oldValue) out)
    else some out
  some (out ++ ascii "\x7d")

/-- The loop over the changes, with a comma after each but the last. -/
def jsonAppendChanges : List Change → Bytes → Option Bytes
  | [], out => some out
  | change :: rest, out => do
    let out ← jsonAppendChange change out
    let out := if rest.isEmpty then out else out ++ ascii ","
    jsonAppendChanges rest out

/-- The metadata object may be missing. -/
def jsonAppendEventData (gmtime : ℤ → Tm) (metadata : Option Meta) (changes : List Change)
    (out : Bytes) : Option Bytes := do
  let out := out ++ ascii "\x7b"
  let out := jsonAppendText (ascii "rev") out
  let out := out ++ ascii ":"
  let out := jsonAppendNumber (metadata.elim 0 Meta.rev) out
  let out := out ++ ascii ","
  let out := jsonAppendText (ascii "user") out
  let out := out ++ ascii ":"
  let out := jsonAppendEscapedText (metadata.elim [] Meta.user) out
  let out := out ++ ascii ","
  let out := jsonAppendText (ascii "timestamp") out
  let out := out ++ ascii ":"
  let out := jsonAppendText (toIso8601 gmtime (metadata.elim 0 Meta.millis)) out
  let out := out ++ ascii ","
  let out := jsonAppendText (ascii "tx_type") out
  let out := out ++ ascii ":"
  let out := jsonAppendNumber (metadata.elim 0 Meta.txType) out
  let out := out ++ ascii ","
  let out := jsonAppendText (ascii "changes") out
  let out := out ++ ascii ":"
  let out := out ++ ascii "["
  let out ← jsonAppendChanges changes out
  let out := out ++ ascii "]"
  some (out ++ ascii "\x7d")

/-- `event_data_to_json` -/
def eventDataToJson (gmtime : ℤ → Tm) (metadata : Option Meta) (changes : List Change) :
    Option Bytes := do
  let str := ascii "\x7b"
  let str := jsonAppendText (ascii "event_data") str
  let str := str ++ ascii ":"
  let str ← jsonAppendEventData gmtime metadata changes str
  some (str ++ ascii "\x7d")

end Nplex
