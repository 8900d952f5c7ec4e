import Rustrak.Core.Text
import Rustrak.Grouping.Chain

/-!
# The grouping key

`calculate_grouping_key` of `services/grouping.rs`: one component for each exception
the chain contributes, or one for the message, then the transaction; a custom
fingerprint replaces it.  Event-specific values in a message are replaced before it
becomes part of the key.

The regular expressions and SHA-256 are the work of libraries: `Libraries` is what
the code asks of them.
-/

namespace Rustrak.Grouping

open Rustrak.Core

/-- A match of the combined pattern: the characters it spans, and the name of the
alternative that matched. -/
structure Captured where
  start : Nat
  stop : Nat
  name : Option String
  deriving DecidableEq, Repr

/-- What grouping gets from libraries: the matches in a text, up to where the engine gives
up, and the digest of a text in hexadecimal. -/
structure Libraries where
  captures : String → List Captured
  sha256 : String → String

def groupingSeparator : String := " ⋄ "

/-- Longer messages are left alone. -/
def maxInputLength : Nat := 8192

private def slice (s : String) (start stop : Nat) : String :=
  String.ofList ((s.toList.drop start).take (stop - start))

/-- Replaces event-specific values with `<placeholder>` markers. -/
def normalizeMessageForGrouping (libs : Libraries) (message : String) : String :=
  if byteLength message > maxInputLength then message
  else
    let (out, last) := (libs.captures message).foldl (fun (out, last) found =>
      match found.name with
      | none => (out, last)
      | some name => (out ++ slice message last found.start ++ "<" ++ name ++ ">", found.stop))
      ("", 0)
    if last = 0 then message else out ++ String.ofList (message.toList.drop last)

/-! ## The parts of a key -/

/-- A title: the type, and the first line of the value that is not blank. -/
def getTitle (calculatedType calculatedValue : String) : String :=
  match ((lines calculatedValue).map trim).find? fun l => !l.isEmpty with
  | some line => calculatedType ++ ": " ++ line
  | none => calculatedType

/-- Gets the transaction from the event. -/
def getTransaction (eventData : Value) : String :=
  match eventData.str "transaction" with
  | some s => truncate s 200
  | none => "<no transaction>"

/-- The first line of a message entry: its text, or its template, or else what the SDK
rendered.  An empty field counts as missing. -/
private def entryMessage (entry : Value) : Option String :=
  match entry with
  | .string msg => some (firstLine msg)
  | _ =>
      let field (name : String) := (entry.str name).filter fun m => !m.isEmpty
      ((field "message").or (field "formatted")).map firstLine

/-- The message an event without exceptions is grouped by. -/
def getLogMessage (eventData : Value) : Option String :=
  ["logentry", "message"].findSome? fun key => (eventData.get key).bind entryMessage

/-- The type and value as the event carries them. -/
def rawTypeAndValue (eventData : Value) : String × String :=
  match (getMainException eventData).filter fun e => !isSynthetic e with
  | some exception => ((exception.str "type").getD "Error", (exception.str "value").getD "")
  | none =>
      match getLogMessage eventData with
      | some message => ("Log Message", message)
      | none => ("Unknown", "")

private def component (libs : Libraries) (calculatedType calculatedValue : String) : String :=
  getTitle (truncate calculatedType 128)
    (truncate (normalizeMessageForGrouping libs calculatedValue) 1024)

/-- One `"Type: value"` per exception the chain contributes. -/
def groupingComponents (libs : Libraries) (eventData : Value) : List String :=
  let contributing := (((exceptionValues eventData).map fun values =>
    (filterExceptionGroups values).1).getD []).filter fun e => !isSynthetic e
  if contributing.isEmpty then
    let (calculatedType, calculatedValue) := rawTypeAndValue eventData
    [component libs calculatedType calculatedValue]
  else
    contributing.map fun exception =>
      let (excType, excValue) := typeAndValueOf exception
      component libs (if excType.isEmpty then "Error" else excType) excValue

/-- Coerces a single fingerprint element to a string; nulls, arrays and objects are
dropped. -/
def coerceFingerprintElement : Value → Option String
  | .string s => some s
  | .bool true => some "True"
  | .bool false => some "False"
  | .number (.int n) => some (toString n)
  | .number (.float truncated _) => some truncated
  | _ => none

/-- The custom fingerprint with `{{ default }}` filled in, unless none of its parts is
left. -/
def fingerprintKey (eventData : Value) (default : String) : Option String := do
  let fingerprint ← (eventData.get "fingerprint").bind Value.asArray
  let parts := fingerprint.filterMap fun part =>
    (coerceFingerprintElement part).map fun coerced =>
      if coerced = "\x7b\x7b default \x7d\x7d" then default else coerced
  guard !parts.isEmpty
  return groupingSeparator.intercalate parts

/-- Default grouping key: every contributing component, then the transaction. -/
def defaultGroupingKey (components : List String) (transaction : String) : String :=
  groupingSeparator.intercalate (components ++ [transaction])

/-- Calculates the grouping key for an event. -/
def calculateGroupingKey (libs : Libraries) (eventData : Value) : String :=
  let default := defaultGroupingKey (groupingComponents libs eventData) (getTransaction eventData)
  (fingerprintKey eventData default).getD default

/-! ## The key up to v0.14.10 -/

/-- The message as it was read then: text fields only, empty or not. -/
def getLogMessageV1 (eventData : Value) : Option String :=
  let logentry := (eventData.get "logentry").bind fun entry =>
    (entry.str "message").or (entry.str "formatted")
  let message := (eventData.get "message").bind fun message =>
    (message.asStr).or (message.str "message")
  (logentry.or message).map firstLine

/-- The main exception then: the last one in the chain. -/
def getTypeAndValueV1 (eventData : Value) : String × String :=
  match ((exceptionValues eventData).bind List.getLast?).filter fun e => !isSynthetic e with
  | some exception =>
      (truncate ((exception.str "type").getD "Error") 128,
        truncate ((exception.str "value").getD "") 1024)
  | none =>
      match getLogMessageV1 eventData with
      | some message => ("Log Message", truncate message 1024)
      | none => ("Unknown", "")

/-- The v0.14.10 grouping key. -/
def calculateGroupingKeyV1 (eventData : Value) : String :=
  let (calculatedType, calculatedValue) := getTypeAndValueV1 eventData
  let default := getTitle calculatedType calculatedValue ++ groupingSeparator ++
    getTransaction eventData
  (fingerprintKey eventData default).getD default

end Rustrak.Grouping
