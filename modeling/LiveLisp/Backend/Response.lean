import LiveLisp.Backend.Result
import LiveLisp.Json.Parser
import LiveLisp.Text.Quoted
/-!
# Responses

The payload of a response is a JSON record with a status and a value. A value that is missing or
null reads as `nil`, a text as it is, and anything else as its JSON text.
-/

namespace LiveLisp.Backend

open Json (Value Datum)

/-- How deep a value may be nested inside a response. -/
def maxValueDepth : Nat := 126

/-- The text of a value. -/
def valueText? (value : Value) : Option String :=
  match value with
  | .null => some "nil"
  | .str text => text
  | value =>
    if value.depth ≤ maxValueDepth then value.datum?.map Datum.render else none

/-- The status and the text of the value in a payload. -/
def responseFields? (payload : String) : Option (String × String) := do
  let value ← Json.parse payload
  let fields ← value.record? ["status", "value"]
  let status ← (← fields[0]?)
  let status ← status.text?
  let value := (fields[1]?.join).getD .null
  return (status, ← valueText? value)

/-- The result that a payload reports. -/
def decodeResponse (payload : String) : Except Failure Result :=
  match responseFields? payload with
  | none => .error (.protocol ("no status and value: " ++ Text.quoted payload))
  | some (status, value) =>
    match status with
    | "success" => .ok (.success value)
    | "exception" => .ok (.exception value none)
    | "error" => .ok (.error value none)
    | _ => .error (.protocol ("unknown status " ++ Text.quoted status))

end LiveLisp.Backend
