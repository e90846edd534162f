import CodeGraph.Json

/-!
Records in JSON. A record is written as an object, in which unknown keys are passed over and a known
one may stand once, or as an array with the fields in order.
-/

set_option autoImplicit false

namespace CodeGraph.Json

structure RecordField where
  key : String
  mayEnd : Bool

namespace RecordField

def find? (fields : List (String × Json)) (field : RecordField) : Option (Option Json) :=
  match fields.filter (fun entry => entry.1 == field.key) with
  | [] => some none
  | [entry] => some (some entry.2)
  | _ => none

def position? : List RecordField → List Json → Option (List (Option Json))
  | [], [] => some []
  | [], _ :: _ => none
  | field :: fields, [] => if field.mayEnd then (position? fields []).map (none :: ·) else none
  | _ :: fields, item :: items => (position? fields items).map (some item :: ·)

end RecordField

def record? (fields : List RecordField) : Json → Option (List (Option Json))
  | .object entries => fields.mapM (RecordField.find? entries)
  | .array items => RecordField.position? fields items
  | _ => none

def optionalText? : Option Json → Option (Option String)
  | none | some .null => some none
  | some (.string text) => some (some text)
  | some _ => none

/-- A map that may be missing, but not null. The last one of a repeated key counts. -/
def map? {α : Type} (value? : Json → Option α) : Option Json → Option (List (String × α))
  | none => some []
  | some (.object entries) => do
      let values ← entries.mapM (fun entry => return (entry.1, ← value? entry.2))
      return values.reverse
  | some _ => none

end CodeGraph.Json
