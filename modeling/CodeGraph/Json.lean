import CodeGraph.Text

/-!
JSON values. An object is kept as a list of fields that is strictly sorted by key, so two objects
with the same fields are equal.
-/

set_option autoImplicit false

namespace CodeGraph

namespace Json

/-- A number is an integer of at most 64 bits or a decimal `± digits · 10 ^ exponent`. -/
inductive Number where
  | int (value : Int)
  | decimal (negative : Bool) (digits : Nat) (exponent : Int)
deriving DecidableEq, Repr, Inhabited

def Number.toFloat : Number → Float
  | .int value =>
      let magnitude := Float.ofScientific value.natAbs false 0
      if value < 0 then -magnitude else magnitude
  | .decimal negative digits exponent =>
      let magnitude := Float.ofScientific digits (exponent < 0) exponent.natAbs
      if negative then -magnitude else magnitude

end Json

inductive Json where
  | null
  | bool (value : Bool)
  | number (value : Json.Number)
  | string (value : String)
  | array (items : List Json)
  | object (fields : List (String × Json))
deriving Inhabited, Repr

/-- Fields of an object, sorted by key. -/
abbrev Properties : Type := List (String × Json)

namespace Properties

def get? (properties : Properties) (key : String) : Option Json :=
  properties.lookup key

def insert (key : String) (value : Json) : Properties → Properties
  | [] => [(key, value)]
  | (k, v) :: rest =>
      if key = k then (key, value) :: rest
      else if key < k then (key, value) :: (k, v) :: rest
      else (k, v) :: insert key value rest

def ofList (fields : List (String × Json)) : Properties :=
  fields.foldl (fun properties field => insert field.1 field.2 properties) []

end Properties

namespace Json

mutual

def beq : Json → Json → Bool
  | .null, .null => true
  | .bool a, .bool b => a == b
  | .number a, .number b => decide (a = b)
  | .string a, .string b => a == b
  | .array a, .array b => beqItems a b
  | .object a, .object b => beqFields a b
  | _, _ => false

def beqItems : List Json → List Json → Bool
  | [], [] => true
  | a :: as, b :: bs => beq a b && beqItems as bs
  | _, _ => false

def beqFields : List (String × Json) → List (String × Json) → Bool
  | [], [] => true
  | (k, a) :: as, (l, b) :: bs => k == l && beq a b && beqFields as bs
  | _, _ => false

end

instance : BEq Json := ⟨beq⟩

def nat (value : Nat) : Json :=
  .number (.int value)

def int (value : Int) : Json :=
  .number (.int value)

def ofOption {α : Type} (encode : α → Json) : Option α → Json
  | some value => encode value
  | none => .null

def optionalString (value : Option String) : Json :=
  ofOption .string value

def record (fields : List (String × Json)) : Json :=
  .object (Properties.ofList fields)

def get? : Json → String → Option Json
  | .object fields, key => fields.lookup key
  | _, _ => none

def string? : Json → Option String
  | .string value => some value
  | _ => none

def bool? : Json → Option Bool
  | .bool value => some value
  | _ => none

def array? : Json → Option (List Json)
  | .array items => some items
  | _ => none

def object? : Json → Option (List (String × Json))
  | .object fields => some fields
  | _ => none

def int? : Json → Option Int
  | .number (.int value) => some value
  | _ => none

def nat? (value : Json) : Option Nat := do
  let number ← value.int?
  if 0 ≤ number then some number.toNat else none

def number? : Json → Option Number
  | .number value => some value
  | _ => none

end Json

end CodeGraph
