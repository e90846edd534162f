import CodeGraph.Text

set_option autoImplicit false

namespace CodeGraph

inductive Yaml where
  | null
  /-- A number or a truth value, as it is written. -/
  | plain (text : String)
  | string (text : String)
  | sequence (items : List Yaml)
  | mapping (entries : List (Yaml × Yaml))
deriving Inhabited, Repr

namespace Yaml

mutual

def beq : Yaml → Yaml → Bool
  | .null, .null => true
  | .plain a, .plain b => a == b
  | .string a, .string b => a == b
  | .sequence a, .sequence b => beqItems a b
  | .mapping a, .mapping b => beqEntries a b
  | _, _ => false

def beqItems : List Yaml → List Yaml → Bool
  | [], [] => true
  | a :: as, b :: bs => beq a b && beqItems as bs
  | _, _ => false

def beqEntries : List (Yaml × Yaml) → List (Yaml × Yaml) → Bool
  | [], [] => true
  | (k, a) :: as, (l, b) :: bs => beq k l && beq a b && beqEntries as bs
  | _, _ => false

end

instance : BEq Yaml := ⟨beq⟩

def string? : Yaml → Option String
  | .string text => some text
  | _ => none

def mapping? : Yaml → Option (List (Yaml × Yaml))
  | .mapping entries => some entries
  | _ => none

def get? (value : Yaml) (key : String) : Option Yaml := do
  let entries ← value.mapping?
  let entry ← entries.find? (fun entry => entry.1.string? == some key)
  return entry.2

def isNull (text : String) : Bool :=
  ["", "null", "Null", "NULL", "~"].contains text

def isTruth (text : String) : Bool :=
  ["true", "True", "TRUE", "false", "False", "FALSE"].contains text

def withoutSign (text : List Char) : List Char :=
  match text with
  | '+' :: rest | '-' :: rest => rest
  | _ => text

def isRadixDigit (radix : Nat) (c : Char) : Bool :=
  (Text.isDigit c && c.toNat - 48 < radix) ||
    (radix == 16 && "abcdefABCDEF".toList.contains c)

def isInteger (text : List Char) : Bool :=
  let digits := withoutSign text
  match digits with
  | '0' :: 'x' :: rest => !rest.isEmpty && rest.all (isRadixDigit 16)
  | '0' :: 'o' :: rest => !rest.isEmpty && rest.all (isRadixDigit 8)
  | '0' :: 'b' :: rest => !rest.isEmpty && rest.all (isRadixDigit 2)
  | '0' :: _ :: _ => false
  | _ => !digits.isEmpty && digits.all Text.isDigit

def isExponent (text : List Char) : Bool :=
  match text with
  | [] => true
  | c :: rest =>
      (c == 'e' || c == 'E') && !(withoutSign rest).isEmpty && (withoutSign rest).all Text.isDigit

def isDecimal (text : List Char) : Bool :=
  let digits := withoutSign text
  let whole := digits.takeWhile Text.isDigit
  match digits.drop whole.length with
  | '.' :: rest =>
      let fraction := rest.takeWhile Text.isDigit
      !(whole.isEmpty && fraction.isEmpty) && isExponent (rest.drop fraction.length)
  | rest => !whole.isEmpty && isExponent rest

def isSpecialNumber (text : List Char) : Bool :=
  [".nan", ".NaN", ".NAN"].contains (String.ofList text) ||
    [".inf", ".Inf", ".INF"].contains (String.ofList (withoutSign text))

/-- Digits behind a leading zero are a text. -/
def isZeroPadded (text : List Char) : Bool :=
  match withoutSign text with
  | '0' :: c :: rest => (c :: rest).all Text.isDigit
  | _ => false

def isNumber (text : List Char) : Bool :=
  isInteger text || (!isZeroPadded text && (isDecimal text || isSpecialNumber text))

def ofPlain (text : String) : Yaml :=
  if isNull text then .null
  else if isTruth text || isNumber text.toList then .plain text
  else .string text

end Yaml

end CodeGraph
