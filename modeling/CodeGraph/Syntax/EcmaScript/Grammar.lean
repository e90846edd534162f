import CodeGraph.Syntax.EcmaScript.Token

/-!
The recursive part of the grammar. Rules call each other through `Grammar.read`, which names the
rule by a `Goal`; the knot is tied once, on the depth that is left.
-/

set_option autoImplicit false

namespace CodeGraph.Syntax.EcmaScript

inductive Goal where
  | statement
  | block
  /-- Expressions with commas. The flag allows the operator `in`. -/
  | expression (allowIn : Bool)
  | assignment (allowIn : Bool)
  | binary (level : Nat) (allowIn : Bool)
  | unary
  | pattern
  | type
  /-- A type that is not conditional. -/
  | plainType
  | element
deriving DecidableEq, Repr

structure Grammar where
  typed : Bool
  elements : Bool
  read : Goal → Parser Node

namespace Grammar

def expression (grammar : Grammar) : Parser Node := grammar.read (.expression true)

def assignment (grammar : Grammar) : Parser Node := grammar.read (.assignment true)

def whenTyped {α : Type} (grammar : Grammar) (parser : Parser α) : Parser α := do
  Parser.guardThat grammar.typed
  parser

def initializer (grammar : Grammar) (allowIn : Bool) : Parser (List Node) := do
  let equals ← symbol "="
  let value ← grammar.read (.assignment allowIn)
  return [equals, value.inField "value"]

def optionalList (parser : Parser (List Node)) : Parser (List Node) :=
  return (← Parser.optional parser).getD []

def propertyName (grammar : Grammar) : Parser Node :=
  Parser.firstOf [word "property_identifier", privateName, string, number, do
    let left ← symbol "["
    let value ← grammar.assignment
    let right ← symbol "]"
    return Node.branch "computed_property_name" [left, value, right]]

def restPattern (grammar : Grammar) : Parser Node := do
  let dots ← symbol "..."
  let target ← grammar.read .pattern
  return Node.branch "rest_pattern" [dots, target]

def patternWithDefault (grammar : Grammar) : Parser Node := do
  let target ← grammar.read .pattern
  match ← Parser.optional (symbol "=") with
  | none => return target
  | some equals =>
      let value ← grammar.assignment
      return Node.branch "assignment_pattern"
        [target.inField "left", equals, value.inField "right"]

def objectPatternItem (grammar : Grammar) : Parser Node :=
  Parser.firstOf [restPattern grammar, do
      let key ← propertyName grammar
      let colon ← symbol ":"
      let value ← patternWithDefault grammar
      return Node.branch "pair_pattern" [key.inField "key", colon, value.inField "value"], do
      let target ← name "shorthand_property_identifier_pattern"
      match ← Parser.optional (symbol "=") with
      | none => return target
      | some equals =>
          let value ← grammar.assignment
          return Node.branch "object_assignment_pattern"
            [target.inField "left", equals, value.inField "right"]]

def arrayItems (item : Parser Node) : Parser (List Node) :=
  Parser.many (Parser.firstOf [symbol ",", item])

def pattern (grammar : Grammar) : Parser Node :=
  Parser.firstOf [identifier, do
      let left ← symbol "\x7b"
      let items ← commaSeparated (objectPatternItem grammar)
      let right ← symbol "\x7d"
      return Node.branch "object_pattern" (left :: items ++ [right]), do
      let left ← symbol "["
      let items ← arrayItems
        (Parser.firstOf [restPattern grammar, patternWithDefault grammar])
      let right ← symbol "]"
      return Node.branch "array_pattern" (left :: items ++ [right]),
    restPattern grammar]

end Grammar

end CodeGraph.Syntax.EcmaScript
