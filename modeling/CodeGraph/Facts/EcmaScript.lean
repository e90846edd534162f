import CodeGraph.Facts
import CodeGraph.Syntax.Node

set_option autoImplicit false

namespace CodeGraph.Facts.EcmaScript

open CodeGraph.Syntax

def isStringMark (c : Char) : Bool :=
  "rbufRBUF".toList.contains c

def isQuote (c : Char) : Bool :=
  c == '"' || c == '\'' || c == '`'

def stringValue? (source : Source) (node : Node) : Option String :=
  let text := Text.trimStartBy isStringMark (source.text node).toList
  Specifier.nonEmpty (Text.trimBy isQuote text)

def clauseSpecifiers (source : Source) (clause : Node) : List String :=
  clause.namedChildren.flatMap fun part =>
    match part.kind with
    | "identifier" => ["default"]
    | "namespace_import" => ["*"]
    | "named_imports" =>
        (part.namedChildren.filter (·.kind == "import_specifier")).filterMap
          (fun specifier => (specifier.childAt? "name").map source.text)
    | _ => []

def stringAt? (source : Source) (node : Node) (field : String) : Option String := do
  stringValue? source (← node.childAt? field)

def imports (source : Source) (node : Node) : List Occurrence :=
  let line := source.line node
  match node.namedChildren.find? (·.kind == "import_require_clause") with
  | some clause =>
      match stringAt? source clause "source" with
      | some specifier => [.imported specifier ["default"] .require line]
      | none => []
  | none =>
      match stringAt? source node "source" with
      | some specifier =>
          let clauses := node.namedChildren.filter (·.kind == "import_clause")
          [.imported specifier (clauses.flatMap (clauseSpecifiers source)) .static line]
      | none => []

def exportPairs (source : Source) (clause : Node) : List (String × Option String) :=
  (clause.namedChildren.filter (·.kind == "export_specifier")).filterMap fun specifier =>
    (specifier.childAt? "name").map
      (fun given => (source.text given, (specifier.childAt? "alias").map source.text))

def declaredNames (source : Source) (declaration : Node) : List String :=
  if declaration.kind == "lexical_declaration" || declaration.kind == "variable_declaration" then
    let names := (declaration.namedChildren.filter (·.kind == "variable_declarator")).filterMap
      (·.childAt? "name")
    (names.filter (·.kind == "identifier")).map source.text
  else ((declaration.childAt? "name").map source.text).toList

def exports (source : Source) (node : Node) : List Occurrence :=
  let line := source.line node
  let clause := node.namedChildren.find? (·.kind == "export_clause")
  let pairs := (clause.map (exportPairs source)).getD []
  let passed : List Occurrence :=
    match stringAt? source node "source" with
    | some specifier =>
        let specifiers := if clause.isSome then pairs.map Prod.fst else ["*"]
        [.imported specifier specifiers .reExport line]
    | none => []
  let declared := ((node.childAt? "declaration").or (node.childAt? "value")).map
    (declaredNames source)
  let names := pairs.map (fun pair => pair.2.getD pair.1) ++ declared.getD [] ++
    (if node.children.any (·.kind == "default") then ["default"] else [])
  passed ++ if names.isEmpty then [] else [.exported names line]

def firstString? (source : Source) (call : Node) : Option String := do
  let given ← call.childAt? "arguments"
  let first ← given.namedChildren.head?
  if first.kind == "string" then stringValue? source first else none

def calls (source : Source) (node : Node) : List Occurrence :=
  let line := source.line node
  match node.childAt? "function" with
  | none => []
  | some function =>
      match function.kind with
      | "import" =>
          match firstString? source node with
          | some specifier => [.imported specifier ["*"] .dynamic line]
          | none => []
      | "identifier" =>
          if source.text function == "require" then
            match firstString? source node with
            | some specifier => [.imported specifier [] .require line]
            | none => []
          else [.called ⟨source.text function, line⟩]
      | "member_expression" =>
          match function.childAt? "property" with
          | some property => [.called ⟨source.text property, line⟩]
          | none => []
      | _ => []

def constructions (source : Source) (node : Node) : List Occurrence :=
  match node.childAt? "constructor" with
  | some target =>
      if target.kind == "identifier" then [.called ⟨source.text target, source.line node⟩] else []
  | none => []

def isDeclaredName (ancestors : List Node) (node : Node) : Bool :=
  match ancestors.head?.bind (·.childAt? "name") with
  | some given => given.start == node.start && given.stop == node.stop
  | none => false

def isHeritage (ancestors : List Node) : Bool :=
  match ancestors with
  | parent :: _ => parent.kind == "class_heritage" || parent.kind == "extends_clause"
  | [] => false

def visit (source : Source) (ancestors : List Node) (node : Node) : List Occurrence :=
  match node.kind with
  | "import_statement" => imports source node
  | "export_statement" => exports source node
  | "call_expression" => calls source node
  | "new_expression" => constructions source node
  | "type_identifier" =>
      if isDeclaredName ancestors node then [] else [.typed ⟨source.text node, source.line node⟩]
  | "identifier" =>
      if isHeritage ancestors then [.typed ⟨source.text node, source.line node⟩] else []
  | _ => []

end CodeGraph.Facts.EcmaScript
