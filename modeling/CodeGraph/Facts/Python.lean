import CodeGraph.Facts
import CodeGraph.Syntax.Node

set_option autoImplicit false

namespace CodeGraph.Facts.Python

open CodeGraph.Syntax

def importedModule? (source : Source) (node : Node) : Option String :=
  match node.kind with
  | "dotted_name" => some (source.text node)
  | "aliased_import" => (node.childAt? "name").map source.text
  | _ => none

def slashed (c : Char) : Char :=
  if c == '.' then '/' else c

/-- A module text such as `..a.b` as a path: one dot is the directory of the file, and each
further dot one directory up. -/
def relativeSpecifier (module : List Char) : List Char :=
  let dots := (module.takeWhile (· == '.')).length
  let rest := (module.dropWhile (· == '.')).map slashed
  let start := if dots ≤ 1 then ['.'] else Text.joinWith ['/'] (List.replicate (dots - 1) ['.', '.'])
  if rest.isEmpty then start else start ++ '/' :: rest

def plainImports (source : Source) (node : Node) : List Occurrence :=
  (node.namedChildren.filterMap (importedModule? source)).map
    (fun module => .imported module [] .static (source.line node))

def fromImports (source : Source) (node : Node) : List Occurrence :=
  match node.childAt? "module_name" with
  | none => []
  | some module =>
      let path :=
        if module.kind == "relative_import" then
          String.ofList (relativeSpecifier (source.text module).toList)
        else source.text module
      let names := (node.childrenAt "name").filterMap (importedModule? source)
      let all := if node.namedChildren.any (·.kind == "wildcard_import") then ["*"] else []
      [.imported path (names ++ all) .static (source.line node)]

def lastName? (node : Node) : Option Node :=
  match node.kind with
  | "identifier" => some node
  | "attribute" => node.childAt? "attribute"
  | _ => none

def calls (source : Source) (node : Node) : List Occurrence :=
  match (node.childAt? "function").bind lastName? with
  | some callee => [.called ⟨source.text callee, source.line node⟩]
  | none => []

mutual

/-- The identifiers below a node. Nested type nodes are visited on their own. -/
def identifiers : Node → List Node
  | ⟨kind, named, field, start, stop, children⟩ =>
      if kind == "identifier" then [⟨kind, named, field, start, stop, children⟩]
      else identifiersAmong children

def identifiersAmong : List Node → List Node
  | [] => []
  | child :: rest =>
      if child.named && child.kind != "type" then identifiers child ++ identifiersAmong rest
      else identifiersAmong rest

end

def types (source : Source) (node : Node) : List Occurrence :=
  (identifiers node).map (fun leaf => .typed ⟨source.text leaf, source.line leaf⟩)

def bases (source : Source) (node : Node) : List Occurrence :=
  let given := ((node.childAt? "superclasses").map Node.namedChildren).getD []
  given.filterMap fun base =>
    (lastName? base).map (fun name => .typed ⟨source.text name, source.line base⟩)

def moduleExports (source : Source) (ancestors : List Node) (node : Node) : List Occurrence :=
  let outer := match ancestors with
    | parent :: rest => if parent.kind == "decorated_definition" then rest else parent :: rest
    | [] => []
  if outer.head?.any (·.kind == "module") then
    match node.childAt? "name" with
    | some name => [.exported [source.text name] (source.line node)]
    | none => []
  else []

def visit (source : Source) (ancestors : List Node) (node : Node) : List Occurrence :=
  match node.kind with
  | "import_statement" => plainImports source node
  | "import_from_statement" => fromImports source node
  | "call" => calls source node
  | "type" => types source node
  | "class_definition" => bases source node ++ moduleExports source ancestors node
  | "function_definition" => moduleExports source ancestors node
  | _ => []

end CodeGraph.Facts.Python
