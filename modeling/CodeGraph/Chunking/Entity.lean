import CodeGraph.Chunk
import CodeGraph.Syntax.Node

set_option autoImplicit false

namespace CodeGraph

open CodeGraph.Syntax

structure Entity where
  outer : Node
  inner : Node
  type : ChunkType
  name : String

namespace Entity

def fieldText? (source : Source) (node : Node) (field : String) : Option String :=
  (node.childAt? field).map source.text

def named? (source : Source) (outer inner : Node) (type : ChunkType) : Option Entity :=
  (fieldText? source inner "name").map (fun name => ⟨outer, inner, type, name⟩)

def isFunctionValue (kind : String) : Bool :=
  ["arrow_function", "function_expression", "function", "generator_function"].contains kind

def variableType (value : Option Node) : ChunkType :=
  match value with
  | some value =>
      if isFunctionValue value.kind then .function
      else if value.kind == "class" then .classLike
      else .binding
  | none => .binding

def variableEntity? (source : Source) (outer node : Node) : Option Entity := do
  let declarator ← node.namedChildren.find? (·.kind == "variable_declarator")
  let name ← declarator.childAt? "name"
  if name.kind != "identifier" then none
  return ⟨outer, node, variableType (declarator.childAt? "value"), source.text name⟩

def defaultValue? (outer value : Node) : Option Entity :=
  match value.kind with
  | "function_expression" | "function" | "arrow_function" => some ⟨outer, value, .function, "default"⟩
  | "class" => some ⟨outer, value, .classLike, "default"⟩
  | _ => none

def ecmaScriptDeclaration? (source : Source) (outer node : Node) : Option Entity :=
  match node.kind with
  | "function_declaration" | "generator_function_declaration" | "function_signature" =>
      named? source outer node .function
  | "class_declaration" | "abstract_class_declaration" => named? source outer node .classLike
  | "interface_declaration" => named? source outer node .interface
  | "type_alias_declaration" => named? source outer node .typeAlias
  | "enum_declaration" => named? source outer node .enum
  | "internal_module" | "module" => named? source outer node .module
  | "lexical_declaration" | "variable_declaration" => variableEntity? source outer node
  | _ => none

def ecmaScript? (source : Source) (node : Node) : Option Entity :=
  if node.kind == "export_statement" then
    match node.childAt? "declaration" with
    | some declaration => ecmaScriptDeclaration? source node declaration
    | none => (node.childAt? "value").bind (defaultValue? node)
  else ecmaScriptDeclaration? source node node

def assignment? (source : Source) (outer statement : Node) : Option Entity := do
  let assignment ← statement.namedChildren.head?
  if assignment.kind != "assignment" then none
  let left ← assignment.childAt? "left"
  if left.kind != "identifier" then none
  return ⟨outer, assignment, .binding, source.text left⟩

def pythonDeclaration? (source : Source) (outer node : Node) : Option Entity :=
  match node.kind with
  | "function_definition" => named? source outer node .function
  | "class_definition" => named? source outer node .classLike
  | "expression_statement" => assignment? source outer node
  | _ => none

def python? (source : Source) (node : Node) : Option Entity :=
  if node.kind == "decorated_definition" then
    (node.childAt? "definition").bind (pythonDeclaration? source node)
  else pythonDeclaration? source node node

def rustType? : String → Option ChunkType
  | "function_item" | "macro_definition" => some .function
  | "struct_item" | "union_item" | "impl_item" => some .classLike
  | "enum_item" => some .enum
  | "trait_item" => some .interface
  | "type_item" => some .typeAlias
  | "const_item" | "static_item" => some .binding
  | "mod_item" => some .module
  | _ => none

def rust? (source : Source) (node : Node) : Option Entity := do
  let type ← rustType? node.kind
  let name ← (fieldText? source node "name").or (fieldText? source node "type")
  return ⟨node, node, type, name⟩

def goTypeOf (type : Option Node) : ChunkType :=
  match type with
  | some type =>
      if type.kind == "struct_type" then .classLike
      else if type.kind == "interface_type" then .interface
      else .typeAlias
  | none => .typeAlias

def go? (source : Source) (node : Node) : Option Entity :=
  match node.kind with
  | "function_declaration" => named? source node node .function
  | "method_declaration" => named? source node node .method
  | "type_declaration" => do
      let spec ← node.namedChildren.find? (fun c => c.kind == "type_spec" || c.kind == "type_alias")
      let name ← fieldText? source spec "name"
      return ⟨node, node, goTypeOf (spec.childAt? "type"), name⟩
  | "const_declaration" | "var_declaration" => do
      let spec ← node.namedChildren.find? (fun c => c.kind == "const_spec" || c.kind == "var_spec")
      let name ← fieldText? source spec "name"
      return ⟨node, node, .binding, name⟩
  | _ => none

def ofNode? (language : Language) (source : Source) (node : Node) : Option Entity :=
  match language with
  | .typeScript | .tsx | .javaScript => ecmaScript? source node
  | .python => python? source node
  | .rust => rust? source node
  | .go => go? source node

def isMethodKind (kind : String) : Bool :=
  ["method_definition", "abstract_method_signature", "function_definition", "function_item",
    "function_signature_item"].contains kind

def member? (language : Language) (source : Source) (node : Node) : Option Entity := do
  let inner ←
    if language == .python && node.kind == "decorated_definition" then node.childAt? "definition"
    else some node
  if isMethodKind inner.kind then named? source node inner .method else none

end Entity

end CodeGraph
