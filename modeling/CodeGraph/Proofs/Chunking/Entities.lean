import CodeGraph.Chunking.Entity

set_option autoImplicit false

namespace CodeGraph

namespace Syntax.Node

inductive Below (root : Node) : Node → Prop
  | root : Below root root
  | child {node child : Node} : Below root node → child ∈ node.children → Below root child

theorem mem_of_childAt? {node child : Node} {field : String}
    (found : node.childAt? field = some child) : child ∈ node.children :=
  List.mem_of_find?_eq_some found

theorem mem_of_mem_namedChildren {node child : Node} (member : child ∈ node.namedChildren) :
    child ∈ node.children :=
  (List.mem_filter.mp member).1

theorem Below.childAt? {root node child : Node} {field : String} (below : Below root node)
    (found : node.childAt? field = some child) : Below root child :=
  below.child (mem_of_childAt? found)

end Syntax.Node

namespace Entity

open CodeGraph.Syntax

structure Reads (language : Language) (node : Node) (entity : Entity) : Prop where
  outer : entity.outer = node
  inner : node.Below entity.inner
  symbol : entity.type.isSymbol = true
  /-- Only methods of Go stand for themselves. -/
  method : entity.type = .method → language = .go

variable {language : Language} {source : Source} {outer node : Node} {entity : Entity}

theorem reads_of_named? {type : ChunkType} (found : named? source outer node type = some entity)
    (below : outer.Below node) (symbol : type.isSymbol = true)
    (method : type = .method → language = .go) : Reads language outer entity := by
  obtain ⟨name, -, rfl⟩ := Option.map_eq_some_iff.mp found
  exact ⟨rfl, below, symbol, method⟩

theorem variableType_cases (value : Option Node) :
    variableType value = .function ∨ variableType value = .classLike ∨
      variableType value = .binding := by
  unfold variableType
  split
  · split
    · exact .inl rfl
    · split
      · exact .inr (.inl rfl)
      · exact .inr (.inr rfl)
  · exact .inr (.inr rfl)

theorem reads_of_variableEntity? (found : variableEntity? source outer node = some entity)
    (below : outer.Below node) : Reads language outer entity := by
  obtain ⟨declarator, -, rest⟩ := Option.bind_eq_some_iff.mp found
  obtain ⟨name, -, rest⟩ := Option.bind_eq_some_iff.mp rest
  split at rest
  · cases rest
  · cases rest
    rcases variableType_cases (declarator.childAt? "value") with type | type | type
    all_goals exact ⟨rfl, below, by simp [type, ChunkType.isSymbol], by simp [type]⟩

theorem reads_of_ecmaScriptDeclaration?
    (found : ecmaScriptDeclaration? source outer node = some entity) (below : outer.Below node) :
    Reads language outer entity := by
  unfold ecmaScriptDeclaration? at found
  split at found
  case h_11 | h_12 => exact reads_of_variableEntity? found below
  case h_13 => cases found
  all_goals exact reads_of_named? found below rfl (by simp)

theorem reads_of_defaultValue? (found : defaultValue? outer node = some entity)
    (below : outer.Below node) : Reads language outer entity := by
  unfold defaultValue? at found
  split at found
  case h_5 => cases found
  all_goals
    cases found
    exact ⟨rfl, below, rfl, by simp⟩

theorem reads_of_ecmaScript? (found : ecmaScript? source node = some entity) :
    Reads language node entity := by
  unfold ecmaScript? at found
  split at found
  · split at found
    next declaration there =>
      exact reads_of_ecmaScriptDeclaration? found (Node.Below.root.childAt? there)
    next =>
      obtain ⟨value, there, made⟩ := Option.bind_eq_some_iff.mp found
      exact reads_of_defaultValue? made (Node.Below.root.childAt? there)
  · exact reads_of_ecmaScriptDeclaration? found .root

theorem reads_of_assignment? (found : assignment? source outer node = some entity)
    (below : outer.Below node) : Reads language outer entity := by
  obtain ⟨assignment, first, rest⟩ := Option.bind_eq_some_iff.mp found
  split at rest
  · cases rest
  · obtain ⟨left, -, rest⟩ := Option.bind_eq_some_iff.mp rest
    split at rest
    · cases rest
    · cases rest
      have member := Node.mem_of_mem_namedChildren (List.mem_of_head? first)
      exact ⟨rfl, below.child member, rfl, by simp⟩

theorem reads_of_pythonDeclaration? (found : pythonDeclaration? source outer node = some entity)
    (below : outer.Below node) : Reads language outer entity := by
  unfold pythonDeclaration? at found
  split at found
  case h_3 => exact reads_of_assignment? found below
  case h_4 => cases found
  all_goals exact reads_of_named? found below rfl (by simp)

theorem reads_of_python? (found : python? source node = some entity) :
    Reads language node entity := by
  unfold python? at found
  split at found
  · obtain ⟨definition, there, made⟩ := Option.bind_eq_some_iff.mp found
    exact reads_of_pythonDeclaration? made (Node.Below.root.childAt? there)
  · exact reads_of_pythonDeclaration? found .root

theorem of_rustType? {kind : String} {type : ChunkType} (found : rustType? kind = some type) :
    type.isSymbol = true ∧ type ≠ .method := by
  unfold rustType? at found
  split at found
  case h_12 => cases found
  all_goals
    cases found
    exact ⟨rfl, by simp⟩

theorem reads_of_rust? (found : rust? source node = some entity) : Reads language node entity := by
  obtain ⟨type, known, rest⟩ := Option.bind_eq_some_iff.mp found
  obtain ⟨name, -, made⟩ := Option.bind_eq_some_iff.mp rest
  cases made
  obtain ⟨symbol, other⟩ := of_rustType? known
  exact ⟨rfl, .root, symbol, fun method => absurd method other⟩

theorem isSymbol_goTypeOf (type : Option Node) : (goTypeOf type).isSymbol = true := by
  unfold goTypeOf
  split
  · split
    · rfl
    · split <;> rfl
  · rfl

theorem reads_of_go? (found : go? source node = some entity) : Reads .go node entity := by
  unfold go? at found
  split at found
  · exact reads_of_named? found .root rfl (by simp)
  · exact reads_of_named? found .root rfl (by simp)
  · obtain ⟨spec, -, rest⟩ := Option.bind_eq_some_iff.mp found
    obtain ⟨name, -, made⟩ := Option.bind_eq_some_iff.mp rest
    cases made
    exact ⟨rfl, .root, isSymbol_goTypeOf _, fun _ => rfl⟩
  · obtain ⟨spec, -, rest⟩ := Option.bind_eq_some_iff.mp found
    obtain ⟨name, -, made⟩ := Option.bind_eq_some_iff.mp rest
    cases made
    exact ⟨rfl, .root, rfl, fun _ => rfl⟩
  · obtain ⟨spec, -, rest⟩ := Option.bind_eq_some_iff.mp found
    obtain ⟨name, -, made⟩ := Option.bind_eq_some_iff.mp rest
    cases made
    exact ⟨rfl, .root, rfl, fun _ => rfl⟩
  · cases found

theorem reads_of_ofNode? (found : ofNode? language source node = some entity) :
    Reads language node entity := by
  cases language with
  | typeScript => exact reads_of_ecmaScript? found
  | tsx => exact reads_of_ecmaScript? found
  | javaScript => exact reads_of_ecmaScript? found
  | python => exact reads_of_python? found
  | rust => exact reads_of_rust? found
  | go => exact reads_of_go? found

theorem of_member? (found : member? language source node = some entity) :
    entity.outer = node ∧ node.Below entity.inner ∧ isMethodKind entity.inner.kind = true := by
  have method {inner : Node} (below : node.Below inner)
      (made : (if isMethodKind inner.kind then named? source node inner .method else none) =
        some entity) :
      entity.outer = node ∧ node.Below entity.inner ∧ isMethodKind entity.inner.kind = true := by
    split at made
    next isMethod =>
      obtain ⟨name, -, rfl⟩ := Option.map_eq_some_iff.mp made
      exact ⟨rfl, below, isMethod⟩
    next => cases made
  unfold member? at found
  dsimp only at found
  split at found
  · obtain ⟨definition, there, made⟩ := Option.bind_eq_some_iff.mp found
    exact method (Node.Below.root.childAt? there) made
  · exact method .root found

end Entity

end CodeGraph
