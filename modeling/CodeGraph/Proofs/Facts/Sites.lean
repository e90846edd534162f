import CodeGraph.Facts.File
import CodeGraph.Proofs.Chunking.Entities
import CodeGraph.Proofs.Edge.Reference
import CodeGraph.Proofs.Syntax.Walk

set_option autoImplicit false

namespace CodeGraph

open CodeGraph.Syntax

theorem Syntax.Node.below_of_at? {root node : Node} {place : List Nat}
    (found : root.at? place = some node) : root.Below node := by
  induction place using List.reverseRecOn generalizing node with
  | nil =>
      cases found
      exact .root
  | append_singleton outer position ih =>
      rw [at?_append] at found
      obtain ⟨parent, above, found⟩ := Option.bind_eq_some_iff.mp found
      obtain ⟨child, inside, found⟩ := Option.bind_eq_some_iff.mp found
      cases found
      exact (ih above).child (List.mem_of_getElem? inside)

theorem Syntax.exists_of_mem_walk {α : Type} {visit : List Node → Node → List α} {root : Node}
    {found : α} (member : found ∈ walk visit root) :
    ∃ ancestors node, root.Below node ∧ found ∈ visit ancestors node := by
  rw [walk_eq] at member
  obtain ⟨stop, inside, made⟩ := List.mem_flatMap.mp member
  obtain ⟨place, -, reached⟩ := List.mem_filterMap.mp inside
  have below : root.at? place = some stop.2 := by rw [← Node.map_snd_find? [], reached]; rfl
  exact ⟨stop.1, stop.2, Node.below_of_at? below, made⟩

theorem Syntax.Node.Below.trans {root node inner : Node} (outer : root.Below node)
    (below : node.Below inner) : root.Below inner := by
  induction below with
  | root => exact outer
  | child _ member ih => exact ih.child member

namespace Facts

/-- The use that an occurrence is, if it is one. -/
def useOf? : Occurrence → Option (String × Site)
  | .called site => some ("call", site)
  | .typed site => some ("type", site)
  | .imported .. | .exported .. => none

theorem mem_uses_record {facts : Facts} {occurrence : Occurrence} {use : String × Site} :
    use ∈ (facts.record occurrence).uses ↔ use ∈ facts.uses ∨ useOf? occurrence = some use := by
  cases occurrence with
  | imported | exported => simp [uses, record, useOf?]
  | called site | typed site =>
      simp only [uses, record, useOf?, List.map_append, List.map_cons, List.map_nil,
        List.mem_append, List.mem_singleton, Option.some.injEq, eq_comm (b := use)]
      tauto

theorem mem_uses_foldl_record {facts : Facts} {occurrences : List Occurrence}
    {use : String × Site} : use ∈ (occurrences.foldl record facts).uses ↔
      use ∈ facts.uses ∨ ∃ occurrence ∈ occurrences, useOf? occurrence = some use := by
  induction occurrences generalizing facts with
  | nil => simp
  | cons occurrence rest ih => simp [ih, mem_uses_record, or_assoc]

theorem mem_uses_ofOccurrences {occurrences : List Occurrence} {use : String × Site} :
    use ∈ (ofOccurrences occurrences).uses ↔
      ∃ occurrence ∈ occurrences, useOf? occurrence = some use := by
  rw [ofOccurrences, mem_uses_foldl_record]
  exact or_iff_right (by simp [uses])

def WrittenAt (source : Source) (node : Node) (occurrences : List Occurrence) : Prop :=
  ∀ occurrence ∈ occurrences, ∀ use, useOf? occurrence = some use →
    ∃ place, node.Below place ∧ use.2.line = source.line place

variable {source : Source} {node : Node} {occurrences : List Occurrence}

theorem writtenAt_nil : WrittenAt source node [] :=
  nofun

theorem writtenAt_of_useless (useless : ∀ occurrence ∈ occurrences, useOf? occurrence = none) :
    WrittenAt source node occurrences := by
  intro occurrence member use isUse
  rw [useless occurrence member] at isUse
  cases isUse

theorem writtenAt_singleton {occurrence : Occurrence} {place : Node} (below : node.Below place)
    (line : ∀ use, useOf? occurrence = some use → use.2.line = source.line place) :
    WrittenAt source node [occurrence] := by
  intro other member use isUse
  rw [List.mem_singleton.mp member] at isUse
  exact ⟨place, below, line use isUse⟩

theorem WrittenAt.append {more : List Occurrence} (first : WrittenAt source node occurrences)
    (second : WrittenAt source node more) : WrittenAt source node (occurrences ++ more) :=
  fun occurrence member => (List.mem_append.mp member).elim (first occurrence) (second occurrence)

theorem WrittenAt.ite {condition : Prop} [Decidable condition] {more : List Occurrence}
    (first : WrittenAt source node occurrences) (second : WrittenAt source node more) :
    WrittenAt source node (if condition then occurrences else more) := by
  split
  · exact first
  · exact second

theorem writtenAt_called {name : String} :
    WrittenAt source node [.called ⟨name, source.line node⟩] := by
  refine writtenAt_singleton .root fun use isUse => ?_
  cases isUse
  rfl

theorem writtenAt_typed {name : String} :
    WrittenAt source node [.typed ⟨name, source.line node⟩] := by
  refine writtenAt_singleton .root fun use isUse => ?_
  cases isUse
  rfl

theorem writtenAt_imported {specifier : String} {specifiers : List String} {kind : ImportKind}
    {line : Nat} : WrittenAt source node [.imported specifier specifiers kind line] :=
  writtenAt_of_useless (by simp [useOf?])

theorem writtenAt_exported {names : List String} {line : Nat} :
    WrittenAt source node [.exported names line] :=
  writtenAt_of_useless (by simp [useOf?])

namespace EcmaScript

theorem writtenAt_imports (source : Source) (node : Node) :
    WrittenAt source node (imports source node) := by
  unfold imports
  dsimp only
  split <;> split <;> first | exact writtenAt_imported | exact writtenAt_nil

theorem writtenAt_exports (source : Source) (node : Node) :
    WrittenAt source node (exports source node) := by
  refine WrittenAt.append ?_ ?_
  · split
    · exact writtenAt_imported
    · exact writtenAt_nil
  · exact writtenAt_nil.ite writtenAt_exported

theorem writtenAt_calls (source : Source) (node : Node) :
    WrittenAt source node (calls source node) := by
  unfold calls
  dsimp only
  split
  · exact writtenAt_nil
  · split
    · split
      · exact writtenAt_imported
      · exact writtenAt_nil
    · refine WrittenAt.ite ?_ writtenAt_called
      split
      · exact writtenAt_imported
      · exact writtenAt_nil
    · split
      · exact writtenAt_called
      · exact writtenAt_nil
    · exact writtenAt_nil

theorem writtenAt_visit (source : Source) (ancestors : List Node) (node : Node) :
    WrittenAt source node (visit source ancestors node) := by
  unfold visit
  split
  · exact writtenAt_imports source node
  · exact writtenAt_exports source node
  · exact writtenAt_calls source node
  · unfold constructions
    split
    · exact writtenAt_called.ite writtenAt_nil
    · exact writtenAt_nil
  · exact writtenAt_nil.ite writtenAt_typed
  · exact writtenAt_typed.ite writtenAt_nil
  · exact writtenAt_nil

end EcmaScript

namespace Python

mutual

theorem below_of_mem_identifiers {node leaf : Node} (member : leaf ∈ identifiers node) :
    node.Below leaf := by
  cases node with
  | mk kind named field start stop children =>
      rw [identifiers] at member
      split at member
      · rw [List.mem_singleton.mp member]
        exact .root
      · obtain ⟨child, inside, below⟩ := below_of_mem_identifiersAmong member
        exact (Node.Below.root.child inside).trans below

theorem below_of_mem_identifiersAmong {nodes : List Node} {leaf : Node}
    (member : leaf ∈ identifiersAmong nodes) : ∃ child ∈ nodes, child.Below leaf := by
  cases nodes with
  | nil => cases member
  | cons child rest =>
      rw [identifiersAmong] at member
      have later (inside : leaf ∈ identifiersAmong rest) :
          ∃ other ∈ child :: rest, other.Below leaf := by
        obtain ⟨other, listed, below⟩ := below_of_mem_identifiersAmong inside
        exact ⟨other, List.mem_cons_of_mem _ listed, below⟩
      split at member
      · rcases List.mem_append.mp member with own | inside
        · exact ⟨child, List.mem_cons_self .., below_of_mem_identifiers own⟩
        · exact later inside
      · exact later member

end

theorem writtenAt_types (source : Source) (node : Node) :
    WrittenAt source node (types source node) := by
  intro occurrence member use isUse
  obtain ⟨leaf, listed, rfl⟩ := List.mem_map.mp member
  cases isUse
  exact ⟨leaf, below_of_mem_identifiers listed, rfl⟩

theorem writtenAt_bases (source : Source) (node : Node) :
    WrittenAt source node (bases source node) := by
  intro occurrence member use isUse
  obtain ⟨base, listed, named⟩ := List.mem_filterMap.mp member
  obtain ⟨name, -, rfl⟩ := Option.map_eq_some_iff.mp named
  cases isUse
  refine ⟨base, ?_, rfl⟩
  cases given : node.childAt? "superclasses" with
  | none =>
      rw [given] at listed
      cases listed
  | some list =>
      rw [given] at listed
      exact (Node.Below.root.childAt? given).child (Node.mem_of_mem_namedChildren listed)

theorem writtenAt_moduleExports (source : Source) (ancestors : List Node) (node : Node) :
    WrittenAt source node (moduleExports source ancestors node) := by
  refine WrittenAt.ite ?_ writtenAt_nil
  split
  · exact writtenAt_exported
  · exact writtenAt_nil

theorem writtenAt_visit (source : Source) (ancestors : List Node) (node : Node) :
    WrittenAt source node (visit source ancestors node) := by
  unfold visit
  split
  · refine writtenAt_of_useless fun occurrence member => ?_
    obtain ⟨module, -, rfl⟩ := List.mem_map.mp member
    rfl
  · unfold fromImports
    split
    · exact writtenAt_nil
    · exact writtenAt_imported
  · unfold calls
    split
    · exact writtenAt_called
    · exact writtenAt_nil
  · exact writtenAt_types source node
  · exact (writtenAt_bases source node).append (writtenAt_moduleExports source ancestors node)
  · exact writtenAt_moduleExports source ancestors node
  · exact writtenAt_nil

end Python

def ofTree (language : Language) (source : Source) (tree : Node) : Facts :=
  ofOccurrences <| match language.family with
    | .ecmaScript => walk (EcmaScript.visit source) tree
    | .python => walk (Python.visit source) tree
    | .other => []

theorem ofFile?_eq (path content : String) (grammars : Grammars) :
    ofFile? path content grammars = (Language.ofPath? path).map fun language =>
      ofTree language (Source.ofString content) (grammars language content.toList) := by
  unfold ofFile?
  cases Language.ofPath? path with
  | none => rfl
  | some language => rfl

theorem exists_place_of_mem_uses {language : Language} {source : Source} {tree : Node}
    {use : String × Site} (member : use ∈ (ofTree language source tree).uses) :
    ∃ place, tree.Below place ∧ use.2.line = source.line place := by
  obtain ⟨occurrence, listed, isUse⟩ := mem_uses_ofOccurrences.mp member
  split at listed
  · obtain ⟨ancestors, node, below, made⟩ := exists_of_mem_walk listed
    obtain ⟨place, inner, line⟩ :=
      EcmaScript.writtenAt_visit source ancestors node occurrence made use isUse
    exact ⟨place, below.trans inner, line⟩
  · obtain ⟨ancestors, node, below, made⟩ := exists_of_mem_walk listed
    obtain ⟨place, inner, line⟩ :=
      Python.writtenAt_visit source ancestors node occurrence made use isUse
    exact ⟨place, below.trans inner, line⟩
  · cases listed

end Facts

end CodeGraph
