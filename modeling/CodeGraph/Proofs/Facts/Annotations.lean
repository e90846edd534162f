import CodeGraph.Proofs.Chunking.Identity
import CodeGraph.Proofs.Facts.Sites
import Mathlib.Data.List.Flatten
import Mathlib.Data.List.NodupEquivFin

/-!
Names in annotations. A walk comes to every type node, also to those inside other ones, and each of
them gives the identifiers below it as far as the next type node. An identifier is given by the
innermost type node above it, and by no other one.
-/

set_option autoImplicit false

namespace CodeGraph

open CodeGraph.Syntax

namespace Syntax.Node

variable {root node child type leaf : Node} {place outer inner : List Nat}

inductive Named : Node → List Nat → Node → Prop
  | here (node : Node) : Named node [] node
  | child {node child leaf : Node} {position : Nat} {place : List Nat}
      (found : node.children[position]? = some child) (named : child.named = true)
      (below : Named child place leaf) : Named node (position :: place) leaf

theorem Named.at?_eq (below : node.Named place leaf) : node.at? place = some leaf := by
  induction below with
  | here => rfl
  | child found _ _ ih => rw [at?, found, Option.bind_some, ih]

/-- The place of an identifier that a type node leads to through named children. -/
def IsAnnotated (root : Node) (place : List Nat) : Prop :=
  ∃ outer inner type leaf, place = outer ++ inner ∧ root.at? outer = some type ∧
    type.kind = "type" ∧ type.Named inner leaf ∧ leaf.kind = "identifier"

theorem induction {motive : Node → Prop}
    (step : ∀ node : Node, (∀ child ∈ node.children, motive child) → motive node) :
    ∀ node, motive node
  | ⟨kind, named, field, start, stop, children⟩ =>
      step ⟨kind, named, field, start, stop, children⟩ fun child member =>
        have : sizeOf child < sizeOf children := List.sizeOf_lt_of_mem member
        induction step child
termination_by node => sizeOf node
decreasing_by simp; omega

end Syntax.Node

namespace Facts.Python

open Syntax.Node

variable {source : Source} {root node child type leaf : Node} {place outer inner : List Nat}

def identifierAt? (node : Node) : List Nat → Option Node
  | [] => if node.kind = "identifier" then some node else none
  | position :: place =>
      if node.kind = "identifier" then none
      else node.children[position]?.bind fun child =>
        if child.named = true ∧ child.kind ≠ "type" then identifierAt? child place else none

/-- The identifiers that a node gives to the one above it. -/
def handedUp (child : Node) : List Node :=
  if child.named = true ∧ child.kind ≠ "type" then identifiers child else []

theorem identifiersAmong_eq (nodes : List Node) :
    identifiersAmong nodes = nodes.flatMap handedUp := by
  induction nodes with
  | nil => rfl
  | cons child rest ih =>
      rw [identifiersAmong, ih, List.flatMap_cons, handedUp]
      by_cases taken : child.named = true ∧ child.kind ≠ "type"
      · simp [taken]
      · rw [if_neg taken, if_neg (by simpa using taken), List.nil_append]

theorem identifiers_unfold (node : Node) :
    identifiers node =
      if node.kind = "identifier" then [node] else identifiersAmong node.children := by
  cases node
  simp [identifiers]

theorem identifiers_eq (node : Node) :
    identifiers node = node.places.filterMap (identifierAt? node) := by
  induction node using Node.induction with
  | step node ih =>
      rw [identifiers_unfold]
      by_cases leaf : node.kind = "identifier"
      · rw [if_pos leaf, filterMap_places (fun _ => []) fun position child _ => ?_]
        · simp [identifierAt?, leaf]
        · simp [identifierAt?, leaf]
      · rw [if_neg leaf, identifiersAmong_eq,
          filterMap_places handedUp fun position child found => ?_]
        · simp only [identifierAt?, leaf, if_false, Option.toList_none, List.nil_append]
        · simp only [identifierAt?, leaf, if_false, found, Option.bind_some, handedUp]
          split
          · exact (ih child (List.mem_of_getElem? found)).symm
          · exact List.filterMap_none _

theorem identifierAt?_eq_some {position : Nat}
    (found : identifierAt? node (position :: place) = some leaf) :
    ∃ child, node.children[position]? = some child ∧ child.named = true ∧ child.kind ≠ "type" ∧
      identifierAt? child place = some leaf := by
  rw [identifierAt?] at found
  split at found
  · cases found
  · obtain ⟨child, inside, found⟩ := Option.bind_eq_some_iff.mp found
    split at found
    next taken => exact ⟨child, inside, taken.1, taken.2, found⟩
    next => cases found

theorem named_of_identifierAt? (found : identifierAt? node place = some leaf) :
    node.Named place leaf ∧ leaf.kind = "identifier" := by
  induction place generalizing node with
  | nil =>
      rw [identifierAt?] at found
      split at found
      next kind => cases found; exact ⟨.here _, kind⟩
      next => cases found
  | cons position place ih =>
      obtain ⟨child, inside, named, -, found⟩ := identifierAt?_eq_some found
      obtain ⟨below, kind⟩ := ih found
      exact ⟨.child inside named below, kind⟩

theorem not_type_of_identifierAt? (found : identifierAt? node (outer ++ inner) = some leaf)
    (between : outer ≠ []) (inside : node.at? outer = some type) : type.kind ≠ "type" := by
  induction outer generalizing node with
  | nil => exact absurd rfl between
  | cons position outer ih =>
      obtain ⟨child, here, -, plain, found⟩ := identifierAt?_eq_some found
      rw [at?, here, Option.bind_some] at inside
      cases outer with
      | nil => cases inside; exact plain
      | cons next outer => exact ih found (List.cons_ne_nil _ _) inside

theorem exists_identifierAt? (below : node.Named place leaf) (kind : leaf.kind = "identifier")
    (leaves : ∀ inner, node.Below inner → inner.kind = "identifier" → inner.children = []) :
    identifierAt? node place = some leaf ∨
      ∃ outer inner type, place = outer ++ inner ∧ node.at? outer = some type ∧
        type.kind = "type" ∧ identifierAt? type inner = some leaf := by
  induction below with
  | here node => exact .inl (by rw [identifierAt?, if_pos kind])
  | @child node child leaf position place found named below ih =>
      have inside : child ∈ node.children := List.mem_of_getElem? found
      have branching : node.kind ≠ "identifier" := fun same => by
        rw [leaves node .root same] at inside
        cases inside
      rcases ih kind fun inner further =>
          leaves inner ((Node.Below.root.child inside).trans further)
        with here | ⟨outer, inner, type, rfl, above, kind', given⟩
      · by_cases kind' : child.kind = "type"
        · exact .inr ⟨[position], place, child, rfl, by simp [at?, found], kind', here⟩
        · exact .inl (by simp [identifierAt?, branching, found, named, kind', here])
      · exact .inr ⟨position :: outer, inner, type, rfl, by simp [at?, found, above], kind', given⟩

def givenAt (root : Node) (outer : List Nat) : List (List Nat) :=
  (root.at? outer).elim [] fun node =>
    if node.kind = "type" then
      (node.places.filter fun inner => (identifierAt? node inner).isSome).map (outer ++ ·)
    else []

def annotationPlaces (root : Node) : List (List Nat) :=
  root.places.flatMap (givenAt root)

theorem mem_givenAt : place ∈ givenAt root outer ↔
    ∃ inner type leaf, place = outer ++ inner ∧ root.at? outer = some type ∧
      type.kind = "type" ∧ identifierAt? type inner = some leaf := by
  cases above : root.at? outer with
  | none => simp [givenAt, above]
  | some type =>
      rw [givenAt, above, Option.elim_some]
      constructor
      · intro member
        split at member
        next kind =>
          obtain ⟨inner, listed, rfl⟩ := List.mem_map.mp member
          obtain ⟨leaf, given⟩ := Option.isSome_iff_exists.mp (List.mem_filter.mp listed).2
          exact ⟨inner, type, leaf, rfl, rfl, kind, given⟩
        next => cases member
      · rintro ⟨inner, _, leaf, rfl, same, kind, given⟩
        cases same
        have inside : inner ∈ type.places := by
          rw [mem_places, (named_of_identifierAt? given).1.at?_eq]
          rfl
        rw [if_pos kind]
        exact List.mem_map_of_mem (List.mem_filter.mpr ⟨inside, by rw [given]; rfl⟩)

theorem mem_annotationPlaces : place ∈ annotationPlaces root ↔
    ∃ outer inner type leaf, place = outer ++ inner ∧ root.at? outer = some type ∧
      type.kind = "type" ∧ identifierAt? type inner = some leaf := by
  simp only [annotationPlaces, List.mem_flatMap, mem_givenAt]
  constructor
  · rintro ⟨outer, -, given⟩
    exact ⟨outer, given⟩
  · rintro ⟨outer, inner, type, leaf, same, above, given⟩
    exact ⟨outer, mem_places.mpr (by rw [above]; rfl), inner, type, leaf, same, above, given⟩

/-- An identifier is given by a type node above it, and every one below a type node is given. -/
theorem mem_annotationPlaces_iff
    (leaves : ∀ node, root.Below node → node.kind = "identifier" → node.children = []) :
    place ∈ annotationPlaces root ↔ root.IsAnnotated place := by
  rw [mem_annotationPlaces]
  constructor
  · rintro ⟨outer, inner, type, leaf, same, above, kind, given⟩
    obtain ⟨below, identifier⟩ := named_of_identifierAt? given
    exact ⟨outer, inner, type, leaf, same, above, kind, below, identifier⟩
  · rintro ⟨outer, inner, type, leaf, rfl, above, kind, below, identifier⟩
    rcases exists_identifierAt? below identifier fun node further =>
        leaves node ((below_of_at? above).trans further)
      with given | ⟨between, inner, nearest, rfl, further, kind', given⟩
    · exact ⟨outer, inner, type, leaf, rfl, above, kind, given⟩
    · refine ⟨outer ++ between, inner, nearest, leaf, by simp, ?_, kind', given⟩
      rw [at?_append, above, Option.bind_some, further]

/-- No identifier is given by two type nodes: the outer one does not look past the inner one. -/
theorem outer_unique {outer' : List Nat} (member : place ∈ givenAt root outer)
    (member' : place ∈ givenAt root outer') (shorter : outer.length ≤ outer'.length) :
    outer = outer' := by
  obtain ⟨inner, type, leaf, rfl, above, -, given⟩ := mem_givenAt.mp member
  obtain ⟨inner', type', -, same, above', kind', -⟩ := mem_givenAt.mp member'
  obtain ⟨between, rfl⟩ : outer <+: outer' :=
    List.prefix_of_prefix_length_le ⟨inner, same⟩ (List.prefix_append outer' inner') shorter
  rw [List.append_assoc, List.append_cancel_left_eq] at same
  rw [at?_append, above, Option.bind_some] at above'
  by_cases apart : between = []
  · rw [apart, List.append_nil]
  · exact absurd kind' (not_type_of_identifierAt? (same ▸ given) apart above')

theorem nodup_annotationPlaces (root : Node) : (annotationPlaces root).Nodup := by
  refine List.nodup_flatMap.mpr ⟨fun outer _ => ?_, ?_⟩
  · cases above : root.at? outer with
    | none => simp [givenAt, above]
    | some type =>
        rw [givenAt, above, Option.elim_some]
        split
        · exact (type.nodup_places.filter _).map (List.append_right_injective outer)
        · exact List.nodup_nil
  · refine root.nodup_places.imp fun {outer outer'} differ place member member' => ?_
    rcases Nat.le_total outer.length outer'.length with shorter | shorter
    · exact differ (outer_unique member member' shorter)
    · exact differ (outer_unique member' member shorter).symm

def annotations (source : Source) (root : Node) : List Occurrence :=
  walk (fun ancestors node => if node.kind = "type" then visit source ancestors node else []) root

def typed (source : Source) (leaf : Node) : Occurrence :=
  .typed ⟨source.text leaf, source.line leaf⟩

theorem annotations_eq (source : Source) (root : Node) :
    annotations source root = root.places.flatMap fun outer =>
      (root.at? outer).elim [] fun node =>
        if node.kind = "type" then (identifiers node).map (typed source) else [] := by
  rw [annotations, walk_eq_places]
  refine List.flatMap_congr fun outer _ => ?_
  rw [← map_snd_find? [] root outer]
  cases root.find? [] outer with
  | none => rfl
  | some stop =>
      rw [Option.map_some, Option.elim_some, Option.elim_some]
      split
      next kind =>
        rw [visit, kind]
        rfl
      next => rfl

theorem map_some_annotations (source : Source) (root : Node) :
    (annotations source root).map some =
      (annotationPlaces root).map fun place => (root.at? place).map (typed source) := by
  rw [annotations_eq, annotationPlaces, List.map_flatMap, List.map_flatMap]
  refine List.flatMap_congr fun outer _ => ?_
  cases above : root.at? outer with
  | none => simp [givenAt, above]
  | some type =>
      rw [givenAt, above, Option.elim_some, Option.elim_some]
      split
      next kind =>
        calc ((identifiers type).map (typed source)).map some
          _ = ((identifiers type).map some).map (Option.map (typed source)) := by
              rw [List.map_map, List.map_map]
              rfl
          _ = ((type.places.filter fun inner => (identifierAt? type inner).isSome).map
                (identifierAt? type)).map (Option.map (typed source)) := by
              rw [identifiers_eq, List.map_filterMap_some_eq_filter_map_isSome, List.filter_map]
              rfl
          _ = _ := by
              rw [List.map_map, List.map_map]
              refine List.map_congr_left fun inner listed => ?_
              obtain ⟨leaf, given⟩ := Option.isSome_iff_exists.mp (List.mem_filter.mp listed).2
              have below := (named_of_identifierAt? given).1.at?_eq
              simp [at?_append, above, below, given]
      next => rfl

/-- An identifier that a type node leads to through named children is noted once, whatever type
nodes lie between, and nothing else is noted at type nodes. -/
theorem annotations_are_noted_once (source : Source) (root : Node)
    (leaves : ∀ node, root.Below node → node.kind = "identifier" → node.children = []) :
    (annotations source root).Sublist (walk (visit source) root) ∧
    ∃ each : Fin (annotations source root).length ≃ {place // root.IsAnnotated place},
      ∀ entry, ∃ leaf, root.at? (each entry) = some leaf ∧
        (annotations source root)[entry] = .typed ⟨source.text leaf, source.line leaf⟩ := by
  have listed := map_some_annotations source root
  have size : (annotations source root).length = (annotationPlaces root).length := by
    simpa using congrArg List.length listed
  refine ⟨?_, (finCongr size).trans ((nodup_annotationPlaces root).getEquiv.trans
    (Equiv.subtypeEquivRight fun _ => mem_annotationPlaces_iff leaves)), fun entry => ?_⟩
  · rw [annotations, walk_eq, walk_eq]
    refine List.Sublist.flatMap_right _ fun stop _ => ?_
    split
    · exact List.Sublist.refl _
    · exact List.nil_sublist _
  · have here := congrArg (fun entries => entries[entry.val]?) listed
    have inside : entry.val < (annotationPlaces root).length := size ▸ entry.isLt
    simp only [List.getElem?_map, List.getElem?_eq_getElem entry.isLt,
      List.getElem?_eq_getElem inside, Option.map_some, Option.some.injEq] at here
    obtain ⟨leaf, found, said⟩ := Option.map_eq_some_iff.mp here.symm
    exact ⟨leaf, found, said.symm⟩

def nestedType : Node :=
  .branch "type" [.branch "generic_type" [.leaf "identifier" 0 4, .branch "type_parameter"
    [.token "[" 4 5, .branch "type" [.leaf "identifier" 5 8], .token "]" 8 9]]]

theorem nestedType_is_noted_once :
    let source := Source.ofString "List[int]"
    annotations source nestedType = [.typed ⟨"List", 1⟩, .typed ⟨"int", 1⟩] ∧
    ∃ each : Fin (annotations source nestedType).length ≃ {place // nestedType.IsAnnotated place},
      ∀ entry, ∃ leaf, nestedType.at? (each entry) = some leaf ∧
        (annotations source nestedType)[entry] =
          .typed ⟨source.text leaf, source.line leaf⟩ := by
  intro source
  have closed : nestedType.every
      (fun node => node.kind != "identifier" || node.children.isEmpty) = true := by
    decide +kernel
  refine ⟨?_, (annotations_are_noted_once source nestedType fun node below kind => ?_).2⟩
  · rw [annotations_eq]
    decide +kernel
  · have holds := (every_iff.mp (below.every closed)).1
    simpa [kind] using holds

end Facts.Python

end CodeGraph
