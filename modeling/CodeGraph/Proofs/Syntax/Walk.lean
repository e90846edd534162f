import CodeGraph.Syntax.Walk
import Mathlib.Data.List.Basic

/-!
A walk comes to every node of a tree once, in pre-order.

A node is given by its place: the positions of children that lead to it from the root. The places
of a tree, a node before what is below it and siblings from left to right, are in lexicographic
order. What a cursor still has before it is fixed by where it stands: what is below it, the siblings
behind it, and those behind each of its ancestors.
-/

set_option autoImplicit false

namespace CodeGraph.Syntax

namespace Node

def find? (ancestors : List Node) (root : Node) : List Nat → Option (List Node × Node)
  | [] => some (ancestors, root)
  | position :: place =>
      root.children[position]?.bind (fun child => find? (root :: ancestors) child place)

def at? (root : Node) : List Nat → Option Node
  | [] => some root
  | position :: place => root.children[position]?.bind (fun child => at? child place)

theorem map_snd_find? (ancestors : List Node) (root : Node) (place : List Nat) :
    (find? ancestors root place).map Prod.snd = root.at? place := by
  induction place generalizing ancestors root with
  | nil => rfl
  | cons position place ih => simp only [find?, at?, Option.map_bind, Function.comp_def, ih]

theorem isSome_find? (ancestors : List Node) (root : Node) (place : List Nat) :
    (find? ancestors root place).isSome = (root.at? place).isSome := by
  rw [← map_snd_find? ancestors, Option.isSome_map]

theorem at?_append (root : Node) (outer inner : List Nat) :
    root.at? (outer ++ inner) = (root.at? outer).bind (fun node => node.at? inner) := by
  induction outer generalizing root with
  | nil => rfl
  | cons position outer ih => simp [at?, Option.bind_assoc, ih]

end Node

mutual

/-- The places of the nodes of a tree: a node comes before its children, which come from left to
right, each with what is below it. -/
def Node.places : Node → List (List Nat)
  | ⟨_, _, _, _, _, children⟩ => [] :: placesFrom 0 children

def placesFrom (position : Nat) : List Node → List (List Nat)
  | [] => []
  | node :: rest => node.places.map (position :: ·) ++ placesFrom (position + 1) rest

end

theorem Node.places_eq (node : Node) : node.places = [] :: placesFrom 0 node.children := by
  cases node
  rw [Node.places]

theorem exists_of_mem_placesFrom {start : Nat} {nodes : List Node} {place : List Nat}
    (member : place ∈ placesFrom start nodes) :
    ∃ position inner, place = position :: inner ∧ start ≤ position := by
  induction nodes generalizing start with
  | nil => cases member
  | cons node rest ih =>
      rcases List.mem_append.mp member with own | later
      · obtain ⟨inner, -, rfl⟩ := List.mem_map.mp own
        exact ⟨start, inner, rfl, Nat.le_refl start⟩
      · obtain ⟨position, inner, same, bound⟩ := ih later
        exact ⟨position, inner, same, by omega⟩

mutual

theorem Node.places_sorted (node : Node) : node.places.Pairwise (· < ·) := by
  cases node with
  | mk kind named field start stop children =>
      rw [Node.places]
      refine List.pairwise_cons.mpr ⟨fun place member => ?_, placesFrom_sorted 0 children⟩
      obtain ⟨position, inner, rfl, -⟩ := exists_of_mem_placesFrom member
      exact List.nil_lt_cons position inner

theorem placesFrom_sorted (start : Nat) (nodes : List Node) :
    (placesFrom start nodes).Pairwise (· < ·) := by
  cases nodes with
  | nil => exact .nil
  | cons node rest =>
      rw [placesFrom, List.pairwise_append, List.pairwise_map]
      refine ⟨(node.places_sorted).imp fun less => ?_, placesFrom_sorted (start + 1) rest, ?_⟩
      · exact List.cons_lt_cons_iff.mpr (.inr ⟨rfl, less⟩)
      · intro place own place' later
        obtain ⟨inner, -, rfl⟩ := List.mem_map.mp own
        obtain ⟨position, inner', rfl, bound⟩ := exists_of_mem_placesFrom later
        exact List.cons_lt_cons_iff.mpr (.inl bound)

end

theorem Node.nodup_places (node : Node) : node.places.Nodup := by
  refine node.places_sorted.imp fun {place place'} less same => ?_
  exact List.lt_irrefl place' (same ▸ less)

theorem placesFrom_eq (start : Nat) (nodes : List Node) :
    placesFrom start nodes =
      (nodes.zipIdx start).flatMap (fun (node, position) => node.places.map (position :: ·)) := by
  induction nodes generalizing start with
  | nil => rfl
  | cons node rest ih => rw [placesFrom, ih, List.zipIdx_cons, List.flatMap_cons]

theorem Node.mem_places {root : Node} {place : List Nat} :
    place ∈ root.places ↔ (root.at? place).isSome := by
  induction place generalizing root with
  | nil => simp [places_eq, at?]
  | cons position place ih =>
      have below : position :: place ∈ root.places ↔
          ∃ child, root.children[position]? = some child ∧ place ∈ child.places := by
        rw [places_eq, placesFrom_eq]
        simp [List.mk_mem_zipIdx_iff_getElem?]
      rw [below, at?]
      cases root.children[position]? with
      | none => simp
      | some child => simp [ih]

theorem Node.filterMap_places {β : Type} {f : List Nat → Option β} {root : Node}
    (below : Node → List β) (read : ∀ position child, root.children[position]? = some child →
      child.places.filterMap (fun place => f (position :: place)) = below child) :
    root.places.filterMap f = (f []).toList ++ root.children.flatMap below := by
  have each : ∀ entry ∈ root.children.zipIdx,
      (entry.1.places.map (entry.2 :: ·)).filterMap f = below entry.1 := by
    intro entry member
    rw [List.filterMap_map]
    exact read entry.2 entry.1 (List.mk_mem_zipIdx_iff_getElem?.mp member)
  calc root.places.filterMap f
    _ = (f []).toList ++ root.children.zipIdx.flatMap fun entry =>
          (entry.1.places.map (entry.2 :: ·)).filterMap f := by
        rw [places_eq, placesFrom_eq, List.filterMap_cons, List.filterMap_flatMap]
        cases f [] <;> rfl
    _ = (f []).toList ++ root.children.zipIdx.flatMap fun entry => below entry.1 := by
        rw [List.flatMap_congr each]
    _ = (f []).toList ++ root.children.flatMap below := by
        rw [← List.flatMap_map Prod.fst, List.zipIdx_map_fst]

def Node.stops (ancestors : List Node) (root : Node) : List (List Node × Node) :=
  root.places.filterMap (root.find? ancestors)

theorem Node.stops_eq (ancestors : List Node) (root : Node) :
    root.stops ancestors =
      (ancestors, root) :: root.children.flatMap (stops (root :: ancestors)) := by
  refine filterMap_places (stops (root :: ancestors)) fun position child found => ?_
  rw [stops]
  refine List.filterMap_congr fun place _ => ?_
  simp [find?, found]

theorem Node.map_some_stops (ancestors : List Node) (root : Node) :
    (root.stops ancestors).map some = root.places.map (root.find? ancestors) := by
  rw [stops, List.map_filterMap_some_eq_filter_map_isSome, List.filter_eq_self]
  intro stop member
  obtain ⟨place, inside, rfl⟩ := List.mem_map.mp member
  rw [isSome_find?]
  exact mem_places.mp inside

namespace Node.Cursor

def stop (cursor : Cursor) : List Node × Node :=
  (cursor.ancestors, cursor.node)

/-- The nodes behind some node and behind each one above it. -/
def rest : List (Node × List Node) → List (List Node × Node)
  | [] => []
  | (_, behind) :: above => behind.flatMap (Node.stops (above.map Prod.fst)) ++ rest above

def ahead (cursor : Cursor) : List (List Node × Node) :=
  cursor.node.stops cursor.ancestors ++ rest ((cursor.node, cursor.behind) :: cursor.above)

theorem ahead_start (root : Node) : (start root).ahead = root.stops [] := by
  simp [ahead, start, rest, ancestors]

theorem ahead_climb? (cursor : Cursor) :
    cursor.climb?.elim [] ahead = rest ((cursor.node, cursor.behind) :: cursor.above) := by
  fun_induction climb? cursor with
  | case1 cursor next found =>
      obtain ⟨behind, above⟩ := nextSibling?_eq_some found
      simp [ahead, rest, ancestors, behind, above]
  | case2 cursor last parent up ih =>
      rw [ih, parent?_eq_some up, nextSibling?_eq_none last]
      simp [rest]
  | case3 cursor last top => simp [rest, nextSibling?_eq_none last, parent?_eq_none top]

theorem ahead_eq (cursor : Cursor) :
    cursor.ahead = cursor.stop :: cursor.advance?.elim [] ahead := by
  rw [ahead, Node.stops_eq, advance?]
  cases found : cursor.firstChild? with
  | some child =>
      obtain ⟨children, above⟩ := firstChild?_eq_some found
      simp [ahead, rest, stop, ancestors, children, above]
  | none =>
      rw [ahead_climb?, firstChild?_eq_none found]
      simp [stop]

/-- The cursor after some moves of a walk; none once the walk is over. -/
def after (root : Node) : Nat → Option Cursor
  | 0 => some (start root)
  | moves + 1 => (after root moves).bind advance?

theorem ahead_after (root : Node) (moves : Nat) :
    (after root moves).elim [] ahead = (root.stops []).drop moves := by
  induction moves with
  | zero => simp [after, ahead_start]
  | succ moves ih =>
      rw [after, ← List.tail_drop, ← ih]
      cases after root moves with
      | none => rfl
      | some cursor => rw [Option.bind_some, Option.elim_some, ahead_eq, List.tail_cons]

theorem stop_after (root : Node) (moves : Nat) :
    (after root moves).map stop = (root.stops [])[moves]? := by
  rw [← List.head?_drop, ← ahead_after]
  cases after root moves with
  | none => rfl
  | some cursor => rw [Option.elim_some, ahead_eq, List.head?_cons, Option.map_some]

end Node.Cursor

theorem walkFrom_eq {α : Type} (visit : List Node → Node → List α) (cursor : Node.Cursor) :
    walkFrom visit cursor = cursor.ahead.flatMap (fun stop => visit stop.1 stop.2) := by
  fun_induction walkFrom visit cursor with
  | case1 cursor ih =>
      rw [cursor.ahead_eq, List.flatMap_cons]
      congr 1
      split
      next next moved => rw [ih next moved, moved, Option.elim_some]
      next last => rw [last, Option.elim_none, List.flatMap_nil]

theorem walk_eq {α : Type} (visit : List Node → Node → List α) (root : Node) :
    walk visit root = (root.stops []).flatMap (fun stop => visit stop.1 stop.2) := by
  rw [walk, walkFrom_eq, Node.Cursor.ahead_start]

theorem Node.length_stops (ancestors : List Node) (root : Node) :
    (root.stops ancestors).length = root.places.length := by
  simpa using congrArg List.length (root.map_some_stops ancestors)

theorem walk_eq_places {α : Type} (visit : List Node → Node → List α) (root : Node) :
    walk visit root = root.places.flatMap (fun place =>
      (root.find? [] place).elim [] (fun stop => visit stop.1 stop.2)) := by
  rw [walk_eq, Node.stops, List.filterMap_eq_flatMap_toList, List.flatMap_assoc]
  refine List.flatMap_congr fun place _ => ?_
  cases root.find? [] place with
  | none => rfl
  | some stop => simp

/-- A walk comes to every node of a tree once, before what is below it and after what stands to the
left of it, and gives what the nodes say one after the other. Its loop ends: each move leads to the
next node, and after as many moves as there are nodes there is none. -/
theorem walk_visits_every_node_once (root : Node) :
    (root.places.Pairwise (· < ·) ∧ ∀ place, place ∈ root.places ↔ (root.at? place).isSome) ∧
    (∀ moves, Node.Cursor.after root moves = none ↔ root.places.length ≤ moves) ∧
    (∀ moves, (Node.Cursor.after root moves).map Node.Cursor.stop =
      root.places[moves]?.bind (root.find? [])) ∧
    ∀ {α : Type} (visit : List Node → Node → List α), walk visit root =
      root.places.flatMap (fun place =>
        (root.find? [] place).elim [] (fun stop => visit stop.1 stop.2)) := by
  refine ⟨⟨root.places_sorted, fun place => Node.mem_places⟩, fun moves => ?_, fun moves => ?_,
    fun visit => ?_⟩
  · rw [← Option.map_eq_none_iff, Node.Cursor.stop_after, List.getElem?_eq_none_iff,
      Node.length_stops]
  · have order := congrArg (fun stops => stops[moves]?.bind id) (root.map_some_stops [])
    simpa [Node.Cursor.stop_after, Option.bind_map, Function.comp_def] using order
  · exact walk_eq_places visit root

end CodeGraph.Syntax
