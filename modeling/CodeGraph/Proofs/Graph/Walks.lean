import CodeGraph.Proofs.Graph.Rows
import Mathlib.Order.Lattice.Nat

/-!
Searches outwards from some nodes, the seeds.

A walk starts at a seed and follows edges in either direction; of the nodes that it leaves only
seeds may be packages. The search proceeds in layers: after some rounds it has seen the nodes that
walks of so many edges reach, and its frontier is the last layer less the packages in it. The
queries for a layer may be cut into batches of any size.
-/

set_option autoImplicit false

namespace CodeGraph.Graph

variable {graph : Graph} {seeds : List String}

def Adjacent (graph : Graph) (a b : String) : Prop :=
  ∃ row ∈ graph.edges, row.source = a ∧ row.target = b ∨ row.source = b ∧ row.target = a

inductive Walk (graph : Graph) (seeds : List String) : Nat → String → Prop
  | seed {id : String} (member : id ∈ seeds) : Walk graph seeds 0 id
  | step {length : Nat} {a b : String} (walk : Walk graph seeds length a)
      (leaves : a ∈ seeds ∨ isPackageNode a = false) (adjacent : graph.Adjacent a b) :
      Walk graph seeds (length + 1) b

def Reaches (graph : Graph) (seeds : List String) (depth : Nat) (id : String) : Prop :=
  ∃ length ≤ depth, graph.Walk seeds length id

noncomputable def distance (graph : Graph) (seeds : List String) (id : String) : Nat :=
  sInf {length | graph.Walk seeds length id}

theorem distance_le {length : Nat} {id : String} (walk : graph.Walk seeds length id) :
    graph.distance seeds id ≤ length :=
  Nat.sInf_le walk

theorem Walk.shortest {length : Nat} {id : String} (walk : graph.Walk seeds length id) :
    graph.Walk seeds (graph.distance seeds id) id :=
  Nat.sInf_mem (s := {length | graph.Walk seeds length id}) ⟨length, walk⟩

theorem reaches_iff {depth : Nat} {id : String} :
    graph.Reaches seeds depth id ↔
      graph.Walk seeds (graph.distance seeds id) id ∧ graph.distance seeds id ≤ depth := by
  constructor
  · rintro ⟨length, short, walk⟩
    exact ⟨walk.shortest, (distance_le walk).trans short⟩
  · rintro ⟨walk, short⟩
    exact ⟨_, short, walk⟩

theorem Reaches.mono {depth deeper : Nat} {id : String} (reaches : graph.Reaches seeds depth id)
    (le : depth ≤ deeper) : graph.Reaches seeds deeper id := by
  obtain ⟨length, short, walk⟩ := reaches
  exact ⟨length, short.trans le, walk⟩

theorem reaches_of_mem {id : String} (member : id ∈ seeds) (depth : Nat) :
    graph.Reaches seeds depth id :=
  ⟨0, Nat.zero_le _, .seed member⟩

@[simp] theorem reaches_zero_iff {id : String} : graph.Reaches seeds 0 id ↔ id ∈ seeds := by
  constructor
  · rintro ⟨length, short, walk⟩
    obtain rfl := Nat.le_zero.mp short
    cases walk with
    | seed member => exact member
  · exact fun member => reaches_of_mem member 0

/-- A node of the last layer that the search may leave. -/
def Frontier (graph : Graph) (seeds : List String) (depth : Nat) (id : String) : Prop :=
  graph.Walk seeds depth id ∧ graph.distance seeds id = depth ∧
    (id ∈ seeds ∨ isPackageNode id = false)

theorem reaches_succ_iff {depth : Nat} {id : String} :
    graph.Reaches seeds (depth + 1) id ↔
      graph.Reaches seeds depth id ∨ ∃ a, graph.Frontier seeds depth a ∧ graph.Adjacent a id := by
  constructor
  · rintro ⟨length, short, walk⟩
    by_cases early : graph.Reaches seeds depth id
    · exact .inl early
    · obtain rfl : length = depth + 1 := by
        by_contra differ
        exact early ⟨length, by omega, walk⟩
      cases walk with
      | @step _ a _ walk leaves adjacent =>
          -- A shorter way to the node before would have reached this one already.
          refine .inr ⟨a, ⟨walk, ?_, leaves⟩, adjacent⟩
          by_contra differ
          have short := distance_le walk
          exact early ⟨_, by omega, .step walk.shortest leaves adjacent⟩
  · rintro (early | ⟨a, ⟨walk, -, leaves⟩, adjacent⟩)
    · exact early.mono (Nat.le_succ _)
    · exact ⟨depth + 1, le_rfl, .step walk leaves adjacent⟩

theorem distance_eq_succ {depth : Nat} {id : String}
    (late : graph.Reaches seeds (depth + 1) id) (new : ¬graph.Reaches seeds depth id) :
    graph.distance seeds id = depth + 1 := by
  obtain ⟨walk, short⟩ := reaches_iff.mp late
  by_contra differ
  exact new (reaches_iff.mpr ⟨walk, by omega⟩)

theorem mem_distinct {seen ids : List String} {id : String} :
    id ∈ distinct seen ids ↔ id ∈ ids ∧ id ∉ seen := by
  fun_induction distinct seen ids with
  | case1 => simp
  | case2 seen first rest old ih =>
      have old : first ∈ seen := by simpa using old
      rw [ih, List.mem_cons]
      constructor
      · exact fun ⟨later, new⟩ => ⟨.inr later, new⟩
      · rintro ⟨rfl | later, new⟩
        · exact absurd old new
        · exact ⟨later, new⟩
  | case3 seen first rest new ih =>
      have new : first ∉ seen := by simpa using new
      rw [List.mem_cons, ih, List.mem_cons, List.mem_cons, not_or]
      by_cases same : id = first <;> simp [same, new]

theorem nodup_distinct (seen ids : List String) : (distinct seen ids).Nodup := by
  fun_induction distinct seen ids with
  | case1 => exact List.nodup_nil
  | case2 _ _ _ _ ih => exact ih
  | case3 seen first rest _ ih =>
      refine List.nodup_cons.mpr ⟨fun again => ?_, ih⟩
      exact (mem_distinct.mp again).2 (List.mem_cons_self ..)

theorem foldl_see (search : Search) (ids : List String) :
    ids.foldl Search.see search =
      { visited := (distinct search.visited ids).reverse ++ search.visited
        reached := search.reached ++ distinct search.visited ids
        frontier := search.frontier ++
          (distinct search.visited ids).filter (fun id => !isPackageNode id) } := by
  induction ids generalizing search with
  | nil => simp [distinct]
  | cons id rest ih =>
      rw [List.foldl_cons, ih]
      by_cases old : id ∈ search.visited
      · simp [Search.see, distinct, old]
      · by_cases package : isPackageNode id = true <;>
          simp [Search.see, distinct, old, package]

theorem mem_batches {limit : Nat} {ids : List String} {id : String} :
    (∃ batch ∈ batches limit ids, id ∈ batch) ↔ id ∈ ids := by
  rw [← List.mem_flatten, batches_flatten]

theorem mem_neighbours {limit : Nat} {ids : List String} {ends : String × String} :
    ends ∈ neighbours limit graph ids ↔
      ∃ row ∈ graph.edges, (row.source ∈ ids ∨ row.target ∈ ids) ∧
        (row.source, row.target) = ends := by
  simp only [neighbours, List.mem_flatMap, List.mem_map, List.mem_filter, List.contains_eq_mem,
    Bool.or_eq_true, decide_eq_true_eq]
  constructor
  · rintro ⟨batch, part, row, ⟨inside, touches⟩, same⟩
    refine ⟨row, inside, ?_, same⟩
    exact touches.imp (fun hit => mem_batches.mp ⟨batch, part, hit⟩)
      fun hit => mem_batches.mp ⟨batch, part, hit⟩
  · rintro ⟨row, inside, source | target, same⟩
    · obtain ⟨batch, part, hit⟩ := mem_batches.mpr source
      exact ⟨batch, part, row, ⟨inside, .inl hit⟩, same⟩
    · obtain ⟨batch, part, hit⟩ := mem_batches.mpr target
      exact ⟨batch, part, row, ⟨inside, .inr hit⟩, same⟩

namespace Search

def expandBy (limit : Nat) (graph : Graph) (search : Search) : Search :=
  (neighbours limit graph search.frontier).foldl
    (fun search ends => (search.see ends.1).see ends.2) { search with frontier := [] }

def ends (limit : Nat) (graph : Graph) (search : Search) : List String :=
  (neighbours limit graph search.frontier).flatMap (fun ends => [ends.1, ends.2])

theorem expandBy_eq (limit : Nat) (search : Search) :
    search.expandBy limit graph =
      (search.ends limit graph).foldl Search.see { search with frontier := [] } := by
  rw [ends, List.foldl_flatMap]
  rfl

theorem expandBy_of_isEmpty {limit : Nat} {search : Search} (done : search.frontier = []) :
    search.expandBy limit graph = search := by
  cases search
  subst done
  simp [expandBy, neighbours, batches]

/-- That the search ends with an empty frontier changes nothing. -/
theorem run_eq_iterate (depth : Nat) (search : Search) :
    run graph depth search = (expandBy (idLimit / 2) graph)^[depth] search := by
  induction depth generalizing search with
  | zero => rfl
  | succ depth ih =>
      rw [run, Function.iterate_succ_apply]
      split
      next done =>
        rw [expandBy_of_isEmpty (List.isEmpty_iff.mp done)]
        exact (Function.iterate_fixed (expandBy_of_isEmpty (List.isEmpty_iff.mp done)) _).symm
      next => exact ih _

theorem mem_ends {limit : Nat} {search : Search} {id : String}
    (seen : ∀ a ∈ search.frontier, a ∈ search.visited) (new : id ∉ search.visited) :
    id ∈ search.ends limit graph ↔ ∃ a ∈ search.frontier, graph.Adjacent a id := by
  simp only [ends, List.mem_flatMap, mem_neighbours, List.mem_cons, List.not_mem_nil, or_false]
  constructor
  · rintro ⟨_, ⟨row, inside, touches, rfl⟩, same⟩
    -- The end at the frontier was seen, so the node is the other one.
    rcases touches with source | target
    · have other : id = row.target := same.resolve_left fun equal => new (equal ▸ seen _ source)
      exact ⟨row.source, source, row, inside, .inl ⟨rfl, other.symm⟩⟩
    · have other : id = row.source := same.resolve_right fun equal => new (equal ▸ seen _ target)
      exact ⟨row.target, target, row, inside, .inr ⟨other.symm, rfl⟩⟩
  · rintro ⟨a, front, row, inside, ⟨rfl, rfl⟩ | ⟨rfl, rfl⟩⟩
    · exact ⟨_, ⟨row, inside, .inl front, rfl⟩, .inr rfl⟩
    · exact ⟨_, ⟨row, inside, .inr front, rfl⟩, .inl rfl⟩

end Search

structure Layered (graph : Graph) (seeds : List String) (depth : Nat) (search : Search) : Prop where
  visited : ∀ id, id ∈ search.visited ↔ graph.Reaches seeds depth id
  reached : ∀ id, id ∈ search.reached ↔ id ∉ seeds ∧ graph.Reaches seeds depth id
  frontier : ∀ id, id ∈ search.frontier ↔ graph.Frontier seeds depth id
  once : search.reached.Nodup
  ordered : search.reached.Pairwise
    (fun a b => graph.distance seeds a ≤ graph.distance seeds b)

theorem layered_start : graph.Layered seeds 0 ⟨seeds, [], seeds⟩ where
  visited id := reaches_zero_iff.symm
  reached id := by simp
  frontier id := by
    constructor
    · intro member
      exact ⟨.seed member, Nat.le_zero.mp (distance_le (.seed member)), .inl member⟩
    · rintro ⟨walk, -⟩
      exact reaches_zero_iff.mp ⟨0, le_rfl, walk⟩
  once := List.nodup_nil
  ordered := .nil

variable {depth : Nat} {search : Search}

theorem Layered.mem_new (layered : graph.Layered seeds depth search) (limit : Nat) (id : String) :
    id ∈ distinct search.visited (search.ends limit graph) ↔
      graph.Reaches seeds (depth + 1) id ∧ ¬graph.Reaches seeds depth id := by
  have seen : ∀ a ∈ search.frontier, a ∈ search.visited := by
    intro a front
    obtain ⟨walk, -⟩ := (layered.frontier a).mp front
    exact (layered.visited a).mpr ⟨depth, le_rfl, walk⟩
  rw [mem_distinct, ← layered.visited]
  refine and_congr_left fun new => ?_
  rw [Search.mem_ends seen new, reaches_succ_iff, ← layered.visited, or_iff_right new]
  simp only [layered.frontier]

theorem Layered.expandBy (layered : graph.Layered seeds depth search) (limit : Nat) :
    graph.Layered seeds (depth + 1) (search.expandBy limit graph) := by
  have new := layered.mem_new limit
  have later {id : String} (member : id ∈ distinct search.visited (search.ends limit graph)) :
      graph.distance seeds id = depth + 1 :=
    distance_eq_succ ((new id).mp member).1 ((new id).mp member).2
  rw [Search.expandBy_eq, foldl_see]
  -- What is new is in the layer `depth + 1` exactly: within reach now, and not before.
  constructor
  case visited =>
    intro id
    rw [List.mem_append, List.mem_reverse, new, layered.visited]
    have early : graph.Reaches seeds depth id → graph.Reaches seeds (depth + 1) id :=
      fun reaches => reaches.mono (Nat.le_succ _)
    tauto
  case reached =>
    intro id
    rw [List.mem_append, layered.reached, new]
    have early : graph.Reaches seeds depth id → graph.Reaches seeds (depth + 1) id :=
      fun reaches => reaches.mono (Nat.le_succ _)
    have seed : id ∈ seeds → graph.Reaches seeds depth id := fun member => reaches_of_mem member _
    tauto
  case frontier =>
    intro id
    rw [List.nil_append, List.mem_filter, new]
    constructor
    · rintro ⟨⟨late, first⟩, plain⟩
      have layer := distance_eq_succ late first
      obtain ⟨walk, -⟩ := reaches_iff.mp late
      exact ⟨layer ▸ walk, layer, .inr (by simpa using plain)⟩
    · rintro ⟨walk, layer, leaves⟩
      have first : ¬graph.Reaches seeds depth id := by
        intro early
        have := (reaches_iff.mp early).2
        omega
      have foreign : id ∉ seeds := fun member => first (reaches_of_mem member _)
      exact ⟨⟨⟨_, le_rfl, walk⟩, first⟩, by simpa using leaves.resolve_left foreign⟩
  case once =>
    refine layered.once.append (nodup_distinct _ _) fun id old again => ?_
    exact ((new id).mp again).2 ((layered.reached id).mp old).2
  case ordered =>
    refine List.pairwise_append.mpr ⟨layered.ordered, ?_, ?_⟩
    · exact List.pairwise_of_forall_mem_list fun a first b second => by
        rw [later first, later second]
    · intro a old b second
      have early := (reaches_iff.mp ((layered.reached a).mp old).2).2
      rw [later second]
      omega

theorem layered_iterate (graph : Graph) (seeds : List String) (limit depth : Nat) :
    graph.Layered seeds depth ((Search.expandBy limit graph)^[depth] ⟨seeds, [], seeds⟩) := by
  induction depth with
  | zero => exact layered_start
  | succ depth ih =>
      rw [Function.iterate_succ_apply']
      exact ih.expandBy limit

end CodeGraph.Graph
