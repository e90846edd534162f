import CodeGraph.Proofs.Graph.Related

/-!
Requests for many nodes, which are cut into batches.

An edge may be found by two batches, for its source and for its target, and an identifier that is
repeated may stand in two of them. The answers are the same for every size of the batches: they are
what one query for all identifiers gives.
-/

set_option autoImplicit false

namespace CodeGraph.Graph

variable {graph : Graph} {ids seen : List String} {found : List Chunk}

/-- The stored ones of some chunks, each where its identifier comes first. -/
structure Listed (graph : Graph) (ids : List String) (found : List Chunk) : Prop where
  exact : ∀ chunk, chunk ∈ found ↔ ∃ row ∈ graph.chunks, row.id ∈ ids ∧ row.chunk = .ok chunk
  once : (found.map Chunk.id).Nodup
  ordered : found.Pairwise (fun a b => ids.idxOf a.id < ids.idxOf b.id)

theorem distinct_ordered (seen ids : List String) :
    (distinct seen ids).Pairwise (fun a b => ids.idxOf a < ids.idxOf b) := by
  fun_induction distinct seen ids with
  | case1 => exact .nil
  | case2 seen id rest old ih =>
      have old : id ∈ seen := by simpa using old
      refine ih.imp_of_mem fun {a b} first second less => ?_
      have apart {other : String} (member : other ∈ distinct seen rest) : id ≠ other :=
        fun same => (mem_distinct.mp member).2 (same ▸ old)
      rw [List.idxOf_cons_ne rest (apart first), List.idxOf_cons_ne rest (apart second)]
      exact Nat.succ_lt_succ less
  | case3 seen id rest new ih =>
      have apart {other : String} (member : other ∈ distinct (id :: seen) rest) : id ≠ other :=
        fun same => (mem_distinct.mp member).2 (same ▸ List.mem_cons_self ..)
      refine List.pairwise_cons.mpr ⟨fun other later => ?_, ?_⟩
      · rw [List.idxOf_cons_self, List.idxOf_cons_ne rest (apart later)]
        exact Nat.succ_pos _
      · refine ih.imp_of_mem fun {a b} first second less => ?_
        rw [List.idxOf_cons_ne rest (apart first), List.idxOf_cons_ne rest (apart second)]
        exact Nat.succ_lt_succ less

theorem getChunks_ok_iff (unique : Table.Unique ChunkRow.id graph.chunks) {limit : Nat} :
    (∃ found, getChunks limit graph ids = .ok found) ↔
      ∀ row ∈ graph.chunks, row.id ∈ ids → row.Legible := by
  constructor
  · rintro ⟨found, read⟩ row inside asked
    by_contra illegible
    obtain ⟨error, failed⟩ := @getChunks_error _ _ limit _ inside asked illegible
    cases read.symm.trans failed
  · exact fun legible => ⟨_, getChunks_eq unique legible⟩

theorem listed_of_getChunks (unique : Table.Unique ChunkRow.id graph.chunks) {limit : Nat}
    (read : getChunks limit graph ids = .ok found) : graph.Listed ids found := by
  have legible := (getChunks_ok_iff unique).mp ⟨found, read⟩
  rw [getChunks_eq unique legible] at read
  obtain rfl := Except.ok.inj read
  have order := map_id_stored graph (distinct [] ids)
  constructor
  case exact =>
    intro chunk
    rw [mem_stored unique]
    simp only [mem_distinct, List.not_mem_nil, not_false_eq_true, and_true]
    refine exists_congr fun row => and_congr_right fun inside => and_congr_right fun asked => ?_
    rw [(legible row inside asked).chunk_eq, Except.ok.injEq]
  case once => exact (nodup_distinct [] ids).sublist order
  case ordered =>
    have sorted := (distinct_ordered [] ids).sublist order
    rwa [List.pairwise_map] at sorted

/-- Whatever the size of the batches, and however often an identifier is repeated: the chunks that
are read are the stored ones, each where its identifier comes first, unless one of them cannot be
read; the ends that are found are those of the edges at one of the nodes; and the edges that are
removed are those that lead to one of the nodes, or those of the given kinds that leave one. -/
theorem batches_are_invisible (graph : Graph)
    (unique : Table.Unique ChunkRow.id graph.chunks) (ids : List String) (limit : Nat) :
    ((∃ found, getChunks limit graph ids = .ok found) ↔
      ∀ row ∈ graph.chunks, row.id ∈ ids → row.Legible) ∧
    (∀ found, getChunks limit graph ids = .ok found → graph.Listed ids found) ∧
    (∀ ends, ends ∈ neighbours limit graph ids ↔
      ∃ row ∈ graph.edges, (row.source ∈ ids ∨ row.target ∈ ids) ∧
        (row.source, row.target) = ends) ∧
    dropEdgesInto limit graph ids =
      { graph with edges := graph.edges.filter (fun row => row.target ∉ ids) } ∧
    ∀ kinds : List EdgeKind, dropEdgesFrom limit graph ids kinds =
      { graph with edges := graph.edges.filter (fun row =>
          ¬(row.source ∈ ids ∧ (kinds = [] ∨ ∃ kind ∈ kinds, kind.name = row.kind))) } := by
  refine ⟨getChunks_ok_iff unique, fun found => listed_of_getChunks unique,
    fun ends => mem_neighbours, ?_, fun kinds => ?_⟩
  · rw [dropEdgesInto_eq]
    simp [dropEdges]
  · have same (row : EdgeRow) : (ids.contains row.source &&
          (kinds.isEmpty || (kinds.map EdgeKind.name).contains row.kind)) =
        decide (row.source ∈ ids ∧ (kinds = [] ∨ ∃ kind ∈ kinds, kind.name = row.kind)) := by
      rw [Bool.eq_iff_iff]
      simp
    simp only [dropEdgesFrom_eq, dropEdges, same, decide_not]

theorem importers_in_batches_of_one :
    ∃ found, getChunks 1 importers ["3", "1", "3"] = .ok found ∧
      found.map Chunk.id = ["3", "1"] ∧ importers.Listed ["3", "1", "3"] found := by
  have unique : Table.Unique ChunkRow.id importers.chunks := by decide
  obtain ⟨readable, listed, -⟩ := batches_are_invisible importers unique ["3", "1", "3"] 1
  obtain ⟨found, read⟩ := readable.mpr (by decide)
  have ids : (getChunks 1 importers ["3", "1", "3"]).map (·.map Chunk.id) = .ok ["3", "1"] := by
    decide +kernel
  rw [read] at ids
  exact ⟨found, read, Except.ok.inj ids, listed found read⟩

end CodeGraph.Graph
