import CodeGraph.Graph.Store
import CodeGraph.Proofs.Graph.Walks
import CodeGraph.Proofs.Table.Revisions

/-!
The chunks around some nodes: those that a short walk reaches, each once, the near ones first.

Chunks are read in batches and given in the order in which they were asked for. A row that cannot be
read is an error, so the answer is one just if a walk reaches such a row.
-/

set_option autoImplicit false

namespace CodeGraph

namespace ChunkRow

def Legible (row : ChunkRow) : Prop :=
  0 ≤ row.lineStart ∧ 0 ≤ row.lineEnd

instance (row : ChunkRow) : Decidable row.Legible :=
  inferInstanceAs (Decidable (_ ∧ _))

theorem Legible.chunk_eq {row : ChunkRow} (legible : row.Legible) : row.chunk = .ok row.value :=
  ChunkRow.chunk_eq legible.1 legible.2

theorem chunk_error {row : ChunkRow} (illegible : ¬row.Legible) :
    ∃ error, row.chunk = .error error := by
  by_cases start : 0 ≤ row.lineStart
  · have stop : ¬0 ≤ row.lineEnd := fun stop => illegible ⟨start, stop⟩
    simp only [ChunkRow.chunk, ofTableInteger, start, stop, if_true, if_false]
    exact ⟨_, rfl⟩
  · simp only [ChunkRow.chunk, ofTableInteger, start, if_false]
    exact ⟨_, rfl⟩

end ChunkRow

namespace Graph

variable {graph graph' : Graph} {seeds ids : List String} {limit depth : Nat}

theorem mem_chunkRows {row : ChunkRow} :
    row ∈ chunkRows limit graph ids ↔ row ∈ graph.chunks ∧ row.id ∈ ids := by
  simp only [chunkRows, List.mem_flatMap, List.mem_filter, List.contains_eq_mem, decide_eq_true_eq,
    ← @mem_batches limit ids row.id]
  constructor
  · exact fun ⟨batch, part, inside, hit⟩ => ⟨inside, batch, part, hit⟩
  · exact fun ⟨inside, batch, part, hit⟩ => ⟨batch, part, inside, hit⟩

theorem mem_putAll_chunkRows {row : ChunkRow}
    (member : row ∈ Table.putAll ChunkRow.id [] (chunkRows limit graph ids)) :
    row ∈ graph.chunks :=
  (mem_chunkRows.mp ((Table.mem_putAll member).resolve_left List.not_mem_nil)).1

theorem get?_putAll_chunkRows (unique : Table.Unique ChunkRow.id graph.chunks) {id : String}
    (asked : id ∈ ids) :
    Table.get? ChunkRow.id (Table.putAll ChunkRow.id [] (chunkRows limit graph ids)) id =
      Table.get? ChunkRow.id graph.chunks id := by
  cases found :
      Table.get? ChunkRow.id (Table.putAll ChunkRow.id [] (chunkRows limit graph ids)) id with
  | none =>
      symm
      rw [Table.get?_eq_none_iff] at found ⊢
      rintro row inside rfl
      have listed : row.id ∈ (chunkRows limit graph ids).map ChunkRow.id :=
        List.mem_map_of_mem (mem_chunkRows.mpr ⟨inside, asked⟩)
      obtain ⟨other, put, same⟩ := List.mem_map.mp (Table.mem_map_key_putAll.mpr (.inr listed))
      exact found other put same
  | some row =>
      obtain ⟨member, rfl⟩ := Table.get?_some found
      exact (Table.get?_of_mem unique (mem_putAll_chunkRows member)).symm

theorem get?_map_value (rows : List ChunkRow) (id : String) :
    Table.get? Chunk.id (rows.map ChunkRow.value) id =
      (Table.get? ChunkRow.id rows id).map ChunkRow.value := by
  rw [Table.get?, List.find?_map]
  rfl

def stored (graph : Graph) (ids : List String) : List Chunk :=
  ids.filterMap (fun id => (Table.get? ChunkRow.id graph.chunks id).map ChunkRow.value)

/-- What was taken is gone: the table that is left has the chunks that were not seen before. -/
theorem takeChunks_of_seen {table left : List Chunk} {seen : List String}
    (new : ∀ id ∉ seen, Table.get? Chunk.id left id = Table.get? Chunk.id table id)
    (gone : ∀ id ∈ seen, Table.get? Chunk.id left id = none) :
    takeChunks left ids = (distinct seen ids).filterMap (Table.get? Chunk.id table) := by
  fun_induction distinct seen ids generalizing left with
  | case1 => rfl
  | case2 seen id rest old ih =>
      rw [takeChunks, gone id (by simpa using old)]
      exact ih new gone
  | case3 seen id rest first ih =>
      have first : id ∉ seen := by simpa using first
      have here := new id first
      rw [takeChunks, here, List.filterMap_cons]
      cases found : Table.get? Chunk.id table id with
      | none =>
          refine ih (fun other unseen => ?_) (List.forall_mem_cons.mpr ⟨here.trans found, gone⟩)
          exact new other fun old => unseen (List.mem_cons_of_mem _ old)
      | some chunk =>
          refine congrArg (chunk :: ·) (ih (fun other unseen => ?_) ?_)
          · rw [List.mem_cons, not_or] at unseen
            rw [Table.get?_erase_of_ne id other unseen.1, new other unseen.2]
          · refine List.forall_mem_cons.mpr ⟨Table.get?_erase_self .., fun other old => ?_⟩
            have differ : other ≠ id := fun same => first (same ▸ old)
            rw [Table.get?_erase_of_ne id other differ, gone other old]

theorem takeChunks_eq (table : List Chunk) (ids : List String) :
    takeChunks table ids = (distinct [] ids).filterMap (Table.get? Chunk.id table) :=
  takeChunks_of_seen (fun _ _ => rfl) nofun

theorem getChunks_eq (unique : Table.Unique ChunkRow.id graph.chunks)
    (legible : ∀ row ∈ graph.chunks, row.id ∈ ids → row.Legible) :
    getChunks limit graph ids = .ok (graph.stored (distinct [] ids)) := by
  have read : (chunkRows limit graph ids).mapM ChunkRow.chunk =
      .ok ((chunkRows limit graph ids).map ChunkRow.value) := by
    refine Table.mapM_eq_ok fun row member => ?_
    obtain ⟨inside, asked⟩ := mem_chunkRows.mp member
    exact (legible row inside asked).chunk_eq
  have table : ((chunkRows limit graph ids).map ChunkRow.value).foldl
        (fun table chunk => Table.put Chunk.id chunk table) [] =
      (Table.putAll ChunkRow.id [] (chunkRows limit graph ids)).map ChunkRow.value :=
    (Table.map_putAll Chunk.id (fun _ => rfl) [] _).symm
  simp only [getChunks, read, bind, Except.bind, pure, Except.pure, stored, table]
  rw [takeChunks_eq]
  congr 1
  refine List.filterMap_congr fun id member => ?_
  rw [get?_map_value, get?_putAll_chunkRows unique (mem_distinct.mp member).1]

theorem getChunks_error {row : ChunkRow} (inside : row ∈ graph.chunks) (asked : row.id ∈ ids)
    (illegible : ¬row.Legible) : ∃ error, getChunks limit graph ids = .error error := by
  obtain ⟨error, failed⟩ := Table.exists_mapM_error
    (mem_chunkRows.mpr ⟨inside, asked⟩ : row ∈ chunkRows limit graph ids)
    (ChunkRow.chunk_error illegible)
  refine ⟨error, ?_⟩
  rw [getChunks, failed]
  rfl

theorem map_id_stored (graph : Graph) (ids : List String) :
    ((graph.stored ids).map Chunk.id).Sublist ids := by
  induction ids with
  | nil => exact .slnil
  | cons id rest ih =>
      cases found : Table.get? ChunkRow.id graph.chunks id with
      | none => simpa [stored, found] using ih.cons id
      | some row =>
          have same : row.value.id = id := (Table.get?_some found).2
          simpa [stored, found, same] using ih

theorem distinct_eq_self {seen : List String} (once : ids.Nodup)
    (new : ∀ id ∈ ids, id ∉ seen) : distinct seen ids = ids := by
  induction ids generalizing seen with
  | nil => rfl
  | cons id rest ih =>
      obtain ⟨apart, once⟩ := List.nodup_cons.mp once
      obtain ⟨first, later⟩ := List.forall_mem_cons.mp new
      have tail : distinct (id :: seen) rest = rest := by
        refine ih once fun other inside => ?_
        rw [List.mem_cons, not_or]
        exact ⟨fun same => apart (same ▸ inside), later other inside⟩
      simp [distinct, first, tail]

theorem mem_stored (unique : Table.Unique ChunkRow.id graph.chunks) {chunk : Chunk} :
    chunk ∈ graph.stored ids ↔ ∃ row ∈ graph.chunks, row.id ∈ ids ∧ row.value = chunk := by
  simp only [stored, List.mem_filterMap, Option.map_eq_some_iff, Table.get?_eq_some_iff unique]
  constructor
  · rintro ⟨_, asked, row, ⟨inside, rfl⟩, read⟩
    exact ⟨row, inside, asked, read⟩
  · rintro ⟨row, inside, asked, read⟩
    exact ⟨row.id, asked, row, ⟨inside, rfl⟩, read⟩

def IsRelated (graph : Graph) (seeds : List String) (depth : Nat) (id : String) : Prop :=
  id ∉ seeds ∧ graph.Reaches seeds depth id

structure Related (graph : Graph) (seeds : List String) (depth : Nat) (found : List Chunk) :
    Prop where
  exact : ∀ chunk, chunk ∈ found ↔
    ∃ row ∈ graph.chunks, row.chunk = .ok chunk ∧ graph.IsRelated seeds depth row.id
  once : (found.map Chunk.id).Nodup
  ordered : found.Pairwise
    (fun a b => graph.distance seeds a.id ≤ graph.distance seeds b.id)

/-- The chunks around some nodes, with limits for the queries of edges and of chunks. -/
def relatedBy (nodes chunks : Nat) (graph : Graph) (seeds : List String) (depth : Nat) :
    Except StoreError (List Chunk) :=
  getChunks chunks graph ((Search.expandBy nodes graph)^[depth] ⟨seeds, [], seeds⟩).reached

theorem relatedChunks_eq (graph : Graph) (seeds : List String) (depth : Nat) :
    graph.relatedChunks seeds depth = relatedBy (idLimit / 2) idLimit graph seeds depth := by
  rw [relatedChunks, reachable, Search.run_eq_iterate]
  rfl

theorem store_relatedChunks_eq (graph : Graph) (seeds : List String) (depth : Nat) :
    GraphStore.relatedChunks ⟨some graph⟩ seeds depth =
      relatedBy (idLimit / 2) idLimit graph seeds depth := by
  rw [← relatedChunks_eq]
  unfold GraphStore.relatedChunks
  split
  next nothing =>
    -- No query is made without seeds or steps, and none would find anything.
    have idle : reachable graph seeds depth = [] := by
      rcases Bool.or_eq_true_iff.mp nothing with none | zero
      · rw [List.isEmpty_iff.mp none, reachable]
        cases depth <;> rfl
      · rw [of_decide_eq_true zero]
        rfl
    simp [relatedChunks, idle, getChunks, chunkRows, batches, takeChunks, bind, Except.bind, pure,
      Except.pure]
  next => rfl

variable {nodes chunks : Nat}

theorem relatedBy_eq (unique : Table.Unique ChunkRow.id graph.chunks)
    (legible : ∀ row ∈ graph.chunks, graph.IsRelated seeds depth row.id → row.Legible) :
    ∃ found, relatedBy nodes chunks graph seeds depth = .ok found ∧
      graph.Related seeds depth found := by
  have layered := layered_iterate graph seeds nodes depth
  generalize reached : ((Search.expandBy nodes graph)^[depth] ⟨seeds, [], seeds⟩).reached = ids
  have related (id : String) : id ∈ ids ↔ graph.IsRelated seeds depth id :=
    reached ▸ layered.reached id
  have once : ids.Nodup := reached ▸ layered.once
  have ordered := reached ▸ layered.ordered
  have read : relatedBy nodes chunks graph seeds depth = .ok (graph.stored ids) := by
    rw [relatedBy, reached, getChunks_eq unique, distinct_eq_self once (by simp)]
    exact fun row inside asked => legible row inside ((related _).mp asked)
  have order := map_id_stored graph ids
  have layers := List.pairwise_map.mp (ordered.sublist order)
  refine ⟨_, read, fun chunk => ?_, once.sublist order, layers⟩
  rw [mem_stored unique]
  constructor
  · rintro ⟨row, inside, asked, rfl⟩
    have near := (related _).mp asked
    exact ⟨row, inside, (legible row inside near).chunk_eq, near⟩
  · rintro ⟨row, inside, read, near⟩
    rw [(legible row inside near).chunk_eq] at read
    exact ⟨row, inside, (related _).mpr near, Except.ok.inj read⟩

theorem relatedBy_error {row : ChunkRow} (inside : row ∈ graph.chunks)
    (near : graph.IsRelated seeds depth row.id) (illegible : ¬row.Legible) :
    ∃ error, relatedBy nodes chunks graph seeds depth = .error error :=
  getChunks_error inside (((layered_iterate graph seeds nodes depth).reached _).mpr near) illegible

theorem relatedBy_ok_iff (unique : Table.Unique ChunkRow.id graph.chunks) :
    (∃ found, relatedBy nodes chunks graph seeds depth = .ok found) ↔
      ∀ row ∈ graph.chunks, graph.IsRelated seeds depth row.id → row.Legible := by
  constructor
  · rintro ⟨found, read⟩ row inside near
    by_contra illegible
    obtain ⟨error, failed⟩ := @relatedBy_error _ _ _ nodes chunks _ inside near illegible
    cases read.symm.trans failed
  · intro legible
    obtain ⟨found, read, -⟩ := @relatedBy_eq _ _ _ nodes chunks unique legible
    exact ⟨found, read⟩

theorem related_of_relatedBy (unique : Table.Unique ChunkRow.id graph.chunks) {found : List Chunk}
    (read : relatedBy nodes chunks graph seeds depth = .ok found) :
    graph.Related seeds depth found := by
  obtain ⟨found', read', related⟩ :=
    @relatedBy_eq _ _ _ nodes chunks unique ((relatedBy_ok_iff unique).mp ⟨found, read⟩)
  obtain rfl := Except.ok.inj (read.symm.trans read')
  exact related

theorem Related.mono {deeper : Nat} {found found' : List Chunk}
    (related : graph.Related seeds depth found) (related' : graph.Related seeds deeper found')
    (le : depth ≤ deeper) : found ⊆ found' := by
  intro chunk member
  obtain ⟨row, inside, read, foreign, reaches⟩ := (related.exact chunk).mp member
  exact (related'.exact chunk).mpr ⟨row, inside, read, foreign, reaches.mono le⟩

theorem Walk.of_edges (same : ∀ row ∈ graph.edges, row ∈ graph'.edges) {length : Nat}
    {id : String} (walk : graph.Walk seeds length id) : graph'.Walk seeds length id := by
  induction walk with
  | seed member => exact .seed member
  | step _ leaves adjacent ih =>
      obtain ⟨row, inside, ends⟩ := adjacent
      exact .step ih leaves ⟨row, same row inside, ends⟩

theorem isRelated_congr (same : ∀ row, row ∈ graph.edges ↔ row ∈ graph'.edges) (id : String) :
    graph.IsRelated seeds depth id ↔ graph'.IsRelated seeds depth id := by
  refine and_congr_right fun _ => exists_congr fun length => and_congr_right fun _ => ?_
  exact ⟨.of_edges fun row => (same row).mp, .of_edges fun row => (same row).mpr⟩

theorem Related.perm {found found' : List Chunk} (related : graph.Related seeds depth found)
    (related' : graph'.Related seeds depth found') (rows : graph'.chunks.Perm graph.chunks)
    (edges : graph'.edges.Perm graph.edges) : found'.Perm found := by
  refine Table.perm_of_mem_iff related'.once related.once fun chunk => ?_
  have same := fun id => @isRelated_congr _ _ seeds depth (fun row => edges.mem_iff) id
  rw [related'.exact, related.exact]
  simp only [rows.mem_iff, same]

/-- The chunks around some nodes are those that a walk of at most `depth` edges reaches, the seeds
left out: each once, the near ones first. The answer is an error just if such a row cannot be read.
A deeper search finds no less, and neither the order of the rows nor the size of the queries
matters. -/
theorem relatedChunks_is_bounded_reachability (graph : Graph)
    (unique : Table.Unique ChunkRow.id graph.chunks) (seeds : List String) (depth : Nat) :
    let store : GraphStore := ⟨some graph⟩
    ((∃ found, store.relatedChunks seeds depth = .ok found) ↔
      ∀ row ∈ graph.chunks, graph.IsRelated seeds depth row.id → row.Legible) ∧
    ∀ found, store.relatedChunks seeds depth = .ok found →
      graph.Related seeds depth found ∧
      (∀ deeper ≥ depth, ∀ found', store.relatedChunks seeds deeper = .ok found' →
        found ⊆ found') ∧
      ∀ (nodes chunks : Nat) (graph' : Graph), graph'.chunks.Perm graph.chunks →
        graph'.edges.Perm graph.edges →
          ∃ found', relatedBy nodes chunks graph' seeds depth = .ok found' ∧
            found'.Perm found := by
  intro store
  simp only [store, store_relatedChunks_eq]
  refine ⟨relatedBy_ok_iff unique, fun found read => ?_⟩
  have related := related_of_relatedBy unique read
  refine ⟨related, fun deeper le found' read' => ?_, fun nodes chunks graph' rows edges => ?_⟩
  · exact related.mono (related_of_relatedBy unique read') le
  · have unique' : Table.Unique ChunkRow.id graph'.chunks := (rows.map _).nodup_iff.mpr unique
    have legible : ∀ row ∈ graph'.chunks, graph'.IsRelated seeds depth row.id → row.Legible := by
      intro row inside near
      refine (relatedBy_ok_iff unique).mp ⟨found, read⟩ row (rows.mem_iff.mp inside) ?_
      exact (isRelated_congr (fun row => edges.mem_iff) _).mp near
    obtain ⟨found', read', related'⟩ := @relatedBy_eq _ _ _ nodes chunks unique' legible
    exact ⟨found', read', related.perm related' rows edges⟩

def importers : Graph where
  chunks := ["1", "2", "3"].map (fun id =>
    ⟨id, "", "", 1, 1, ChunkType.function.name, none, none⟩)
  edges := [("a.js", "1", .contains), ("a.js", packageNode "x" none, .importsPackage),
    ("b.js", packageNode "x" none, .importsPackage), ("b.js", "2", .contains),
    ("1", "3", .references)].map (fun (source, target, kind) =>
      .ofEdge { source, target, kind })

/-- The package is reached from the file, but what lies behind it is not. -/
theorem relatedChunks_stops_at_packages :
    ∃ found, GraphStore.relatedChunks ⟨some importers⟩ ["a.js"] 4 = .ok found ∧
      found.map Chunk.id = ["1", "3"] ∧ importers.Related ["a.js"] 4 found := by
  have unique : Table.Unique ChunkRow.id importers.chunks := by decide
  have ids : (GraphStore.relatedChunks ⟨some importers⟩ ["a.js"] 4).map (·.map Chunk.id) =
      .ok ["1", "3"] := by decide +kernel
  cases read : GraphStore.relatedChunks ⟨some importers⟩ ["a.js"] 4 with
  | error error =>
      rw [read] at ids
      cases ids
  | ok found =>
      rw [read] at ids
      obtain ⟨related, -⟩ :=
        (relatedChunks_is_bounded_reachability importers unique ["a.js"] 4).2 found read
      exact ⟨found, rfl, Except.ok.inj ids, related⟩

end Graph

end CodeGraph
