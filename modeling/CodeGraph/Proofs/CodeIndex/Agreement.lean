import CodeGraph.Proofs.CodeIndex.Calls

/-!
The graph and the vectors of an index hold the same chunks.

Each store encodes chunks in its own way and drops those of a file by its own rule. Behind both
stands one list of chunks: every call changes it in one way, and each store is an image of it. What
reads back from the one store thus reads back from the other, and a search finds only chunks that
the graph has.
-/

set_option autoImplicit false

namespace CodeGraph

@[simp] theorem Json.nat?_nat (value : Nat) : (Json.nat value).nat? = some value := by
  simp [Json.nat, Json.nat?, Json.int?]

@[simp] theorem Json.string?_optionalString (text : Option String) :
    (Json.optionalString text).string? = text := by
  cases text <;> rfl

namespace Chunk

theorem payload_eq (chunk : Chunk) : chunk.payload =
    [("chunk_type", .string chunk.type.name), ("content", .string chunk.content),
      ("file_path", .string chunk.filePath), ("line_end", .nat chunk.lineEnd),
      ("line_start", .nat chunk.lineStart), ("symbol_kind", .optionalString chunk.kind),
      ("symbol_name", .optionalString chunk.symbol)] := by
  simp only [payload, Properties.ofList, List.foldl_cons, List.foldl_nil, Properties.insert,
    String.reduceEq, String.reduceLT, reduceIte]

theorem ofPayload_payload (chunk : Chunk) : ofPayload chunk.id chunk.payload = .ok chunk := by
  have text (value : String) : (Json.string value).string? = some value := rfl
  rw [payload_eq]
  simp [ofPayload, payloadText?, payloadLine, Properties.get?, List.lookup_cons, text, bind,
    Except.bind, pure, Except.pure]

theorem matchesText_payload (chunk : Chunk) (path : String) :
    VectorStore.matchesText chunk.payload "file_path" path = (chunk.filePath == path) := by
  rw [payload_eq]
  simp [VectorStore.matchesText, Properties.get?, List.lookup_cons, Json.string?]

end Chunk

theorem ChunkRow.chunk_image (chunk : Chunk) : (image chunk).chunk = .ok chunk := by
  rw [chunk_eq (Int.natCast_nonneg _) (Int.natCast_nonneg _), value_image]

namespace Graph

structure Encodes (graph : Graph) (points : List Point) (chunks : List Chunk) : Prop where
  rows : graph.chunks = chunks.map ChunkRow.image
  points : points.map (fun point => (point.id, point.payload)) =
    chunks.map (fun chunk => (chunk.id, chunk.payload))
  unique : Table.Unique Chunk.id chunks

variable {graph : Graph} {points : List Point} {chunks : List Chunk}

theorem encodes_empty : Encodes {} [] [] :=
  ⟨rfl, rfl, List.nodup_nil⟩

theorem Encodes.map_filter_points (encodes : graph.Encodes points chunks) (path : String) :
    (points.filter (fun point => !VectorStore.matchesText point.payload "file_path" path)).map
        (fun point => (point.id, point.payload)) =
      (chunks.filter (fun chunk => chunk.filePath != path)).map
        (fun chunk => (chunk.id, chunk.payload)) := by
  let keeps (entry : String × Properties) := !VectorStore.matchesText entry.2 "file_path" path
  calc
    _ = (points.map (fun point => (point.id, point.payload))).filter keeps := by
      rw [List.filter_map]
      rfl
    _ = (chunks.map (fun chunk => (chunk.id, chunk.payload))).filter keeps := by
      rw [encodes.points]
    _ = _ := by
      have same : keeps ∘ (fun chunk : Chunk => (chunk.id, chunk.payload)) =
          fun chunk => chunk.filePath != path := by
        funext chunk
        simp only [keeps, Function.comp_apply, chunk.matchesText_payload, bne]
      rw [List.filter_map, same]

theorem Encodes.filter_rows (encodes : graph.Encodes points chunks) (path : String) :
    graph.chunks.filter (fun row => row.filePath != path) =
      (chunks.filter (fun chunk => chunk.filePath != path)).map ChunkRow.image := by
  rw [encodes.rows, List.filter_map]
  rfl

theorem Encodes.replaced (encodes : graph.Encodes points chunks) (file : FileGraph)
    (embedder : HashEmbedder) (language : Option Language) :
    (graph.replaced file).Encodes
      (Table.putAll Point.id
        (points.filter (fun point => !VectorStore.matchesText point.payload "file_path" file.path))
        (file.chunks.map (embedder.point language)))
      (Table.putAll Chunk.id (chunks.filter (fun chunk => chunk.filePath != file.path))
        file.chunks) where
  rows := by
    rw [Graph.replaced, encodes.filter_rows]
    exact (Table.map_putAll ChunkRow.id (fun _ => rfl) _ _).symm
  points := by
    have same : (fun point : Point => (point.id, point.payload)) ∘ embedder.point language =
        fun chunk => (chunk.id, chunk.payload) := by
      funext chunk
      simp only [Function.comp_apply, HashEmbedder.point]
    rw [Table.map_putAll Prod.fst (fun _ => rfl), encodes.map_filter_points,
      Table.map_putAll Prod.fst (fun _ => rfl), List.map_map, same]
  unique := (encodes.unique.filter _).putAll _

theorem Encodes.deleteFile (encodes : graph.Encodes points chunks) (path : String) :
    (graph.deleteFile path).Encodes
      (points.filter (fun point => !VectorStore.matchesText point.payload "file_path" path))
      (chunks.filter (fun chunk => chunk.filePath != path)) :=
  ⟨encodes.filter_rows path, encodes.map_filter_points path, encodes.unique.filter _⟩

/-- A graph and some points with the same identifiers, where what stands under an identifier reads
back as one chunk from both. -/
structure Agrees (graph : Graph) (points : List Point) : Prop where
  ids : ∀ id, id ∈ points.map Point.id ↔ id ∈ graph.chunks.map ChunkRow.id
  chunks : ∀ point ∈ points, ∀ row ∈ graph.chunks, point.id = row.id →
    ∃ chunk, Chunk.ofPayload point.id point.payload = .ok chunk ∧ row.chunk = .ok chunk

theorem Encodes.chunk_of_point (encodes : graph.Encodes points chunks) {point : Point}
    (member : point ∈ points) :
    ∃ chunk ∈ chunks, chunk.id = point.id ∧
      Chunk.ofPayload point.id point.payload = .ok chunk := by
  have seen : (point.id, point.payload) ∈ chunks.map (fun chunk => (chunk.id, chunk.payload)) := by
    rw [← encodes.points]
    exact List.mem_map_of_mem (f := fun point : Point => (point.id, point.payload)) member
  obtain ⟨chunk, listed, same⟩ := List.mem_map.mp seen
  obtain ⟨id, payload⟩ := Prod.mk.inj same
  exact ⟨chunk, listed, id, by rw [← id, ← payload, chunk.ofPayload_payload]⟩

theorem Encodes.chunk_of_row (encodes : graph.Encodes points chunks) {row : ChunkRow}
    (member : row ∈ graph.chunks) :
    ∃ chunk ∈ chunks, chunk.id = row.id ∧ row.chunk = .ok chunk := by
  rw [encodes.rows] at member
  obtain ⟨chunk, listed, rfl⟩ := List.mem_map.mp member
  exact ⟨chunk, listed, rfl, ChunkRow.chunk_image chunk⟩

theorem Encodes.exists_row (encodes : graph.Encodes points chunks) {chunk : Chunk}
    (listed : chunk ∈ chunks) : ∃ row ∈ graph.chunks, row.chunk = .ok chunk := by
  rw [encodes.rows]
  exact ⟨.image chunk, List.mem_map_of_mem listed, ChunkRow.chunk_image chunk⟩

theorem Encodes.agrees (encodes : graph.Encodes points chunks) : graph.Agrees points where
  ids := by
    have points : points.map Point.id = chunks.map Chunk.id := by
      simpa [Function.comp_def] using congrArg (List.map Prod.fst) encodes.points
    have rows : graph.chunks.map ChunkRow.id = chunks.map Chunk.id := by
      rw [encodes.rows, List.map_map]
      rfl
    simp [points, rows]
  chunks := by
    intro point member row inside same
    obtain ⟨chunk, listed, id, read⟩ := encodes.chunk_of_point member
    obtain ⟨other, also, id', read'⟩ := encodes.chunk_of_row inside
    have equal : chunk = other := by
      apply List.inj_on_of_nodup_map encodes.unique listed also
      rw [id, id', same]
    exact ⟨chunk, read, equal ▸ read'⟩

end Graph

namespace CodeIndex

structure InStep (index : CodeIndex) (vectors : VectorIndex) (graph : Graph) (points : List Point)
    (chunks : List Chunk) : Prop where
  tables : index.graph.tables = some graph
  attached : index.vectors = some vectors
  holds : vectors.Holds points
  encodes : graph.Encodes points chunks

variable {index : CodeIndex} {vectors : VectorIndex} {graph : Graph} {points : List Point}
  {chunks : List Chunk}

theorem InStep.ready (inStep : index.InStep vectors graph points chunks) : index.Ready where
  tables := ⟨graph, inStep.tables⟩
  vectors := by
    rintro other same
    rw [inStep.attached] at same
    exact Option.some.inj same ▸ inStep.holds.ready

theorem InStep.putFile (inStep : index.InStep vectors graph points chunks) (disk : Disk)
    (path content hash : String) (new : List Chunk) :
    ∃ vectors' graph' points' chunks', (index.putFile disk path content hash new).1.InStep
      vectors' graph' points' chunks' := by
  by_cases takes : Takes path content new
  · obtain ⟨after, outcome, put, -, done⟩ := putFile_taken inStep.ready disk path content hash takes
    obtain ⟨vectors', written, holds⟩ := inStep.holds.renew path new
    have same : after.vectors = some vectors' := by
      have both := done.vectors
      rw [inStep.attached, Option.mapM_some, written] at both
      exact (Except.ok.inj both).symm
    rw [put]
    exact ⟨_, _, _, _, done.graph graph inStep.tables, same, holds,
      inStep.encodes.replaced _ vectors.embedder (Language.ofPath? path)⟩
  · -- The graph is asked first, so a file that it refuses reaches neither store.
    obtain ⟨packages, error, refused⟩ :=
      putFile_refused inStep.ready disk path content hash takes
    rw [refused]
    exact ⟨_, _, _, _, inStep.tables, inStep.attached, inStep.holds, inStep.encodes⟩

theorem InStep.deleteFile (inStep : index.InStep vectors graph points chunks) (path : String) :
    ∃ vectors' graph' points' chunks', (index.deleteFile path).1.InStep vectors' graph' points'
      chunks' := by
  obtain ⟨after, deleted, done⟩ := deleteFile_ok inStep.ready path
  obtain ⟨store, removed, holds⟩ := inStep.holds.deleteFile path
  have same : after.vectors = some { vectors with store } := by
    have both := done.vectors
    rw [inStep.attached, Option.mapM_some, removed] at both
    exact (Except.ok.inj both).symm
  rw [deleted]
  exact ⟨_, _, _, _, done.graph graph inStep.tables, same, holds, inStep.encodes.deleteFile path⟩

theorem InStep.link (inStep : index.InStep vectors graph points chunks) (disk : Disk)
    (files : List (String × String)) :
    ∃ graph', (index.link disk files).1.InStep vectors graph' points chunks := by
  have linked := @link_linked disk index inStep.ready files
  obtain ⟨graph', tables, -, same, -⟩ := linked.graph graph inStep.tables
  refine ⟨graph', tables, linked.vectors.trans inStep.attached, inStep.holds, ?_⟩
  exact ⟨same.trans inStep.encodes.rows, inStep.encodes.points, inStep.encodes.unique⟩

theorem InStep.run (inStep : index.InStep vectors graph points chunks) (calls : List Call) :
    ∃ vectors' graph' points' chunks',
      (index.run calls).InStep vectors' graph' points' chunks' := by
  induction calls generalizing index vectors graph points chunks with
  | nil => exact ⟨_, _, _, _, inStep⟩
  | cons call rest ih =>
      cases call with
      | put disk path content hash new =>
          obtain ⟨_, _, _, _, next⟩ := inStep.putFile disk path content hash new
          exact ih next
      | delete path =>
          obtain ⟨_, _, _, _, next⟩ := inStep.deleteFile path
          exact ih next
      | link disk files =>
          obtain ⟨_, next⟩ := inStep.link disk files
          exact ih next

theorem inStep_prepare (start : CodeIndex) (embedder : HashEmbedder) (collection : String)
    (none : start.graph.tables = none)
    (vectors : start.vectors = some { store := { collection }, embedder }) :
    start.prepare.InStep
      { store := ({ collection } : ChunkVectors).ensure embedder.dimensions, embedder }
      {} [] [] where
  tables := by simp [prepare, GraphStore.createTables, none]
  attached := by simp [prepare, vectors]
  holds := VectorIndex.holds_ensure embedder collection
  encodes := Graph.encodes_empty

theorem InStep.direct (inStep : index.InStep vectors graph points chunks) (query : Embedding)
    (limit : Nat) :
    ∃ direct, vectors.store.search query limit = .ok direct ∧
      direct.length = min limit points.length ∧ ∀ hit ∈ direct, hit.1 ∈ chunks := by
  obtain ⟨found, present, -, rfl⟩ := inStep.holds
  let hits := ((found.points.map (Point.hit query)).mergeSort Hit.ranks).take limit
  have each : ∀ hit ∈ hits, ∃ result, (do
      return (← Chunk.ofPayload hit.id hit.payload, hit.score) : Except StoreError _) =
        .ok result ∧ result.1 ∈ chunks := by
    intro hit member
    obtain ⟨point, inside, rfl⟩ := List.mem_map.mp (Hit.mem_of_mem_take_mergeSort member)
    obtain ⟨chunk, listed, -, read⟩ := inStep.encodes.chunk_of_point inside
    refine ⟨(chunk, Embedding.cosine query point.vector), ?_, listed⟩
    rw [Point.hit, read]
    rfl
  obtain ⟨direct, read, length, listed⟩ := Table.exists_mapM_ok each
  refine ⟨direct, ?_, ?_, listed⟩
  · rw [ChunkVectors.search,
      VectorStore.search_eq (VectorStore.collection_eq_ok_iff.mpr present)]
    exact read
  · rw [length]
    simp [hits]

theorem InStep.relatedChunks_ok (inStep : index.InStep vectors graph points chunks)
    (ids : List String) (depth : Nat) :
    ∃ related, index.graph.relatedChunks ids depth = .ok related := by
  unfold GraphStore.relatedChunks
  split
  · exact ⟨[], rfl⟩
  · rw [read_eq inStep.tables]
    have readable : ∀ row ∈ Graph.chunkRows Graph.idLimit graph (graph.reachable ids depth),
        row.chunk = .ok row.value := by
      intro row member
      obtain ⟨batch, -, inside⟩ := List.mem_flatMap.mp member
      have stored := List.mem_of_mem_filter inside
      rw [inStep.encodes.rows] at stored
      obtain ⟨chunk, -, rfl⟩ := List.mem_map.mp stored
      rw [ChunkRow.chunk_image, ChunkRow.value_image]
    simp only [Graph.relatedChunks, Graph.getChunks, Table.mapM_eq_ok readable]
    exact ⟨_, rfl⟩

theorem InStep.search (inStep : index.InStep vectors graph points chunks) (query : String)
    (limit depth : Nat) :
    ∃ results, index.search query limit depth = .ok results ∧
      results.direct.length = min limit points.length ∧ ∀ hit ∈ results.direct, hit.1 ∈ chunks := by
  obtain ⟨direct, found, length, listed⟩ := inStep.direct (vectors.embedder.embed query) limit
  obtain ⟨related, read⟩ := inStep.relatedChunks_ok (direct.map (fun hit => hit.1.id)) depth
  simp only [CodeIndex.search, inStep.attached, found]
  cases direct with
  | nil => exact ⟨{}, rfl, length, by simp⟩
  | cons first rest =>
      refine ⟨{ direct := first :: rest, related }, ?_, length, listed⟩
      simp only [Except.mapError, bind, Except.bind, List.isEmpty_cons, read]
      rfl

/-- Whatever calls are made on an index that was created with vectors: a point and a chunk row of
the same identifier read back as the same chunk, each identifier of the one store is one of the
other, and a search gives chunks of the graph only. -/
theorem run_keeps_stores_agreeing (root : List String) (packages : PackageCache) (batchSize : Nat)
    (facts : List CachedFacts) (embedder : HashEmbedder) (collection : String)
    (calls : List Call) :
    let start : CodeIndex :=
      { root, packages, batchSize, facts, vectors := some { store := { collection }, embedder } }
    let index := start.prepare.run calls
    ∃ graph vectors points, index.graph.tables = some graph ∧ index.vectors = some vectors ∧
      vectors.Holds points ∧ graph.Agrees points ∧
      ∀ query limit depth, ∃ results, index.search query limit depth = .ok results ∧
        results.direct.length = min limit graph.chunks.length ∧
        ∀ hit ∈ results.direct, ∃ row ∈ graph.chunks, row.chunk = .ok hit.1 := by
  intro start index
  have fresh := inStep_prepare start embedder collection rfl rfl
  obtain ⟨vectors, graph, points, chunks, inStep⟩ := fresh.run calls
  refine ⟨graph, vectors, points, inStep.tables, inStep.attached, inStep.holds,
    inStep.encodes.agrees, ?_⟩
  intro query limit depth
  obtain ⟨results, found, length, listed⟩ := inStep.search query limit depth
  refine ⟨results, found, ?_, fun hit member => inStep.encodes.exists_row (listed hit member)⟩
  have sizes : points.length = graph.chunks.length := by
    have both := congrArg List.length inStep.encodes.points
    simpa [inStep.encodes.rows] using both
  rw [length, sizes]

end CodeIndex

end CodeGraph
