import CodeGraph.Graph
import CodeGraph.Proofs.Table

set_option autoImplicit false

namespace CodeGraph

def Chunk.Fits (chunk : Chunk) : Prop :=
  chunk.lineStart ≤ maxInteger ∧ chunk.lineEnd ≤ maxInteger

instance (chunk : Chunk) : Decidable chunk.Fits :=
  inferInstanceAs (Decidable (_ ∧ _))

namespace ChunkRow

/-- The row of a chunk, if its lines fit. -/
def image (chunk : Chunk) : ChunkRow :=
  ⟨chunk.id, chunk.filePath, chunk.content, chunk.lineStart, chunk.lineEnd, chunk.type.name,
    chunk.symbol, chunk.kind⟩

theorem ofChunk_eq {chunk : Chunk} (fits : chunk.Fits) : ofChunk chunk = .ok (image chunk) := by
  simp only [ofChunk, tableInteger, fits.1, fits.2, if_true]
  rfl

theorem ofChunk_error {chunk : Chunk} (wide : ¬chunk.Fits) :
    ∃ error, ofChunk chunk = .error error := by
  by_cases start : chunk.lineStart ≤ maxInteger
  · have stop : ¬chunk.lineEnd ≤ maxInteger := fun stop => wide ⟨start, stop⟩
    simp only [ofChunk, tableInteger, start, stop, if_true, if_false]
    exact ⟨_, rfl⟩
  · simp only [ofChunk, tableInteger, start, if_false]
    exact ⟨_, rfl⟩

def value (row : ChunkRow) : Chunk :=
  ⟨row.id, row.content, row.filePath, row.lineStart.toNat, row.lineEnd.toNat,
    ChunkType.ofName row.type, row.symbol, row.kind⟩

theorem chunk_eq {row : ChunkRow} (start : 0 ≤ row.lineStart) (stop : 0 ≤ row.lineEnd) :
    row.chunk = .ok row.value := by
  simp only [ChunkRow.chunk, ofTableInteger, start, stop, if_true]
  rfl

@[simp] theorem value_image (chunk : Chunk) : (image chunk).value = chunk := by
  simp [value, image]

end ChunkRow

namespace FileGraph

def Fits (file : FileGraph) : Prop :=
  file.lines ≤ maxInteger ∧ ∀ chunk ∈ file.chunks, chunk.Fits

instance (file : FileGraph) : Decidable file.Fits :=
  inferInstanceAs (Decidable (_ ∧ _))

def row (file : FileGraph) : FileNodeRow :=
  ⟨file.path, file.language, file.lines⟩

def chunkRows (file : FileGraph) : List ChunkRow :=
  Table.putAll ChunkRow.id [] (file.chunks.map ChunkRow.image)

end FileGraph

namespace Graph

theorem putChunks_eq (graph : Graph) {chunks : List Chunk} (fits : ∀ chunk ∈ chunks, chunk.Fits) :
    graph.putChunks chunks =
      .ok { graph with
        chunks := Table.putAll ChunkRow.id graph.chunks (chunks.map ChunkRow.image) } := by
  induction chunks generalizing graph with
  | nil => rfl
  | cons chunk rest ih =>
      have head : graph.putChunk chunk =
          .ok { graph with chunks := Table.put ChunkRow.id (.image chunk) graph.chunks } := by
        simp only [putChunk, ChunkRow.ofChunk_eq (fits chunk (List.mem_cons_self ..))]
        rfl
      have tail := ih { graph with chunks := Table.put ChunkRow.id (.image chunk) graph.chunks }
        fun chunk inside => fits chunk (List.mem_cons_of_mem _ inside)
      simp only [putChunks, List.foldlM_cons, head]
      exact tail

theorem putChunks_error (graph : Graph) {chunks : List Chunk}
    (wide : ¬∀ chunk ∈ chunks, chunk.Fits) : ∃ error, graph.putChunks chunks = .error error := by
  induction chunks generalizing graph with
  | nil => exact absurd (by simp) wide
  | cons chunk rest ih =>
      simp only [putChunks, List.foldlM_cons, putChunk]
      by_cases fits : chunk.Fits
      · rw [ChunkRow.ofChunk_eq fits]
        refine ih { graph with chunks := Table.put ChunkRow.id (.image chunk) graph.chunks } ?_
        intro others
        exact wide (List.forall_mem_cons.mpr ⟨fits, others⟩)
      · obtain ⟨error, refused⟩ := ChunkRow.ofChunk_error fits
        rw [refused]
        exact ⟨error, rfl⟩

theorem putEdges_eq (graph : Graph) (edges : List Edge) :
    graph.putEdges edges =
      { graph with edges := Table.putAll EdgeRow.key graph.edges (edges.map EdgeRow.ofEdge) } := by
  induction edges generalizing graph with
  | nil => rfl
  | cons edge rest ih => exact ih (graph.putEdge edge)

theorem foldl_dropEdges (graph : Graph) (drop : List String → EdgeRow → Bool)
    (parts : List (List String)) :
    parts.foldl (fun graph batch => graph.dropEdges (drop batch)) graph =
      graph.dropEdges (fun row => parts.any (drop · row)) := by
  induction parts generalizing graph with
  | nil => simp [dropEdges]
  | cons batch rest ih =>
      rw [List.foldl_cons, ih]
      simp [dropEdges, List.filter_filter, Bool.and_comm]

theorem any_batches_contains (limit : Nat) (ids : List String) (id : String) (also : Bool) :
    (batches limit ids).any (fun batch => batch.contains id && also) =
      (ids.contains id && also) := by
  -- Queries in batches hit what one query for all identifiers hits.
  rw [Bool.eq_iff_iff]
  conv_rhs => rw [← batches_flatten limit ids]
  cases also <;> simp [List.mem_flatten]

theorem dropEdgesInto_eq (limit : Nat) (graph : Graph) (ids : List String) :
    dropEdgesInto limit graph ids = graph.dropEdges (fun row => ids.contains row.target) := by
  unfold dropEdgesInto
  rw [foldl_dropEdges]
  congr 1
  funext row
  simpa using any_batches_contains limit ids row.target true

theorem dropEdgesFrom_eq (limit : Nat) (graph : Graph) (ids : List String)
    (kinds : List EdgeKind) :
    dropEdgesFrom limit graph ids kinds =
      graph.dropEdges (fun row => ids.contains row.source &&
        (kinds.isEmpty || (kinds.map EdgeKind.name).contains row.kind)) := by
  unfold dropEdgesFrom
  rw [foldl_dropEdges]
  congr 1
  funext row
  exact any_batches_contains limit ids row.source _

/-- Whether an edge goes when a file is replaced: it leaves the old state of the file, or leads to a
chunk that the new state lacks. -/
def isReplaced (graph : Graph) (file : FileGraph) (row : EdgeRow) : Bool :=
  row.source == file.path || (graph.chunkIds file.path).contains row.source ||
    ((graph.chunkIds file.path).filter
      (fun id => !(file.chunks.map Chunk.id).contains id)).contains row.target

def replaced (graph : Graph) (file : FileGraph) : Graph where
  files := Table.put FileNodeRow.path file.row graph.files
  chunks := Table.putAll ChunkRow.id (graph.chunks.filter (fun row => row.filePath != file.path))
    (file.chunks.map ChunkRow.image)
  edges := Table.putAll EdgeRow.key (graph.edges.filter (fun row => !graph.isReplaced file row))
    (file.edges.map EdgeRow.ofEdge)

theorem replaceFile_eq (graph : Graph) {file : FileGraph} (fits : file.Fits) :
    graph.replaceFile file = .ok (graph.replaced file) := by
  simp only [replaceFile, dropEdgesInto_eq, putFile, tableInteger, fits.1, if_true]
  simp only [Except.mapError, bind, Except.bind, pure, Except.pure, putChunks_eq _ fits.2,
    putEdges_eq, replaced, dropEdges, List.filter_filter]
  congr 4
  funext row
  simp [isReplaced, Bool.and_comm]

theorem replaceFile_error (graph : Graph) {file : FileGraph} (wide : ¬file.Fits) :
    ∃ error, graph.replaceFile file = .error error := by
  by_cases lines : file.lines ≤ maxInteger
  · have chunks : ¬∀ chunk ∈ file.chunks, chunk.Fits := fun chunks => wide ⟨lines, chunks⟩
    simp only [replaceFile, putFile, tableInteger, lines, if_true]
    simp only [Except.mapError, bind, Except.bind, pure, Except.pure]
    split
    next error _ => exact ⟨error, rfl⟩
    next result written =>
      obtain ⟨error, refused⟩ := putChunks_error _ chunks
      rw [refused] at written
      cases written
  · simp only [replaceFile, putFile, tableInteger, lines, if_false]
    exact ⟨_, rfl⟩

end Graph

end CodeGraph
