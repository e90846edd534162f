import CodeGraph.Proofs.Chunking.Identity
import CodeGraph.Proofs.CodeIndex.Atomicity

/-!
Chunks that are lost when a file is put. Both stores keep one chunk for each identifier, the last
one that is written. So all chunks of a file are stored just if no two of them are twins: of one
label and type, on one and the same line.
-/

set_option autoImplicit false

namespace CodeGraph

open CodeGraph.Syntax CodeGraph.Chunking

namespace Chunking

theorem row_le_size (source : Source) (position : Nat) : source.row position ≤ source.size := by
  unfold Source.row Text.newlines
  calc
    _ ≤ (source.toList.take position).length := List.countP_le_length
    _ ≤ source.size := by rw [List.length_take]; exact Nat.min_le_right ..

theorem fits_chunksOfTree {context : Context} {content : String} (tree : Node)
    (source : context.source.size < maxInteger) (lines : content.length ≤ maxInteger) :
    ∀ chunk ∈ chunksOfTree context content tree, chunk.Fits := by
  intro chunk member
  rw [chunksOfTree, List.mem_mergeSort] at member
  split at member
  · rw [List.mem_singleton.mp member]
    have count := Text.length_lines_le content.toList
    rw [String.length_toList] at count
    have one : 1 ≤ maxInteger := by decide
    exact ⟨one, Nat.max_le.mpr ⟨one, Nat.le_trans count lines⟩⟩
  · rw [scopeChunks_eq] at member
    obtain ⟨piece, -, rfl⟩ := List.mem_map.mp member
    exact ⟨Nat.le_trans (Nat.succ_le_succ (row_le_size _ _)) source,
      Nat.le_trans (Nat.succ_le_succ (row_le_size _ _)) source⟩

end Chunking

theorem Graph.fileChunks_replaced_perm {graph : Graph} {file : FileGraph}
    (unique : Table.Unique ChunkRow.id graph.chunks)
    (own : ∀ chunk ∈ file.chunks, chunk.filePath = file.path) :
    ∃ found, (graph.replaced file).fileChunks file.path = .ok found ∧
      found.Perm (Table.putAll Chunk.id [] file.chunks) := by
  let rows := ((graph.replaced file).chunks.filter
    (fun row => row.filePath == file.path)).mergeSort ChunkRow.le
  have images : rows.Perm ((Table.putAll Chunk.id [] file.chunks).map ChunkRow.image) := by
    refine (List.mergeSort_perm ..).trans ?_
    have mapped : (Table.putAll Chunk.id [] file.chunks).map ChunkRow.image =
        Table.putAll ChunkRow.id [] (file.chunks.map ChunkRow.image) :=
      Table.map_putAll ChunkRow.id (fun _ => rfl) _ _
    rw [mapped]
    refine Table.perm_filter_revise unique ?_ fun row _ kept => by simpa using kept
    simpa [FileGraph.chunkRows, ChunkRow.image] using own
  refine ⟨rows.map ChunkRow.value, Table.mapM_eq_ok fun row inside => ?_, ?_⟩
  · obtain ⟨chunk, -, rfl⟩ := List.mem_map.mp (images.mem_iff.mp inside)
    rw [ChunkRow.chunk_image, ChunkRow.value_image]
  · simpa [Function.comp_def] using images.map ChunkRow.value

namespace CodeIndex

structure Keyed (index : CodeIndex) (graph : Graph) : Prop where
  ready : index.Ready
  tables : index.graph.tables = some graph
  rows : Table.Unique ChunkRow.id graph.chunks
  points : ∀ vectors points, index.vectors = some vectors → vectors.Holds points →
    Table.Unique Point.id points

def pointsFor (path : String) (points : List Point) : List Point :=
  points.filter (fun point => VectorStore.matchesText point.payload "file_path" path)

theorem length_pointsFor {vectors after : VectorIndex} {points stored : List Point}
    (holds : vectors.Holds points) (unique : Table.Unique Point.id points) {path : String}
    {chunks : List Chunk} (own : ∀ chunk ∈ chunks, chunk.filePath = path)
    (put : vectors.renew path chunks = .ok after) (kept : after.Holds stored) :
    (pointsFor path stored).length = (Table.putAll Chunk.id [] chunks).length := by
  obtain ⟨written, done, holds'⟩ := holds.renew path chunks
  rw [put] at done
  cases done
  obtain ⟨found, present, -, rfl⟩ := kept
  obtain ⟨found', present', -, same⟩ := holds'
  rw [present] at present'
  cases present'
  let point := vectors.embedder.point (Language.ofPath? path)
  have mapped : (Table.putAll Chunk.id [] chunks).map point =
      Table.putAll Point.id [] (chunks.map point) :=
    Table.map_putAll Point.id (fun _ => rfl) _ _
  have perm : (pointsFor path found.points).Perm ((Table.putAll Chunk.id [] chunks).map point) := by
    rw [pointsFor, same, mapped]
    refine Table.perm_filter_revise unique ?_ fun point _ kept => by simpa using kept
    intro written member
    obtain ⟨chunk, listed, rfl⟩ := List.mem_map.mp member
    simp [HashEmbedder.point, chunk.matchesText_payload, own chunk listed]
  simpa using perm.length_eq

structure KeepsChunks (after : CodeIndex) (path : String) (chunks : List Chunk) (stored : Nat) :
    Prop where
  /-- Of chunks with one identifier the last one stays. -/
  graph : ∃ found, after.graph.read (·.fileChunks path) = .ok found ∧ found.length = stored ∧
    ∀ chunk, chunk ∈ found ↔ Table.IsLast Chunk.id chunks chunk
  vectors : ∀ vectors points, after.vectors = some vectors → vectors.Holds points →
    (pointsFor path points).length = stored

theorem Keyed.keepsChunks {index : CodeIndex} {graph : Graph} (keyed : index.Keyed graph)
    {disk : Disk} {path content hash : String} {chunks : List Chunk} {after : CodeIndex}
    (put : Put disk index path content hash chunks after)
    (own : ∀ chunk ∈ chunks, chunk.filePath = path) :
    after.KeepsChunks path chunks (Table.putAll Chunk.id [] chunks).length where
  graph := by
    let file := fileGraph path content chunks (extraction disk index path content chunks).edges
    obtain ⟨found, read, perm⟩ := @Graph.fileChunks_replaced_perm graph file keyed.rows own
    refine ⟨found, ?_, perm.length_eq, fun chunk => perm.mem_iff.trans Table.mem_putAll_nil⟩
    rw [read_eq (put.graph graph keyed.tables)]
    exact read
  vectors := by
    intro vectors points attached holds
    have written := put.vectors
    cases before : index.vectors with
    | none =>
        rw [before, attached] at written
        cases written
    | some old =>
        obtain ⟨known, holds'⟩ := (keyed.ready.vectors old before).holds
        rw [before, attached, Option.mapM_some] at written
        cases done : old.renew path chunks with
        | error error => rw [done] at written; cases written
        | ok new =>
            rw [done] at written
            cases written
            exact length_pointsFor holds' (keyed.points old known before holds') own done holds

/-- A file with the chunks that it is cut into: their identifiers differ, and as many chunks are
stored as are reported, just if no two chunks are twins. No two keys of the file are to be given the
same identifier. -/
theorem file_is_stored_whole_iff {index : CodeIndex} {graph : Graph} (keyed : index.Keyed graph)
    (disk : Disk) (path content hash : String) (language : Language) (minBlockSize : Nat)
    {tree : Node} (grammatical : Grammatical language tree) (small : content.length < maxInteger)
    (injective :
      let chunks := chunksOfTree ⟨Source.ofString content, path, language, minBlockSize⟩ content tree
      ∀ a ∈ chunks, ∀ b ∈ chunks, a.id = b.id → a.key = b.key) :
    let chunks := chunksOfTree ⟨Source.ofString content, path, language, minBlockSize⟩ content tree
    ((chunks.map Chunk.id).Nodup ↔ chunks.Pairwise (fun a b => ¬a.Twins b)) ∧
      ∃ after outcome stored, index.putFile disk path content hash chunks = (after, .ok outcome) ∧
        outcome.chunks = chunks.length ∧ after.KeepsChunks path chunks stored ∧
        (stored = outcome.chunks ↔ chunks.Pairwise (fun a b => ¬a.Twins b)) := by
  intro chunks
  have distinct : (chunks.map Chunk.id).Nodup ↔ chunks.Pairwise (fun a b => ¬a.Twins b) :=
    ids_distinct_iff content grammatical injective
  have own : ∀ chunk ∈ chunks, chunk.filePath = path := fun chunk member =>
    (allBelong_chunksOfTree _ content tree chunk member).filePath
  have takes : Takes path content chunks := by
    rw [takes_iff (Nat.le_of_lt small), not_oversized]
    refine fits_chunksOfTree tree ?_ (Nat.le_of_lt small)
    simpa [Source.ofString, String.length_toList] using small
  obtain ⟨after, outcome, done, count, put⟩ :=
    putFile_taken keyed.ready disk path content hash takes
  refine ⟨distinct, after, outcome, _, done, count, keyed.keepsChunks put own, ?_⟩
  rw [count, Table.length_putAll_nil_eq_iff, distinct]

def redeclared : String :=
  "var a = 1; var a = 2;\n"

theorem redeclared_is_not_stored_whole :
    ∃ chunks after outcome stored, ofFile? defaultBlockSize "a.js" redeclared = some chunks ∧
      chunks.length = 2 ∧ ¬(chunks.map Chunk.id).Nodup ∧
      created.putFile {} "a.js" redeclared "h" chunks = (after, .ok outcome) ∧
      outcome.chunks = 2 ∧ after.KeepsChunks "a.js" chunks stored ∧ stored ≠ outcome.chunks := by
  let tree := Language.javaScript.tree redeclared.toList
  let chunks := chunksOfTree
    ⟨Source.ofString redeclared, "a.js", .javaScript, defaultBlockSize⟩ redeclared tree
  have cut : ofFile? defaultBlockSize "a.js" redeclared = some chunks := by
    have language : Language.ofPath? "a.js" = some .javaScript := by decide +kernel
    simp only [ofFile?, language]
    rfl
  have keyed : created.Keyed {} := by
    refine ⟨⟨⟨_, rfl⟩, ?_⟩, rfl, List.nodup_nil, ?_⟩
    · rintro _ ⟨⟩
      exact VectorIndex.ensure_ready _ _
    · rintro _ _ ⟨⟩ ⟨found, ⟨⟩, -, rfl⟩
      exact List.nodup_nil
  have sorted : chunks = scopeChunks
      ⟨Source.ofString redeclared, "a.js", .javaScript, defaultBlockSize⟩ tree.namedChildren :=
    chunksOfTree_of_sorted redeclared (by decide +kernel) (by decide +kernel)
  have alike : ∀ a ∈ chunks, ∀ b ∈ chunks, a.key = b.key := by
    rw [sorted]
    decide +kernel
  obtain ⟨distinct, after, outcome, stored, done, count, kept, whole⟩ :=
    file_is_stored_whole_iff keyed {} "a.js" redeclared "h" .javaScript defaultBlockSize
      (by decide +kernel : Grammatical .javaScript tree) (by decide +kernel)
      fun a first b second _ => alike a first b second
  have twins : ¬chunks.Pairwise (fun a b => ¬a.Twins b) := by
    rw [sorted]
    decide +kernel
  have two : chunks.length = 2 := by
    rw [sorted]
    decide +kernel
  exact ⟨chunks, after, outcome, stored, cut, two, fun nodup => twins (distinct.mp nodup), done,
    count.trans two, kept, fun same => twins (whole.mp same)⟩

end CodeIndex

end CodeGraph
