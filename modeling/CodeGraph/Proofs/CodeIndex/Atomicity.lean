import CodeGraph.Proofs.CodeIndex.Agreement
import CodeGraph.Proofs.Table.Revisions

/-!
A file is put into an index as a whole or not at all. The tables refuse a file just if the number of
a line is too large for them, and they are asked first; the vectors, which are written next, take
every file in each state that an index can be in. What was put reads back in the order of the lines.
-/

set_option autoImplicit false

namespace CodeGraph

namespace Text

/-- The last piece is counted with its characters, as it is a line only if it has some. -/
theorem length_splitBy (cut : Char → Bool) (text : List Char) :
    (splitBy cut text).length + ((splitBy cut text).getLastD []).length ≤ text.length + 1 := by
  induction text with
  | nil => simp [splitBy]
  | cons c rest ih =>
      cases pieces : splitBy cut rest with
      | nil => exact absurd pieces (splitBy_ne_nil cut rest)
      | cons piece others =>
          rw [pieces] at ih
          by_cases stop : cut c = true
          · simp only [splitBy, stop, if_true, pieces, List.length_cons, List.getLastD_cons] at ih ⊢
            omega
          · simp only [splitBy, stop, Bool.false_eq_true, if_false, pieces]
            cases others with
            | nil =>
                simp only [List.getLastD_cons, List.getLastD_nil, List.length_cons] at ih ⊢
                omega
            | cons second more => simpa using Nat.le_succ_of_le ih

/-- Each line has a character of its own: the last one if it is not empty, the others their
break. -/
theorem length_lines_le (text : List Char) : (lines text).length ≤ text.length := by
  have bound := length_splitBy (· == '\n') text
  have nonempty := List.length_pos_iff.mpr (splitBy_ne_nil (· == '\n') text)
  cases last : (splitBy (· == '\n') text).getLast? with
  | none => exact absurd (List.getLast?_eq_none_iff.mp last) (splitBy_ne_nil _ text)
  | some piece =>
      rw [List.getLastD_eq_getLast?, last, Option.getD_some] at bound
      cases piece with
      | nil =>
          simp only [lines, splitOn, last, List.length_map, List.length_dropLast]
          omega
      | cons c rest =>
          simp only [lines, splitOn, last, List.length_append, List.length_map,
            List.length_dropLast, List.length_cons, List.length_nil] at bound ⊢
          omega

end Text

def Chunk.Before (a b : Chunk) : Prop :=
  a.lineStart < b.lineStart ∨ a.lineStart = b.lineStart ∧
    (a.lineEnd < b.lineEnd ∨ a.lineEnd = b.lineEnd ∧ a.id < b.id)

namespace ChunkRow

theorem le_iff {a b : ChunkRow} : le a b = true ↔
    a.lineStart < b.lineStart ∨ a.lineStart = b.lineStart ∧
      (a.lineEnd < b.lineEnd ∨ a.lineEnd = b.lineEnd ∧ a.id ≤ b.id) := by
  unfold le
  split
  next differ => simp [differ]
  next same =>
    split
    next differ => simp [not_not.mp same, differ]
    next equal => simp [not_not.mp same, not_not.mp equal]

theorem le_trans {a b c : ChunkRow} (first : le a b = true) (second : le b c = true) :
    le a c = true := by
  rw [le_iff] at first second ⊢
  grind [String.le_trans]

theorem le_total (a b : ChunkRow) : (le a b || le b a) = true := by
  rw [Bool.or_eq_true, le_iff, le_iff]
  have ids := String.le_total a.id b.id
  grind

theorem before_of_le {a b : Chunk} (ordered : le (image a) (image b) = true)
    (differ : a.id ≠ b.id) : a.Before b := by
  rw [le_iff] at ordered
  simp only [image, Int.ofNat_lt, Int.natCast_inj] at ordered
  have strict : a.id ≤ b.id → a.id < b.id := by
    intro below
    by_contra above
    exact differ (String.le_antisymm below (String.not_lt.mp above))
  rcases ordered with start | ⟨start, stop | ⟨stop, ids⟩⟩
  · exact .inl start
  · exact .inr ⟨start, .inl stop⟩
  · exact .inr ⟨start, .inr ⟨stop, strict ids⟩⟩

end ChunkRow

theorem Graph.fileChunks_replaced (graph : Graph) {file : FileGraph}
    (own : ∀ chunk ∈ file.chunks, chunk.filePath = file.path)
    (distinct : (file.chunks.map Chunk.id).Nodup) :
    ∃ found, (graph.replaced file).fileChunks file.path = .ok found ∧
      found.Perm file.chunks ∧ found.Pairwise Chunk.Before := by
  let rows := ((graph.replaced file).chunks.filter
    (fun row => row.filePath == file.path)).mergeSort ChunkRow.le
  -- The old rows of the file are gone when the new ones come, and no new one overwrites another.
  have images : rows.Perm (file.chunks.map ChunkRow.image) := by
    refine (List.mergeSort_perm ..).trans ?_
    have kept := @Table.perm_filter_putAll _ _ _ ChunkRow.id
      (fun row => row.filePath == file.path)
      (graph.chunks.filter (fun row => row.filePath != file.path))
      (file.chunks.map ChunkRow.image)
      (by simpa [ChunkRow.image] using own)
      (by simpa [Table.Unique, Function.comp_def, ChunkRow.image] using distinct)
      (by
        intro old inside here
        have elsewhere := (List.mem_filter.mp inside).2
        simp only [bne, here] at elsewhere
        cases elsewhere)
    have empty : (graph.chunks.filter (fun row => row.filePath != file.path)).filter
        (fun row => row.filePath == file.path) = [] := by
      simp [List.filter_filter, bne]
    rw [empty] at kept
    exact kept
  have sorted : rows.Pairwise (fun a b => ChunkRow.le a b = true) :=
    List.pairwise_mergeSort (fun a b c => @ChunkRow.le_trans a b c) ChunkRow.le_total _
  have ids : rows.Pairwise (fun a b => a.id ≠ b.id) := by
    have nodup : (rows.map ChunkRow.id).Nodup := by
      rw [(images.map ChunkRow.id).nodup_iff]
      simpa [Function.comp_def, ChunkRow.image] using distinct
    exact List.pairwise_map.mp nodup
  have image {row : ChunkRow} (inside : row ∈ rows) :
      ∃ chunk ∈ file.chunks, ChunkRow.image chunk = row :=
    List.mem_map.mp (images.mem_iff.mp inside)
  refine ⟨rows.map ChunkRow.value, Table.mapM_eq_ok fun row inside => ?_, ?_, ?_⟩
  · obtain ⟨chunk, -, rfl⟩ := image inside
    rw [ChunkRow.chunk_image, ChunkRow.value_image]
  · simpa [Function.comp_def] using images.map ChunkRow.value
  · refine List.pairwise_map.mpr ((sorted.and ids).imp_of_mem ?_)
    rintro a b first second ⟨ordered, differ⟩
    obtain ⟨chunk, -, rfl⟩ := image first
    obtain ⟨other, -, rfl⟩ := image second
    rw [ChunkRow.value_image, ChunkRow.value_image]
    exact ChunkRow.before_of_le ordered differ

namespace VectorIndex

def Matching (vectors : VectorIndex) : Prop :=
  ∀ found, Table.get? Collection.name vectors.store.store.collections vectors.store.collection =
    some found → found.dimensions = vectors.embedder.dimensions

theorem Ready.matching {vectors : VectorIndex} (ready : vectors.Ready) : vectors.Matching := by
  obtain ⟨known, present, dimensions⟩ := ready
  intro found present'
  rw [present] at present'
  exact Option.some.inj present' ▸ dimensions

theorem Matching.ensure {vectors : VectorIndex} (matching : vectors.Matching) :
    VectorIndex.Ready
      { vectors with store := vectors.store.ensure vectors.embedder.dimensions } := by
  unfold ChunkVectors.ensure VectorStore.ensure
  split
  next present =>
    -- A collection that exists is left as it is, whatever its length.
    obtain ⟨row, inside, named⟩ := Table.has_iff.mp present
    obtain ⟨found, known⟩ : ∃ found, Table.get? Collection.name
        vectors.store.store.collections vectors.store.collection = some found := by
      rw [← Option.isSome_iff_exists, ← Option.ne_none_iff_isSome]
      exact fun missing => Table.get?_eq_none_iff.mp missing row inside named
    exact ⟨found, known, matching found known⟩
  next =>
    refine ⟨⟨vectors.store.collection, vectors.embedder.dimensions, []⟩, ?_, rfl⟩
    exact Table.get?_put_self Collection.name
      ⟨vectors.store.collection, vectors.embedder.dimensions, []⟩ vectors.store.store.collections

end VectorIndex

namespace CodeIndex

/-- The states of an index. Its stores are created, whatever the graph holds already; then calls are
made, whether they succeed or not. Others may write to the tables of the graph at any time, and what
is kept in memory may be lost or set anew. -/
inductive Reached : CodeIndex → Prop
  | start (index : CodeIndex)
      (matching : ∀ vectors, index.vectors = some vectors → vectors.Matching) :
      Reached index.prepare
  | prepare {index : CodeIndex} (reached : Reached index) : Reached index.prepare
  | call {index : CodeIndex} (reached : Reached index) (call : Call) : Reached (index.apply call)
  | write {index : CodeIndex} (reached : Reached index) (graph : Graph) :
      Reached { index with graph := ⟨some graph⟩ }
  | configure {index : CodeIndex} (reached : Reached index) (root : List String)
      (packages : PackageCache) (batchSize : Nat) (facts : List CachedFacts)
      (grammars : Grammars) : Reached { index with root, packages, batchSize, facts, grammars }

theorem ready_prepare {index : CodeIndex}
    (matching : ∀ vectors, index.vectors = some vectors → vectors.Matching) :
    index.prepare.Ready where
  tables := ⟨_, rfl⟩
  vectors after known := by
    obtain ⟨vectors, old, rfl⟩ := Option.map_eq_some_iff.mp known
    exact (matching vectors old).ensure

theorem Ready.apply {index : CodeIndex} (ready : index.Ready) (call : Call) :
    (index.apply call).Ready := by
  cases call with
  | put disk path content hash chunks =>
      by_cases takes : Takes path content chunks
      · obtain ⟨after, outcome, done, -, put⟩ := putFile_taken ready disk path content hash takes
        simp only [CodeIndex.apply, done]
        exact put.ready
      · obtain ⟨packages, error, done⟩ := putFile_refused ready disk path content hash takes
        simp only [CodeIndex.apply, done]
        exact ready.packages packages
  | delete path =>
      obtain ⟨after, done, deleted⟩ := deleteFile_ok ready path
      simp only [CodeIndex.apply, done]
      exact deleted.ready
  | link disk files => exact (link_linked index ready files).ready ready

theorem Reached.ready {index : CodeIndex} (reached : Reached index) : index.Ready := by
  induction reached with
  | start index matching => exact ready_prepare matching
  | prepare _ ready =>
      exact ready_prepare fun vectors known => (ready.vectors vectors known).matching
  | call _ call ready => exact ready.apply call
  | write _ graph ready => exact ⟨⟨graph, rfl⟩, ready.vectors⟩
  | configure _ _ _ _ _ _ ready => exact ⟨ready.tables, ready.vectors⟩

def Oversized (chunks : List Chunk) : Prop :=
  ∃ chunk ∈ chunks, maxInteger < chunk.lineStart ∨ maxInteger < chunk.lineEnd

instance (chunks : List Chunk) : Decidable (Oversized chunks) :=
  inferInstanceAs (Decidable (∃ chunk ∈ chunks, _))

theorem not_oversized {chunks : List Chunk} :
    ¬Oversized chunks ↔ ∀ chunk ∈ chunks, chunk.Fits := by
  simp [Oversized, Chunk.Fits]

theorem takes_iff {path content : String} {chunks : List Chunk}
    (bounded : content.length ≤ maxInteger) :
    Takes path content chunks ↔ ¬Oversized chunks := by
  have lines : (fileGraph path content chunks []).lines ≤ maxInteger :=
    Nat.le_trans (Text.length_lines_le content.toList) (String.length_toList ▸ bounded)
  rw [not_oversized]
  exact ⟨fun takes => takes.2, fun fits => ⟨lines, fits⟩⟩

theorem putFile_oversized {index : CodeIndex} (ready : index.Ready) (disk : Disk)
    {path content : String} (hash : String) {chunks : List Chunk}
    (bounded : content.length ≤ maxInteger) :
    (∃ error, (index.putFile disk path content hash chunks).2 = .error error) ↔
      Oversized chunks := by
  have takes := @takes_iff path content chunks bounded
  constructor
  · rintro ⟨error, refused⟩
    by_contra fits
    obtain ⟨after, outcome, done, -⟩ :=
      putFile_taken ready disk path content hash (takes.mpr fits)
    rw [done] at refused
    cases refused
  · intro oversized
    obtain ⟨packages, error, refused⟩ := putFile_refused ready disk path content hash
      fun taken => takes.mp taken oversized
    exact ⟨error, by rw [refused]⟩

end CodeIndex

namespace GraphStore

def commit (store : GraphStore) (written : Except StoreError GraphStore) : GraphStore :=
  match written with
  | .ok changed => changed
  | .error _ => store

theorem putChunks_eq {store : GraphStore} {graph : Graph} (tables : store.tables = some graph)
    (chunks : List Chunk) :
    store.putChunks chunks = (graph.putChunks chunks).map (fun changed => ⟨some changed⟩) := by
  obtain ⟨known⟩ := store
  obtain rfl : known = some graph := tables
  cases chunks with
  | nil => rfl
  | cons chunk rest =>
      change (graph.putChunks (chunk :: rest)).bind
        (fun changed => .ok (⟨some changed⟩ : GraphStore)) = _
      cases graph.putChunks (chunk :: rest) <;> rfl

theorem putChunks_oversized {store : GraphStore} (created : store.tables.isSome)
    (chunks : List Chunk) :
    (∃ error, store.putChunks chunks = .error error) ↔ CodeIndex.Oversized chunks := by
  obtain ⟨graph, tables⟩ := Option.isSome_iff_exists.mp created
  rw [putChunks_eq tables chunks]
  by_cases oversized : CodeIndex.Oversized chunks
  · obtain ⟨error, refused⟩ := graph.putChunks_error fun fits =>
      CodeIndex.not_oversized.mpr fits oversized
    exact ⟨fun _ => oversized, fun _ => ⟨error, by rw [refused]; rfl⟩⟩
  · rw [Graph.putChunks_eq graph (CodeIndex.not_oversized.mp oversized)]
    simp [oversized, Except.map]

end GraphStore

namespace CodeIndex

/-- A file is refused just if a line of one of its chunks is too large, and then only what is known
about packages can have changed; its own lines are never too many, as no text has more characters
than an address can count. A file that is taken reads back with all its chunks, in order. Chunks
that are put into the graph alone are refused in the same case, and then none is put. -/
theorem putFile_all_or_nothing {index : CodeIndex} (reached : Reached index) (disk : Disk)
    (path content hash : String) (chunks : List Chunk) (bounded : content.length ≤ maxInteger) :
    let answer := index.putFile disk path content hash chunks
    ((∃ error, answer.2 = .error error) ↔ Oversized chunks) ∧
      ((∃ error, answer.2 = .error error) →
        answer.1 = { index with packages := answer.1.packages }) ∧
      ((∃ outcome, answer.2 = .ok outcome) → (chunks.map Chunk.id).Nodup →
        (∀ chunk ∈ chunks, chunk.filePath = path) →
        ∃ found, answer.1.graph.read (·.fileChunks path) = .ok found ∧
          found.Perm chunks ∧ found.Pairwise Chunk.Before) ∧
      ∀ store : GraphStore, store.tables.isSome →
        ((∃ error, store.putChunks chunks = .error error) ↔ Oversized chunks) ∧
        ((∃ error, store.putChunks chunks = .error error) →
          store.commit (store.putChunks chunks) = store) := by
  intro answer
  have refused : (∃ error, answer.2 = .error error) ↔ Oversized chunks :=
    putFile_oversized reached.ready disk hash bounded
  refine ⟨refused, fun failed => ?_, fun succeeded distinct own => ?_, fun store created =>
    ⟨GraphStore.putChunks_oversized created chunks, fun failed => ?_⟩⟩
  · -- The graph refuses before the vectors are reached.
    have untaken : ¬Takes path content chunks := fun taken =>
      (takes_iff bounded).mp taken (refused.mp failed)
    obtain ⟨packages, error, same⟩ := putFile_refused reached.ready disk path content hash untaken
    simp only [answer, same]
  · obtain ⟨outcome, done⟩ := succeeded
    have taken : Takes path content chunks := by
      refine (takes_iff bounded).mpr fun oversized => ?_
      obtain ⟨error, failed⟩ := refused.mpr oversized
      rw [failed] at done
      cases done
    -- The rows of the file are the new ones now, and they are listed by line.
    obtain ⟨graph, tables⟩ := reached.ready.tables
    obtain ⟨after, _, same, -, put⟩ :=
      putFile_taken reached.ready disk path content hash taken
    simp only [answer, same, read_eq (put.graph graph tables)]
    exact graph.fileChunks_replaced own distinct
  · obtain ⟨error, failed⟩ := failed
    rw [failed]
    rfl

def created : CodeIndex :=
  CodeIndex.prepare { root := [], vectors := some { store := {}, embedder := { dimensions := 8 } } }

def farDown : List Chunk :=
  [⟨"later", "", "a.js", 5, 6, .function, none, none⟩,
    ⟨"first", "", "a.js", 1, 4, .function, none, none⟩,
    ⟨"far", "", "a.js", 7, maxInteger + 1, .function, none, none⟩]

theorem farDown_is_refused :
    (∃ error, (created.putFile {} "a.js" "" "h" farDown).2 = .error error) ∧
      (created.putFile {} "a.js" "" "h" farDown).1.graph = created.graph ∧
      (created.putFile {} "a.js" "" "h" farDown).1.vectors = created.vectors ∧
      ∃ found, (created.putFile {} "a.js" "" "h" farDown.dropLast).1.graph.read
          (·.fileChunks "a.js") = .ok found ∧
        found.Perm farDown.dropLast ∧ found.Pairwise Chunk.Before := by
  have reached : Reached created := .start _ (by rintro _ ⟨⟩ found present; cases present)
  have refused := putFile_all_or_nothing reached {} "a.js" "" "h" farDown (by decide)
  have taken := putFile_all_or_nothing reached {} "a.js" "" "h" farDown.dropLast (by decide)
  have failed := refused.1.mpr (by decide)
  refine ⟨failed, by rw [refused.2.1 failed], by rw [refused.2.1 failed],
    taken.2.2.1 ?_ (by decide) (by decide)⟩
  cases answer : (created.putFile {} "a.js" "" "h" farDown.dropLast).2 with
  | ok outcome => exact ⟨outcome, rfl⟩
  | error error => exact absurd (taken.1.mp ⟨error, answer⟩) (by decide)

end CodeIndex

end CodeGraph
