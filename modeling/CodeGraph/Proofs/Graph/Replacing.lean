import CodeGraph.Proofs.Graph.Integrity
import CodeGraph.Proofs.Table.Revisions

/-!
Replacing a file, as what becomes of each row.

The file gets the new node and the new chunks, and nothing of other files changes. Of the edges go
those that leave the old state and those into chunks that the new state lacks; the new edges come in
the place of old ones with the same ends and kind.

Files and chunks share one set of names in the edges. So replacing a file by the same state a second
time changes nothing, unless a new chunk has got the name of a node whose edges the first time kept.
-/

set_option autoImplicit false

namespace CodeGraph.Graph

variable {graph after again : Graph} {file : FileGraph}

structure Keyed (graph : Graph) : Prop where
  files : Table.Unique FileNodeRow.path graph.files
  chunks : Table.Unique ChunkRow.id graph.chunks
  edges : Table.Unique EdgeRow.key graph.edges

theorem Keyed.replaced (keyed : graph.Keyed) (file : FileGraph) : (graph.replaced file).Keyed where
  files := keyed.files.put _
  chunks := keyed.chunks.revise _ _
  edges := keyed.edges.revise _ _

structure SameRows (a b : Graph) : Prop where
  files : a.files.Perm b.files
  chunks : a.chunks.Perm b.chunks
  edges : a.edges.Perm b.edges

theorem Keyed.sameRows (first : again.Keyed) (second : after.Keyed)
    (files : ∀ row, row ∈ again.files ↔ row ∈ after.files)
    (chunks : ∀ row, row ∈ again.chunks ↔ row ∈ after.chunks)
    (edges : ∀ row, row ∈ again.edges ↔ row ∈ after.edges) : again.SameRows after where
  files := Table.perm_of_mem_iff first.files second.files files
  chunks := Table.perm_of_mem_iff first.chunks second.chunks chunks
  edges := Table.perm_of_mem_iff first.edges second.edges edges

def Loses (graph : Graph) (file : FileGraph) (id : String) : Prop :=
  id ∈ graph.chunkIds file.path ∧ id ∉ file.chunks.map Chunk.id

/-- An edge that replacing a file neither drops nor overwrites. -/
structure Spares (graph : Graph) (file : FileGraph) (row : EdgeRow) : Prop where
  notFile : row.source ≠ file.path
  notChunk : row.source ∉ graph.chunkIds file.path
  target : ¬graph.Loses file row.target
  kept : ∀ edge ∈ file.edges, (EdgeRow.ofEdge edge).key ≠ row.key

/-- A graph in which the state of a file was swapped. Of several chunks with one identifier, and of
several edges with one key, the last counts. -/
structure Swapped (graph : Graph) (file : FileGraph) (after : Graph) : Prop where
  keyed : after.Keyed
  node : ∀ row, row.path = file.path → (row ∈ after.files ↔ row = file.row)
  otherNodes : ∀ row, row.path ≠ file.path → (row ∈ after.files ↔ row ∈ graph.files)
  chunks : ∀ row, row.filePath = file.path → (row ∈ after.chunks ↔
    ∃ chunk, Table.IsLast Chunk.id file.chunks chunk ∧ row = .image chunk)
  otherChunks : ∀ row, row.filePath ≠ file.path → (row ∈ after.chunks ↔ row ∈ graph.chunks)
  edges : ∀ row, row ∈ after.edges ↔
    (∃ edge, Table.IsLast Edge.key file.edges edge ∧ row = .ofEdge edge) ∨
      row ∈ graph.edges ∧ graph.Spares file row
  incoming : ∀ row ∈ graph.edges, row.source ≠ file.path →
    row.source ∉ graph.chunkIds file.path →
    row.target = file.path ∧ ¬graph.Loses file file.path ∨
      row.target ∈ file.chunks.map Chunk.id →
    row ∈ after.edges ∨ ∃ edge ∈ file.edges, (EdgeRow.ofEdge edge).key = row.key

theorem isReplaced_eq_false_iff {row : EdgeRow} :
    graph.isReplaced file row = false ↔
      row.source ≠ file.path ∧ row.source ∉ graph.chunkIds file.path ∧
        ¬graph.Loses file row.target := by
  simp only [isReplaced, Loses, Bool.or_eq_false_iff, beq_eq_false_iff_ne, List.contains_eq_mem,
    decide_eq_false_iff_not, List.mem_filter, Bool.not_eq_true', and_assoc]

theorem ofEdge_key_eq_iff (a b : Edge) :
    (EdgeRow.ofEdge a).key = (EdgeRow.ofEdge b).key ↔ a.key = b.key := by
  simp only [EdgeRow.key, EdgeRow.ofEdge, Edge.key, Prod.mk.injEq]
  refine and_congr_right fun _ => and_congr_right fun _ => ⟨fun same => ?_, congrArg _⟩
  simpa using congrArg EdgeKind.ofName? same

/-- The chunks of a file are its own, and no other file has one with the same identifier. -/
structure Claims (graph : Graph) (file : FileGraph) : Prop where
  own : ∀ chunk ∈ file.chunks, chunk.filePath = file.path
  apart : ∀ row ∈ graph.chunks, row.id ∈ file.chunks.map Chunk.id → row.filePath = file.path

theorem Keyed.mem_edges_replaced (keyed : graph.Keyed) {row : EdgeRow} :
    row ∈ (graph.replaced file).edges ↔
      (∃ edge, Table.IsLast Edge.key file.edges edge ∧ row = .ofEdge edge) ∨
        row ∈ graph.edges ∧ graph.Spares file row := by
  have revised := @Table.mem_revise _ _ _ _ _ keyed.edges
    (fun row => !graph.isReplaced file row) (file.edges.map EdgeRow.ofEdge) row
  refine revised.trans (or_congr ?_ (and_congr_right fun _ => ?_))
  · rw [Table.mem_putAll_nil, Table.isLast_map ofEdge_key_eq_iff]
  · rw [Bool.not_eq_true', isReplaced_eq_false_iff]
    simp only [List.map_map, List.mem_map, Function.comp_apply, not_exists, not_and]
    constructor
    · rintro ⟨⟨notFile, notChunk, target⟩, kept⟩
      exact ⟨notFile, notChunk, target, kept⟩
    · rintro ⟨notFile, notChunk, target, kept⟩
      exact ⟨⟨notFile, notChunk, target⟩, kept⟩

theorem Keyed.mem_chunks_replaced (keyed : graph.Keyed) {row : ChunkRow} :
    row ∈ (graph.replaced file).chunks ↔
      (∃ chunk, Table.IsLast Chunk.id file.chunks chunk ∧ row = .image chunk) ∨
        row ∈ graph.chunks ∧ row.filePath ≠ file.path ∧ row.id ∉ file.chunks.map Chunk.id := by
  have revised := @Table.mem_revise _ _ _ _ _ keyed.chunks
    (fun row => row.filePath != file.path) (file.chunks.map ChunkRow.image) row
  have ids : (file.chunks.map ChunkRow.image).map ChunkRow.id = file.chunks.map Chunk.id := by
    rw [List.map_map]
    rfl
  refine revised.trans (or_congr ?_ ?_)
  · rw [Table.mem_putAll_nil]
    exact Table.isLast_map fun _ _ => Iff.rfl
  · rw [ids, bne_iff_ne]

theorem Keyed.swapped (keyed : graph.Keyed) (claims : graph.Claims file) :
    graph.Swapped file (graph.replaced file) where
  keyed := keyed.replaced file
  node row here := by
    refine keyed.files.mem_put_iff.trans ⟨?_, .inl⟩
    rintro (same | ⟨-, differ⟩)
    · exact same
    · exact absurd here differ
  otherNodes row elsewhere := by
    refine keyed.files.mem_put_iff.trans ⟨?_, fun old => .inr ⟨old, elsewhere⟩⟩
    rintro (rfl | ⟨old, -⟩)
    · exact absurd rfl elsewhere
    · exact old
  chunks row here := by
    rw [keyed.mem_chunks_replaced]
    refine ⟨?_, .inl⟩
    rintro (new | ⟨-, differ, -⟩)
    · exact new
    · exact absurd here differ
  otherChunks row elsewhere := by
    rw [keyed.mem_chunks_replaced]
    constructor
    · rintro (⟨chunk, last, rfl⟩ | ⟨old, -⟩)
      · exact absurd (claims.own chunk last.mem) elsewhere
      · exact old
    · exact fun old => .inr ⟨old, elsewhere, fun new => elsewhere (claims.apart row old new)⟩
  edges row := keyed.mem_edges_replaced
  incoming row inside notFile notChunk target := by
    -- An edge into what stays is kept, or one of the new edges has its key.
    by_cases written : ∃ edge ∈ file.edges, (EdgeRow.ofEdge edge).key = row.key
    · exact .inr written
    · refine .inl (keyed.mem_edges_replaced.mpr (.inr ⟨inside, notFile, notChunk, ?_, ?_⟩))
      · rcases target with ⟨path, stays⟩ | new
        · exact path ▸ stays
        · exact fun lost => lost.2 new
      · exact fun edge listed same => written ⟨edge, listed, same⟩

theorem Swapped.claims (swapped : graph.Swapped file after) (claims : graph.Claims file) :
    after.Claims file where
  own := claims.own
  apart row inside new := by
    by_contra elsewhere
    exact elsewhere (claims.apart row ((swapped.otherChunks row elsewhere).mp inside) new)

theorem Swapped.mem_chunkIds (swapped : graph.Swapped file after) (claims : graph.Claims file)
    {id : String} : id ∈ after.chunkIds file.path ↔ id ∈ file.chunks.map Chunk.id := by
  rw [Graph.mem_chunkIds]
  constructor
  · rintro ⟨row, inside, here, rfl⟩
    obtain ⟨chunk, last, rfl⟩ := (swapped.chunks row here).mp inside
    exact List.mem_map_of_mem last.mem
  · intro new
    obtain ⟨chunk, last, rfl⟩ := Table.exists_isLast new
    have here : (ChunkRow.image chunk).filePath = file.path := claims.own chunk last.mem
    exact ⟨.image chunk, (swapped.chunks _ here).mpr ⟨chunk, last, rfl⟩, here, rfl⟩

theorem Swapped.spares_iff (swapped : graph.Swapped file after) (claims : graph.Claims file)
    {row : EdgeRow} :
    after.Spares file row ↔ row.source ≠ file.path ∧ row.source ∉ file.chunks.map Chunk.id ∧
      ∀ edge ∈ file.edges, (EdgeRow.ofEdge edge).key ≠ row.key := by
  constructor
  · rintro ⟨notFile, notChunk, -, kept⟩
    exact ⟨notFile, (swapped.mem_chunkIds claims).not.mp notChunk, kept⟩
  · rintro ⟨notFile, notChunk, kept⟩
    -- No chunk is lost, as the file has just the new ones.
    refine ⟨notFile, (swapped.mem_chunkIds claims).not.mpr notChunk, fun lost => ?_, kept⟩
    exact lost.2 ((swapped.mem_chunkIds claims).mp lost.1)

theorem Swapped.sameRows_iff (once : graph.Swapped file after) (twice : after.Swapped file again)
    (claims : graph.Claims file) :
    again.SameRows after ↔
      ∀ row ∈ graph.edges, graph.Spares file row → row.source ∉ file.chunks.map Chunk.id := by
  constructor
  · -- Such an edge survives the first time, but leaves the new state and goes the second time.
    intro same row inside spared taken
    have kept : row ∈ again.edges :=
      same.edges.mem_iff.mpr ((once.edges row).mpr (.inr ⟨inside, spared⟩))
    rcases (twice.edges row).mp kept with ⟨edge, last, rfl⟩ | ⟨-, spared'⟩
    · exact spared.kept edge last.mem rfl
    · exact ((once.spares_iff claims).mp spared').2.1 taken
  · intro free
    refine twice.keyed.sameRows once.keyed ?_ ?_ ?_
    · intro row
      by_cases here : row.path = file.path
      · rw [twice.node row here, once.node row here]
      · exact twice.otherNodes row here
    · intro row
      by_cases here : row.filePath = file.path
      · rw [twice.chunks row here, once.chunks row here]
      · exact twice.otherChunks row here
    · intro row
      rw [twice.edges]
      constructor
      · rintro (written | ⟨kept, -⟩)
        · exact (once.edges row).mpr (.inl written)
        · exact kept
      · intro kept
        rcases (once.edges row).mp kept with written | ⟨inside, spared⟩
        · exact .inl written
        · have stays := (once.spares_iff claims).mpr
            ⟨spared.notFile, free row inside spared, spared.kept⟩
          exact .inr ⟨kept, stays⟩

def IsNode (graph : Graph) (id : String) : Prop :=
  graph.IsFile id ∨ id ∈ graph.chunks.map ChunkRow.id

instance (graph : Graph) (id : String) : Decidable (graph.IsNode id) :=
  inferInstanceAs (Decidable (_ ∨ _))

theorem Spares.isFile {row : EdgeRow} (spared : graph.Spares file row)
    (claims : graph.Claims file) (node : graph.IsNode row.source)
    (taken : row.source ∈ file.chunks.map Chunk.id) : graph.IsFile row.source := by
  refine node.resolve_right fun chunk => ?_
  obtain ⟨stored, inside, same⟩ := List.mem_map.mp chunk
  have here := claims.apart stored inside (same ▸ taken)
  exact spared.notChunk (mem_chunkIds.mpr ⟨stored, inside, here, same⟩)

theorem fits_of_replaceFile (done : graph.replaceFile file = .ok after) : file.Fits := by
  by_contra wide
  obtain ⟨error, refused⟩ := replaceFile_error graph wide
  cases done.symm.trans refused

/-- Replacing a file swaps its state and leaves the rest. Doing it twice is the same as doing it
once just if no edge that it spares leaves a node with the name of a new chunk; if the sources of
edges are stored, this can only be the path of another file. -/
theorem replaceFile_swaps (keyed : graph.Keyed) (claims : graph.Claims file)
    (done : graph.replaceFile file = .ok after) :
    graph.Swapped file after ∧
      ∃ again, after.replaceFile file = .ok again ∧
        (again.SameRows after ↔
          ∀ row ∈ graph.edges, graph.Spares file row → row.source ∉ file.chunks.map Chunk.id) ∧
        ((∀ row ∈ graph.edges, graph.IsNode row.source) →
          (∀ chunk ∈ file.chunks, graph.IsFile chunk.id → chunk.id = file.path) →
            again.SameRows after) := by
  have fits := fits_of_replaceFile done
  obtain rfl := Except.ok.inj (done.symm.trans (replaceFile_eq graph fits))
  have once := keyed.swapped claims
  have twice := once.keyed.swapped (once.claims claims)
  refine ⟨once, _, replaceFile_eq _ fits, once.sameRows_iff twice claims, fun stored fresh => ?_⟩
  refine (once.sameRows_iff twice claims).mpr fun row inside spared taken => ?_
  obtain ⟨chunk, listed, same⟩ := List.mem_map.mp taken
  have isFile := spared.isFile claims (stored row inside) taken
  exact spared.notFile (same.symm.trans (fresh chunk listed (same ▸ isFile)))

def oneLine (path id : String) (line : Nat) : Chunk :=
  ⟨id, "", path, line, line, .function, none, none⟩

def edgeRow (source target : String) (kind : EdgeKind) : EdgeRow :=
  .ofEdge { source, target, kind }

def importing : Graph where
  files := [⟨"a.js", "javascript", 2⟩, ⟨"b.js", "javascript", 1⟩]
  chunks := [.image (oneLine "a.js" "1" 1), .image (oneLine "a.js" "2" 2),
    .image (oneLine "b.js" "3" 1)]
  edges := [edgeRow "a.js" "1" .contains, edgeRow "a.js" "2" .contains,
    edgeRow "b.js" "3" .contains, edgeRow "b.js" "a.js" .imports,
    edgeRow "3" "1" .importsSymbol, edgeRow "3" "2" .importsSymbol]

def revised : FileGraph where
  path := "a.js"
  language := "javascript"
  lines := 9
  chunks := [oneLine "a.js" "2" 5, oneLine "a.js" "4" 6, oneLine "a.js" "4" 7]
  edges := [{ source := "a.js", target := "2", kind := .contains },
    { source := "a.js", target := "4", kind := .contains }]

theorem replaceFile_swaps_revised :
    ∃ after again, importing.replaceFile revised = .ok after ∧
      importing.Swapped revised after ∧ after.replaceFile revised = .ok again ∧
      again.SameRows after ∧ after.edges.map EdgeRow.key =
        [("b.js", "3", "CONTAINS"), ("b.js", "a.js", "IMPORTS"), ("3", "2", "IMPORTS_SYMBOL"),
          ("a.js", "2", "CONTAINS"), ("a.js", "4", "CONTAINS")] := by
  have keyed : importing.Keyed := ⟨by decide, by decide, by decide⟩
  have done := replaceFile_eq importing (show revised.Fits by decide)
  obtain ⟨swapped, again, twice, -, same⟩ :=
    replaceFile_swaps keyed ⟨by decide, by decide⟩ done
  exact ⟨_, again, done, swapped, twice, same (by decide) (by decide), by decide⟩

def sharedNames : Graph where
  files := [⟨"b.js", "javascript", 2⟩]
  chunks := [.image (oneLine "a.js" "a.js" 1)]
  edges := [edgeRow "b.js" (packageNode "x" none) .importsPackage,
    edgeRow "b.js" "a.js" .imports]

def renamed : FileGraph where
  path := "a.js"
  language := "javascript"
  lines := 1
  chunks := [oneLine "a.js" "b.js" 1]

/-- The second time takes away the edge to the package, as it leaves a chunk of `a.js` by then; and
the edge into `a.js` goes the first time, as it enters a chunk that is gone. -/
theorem shared_names_break_replacing :
    sharedNames.Keyed ∧ sharedNames.Claims renamed ∧
      (∀ row ∈ sharedNames.edges, sharedNames.IsNode row.source) ∧
      (∀ edge ∈ renamed.edges, edge.source ∈ renamed.nodes) ∧
      ∃ after again, sharedNames.replaceFile renamed = .ok after ∧
        after.replaceFile renamed = .ok again ∧ ¬again.SameRows after ∧
        ∃ row ∈ sharedNames.edges, row.target = renamed.path ∧ row.source ≠ renamed.path ∧
          row.source ∉ sharedNames.chunkIds renamed.path ∧
          row.key ∉ after.edges.map EdgeRow.key := by
  have keyed : sharedNames.Keyed := ⟨by decide, by decide, by decide⟩
  have fits : renamed.Fits := by decide
  refine ⟨keyed, ⟨by decide, by decide⟩, by decide, by decide, _, _,
    replaceFile_eq _ fits, replaceFile_eq _ fits, fun same => ?_, ?_⟩
  · exact absurd same.edges.length_eq (by decide)
  · exact ⟨edgeRow "b.js" "a.js" .imports, by simp [sharedNames], by decide⟩

end CodeGraph.Graph
