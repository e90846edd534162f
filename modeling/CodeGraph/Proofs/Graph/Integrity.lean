import CodeGraph.Proofs.Links

/-!
Graphs without loose edges: each edge joins nodes that are stored, of the sort that its kind asks
for.

This rests on files that share no chunk identifiers. Replacing a file drops the edges that leave it
and those into chunks that it loses; deleting it drops all edges at it; links are made between
stored files only.
-/

set_option autoImplicit false

namespace CodeGraph

namespace Graph

def IsFile (graph : Graph) (path : String) : Prop :=
  path ∈ graph.files.map FileNodeRow.path

instance (graph : Graph) (path : String) : Decidable (graph.IsFile path) :=
  inferInstanceAs (Decidable (_ ∈ _))

/-- The ends that an edge of each kind may have. -/
def Joins (graph : Graph) : EdgeKind → String → String → Prop
  | .contains, source, target => graph.IsFile source ∧ target ∈ graph.chunkIds source
  | .documents, source, target =>
      ∃ path, graph.IsFile path ∧ source ∈ graph.chunkIds path ∧ target ∈ graph.chunkIds path
  | .references, source, target =>
      ∃ path, graph.IsFile path ∧ source ∈ path :: graph.chunkIds path ∧
        target ∈ graph.chunkIds path
  | .imports, source, target => graph.IsFile source ∧ graph.IsFile target ∧ source ≠ target
  | .importsSymbol, source, target =>
      ∃ path other, graph.IsFile path ∧ graph.IsFile other ∧ path ≠ other ∧
        source ∈ path :: graph.chunkIds path ∧ target ∈ graph.chunkIds other
  | .importsPackage, source, target => graph.IsFile source ∧ isPackageNode target = true

def Integral (graph : Graph) : Prop :=
  ∀ row ∈ graph.edges, ∃ kind : EdgeKind, row.kind = kind.name ∧
    graph.Joins kind row.source row.target

variable {graph graph' : Graph}

theorem mem_chunkIds {path id : String} :
    id ∈ graph.chunkIds path ↔ ∃ row ∈ graph.chunks, row.filePath = path ∧ row.id = id := by
  simp [chunkIds, and_assoc]

/-- Edges keep ends that are allowed if the files at both ends and the chunks there stay. -/
theorem Joins.transfer {kind : EdgeKind} {source target : String}
    (joins : graph.Joins kind source target)
    (files : ∀ path, graph.IsFile path → source ∈ path :: graph.chunkIds path ∨
      target ∈ path :: graph.chunkIds path → graph'.IsFile path)
    (sources : ∀ path, source ∈ graph.chunkIds path → source ∈ graph'.chunkIds path)
    (targets : ∀ path, target ∈ graph.chunkIds path → target ∈ graph'.chunkIds path) :
    graph'.Joins kind source target := by
  -- The end at the source may be the file or a chunk of it.
  have leaves {path : String} (inside : source ∈ path :: graph.chunkIds path) :
      source ∈ path :: graph'.chunkIds path := by
    rcases List.mem_cons.mp inside with same | chunk
    · exact same ▸ List.mem_cons_self ..
    · exact List.mem_cons_of_mem _ (sources path chunk)
  cases kind with
  | contains =>
      obtain ⟨file, chunk⟩ := joins
      exact ⟨files source file (.inl (List.mem_cons_self ..)), targets source chunk⟩
  | documents =>
      obtain ⟨path, file, first, second⟩ := joins
      exact ⟨path, files path file (.inl (List.mem_cons_of_mem _ first)), sources path first,
        targets path second⟩
  | references =>
      obtain ⟨path, file, first, second⟩ := joins
      exact ⟨path, files path file (.inl first), leaves first, targets path second⟩
  | imports =>
      obtain ⟨first, second, differ⟩ := joins
      exact ⟨files source first (.inl (List.mem_cons_self ..)),
        files target second (.inr (List.mem_cons_self ..)), differ⟩
  | importsSymbol =>
      obtain ⟨path, other, first, second, differ, from', into⟩ := joins
      exact ⟨path, other, files path first (.inl from'),
        files other second (.inr (List.mem_cons_of_mem _ into)), differ, leaves from',
        targets other into⟩
  | importsPackage =>
      obtain ⟨file, package⟩ := joins
      exact ⟨files source file (.inl (List.mem_cons_self ..)), package⟩

structure Intact (owns : String → String → Prop) (graph : Graph) : Prop where
  edges : graph.Integral
  owned : ∀ row ∈ graph.chunks, owns row.filePath row.id

variable {owns : String → String → Prop}

theorem intact_empty : Intact owns {} :=
  ⟨by simp [Integral], by simp⟩

section Replaced

variable {file : FileGraph}

theorem isFile_replaced {path : String} :
    (graph.replaced file).IsFile path ↔ graph.IsFile path ∨ path = file.path := by
  have paths := @Table.map_key_put _ _ _ FileNodeRow.path file.row graph.files
  unfold IsFile
  dsimp only [replaced]
  rw [paths]
  split
  next present =>
    refine ⟨.inl, ?_⟩
    rintro (old | rfl)
    · exact old
    · exact present
  next => simp [FileGraph.row]

theorem mem_chunks_replaced {row : ChunkRow} (member : row ∈ (graph.replaced file).chunks) :
    row ∈ graph.chunks ∧ row.filePath ≠ file.path ∨ ∃ chunk ∈ file.chunks, row = .image chunk := by
  rcases Table.mem_putAll member with old | new
  · obtain ⟨inside, elsewhere⟩ := List.mem_filter.mp old
    exact .inl ⟨inside, by simpa using elsewhere⟩
  · obtain ⟨chunk, inside, rfl⟩ := List.mem_map.mp new
    exact .inr ⟨chunk, inside, rfl⟩

structure Fitting (owns : String → String → Prop) (file : FileGraph) : Prop where
  chunks : ∀ chunk ∈ file.chunks, chunk.filePath = file.path
  owned : ∀ chunk ∈ file.chunks, owns file.path chunk.id

variable (apart : ∀ path other id, owns path id → owns other id → path = other)

include apart

theorem Intact.chunkIds_of_new (intact : graph.Intact owns) (fitting : Fitting owns file)
    {id : String} (new : id ∈ file.chunks.map Chunk.id) :
    id ∈ (graph.replaced file).chunkIds file.path := by
  have keys : id ∈ (graph.replaced file).chunks.map ChunkRow.id := by
    refine Table.mem_map_key_putAll.mpr (.inr ?_)
    simpa [Function.comp_def, ChunkRow.image] using new
  obtain ⟨row, member, rfl⟩ := List.mem_map.mp keys
  obtain ⟨chunk, listed, same⟩ := List.mem_map.mp new
  refine mem_chunkIds.mpr ⟨row, member, ?_, rfl⟩
  rcases mem_chunks_replaced member with ⟨old, -⟩ | ⟨other, inside, rfl⟩
  · -- A row of another file with this identifier would make the two files one.
    exact apart _ _ row.id (intact.owned row old) (same ▸ fitting.owned chunk listed)
  · exact fitting.chunks other inside

theorem Intact.chunkIds_of_kept (intact : graph.Intact owns) (fitting : Fitting owns file)
    {path id : String} (elsewhere : path ≠ file.path) (member : id ∈ graph.chunkIds path) :
    id ∈ (graph.replaced file).chunkIds path := by
  obtain ⟨row, inside, rfl, rfl⟩ := mem_chunkIds.mp member
  refine mem_chunkIds.mpr ⟨row, Table.mem_putAll_of_ne ?_ ?_, rfl, rfl⟩
  · exact List.mem_filter.mpr ⟨inside, by simpa using elsewhere⟩
  · intro other new same
    obtain ⟨chunk, listed, rfl⟩ := List.mem_map.mp new
    have owned := fitting.owned chunk listed
    have id : chunk.id = row.id := same.symm
    exact elsewhere (apart _ _ row.id (intact.owned row inside) (id ▸ owned))

theorem Intact.joins_of_kept (intact : graph.Intact owns) (fitting : Fitting owns file)
    {row : EdgeRow} (kept : graph.isReplaced file row = false) {kind : EdgeKind}
    (joins : graph.Joins kind row.source row.target) :
    (graph.replaced file).Joins kind row.source row.target := by
  simp only [isReplaced, Bool.or_eq_false_iff, beq_eq_false_iff_ne, List.contains_eq_mem,
    decide_eq_false_iff_not, List.mem_filter, Bool.not_eq_true', not_and] at kept
  obtain ⟨⟨-, notSource⟩, notRemoved⟩ := kept
  refine joins.transfer ?_ ?_ ?_
  · exact fun path isFile _ => isFile_replaced.mpr (.inl isFile)
  · intro path source
    refine intact.chunkIds_of_kept apart fitting ?_ source
    rintro rfl
    exact notSource source
  · intro path target
    by_cases same : path = file.path
    · subst same
      have stays := notRemoved target
      simp only [not_not] at stays
      exact intact.chunkIds_of_new apart fitting stays
    · exact intact.chunkIds_of_kept apart fitting same target

theorem Intact.replaced (intact : graph.Intact owns) (fitting : Fitting owns file)
    (new : ∀ edge ∈ file.edges, (graph.replaced file).Joins edge.kind edge.source edge.target) :
    (graph.replaced file).Intact owns where
  edges := by
    intro row member
    rcases Table.mem_putAll member with old | added
    · obtain ⟨inside, kept⟩ := List.mem_filter.mp old
      obtain ⟨kind, named, joins⟩ := intact.edges row inside
      exact ⟨kind, named, intact.joins_of_kept apart fitting (by simpa using kept) joins⟩
    · obtain ⟨edge, listed, rfl⟩ := List.mem_map.mp added
      exact ⟨edge.kind, rfl, new edge listed⟩
  owned := by
    intro row member
    rcases mem_chunks_replaced member with ⟨old, -⟩ | ⟨chunk, inside, rfl⟩
    · exact intact.owned row old
    · have owned := fitting.owned chunk inside
      rwa [← fitting.chunks chunk inside] at owned

end Replaced

theorem isFile_deleteFile {path other : String} (file : graph.IsFile other)
    (differ : other ≠ path) : (graph.deleteFile path).IsFile other := by
  obtain ⟨row, member, rfl⟩ := List.mem_map.mp file
  exact List.mem_map_of_mem (Table.mem_erase.mpr ⟨member, differ⟩)

theorem chunkIds_deleteFile {path other id : String} (member : id ∈ graph.chunkIds other)
    (differ : other ≠ path) : id ∈ (graph.deleteFile path).chunkIds other := by
  obtain ⟨row, inside, rfl, rfl⟩ := mem_chunkIds.mp member
  exact mem_chunkIds.mpr ⟨row, List.mem_filter.mpr ⟨inside, by simpa using differ⟩, rfl, rfl⟩

theorem Intact.deleteFile (intact : graph.Intact owns) (path : String) :
    (graph.deleteFile path).Intact owns where
  edges := by
    intro row member
    obtain ⟨inside, stays⟩ := List.mem_filter.mp member
    simp only [Bool.not_eq_true', Bool.or_eq_false_iff, beq_eq_false_iff_ne, List.contains_eq_mem,
      decide_eq_false_iff_not] at stays
    obtain ⟨⟨⟨notSource, notTarget⟩, notFrom⟩, notInto⟩ := stays
    obtain ⟨kind, named, joins⟩ := intact.edges row inside
    -- Neither end is the file or one of its chunks, so both ends lie in other files.
    refine ⟨kind, named, joins.transfer ?_ ?_ ?_⟩
    · rintro other isFile ends
      refine isFile_deleteFile isFile ?_
      rintro rfl
      rcases ends with source | target
      · rcases List.mem_cons.mp source with same | chunk
        · exact notSource same
        · exact notFrom chunk
      · rcases List.mem_cons.mp target with same | chunk
        · exact notTarget same
        · exact notInto chunk
    · intro other source
      exact chunkIds_deleteFile source fun same => notFrom (same ▸ source)
    · intro other target
      exact chunkIds_deleteFile target fun same => notInto (same ▸ target)
  owned row member := intact.owned row (List.mem_of_mem_filter member)

theorem Joins.congr (files : graph'.files = graph.files) (chunks : graph'.chunks = graph.chunks)
    {kind : EdgeKind} {source target : String} (joins : graph.Joins kind source target) :
    graph'.Joins kind source target := by
  refine joins.transfer ?_ ?_ ?_
  · intro path isFile _
    rwa [IsFile, files]
  · intro path member
    rwa [chunkIds, chunks]
  · intro path member
    rwa [chunkIds, chunks]

theorem Intact.relinked (intact : graph.Intact owns) (nodes : List String) {edges : List Edge}
    (new : ∀ edge ∈ edges, graph.Joins edge.kind edge.source edge.target) :
    (graph.relinked nodes edges).Intact owns where
  edges := by
    intro row member
    rcases Table.mem_putAll member with old | added
    · obtain ⟨kind, named, joins⟩ := intact.edges row (List.mem_of_mem_filter old)
      exact ⟨kind, named, joins.congr rfl rfl⟩
    · obtain ⟨edge, listed, rfl⟩ := List.mem_map.mp added
      exact ⟨edge.kind, rfl, (new edge listed).congr rfl rfl⟩
  owned := intact.owned

end Graph

end CodeGraph
