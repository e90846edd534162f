import CodeGraph.Proofs.Graph.Rows
import Mathlib.Data.List.Nodup
import Mathlib.Logic.Function.Basic

/-!
What a graph holds, said by the files that were put into it.

`Holds graph stored` says that the graph has exactly the file rows, the chunk rows and the local
edges of the stored files; of the other edges it only says that they leave a stored file. Replacing
and deleting a file are updates of the stored files, provided that files share no nodes.
-/

set_option autoImplicit false

namespace CodeGraph

theorem of_update_eq_some {α : Type} {f : String → Option α} {key other : String} {new : Option α}
    {value : α} (found : Function.update f key new other = some value) :
    other = key ∧ new = some value ∨ other ≠ key ∧ f other = some value := by
  by_cases same : other = key
  · subst same
    rw [Function.update_self] at found
    exact .inl ⟨rfl, found⟩
  · rw [Function.update_of_ne same] at found
    exact .inr ⟨same, found⟩

namespace EdgeKind

def locals : List EdgeKind :=
  [.contains, .documents, .references]

def links : List EdgeKind :=
  [.imports, .importsSymbol]

def isLocal (kind : EdgeKind) : Bool :=
  locals.contains kind

def isLink (kind : EdgeKind) : Bool :=
  links.contains kind

end EdgeKind

namespace EdgeRow

def isLocal (row : EdgeRow) : Bool :=
  (EdgeKind.locals.map EdgeKind.name).contains row.kind

def isLink (row : EdgeRow) : Bool :=
  (EdgeKind.links.map EdgeKind.name).contains row.kind

@[simp] theorem isLocal_ofEdge (edge : Edge) : (ofEdge edge).isLocal = edge.kind.isLocal := by
  cases kind : edge.kind <;> simp [isLocal, ofEdge, kind] <;> decide

@[simp] theorem isLink_ofEdge (edge : Edge) : (ofEdge edge).isLink = edge.kind.isLink := by
  cases kind : edge.kind <;> simp [isLink, ofEdge, kind] <;> decide

theorem isLink_of_isLocal {row : EdgeRow} (isLocal : row.isLocal = true) : row.isLink = false := by
  simp only [EdgeRow.isLocal, EdgeKind.locals, List.map_cons, List.map_nil, List.contains_eq_mem,
    List.mem_cons, List.not_mem_nil, or_false, decide_eq_true_eq] at isLocal
  rcases isLocal with named | named | named <;> rw [isLink, named] <;> decide

theorem unique_map_ofEdge {edges : List Edge} (keys : (edges.map Edge.key).Nodup) :
    Table.Unique EdgeRow.key (edges.map ofEdge) := by
  have same : (edges.map ofEdge).map EdgeRow.key =
      (edges.map Edge.key).map (fun key => (key.1, key.2.1, key.2.2.name)) := by
    simp [EdgeRow.key, ofEdge, Edge.key]
  rw [Table.Unique, same]
  refine keys.map ?_
  rintro ⟨source, target, kind⟩ ⟨source', target', kind'⟩ same
  simp only [Prod.mk.injEq] at same ⊢
  refine ⟨same.1, same.2.1, ?_⟩
  have read := congrArg EdgeKind.ofName? same.2.2
  simpa using read

end EdgeRow

namespace FileGraph

def nodes (file : FileGraph) : List String :=
  file.path :: file.chunks.map Chunk.id

def core (file : FileGraph) : FileGraph :=
  { file with edges := file.edges.filter (fun edge => edge.kind.isLocal) }

structure Closed (file : FileGraph) : Prop where
  chunks : ∀ chunk ∈ file.chunks, chunk.filePath = file.path
  kinds : ∀ edge ∈ file.edges, edge.kind.isLocal = true
  sources : ∀ edge ∈ file.edges, edge.source ∈ file.nodes
  targets : ∀ edge ∈ file.edges, edge.target ∈ file.chunks.map Chunk.id

theorem map_id_chunkRows (file : FileGraph) (id : String) :
    id ∈ file.chunkRows.map ChunkRow.id ↔ id ∈ file.chunks.map Chunk.id := by
  rw [chunkRows, Table.mem_map_key_putAll, List.map_map]
  simp [Function.comp_def, ChunkRow.image]

theorem Closed.filePath {file : FileGraph} (closed : file.Closed) {row : ChunkRow}
    (member : row ∈ file.chunkRows) : row.filePath = file.path := by
  rcases Table.mem_putAll member with none | image
  · cases none
  · obtain ⟨chunk, inside, rfl⟩ := List.mem_map.mp image
    exact closed.chunks chunk inside

end FileGraph

namespace Graph

structure Holds (graph : Graph) (stored : String → Option FileGraph) : Prop where
  named : ∀ path file, stored path = some file → file.path = path
  closed : ∀ path file, stored path = some file → file.Closed
  apart : ∀ path file path' file', stored path = some file → stored path' = some file' →
    path ≠ path' → ∀ node ∈ file.nodes, node ∉ file'.nodes
  files : ∀ row, row ∈ graph.files ↔ ∃ path file, stored path = some file ∧ file.row = row
  uniqueFiles : Table.Unique FileNodeRow.path graph.files
  chunks : ∀ path, graph.chunks.filter (fun row => row.filePath == path) =
    (stored path).elim [] FileGraph.chunkRows
  uniqueChunks : Table.Unique ChunkRow.id graph.chunks
  edges : ∀ row : EdgeRow, row.isLocal = true → (row ∈ graph.edges ↔
    ∃ path file, stored path = some file ∧ row ∈ file.edges.map EdgeRow.ofEdge)
  uniqueEdges : Table.Unique EdgeRow.key graph.edges
  owned : ∀ row ∈ graph.edges, (∃ kind : EdgeKind, row.kind = kind.name) ∧
    ∃ path file, stored path = some file ∧ row.source ∈ file.nodes

theorem holds_empty : Holds {} (fun _ => none) where
  named := by simp
  closed := by simp
  apart := by simp
  files := by simp
  uniqueFiles := List.nodup_nil
  chunks := by simp
  uniqueChunks := List.nodup_nil
  edges := by simp
  uniqueEdges := List.nodup_nil
  owned := by simp

variable {graph : Graph} {stored : String → Option FileGraph}

theorem Holds.chunkIds (holds : graph.Holds stored) (path id : String) :
    id ∈ graph.chunkIds path ↔ ∃ file, stored path = some file ∧ id ∈ file.chunks.map Chunk.id := by
  rw [Graph.chunkIds, holds.chunks path]
  cases stored path with
  | none => simp
  | some file =>
      rw [Option.elim_some, FileGraph.map_id_chunkRows]
      simp

theorem Holds.chunk_mem (holds : graph.Holds stored) {row : ChunkRow}
    (member : row ∈ graph.chunks) :
    ∃ file, stored row.filePath = some file ∧ row ∈ file.chunkRows := by
  have inside : row ∈ graph.chunks.filter (fun other => other.filePath == row.filePath) :=
    List.mem_filter.mpr ⟨member, by simp⟩
  rw [holds.chunks] at inside
  cases found : stored row.filePath with
  | none =>
      rw [found] at inside
      cases inside
  | some file =>
      rw [found] at inside
      exact ⟨file, rfl, inside⟩

theorem Holds.owner_unique (holds : graph.Holds stored) {node path path' : String}
    {file file' : FileGraph} (first : stored path = some file) (second : stored path' = some file')
    (inside : node ∈ file.nodes) (inside' : node ∈ file'.nodes) : path = path' := by
  by_contra differ
  exact holds.apart path file path' file' first second differ node inside inside'

theorem Holds.not_mem_chunkIds (holds : graph.Holds stored) {path other node : String}
    {file : FileGraph} (found : stored path = some file) (inside : node ∈ file.nodes)
    (differ : path ≠ other) : node ∉ graph.chunkIds other := by
  intro listed
  obtain ⟨old, before, chunk⟩ := (holds.chunkIds _ _).mp listed
  exact differ (holds.owner_unique found before inside (List.mem_cons_of_mem _ chunk))

theorem Holds.owner_ne (holds : graph.Holds stored) {path other node : String} {file : FileGraph}
    (found : stored path = some file) (inside : node ∈ file.nodes) (notFile : node ≠ other)
    (notChunk : node ∉ graph.chunkIds other) : path ≠ other := by
  rintro rfl
  rcases List.mem_cons.mp inside with same | chunk
  · exact notFile (same.trans (holds.named _ _ found))
  · exact notChunk ((holds.chunkIds _ _).mpr ⟨file, found, chunk⟩)

structure Admits (stored : String → Option FileGraph) (file : FileGraph) : Prop where
  closed : file.core.Closed
  keys : (file.edges.map Edge.key).Nodup
  sources : ∀ edge ∈ file.edges, edge.source ∈ file.nodes
  apart : ∀ path other, stored path = some other → path ≠ file.path →
    ∀ node ∈ file.nodes, node ∉ other.nodes

theorem Admits.unique {file : FileGraph} (admits : Admits stored file) :
    Table.Unique EdgeRow.key (file.edges.map EdgeRow.ofEdge) :=
  EdgeRow.unique_map_ofEdge admits.keys

theorem Holds.kept_edge (holds : graph.Holds stored) {file : FileGraph} {row : EdgeRow}
    (member : row ∈ graph.edges.filter (fun row => !graph.isReplaced file row)) :
    row ∈ graph.edges ∧ ∃ path other, stored path = some other ∧ path ≠ file.path ∧
      row.source ∈ other.nodes := by
  obtain ⟨inside, stays⟩ := List.mem_filter.mp member
  simp only [isReplaced, Bool.not_eq_true', Bool.or_eq_false_iff, beq_eq_false_iff_ne,
    List.contains_eq_mem, decide_eq_false_iff_not] at stays
  obtain ⟨⟨notFile, notChunk⟩, -⟩ := stays
  obtain ⟨path, other, found, source⟩ := (holds.owned row inside).2
  exact ⟨inside, path, other, found, holds.owner_ne found source notFile notChunk, source⟩

theorem Holds.edges_replaced (holds : graph.Holds stored) {file : FileGraph}
    (admits : Admits stored file) :
    (graph.replaced file).edges =
      graph.edges.filter (fun row => !graph.isReplaced file row) ++
        file.edges.map EdgeRow.ofEdge := by
  dsimp only [replaced]
  rw [Table.putAll_eq_append, Table.putAll_of_unique admits.unique]
  intro old member row new same
  obtain ⟨-, path, other, found, differ, source⟩ := holds.kept_edge member
  obtain ⟨edge, inside, rfl⟩ := List.mem_map.mp new
  have equal : old.source = edge.source := congrArg Prod.fst same
  exact admits.apart path other found differ _ (admits.sources edge inside) (equal ▸ source)

theorem Holds.chunks_replaced (holds : graph.Holds stored) {file : FileGraph}
    (admits : Admits stored file) :
    (graph.replaced file).chunks =
      graph.chunks.filter (fun row => row.filePath != file.path) ++ file.chunkRows := by
  dsimp only [replaced]
  rw [Table.putAll_eq_append, FileGraph.chunkRows]
  intro old member row new same
  obtain ⟨inside, elsewhere⟩ := List.mem_filter.mp member
  obtain ⟨other, found, listed⟩ := holds.chunk_mem inside
  obtain ⟨chunk, present, rfl⟩ := List.mem_map.mp new
  have node : chunk.id ∈ file.nodes := List.mem_cons_of_mem _ (List.mem_map_of_mem present)
  refine admits.apart _ other found (by simpa using elsewhere) _ node (List.mem_cons_of_mem _ ?_)
  rw [← FileGraph.map_id_chunkRows]
  exact List.mem_map.mpr ⟨old, listed, same⟩

theorem Holds.isReplaced_of_ne (holds : graph.Holds stored) {file other : FileGraph}
    (admits : Admits stored file) {path : String} (found : stored path = some other)
    (differ : path ≠ file.path) {row : EdgeRow} (source : row.source ∈ other.nodes)
    (target : row.target ∈ other.chunks.map Chunk.id) : graph.isReplaced file row = false := by
  have fresh : row.source ≠ file.path := by
    intro same
    exact admits.apart path other found differ file.path (List.mem_cons_self ..) (same ▸ source)
  simp only [isReplaced, Bool.or_eq_false_iff, beq_eq_false_iff_ne, List.contains_eq_mem,
    decide_eq_false_iff_not]
  refine ⟨⟨fresh, holds.not_mem_chunkIds found source differ⟩, fun removed => ?_⟩
  exact holds.not_mem_chunkIds found (List.mem_cons_of_mem _ target) differ
    (List.mem_of_mem_filter removed)

def put (stored : String → Option FileGraph) (file : FileGraph) : String → Option FileGraph :=
  Function.update stored file.path (some file.core)

theorem put_self (stored : String → Option FileGraph) (file : FileGraph) :
    put stored file file.path = some file.core :=
  Function.update_self ..

theorem put_of_ne {file : FileGraph} {path : String} (differ : path ≠ file.path) :
    put stored file path = stored path :=
  Function.update_of_ne differ ..

theorem of_put_eq_some {file other : FileGraph} {path : String}
    (found : put stored file path = some other) :
    path = file.path ∧ other = file.core ∨ path ≠ file.path ∧ stored path = some other :=
  (of_update_eq_some found).imp_left fun new => ⟨new.1, (Option.some.inj new.2).symm⟩

theorem Holds.files_replaced (holds : graph.Holds stored) (file : FileGraph) (row : FileNodeRow) :
    row ∈ (graph.replaced file).files ↔
      ∃ path other, put stored file path = some other ∧ other.row = row := by
  dsimp only [Graph.replaced]
  rw [holds.uniqueFiles.mem_put_iff, holds.files]
  constructor
  · rintro (rfl | ⟨⟨path, other, found, rfl⟩, differ⟩)
    · exact ⟨file.path, file.core, put_self stored file, rfl⟩
    · have elsewhere : path ≠ file.path := holds.named path other found ▸ differ
      exact ⟨path, other, (put_of_ne elsewhere).trans found, rfl⟩
  · rintro ⟨path, other, found, rfl⟩
    rcases of_put_eq_some found with ⟨rfl, rfl⟩ | ⟨elsewhere, old⟩
    · exact .inl rfl
    · refine .inr ⟨⟨path, other, old, rfl⟩, ?_⟩
      exact fun same => elsewhere ((holds.named path other old).symm.trans same)

theorem Holds.fileChunks_replaced (holds : graph.Holds stored) {file : FileGraph}
    (admits : Admits stored file) (path : String) :
    (graph.replaced file).chunks.filter (fun row => row.filePath == path) =
      (put stored file path).elim [] FileGraph.chunkRows := by
  rw [holds.chunks_replaced admits, List.filter_append, List.filter_filter]
  by_cases same : path = file.path
  · subst same
    rw [put_self, Option.elim_some]
    have own : file.chunkRows.filter (fun row => row.filePath == file.path) = file.chunkRows :=
      List.filter_eq_self.mpr fun row member => beq_iff_eq.mpr (admits.closed.filePath member)
    have gone : graph.chunks.filter
        (fun row => row.filePath == file.path && row.filePath != file.path) = [] := by
      simp
    rw [own, gone, List.nil_append]
    rfl
  · rw [put_of_ne same, ← holds.chunks path]
    have none : file.chunkRows.filter (fun row => row.filePath == path) = [] := by
      apply List.filter_eq_nil_iff.mpr
      intro row member
      rw [@FileGraph.Closed.filePath file.core admits.closed row member, beq_iff_eq]
      exact fun equal => same equal.symm
    rw [none, List.append_nil]
    apply List.filter_congr
    intro row _
    by_cases equal : row.filePath = path <;> simp [equal, same]

theorem Holds.localEdges_replaced (holds : graph.Holds stored) {file : FileGraph}
    (admits : Admits stored file) {row : EdgeRow} (isLocal : row.isLocal = true) :
    row ∈ (graph.replaced file).edges ↔
      ∃ path other, put stored file path = some other ∧ row ∈ other.edges.map EdgeRow.ofEdge := by
  rw [holds.edges_replaced admits, List.mem_append]
  constructor
  · rintro (kept | new)
    · -- The file that the edge was written for is the one that it leaves.
      obtain ⟨inside, owner, keeper, ownerFound, differ, source⟩ := holds.kept_edge kept
      obtain ⟨path, other, found, written⟩ := (holds.edges row isLocal).mp inside
      have leaves : row.source ∈ other.nodes := by
        obtain ⟨edge, listed, rfl⟩ := List.mem_map.mp written
        exact (holds.closed path other found).sources edge listed
      obtain rfl := holds.owner_unique found ownerFound leaves source
      exact ⟨path, other, (put_of_ne differ).trans found, written⟩
    · obtain ⟨edge, listed, rfl⟩ := List.mem_map.mp new
      rw [EdgeRow.isLocal_ofEdge] at isLocal
      refine ⟨file.path, file.core, put_self stored file, List.mem_map_of_mem ?_⟩
      exact List.mem_filter.mpr ⟨listed, isLocal⟩
  · rintro ⟨path, other, found, written⟩
    have inside := (holds.edges row isLocal).mpr
    obtain ⟨edge, listed, rfl⟩ := List.mem_map.mp written
    rcases of_put_eq_some found with ⟨rfl, rfl⟩ | ⟨elsewhere, old⟩
    · exact .inr (List.mem_map_of_mem (List.mem_of_mem_filter listed))
    · refine .inl (List.mem_filter.mpr ⟨inside ⟨path, other, old, written⟩, ?_⟩)
      rw [holds.isReplaced_of_ne admits old elsewhere
        ((holds.closed path other old).sources edge listed)
        ((holds.closed path other old).targets edge listed)]
      rfl

theorem Holds.replaced (holds : graph.Holds stored) {file : FileGraph}
    (admits : Admits stored file) : (graph.replaced file).Holds (put stored file) where
  named path other found := by
    rcases of_put_eq_some found with ⟨rfl, rfl⟩ | ⟨-, old⟩
    · rfl
    · exact holds.named path other old
  closed path other found := by
    rcases of_put_eq_some found with ⟨rfl, rfl⟩ | ⟨-, old⟩
    · exact admits.closed
    · exact holds.closed path other old
  apart path other path' other' found found' differ node inside := by
    rcases of_put_eq_some found with ⟨rfl, rfl⟩ | ⟨-, old⟩
    · rcases of_put_eq_some found' with ⟨rfl, rfl⟩ | ⟨elsewhere, old'⟩
      · exact absurd rfl differ
      · exact admits.apart path' other' old' elsewhere node inside
    · rcases of_put_eq_some found' with ⟨rfl, rfl⟩ | ⟨-, old'⟩
      · exact fun inside' => admits.apart path other old differ node inside' inside
      · exact holds.apart path other path' other' old old' differ node inside
  files := holds.files_replaced file
  uniqueFiles := holds.uniqueFiles.put _
  chunks := holds.fileChunks_replaced admits
  uniqueChunks := (holds.uniqueChunks.filter _).putAll _
  edges row isLocal := holds.localEdges_replaced admits isLocal
  uniqueEdges := (holds.uniqueEdges.filter _).putAll _
  -- An edge was kept, and leaves another file, or is one of the new ones.
  owned row member := by
    rw [holds.edges_replaced admits, List.mem_append] at member
    rcases member with kept | new
    · obtain ⟨inside, path, other, found, differ, source⟩ := holds.kept_edge kept
      exact ⟨(holds.owned row inside).1, path, other, (put_of_ne differ).trans found, source⟩
    · obtain ⟨edge, listed, rfl⟩ := List.mem_map.mp new
      exact ⟨⟨edge.kind, rfl⟩, file.path, file.core, put_self stored file,
        admits.sources edge listed⟩

def drop (stored : String → Option FileGraph) (path : String) : String → Option FileGraph :=
  Function.update stored path none

theorem drop_of_ne {path other : String} (differ : other ≠ path) :
    drop stored path other = stored other :=
  Function.update_of_ne differ ..

theorem of_drop_eq_some {path other : String} {file : FileGraph}
    (found : drop stored path other = some file) : other ≠ path ∧ stored other = some file :=
  (of_update_eq_some found).resolve_left fun gone => nomatch gone.2

theorem Holds.owner_of_mem_deleteFile (holds : graph.Holds stored) {path : String} {row : EdgeRow}
    (member : row ∈ (graph.deleteFile path).edges) :
    row ∈ graph.edges ∧ ∀ other file, stored other = some file → row.source ∈ file.nodes →
      other ≠ path := by
  obtain ⟨inside, stays⟩ := List.mem_filter.mp member
  simp only [Bool.not_eq_true', Bool.or_eq_false_iff, beq_eq_false_iff_ne, List.contains_eq_mem,
    decide_eq_false_iff_not] at stays
  exact ⟨inside, fun other file found source =>
    holds.owner_ne found source stays.1.1.1 stays.1.2⟩

theorem Holds.files_deleted (holds : graph.Holds stored) (path : String) (row : FileNodeRow) :
    row ∈ (graph.deleteFile path).files ↔
      ∃ other file, drop stored path other = some file ∧ file.row = row := by
  dsimp only [Graph.deleteFile]
  rw [Table.mem_erase, holds.files]
  constructor
  · rintro ⟨⟨other, file, found, rfl⟩, differ⟩
    have elsewhere : other ≠ path := holds.named other file found ▸ differ
    exact ⟨other, file, (drop_of_ne elsewhere).trans found, rfl⟩
  · rintro ⟨other, file, found, rfl⟩
    obtain ⟨elsewhere, old⟩ := of_drop_eq_some found
    exact ⟨⟨other, file, old, rfl⟩,
      fun same => elsewhere ((holds.named _ _ old).symm.trans same)⟩

theorem Holds.fileChunks_deleted (holds : graph.Holds stored) (path other : String) :
    (graph.deleteFile path).chunks.filter (fun row => row.filePath == other) =
      (drop stored path other).elim [] FileGraph.chunkRows := by
  dsimp only [Graph.deleteFile]
  rw [List.filter_filter]
  by_cases same : other = path
  · subst same
    rw [drop, Function.update_self, Option.elim_none]
    simp
  · rw [drop_of_ne same, ← holds.chunks other]
    apply List.filter_congr
    intro row _
    by_cases equal : row.filePath = other <;> simp [equal, same]

theorem Holds.localEdges_deleted (holds : graph.Holds stored) {path : String}
    (known : ∀ other file, stored other = some file → other ≠ path → path ∉ file.nodes)
    {row : EdgeRow} (isLocal : row.isLocal = true) :
    row ∈ (graph.deleteFile path).edges ↔
      ∃ other file, drop stored path other = some file ∧ row ∈ file.edges.map EdgeRow.ofEdge := by
  constructor
  · intro member
    obtain ⟨before, elsewhere⟩ := holds.owner_of_mem_deleteFile member
    obtain ⟨other, file, found, written⟩ := (holds.edges row isLocal).mp before
    obtain ⟨edge, listed, rfl⟩ := List.mem_map.mp written
    have differ := elsewhere other file found ((holds.closed _ _ found).sources edge listed)
    exact ⟨other, file, (drop_of_ne differ).trans found, written⟩
  · rintro ⟨other, file, found, written⟩
    obtain ⟨differ, old⟩ := of_drop_eq_some found
    have inside := (holds.edges row isLocal).mpr ⟨other, file, old, written⟩
    -- The ends of a local edge are nodes of its own file, so that no filter hits it.
    have free {node : String} (member : node ∈ file.nodes) :
        node ≠ path ∧ node ∉ graph.chunkIds path :=
      ⟨fun same => known other file old differ (same ▸ member),
        holds.not_mem_chunkIds old member differ⟩
    obtain ⟨edge, listed, rfl⟩ := List.mem_map.mp written
    have source := free ((holds.closed _ _ old).sources edge listed)
    have target := free (List.mem_cons_of_mem _ ((holds.closed _ _ old).targets edge listed))
    refine List.mem_filter.mpr ⟨inside, ?_⟩
    simp [EdgeRow.ofEdge, source.1, source.2, target.1, target.2]

theorem Holds.deleted (holds : graph.Holds stored) (path : String)
    (known : ∀ other file, stored other = some file → other ≠ path → path ∉ file.nodes) :
    (graph.deleteFile path).Holds (drop stored path) where
  named other file found := holds.named other file (of_drop_eq_some found).2
  closed other file found := holds.closed other file (of_drop_eq_some found).2
  apart other file other' file' found found' :=
    holds.apart other file other' file' (of_drop_eq_some found).2 (of_drop_eq_some found').2
  files := holds.files_deleted path
  uniqueFiles := holds.uniqueFiles.erase _
  chunks := holds.fileChunks_deleted path
  uniqueChunks := holds.uniqueChunks.filter _
  edges row isLocal := holds.localEdges_deleted known isLocal
  uniqueEdges := holds.uniqueEdges.filter _
  owned row member := by
    obtain ⟨before, elsewhere⟩ := holds.owner_of_mem_deleteFile member
    obtain ⟨kind, other, file, found, source⟩ := holds.owned row before
    exact ⟨kind, other, file, (drop_of_ne (elsewhere other file found source)).trans found, source⟩

end Graph

end CodeGraph
