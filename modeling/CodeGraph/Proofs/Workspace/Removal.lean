import CodeGraph.Proofs.VectorStore
import CodeGraph.Workspace
import Mathlib.Data.Option.Basic

/-!
Removing a file from a workspace. If the stores of the index are open, all that any store holds for
the file goes, with the edges at the file and at its chunks, and every other row stays as it is.
Where nothing is held for a file there is nothing to change, so that a second removal does nothing.
-/

set_option autoImplicit false

namespace CodeGraph

theorem VectorStore.matchesText_iff {payload : Properties} {key value : String} :
    matchesText payload key value = true ↔ Properties.get? payload key = some (.string value) := by
  have text (field : Json) : field.string? = some value ↔ field = .string value := by
    cases field <;> simp [Json.string?]
  cases found : Properties.get? payload key with
  | none => simp [matchesText, found]
  | some field => simp [matchesText, found, text]

/-- Whether a point stands for a chunk of a file: its payload names the file. -/
def Point.IsOf (point : Point) (path : String) : Prop :=
  Properties.get? point.payload "file_path" = some (.string path)

instance (point : Point) (path : String) : Decidable (point.IsOf path) :=
  decidable_of_iff _ VectorStore.matchesText_iff

def Collection.without (collection : Collection) (path : String) : Collection :=
  { collection with points := collection.points.filter (fun point => decide ¬point.IsOf path) }

namespace VectorIndex

def collection? (vectors : VectorIndex) : Option Collection :=
  Table.get? Collection.name vectors.store.store.collections vectors.store.collection

def points (vectors : VectorIndex) : List Point :=
  (vectors.collection?.map Collection.points).getD []

def without (vectors : VectorIndex) (path : String) : VectorIndex :=
  match vectors.collection? with
  | none => vectors
  | some found =>
      { vectors with
        store := { vectors.store with
          store := ⟨Table.put Collection.name (found.without path)
            vectors.store.store.collections⟩ } }

variable {vectors : VectorIndex} {found : Collection}

theorem deleteFile_present (present : vectors.collection? = some found) (path : String) :
    vectors.store.deleteFile path = .ok (vectors.without path).store := by
  -- The store reads the text of the field, which comes to the same.
  have kept : found.points.filter (fun point => decide ¬point.IsOf path) =
      found.points.filter
        (fun point => !VectorStore.matchesText point.payload "file_path" path) := by
    apply List.filter_congr
    intro point _
    rw [Bool.eq_iff_iff]
    simp [Point.IsOf, ← VectorStore.matchesText_iff]
  simp only [without, present, Collection.without, kept]
  rw [collection?] at present
  rw [ChunkVectors.deleteFile,
    VectorStore.deleteMatching_eq (VectorStore.collection_eq_ok_iff.mpr present)]
  rfl

theorem deleteFile_missing (missing : vectors.collection? = none) (path : String) :
    ∃ error, vectors.store.deleteFile path = .error error := by
  rw [collection?] at missing
  simp only [ChunkVectors.deleteFile, VectorStore.deleteMatching, VectorStore.collection, missing]
  exact ⟨_, rfl⟩

structure Cleared (before : VectorIndex) (path : String) (after : VectorIndex) : Prop where
  embedder : after.embedder = before.embedder
  name : after.store.collection = before.store.collection
  own : after.collection? = before.collection?.map (·.without path)
  others : ∀ name, name ≠ before.store.collection →
    Table.get? Collection.name after.store.store.collections name =
      Table.get? Collection.name before.store.store.collections name

theorem cleared_without (vectors : VectorIndex) (path : String) :
    vectors.Cleared path (vectors.without path) := by
  cases present : vectors.collection? with
  | none =>
      have same : vectors.without path = vectors := by simp [without, present]
      rw [same]
      exact ⟨rfl, rfl, by simp [present], fun _ _ => rfl⟩
  | some found =>
      have name : (found.without path).name = vectors.store.collection :=
        (Table.get?_some present).2
      -- The collection keeps its name, so it is found again, and the others as before.
      simp only [without, present]
      refine ⟨rfl, rfl, ?_, fun other differ => ?_⟩
      · rw [present, Option.map_some]
        simp only [collection?, ← name]
        exact Table.get?_put_self Collection.name (found.without path) _
      · exact Table.get?_put_of_ne _ _ _ _ fun same => differ (same.symm.trans name)

theorem Cleared.points_eq {after : VectorIndex} {path : String}
    (cleared : vectors.Cleared path after) :
    after.points = vectors.points.filter (fun point => decide ¬point.IsOf path) := by
  rw [points, points, cleared.own]
  cases vectors.collection? <;> rfl

theorem without_of_absent {path : String} (absent : ∀ point ∈ vectors.points, ¬point.IsOf path) :
    vectors.without path = vectors := by
  cases present : vectors.collection? with
  | none => simp [without, present]
  | some found =>
      have all : ∀ point ∈ found.points, ¬point.IsOf path := by
        simpa [points, present] using absent
      have same : found.without path = found := by
        have kept := List.filter_eq_self.mpr fun point inside => decide_eq_true (all point inside)
        rw [Collection.without, kept]
      have name : found.name = vectors.store.collection := (Table.get?_some present).2
      have found' : Table.get? Collection.name vectors.store.store.collections found.name =
          some found := name ▸ present
      simp only [without, present, same, Table.put_of_present found']

end VectorIndex

namespace Graph

def nodesOf (graph : Graph) (path : String) : List String :=
  path :: graph.chunkIds path

theorem edges_deleteFile (graph : Graph) (path : String) :
    (graph.deleteFile path).edges = graph.edges.filter (fun row =>
      decide (row.source ∉ graph.nodesOf path ∧ row.target ∉ graph.nodesOf path)) := by
  apply List.filter_congr
  intro row _
  rw [Bool.eq_iff_iff]
  simp only [nodesOf, Bool.not_eq_true', Bool.or_eq_false_iff, beq_eq_false_iff_ne,
    List.contains_eq_mem, decide_eq_false_iff_not, decide_eq_true_eq, List.mem_cons, not_or]
  tauto

structure Lacks (graph : Graph) (path : String) : Prop where
  files : ∀ row ∈ graph.files, row.path ≠ path
  chunks : ∀ row ∈ graph.chunks, row.filePath ≠ path
  edges : ∀ row ∈ graph.edges, row.source ≠ path ∧ row.target ≠ path

theorem Lacks.chunkIds {graph : Graph} {path : String} (lacks : graph.Lacks path) :
    graph.chunkIds path = [] := by
  simpa [Graph.chunkIds] using lacks.chunks

theorem Lacks.deleteFile {graph : Graph} {path : String} (lacks : graph.Lacks path) :
    graph.deleteFile path = graph := by
  have files := Table.erase_of_absent lacks.files
  have chunks : graph.chunks.filter (fun row => row.filePath != path) = graph.chunks := by
    simpa [List.filter_eq_self] using lacks.chunks
  have edges : (graph.deleteFile path).edges = graph.edges := by
    rw [edges_deleteFile, List.filter_eq_self]
    intro row inside
    simpa [nodesOf, lacks.chunkIds] using lacks.edges row inside
  simp only [Graph.deleteFile] at edges ⊢
  rw [files, chunks, edges]

theorem lacks_deleteFile (graph : Graph) (path : String) :
    (graph.deleteFile path).Lacks path where
  files row inside := (Table.mem_erase.mp inside).2
  chunks row inside := by
    simpa using (List.mem_filter.mp inside).2
  edges row inside := by
    rw [edges_deleteFile, List.mem_filter] at inside
    have apart := of_decide_eq_true inside.2
    simp only [nodesOf, List.mem_cons, not_or] at apart
    exact ⟨apart.1.1, apart.2.1⟩

end Graph

namespace CodeIndex

def tables (index : CodeIndex) : Graph :=
  index.graph.tables.getD {}

structure Opened (index : CodeIndex) : Prop where
  graph : index.graph.tables.isSome
  vectors : ∀ vectors, index.vectors = some vectors → vectors.collection?.isSome

def without (index : CodeIndex) (path : String) : CodeIndex :=
  { index with
    graph := ⟨some (index.tables.deleteFile path)⟩
    vectors := index.vectors.map (·.without path)
    facts := Table.erase CachedFacts.path path index.facts }

variable {index : CodeIndex}

theorem Opened.deleteFile_eq (opened : index.Opened) (path : String) :
    index.deleteFile path = (index.without path, .ok ()) := by
  obtain ⟨graph, tables⟩ := Option.isSome_iff_exists.mp opened.graph
  have deleted : index.graph.deleteFile path = .ok ⟨some (index.tables.deleteFile path)⟩ := by
    simp only [GraphStore.deleteFile, GraphStore.write, GraphStore.graph, CodeIndex.tables, tables]
    rfl
  have removed : (index.vectors.mapM fun vectors => do
      return { vectors with store := ← vectors.store.deleteFile path }) =
      (.ok (index.vectors.map (·.without path)) : Except StoreError _) := by
    cases known : index.vectors with
    | none => rfl
    | some vectors =>
        obtain ⟨found, present⟩ := Option.isSome_iff_exists.mp (opened.vectors vectors known)
        have same : { vectors with store := (vectors.without path).store } =
            vectors.without path := by
          simp only [VectorIndex.without, present]
        rw [Option.mapM_some, VectorIndex.deleteFile_present present, Option.map_some, ← same]
        rfl
  simp only [deleteFile, deleted, removed]
  rfl

theorem deleteFile_ok_iff (path : String) :
    (index.deleteFile path).2 = .ok () ↔ index.Opened := by
  constructor
  · intro clean
    cases tables : index.graph.tables with
    | none =>
        simp [deleteFile, GraphStore.deleteFile, GraphStore.write, GraphStore.graph, tables, bind,
          Except.bind] at clean
    | some graph =>
        -- A missing collection is noticed when the graph was written already.
        refine ⟨by simp [tables], fun vectors known => ?_⟩
        by_contra missing
        have none : vectors.collection? = none := by simpa using missing
        obtain ⟨error, refused⟩ := VectorIndex.deleteFile_missing none path
        simp [deleteFile, GraphStore.deleteFile, GraphStore.write, GraphStore.graph, tables, known,
          refused, bind, Except.bind, pure, Except.pure, Functor.map, Except.map] at clean
  · intro opened
    rw [opened.deleteFile_eq]

theorem Opened.without (opened : index.Opened) (path : String) : (index.without path).Opened where
  graph := rfl
  vectors after known := by
    obtain ⟨vectors, old, rfl⟩ := Option.map_eq_some_iff.mp known
    rw [(vectors.cleared_without path).own, Option.isSome_map]
    exact opened.vectors vectors old

end CodeIndex

namespace Workspace

structure Traceless (workspace : Workspace) (path : String) : Prop where
  files : ∀ row ∈ workspace.files.rows, row.path ≠ path
  tasks : ∀ row ∈ workspace.queue.table.rows, row.path ≠ path
  graph : workspace.index.tables.Lacks path
  points : ∀ vectors, workspace.index.vectors = some vectors →
    ∀ point ∈ vectors.points, ¬point.IsOf path
  facts : ∀ known ∈ workspace.index.facts, known.path ≠ path

/-- What removing a file changes. Each table keeps its other rows, in their order. -/
structure Removed (before : Workspace) (path : String) (after : Workspace) : Prop where
  files : after.files.rows = before.files.rows.filter (fun row => decide (row.path ≠ path))
  tasks : after.queue.table.rows =
    before.queue.table.rows.filter (fun row => decide (row.path ≠ path))
  nodes : after.index.tables.files =
    before.index.tables.files.filter (fun row => decide (row.path ≠ path))
  chunks : after.index.tables.chunks =
    before.index.tables.chunks.filter (fun row => decide (row.filePath ≠ path))
  edges : after.index.tables.edges = before.index.tables.edges.filter (fun row => decide
    (row.source ∉ before.index.tables.nodesOf path ∧ row.target ∉ before.index.tables.nodesOf path))
  vectors : Option.Rel (fun old new => old.Cleared path new)
    before.index.vectors after.index.vectors
  facts : after.index.facts = before.index.facts.filter (fun known => decide (known.path ≠ path))
  rest : after = { before with
    files := after.files
    queue := { before.queue with
      table := { before.queue.table with rows := after.queue.table.rows } }
    index := { before.index with
      graph := after.index.graph, vectors := after.index.vectors, facts := after.index.facts } }

variable {workspace : Workspace} {report : ScanReport}

theorem remove_eq (opened : workspace.index.Opened) (path : String) :
    remove (workspace, report) path =
      ({ workspace with
          index := workspace.index.without path, queue := workspace.queue.removePath path
          files := workspace.files.remove path }, report) := by
  simp only [remove, opened.deleteFile_eq path]

theorem removed_remove (opened : workspace.index.Opened) (path : String) :
    Removed workspace path (remove (workspace, report) path).1 := by
  rw [remove_eq opened path]
  refine ⟨rfl, rfl, rfl, ?_, Graph.edges_deleteFile .., ?_, rfl, rfl⟩
  · apply List.filter_congr
    intro row _
    rw [Bool.eq_iff_iff]
    simp
  · cases known : workspace.index.vectors with
    | none => simp [CodeIndex.without, known]
    | some vectors =>
        simpa [CodeIndex.without, known] using vectors.cleared_without path

theorem traceless_remove (opened : workspace.index.Opened) (path : String) :
    (remove (workspace, report) path).1.Traceless path := by
  rw [remove_eq opened path]
  refine ⟨fun row inside => (Table.mem_erase.mp inside).2,
    fun row inside => (Table.mem_erase.mp inside).2, Graph.lacks_deleteFile .., ?_,
    fun row inside => (Table.mem_erase.mp inside).2⟩
  intro after known point inside
  obtain ⟨vectors, -, rfl⟩ := Option.map_eq_some_iff.mp known
  rw [(vectors.cleared_without path).points_eq, List.mem_filter] at inside
  exact of_decide_eq_true inside.2

theorem Traceless.remove_unchanged {path : String} (traceless : workspace.Traceless path)
    (opened : workspace.index.Opened) : remove (workspace, report) path = (workspace, report) := by
  obtain ⟨graph, tables⟩ := Option.isSome_iff_exists.mp opened.graph
  have files : workspace.files.remove path = workspace.files := by
    simp only [FileIndex.remove, Table.erase_of_absent traceless.files]
  have queue : workspace.queue.removePath path = workspace.queue := by
    simp only [Queue.removePath, TaskTable.removePath, Table.erase_of_absent traceless.tasks]
  have vectors : workspace.index.vectors.map (·.without path) = workspace.index.vectors := by
    cases known : workspace.index.vectors with
    | none => rfl
    | some vectors =>
        rw [Option.map_some, VectorIndex.without_of_absent (traceless.points vectors known)]
  -- What is written back is what is there, tables that exist included.
  have stored : (⟨some workspace.index.tables⟩ : GraphStore) = workspace.index.graph := by
    simp only [CodeIndex.tables, tables, Option.getD_some]
    rw [← tables]
  have index : workspace.index.without path = workspace.index := by
    rw [CodeIndex.without, traceless.graph.deleteFile, stored, vectors,
      Table.erase_of_absent traceless.facts]
  rw [remove_eq opened path, index, queue, files]

/-- Removing a file leaves nothing behind for it and takes nothing else, and where nothing is held
for a file, in particular after it was removed, removing it changes nothing. -/
theorem remove_leaves_no_trace (workspace : Workspace) (report : ScanReport) (path : String)
    (clean : (workspace.index.deleteFile path).2 = .ok ()) :
    let after := remove (workspace, report) path
    after.1.Traceless path ∧
      (∀ id ∈ workspace.index.tables.chunkIds path, ∀ row ∈ after.1.index.tables.edges,
        row.source ≠ id ∧ row.target ≠ id) ∧
      Removed workspace path after.1 ∧ after.2 = report ∧
      remove after path = after ∧
      ∀ other, workspace.Traceless other →
        remove (workspace, report) other = (workspace, report) := by
  intro after
  have opened : workspace.index.Opened := (CodeIndex.deleteFile_ok_iff path).mp clean
  have removed : Removed workspace path after.1 := removed_remove opened path
  have traceless : after.1.Traceless path := traceless_remove opened path
  have reopened : after.1.index.Opened := by
    simp only [after, remove_eq opened path]
    exact opened.without path
  refine ⟨traceless, ?_, removed, ?_, traceless.remove_unchanged reopened,
    fun other absent => absent.remove_unchanged opened⟩
  · intro id owned row inside
    rw [removed.edges, List.mem_filter] at inside
    have apart := of_decide_eq_true inside.2
    have node : id ∈ workspace.index.tables.nodesOf path := List.mem_cons_of_mem _ owned
    exact ⟨fun same => apart.1 (same ▸ node), fun same => apart.2 (same ▸ node)⟩
  · simp only [after, remove_eq opened path]

def linked : Workspace :=
  let file (path : String) : FileRow :=
    { path, available := true, deleted := false, size := 1, modified := 0, hashAlgorithm := "blake3"
      hash := "h", hashStatus := "computed", language := none }
  let task (id : Nat) (path : String) : TaskRow :=
    { id, path, name := path, size := 1, hash := "h", maxRetries := 3 }
  let chunk (path : String) : ChunkRow := ⟨path ++ ":1", path, "", 1, 1, "code", none, none⟩
  let point (path : String) : Point :=
    { id := path ++ ":1", vector := [1], payload := [("file_path", .string path)] }
  { discovery := default
    files := ⟨[file "a.js", file "b.js"]⟩
    queue := { table := { rows := [task 0 "a.js", task 1 "b.js"], nextId := 2 } }
    index :=
      { root := []
        graph := ⟨some
          { files := [⟨"a.js", "javascript", 1⟩, ⟨"b.js", "javascript", 1⟩]
            chunks := [chunk "a.js", chunk "b.js"]
            edges := [⟨"a.js", "a.js:1", "CONTAINS", none⟩, ⟨"b.js", "b.js:1", "CONTAINS", none⟩,
              ⟨"b.js:1", "a.js:1", "IMPORTS_SYMBOL", none⟩] }⟩
        vectors := some
          { store := { store := ⟨[⟨"codeweave_chunks", 1, [point "a.js", point "b.js"]⟩]⟩ }
            embedder := { dimensions := 1 } }
        facts := [{ path := "a.js", hash := "h", facts := default }] } }

theorem remove_from_linked :
    let after := (remove (linked, {}) "a.js").1
    ¬linked.Traceless "a.js" ∧ after.Traceless "a.js" ∧ Removed linked "a.js" after ∧
      after.index.tables.edges.map EdgeRow.key = [("b.js", "b.js:1", "CONTAINS")] := by
  have removed := remove_leaves_no_trace linked {} "a.js" rfl
  refine ⟨fun traceless => ?_, removed.1, removed.2.2.1, ?_⟩
  · exact traceless.files (linked.files.rows.head (by decide)) (List.head_mem _) rfl
  · rfl

end Workspace

end CodeGraph
