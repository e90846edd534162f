import CodeGraph.Proofs.Queue.Requests
import CodeGraph.Proofs.Workspace.Scan

set_option autoImplicit false

namespace CodeGraph

namespace TaskRow

/-- The row without its identifier, which is arbitrary. -/
def unnamed (row : TaskRow) : TaskRow :=
  { row with id := 0 }

end TaskRow

def VectorIndex.pointsOf (vectors : VectorIndex) (path : String) : List Point :=
  match Table.get? Collection.name vectors.store.store.collections vectors.store.collection with
  | some found =>
      found.points.filter (fun point => VectorStore.matchesText point.payload "file_path" path)
  | none => []

structure StoredFile where
  nodes : List FileNodeRow := []
  chunks : List ChunkRow := []
  points : List Point := []
  facts : List CachedFacts := []

def CodeIndex.storedAt (index : CodeIndex) (path : String) : StoredFile :=
  let graph := index.graph.tables.getD {}
  { nodes := graph.files.filter (fun row => row.path == path)
    chunks := graph.chunks.filter (fun row => row.filePath == path)
    points := (index.vectors.map (·.pointsOf path)).getD []
    facts := index.facts.filter (fun known => known.path == path) }

namespace Workspace

structure Held where
  file : Option FileRow
  task : Option TaskRow
  stored : StoredFile

def holding (workspace : Workspace) (path : String) : Held :=
  { file := workspace.files.row? path
    task := (workspace.queue.table.at? path).map TaskRow.unnamed
    stored := workspace.index.storedAt path }

end Workspace

theorem VectorIndex.Holds.pointsOf {vectors : VectorIndex} {points : List Point}
    (holds : vectors.Holds points) (path : String) :
    vectors.pointsOf path =
      points.filter (fun point => VectorStore.matchesText point.payload "file_path" path) := by
  obtain ⟨found, present, -, rfl⟩ := holds
  rw [VectorIndex.pointsOf, present]

theorem filter_eq_of_filter_ne {α κ : Type} [DecidableEq κ] [BEq κ] [LawfulBEq κ]
    (key : α → κ) (rows : List α) (gone here : κ) :
    (rows.filter (fun row => !(key row == gone))).filter (fun row => key row == here) =
      if here = gone then [] else rows.filter (fun row => key row == here) := by
  rw [List.filter_filter]
  split
  next same =>
    rw [List.filter_eq_nil_iff]
    simp [same]
  next differ =>
    apply List.filter_congr
    intro row _
    by_cases same : key row = here <;> simp [same, differ]

namespace CodeIndex

variable {index after : CodeIndex} {gone : String}

theorem Deleted.points (deleted : Deleted index gone after) (ready : index.Ready) (path : String) :
    (after.vectors.map (·.pointsOf path)).getD [] =
      if path = gone then [] else (index.vectors.map (·.pointsOf path)).getD [] := by
  have written := deleted.vectors
  cases old : index.vectors with
  | none =>
      rw [old] at written
      simp [show after.vectors = none from (Except.ok.inj written).symm]
  | some vectors =>
      obtain ⟨points, holds⟩ := (ready.vectors vectors old).holds
      obtain ⟨store, removed, holds'⟩ := holds.deleteFile gone
      rw [old, Option.mapM_some, removed] at written
      have new : after.vectors = some { vectors with store } := (Except.ok.inj written).symm
      have points := filter_eq_of_filter_ne
        (fun point : Point => (Properties.get? point.payload "file_path").bind Json.string?)
        points (some gone) (some path)
      simp only [Option.some.injEq] at points
      simp only [new, Option.map_some, Option.getD_some, holds.pointsOf, holds'.pointsOf]
      exact points

theorem Deleted.storedAt (deleted : Deleted index gone after) (ready : index.Ready)
    (path : String) :
    after.storedAt path = if path = gone then {} else index.storedAt path := by
  obtain ⟨graph, tables⟩ := ready.tables
  have nodes := filter_eq_of_filter_ne FileNodeRow.path graph.files gone path
  have chunks := filter_eq_of_filter_ne ChunkRow.filePath graph.chunks gone path
  have facts := filter_eq_of_filter_ne CachedFacts.path index.facts gone path
  have erased {α : Type} (key : α → String) (rows : List α) :
      Table.erase key gone rows = rows.filter (fun row => !(key row == gone)) := by
    simp only [Table.erase]
    congr 1
    funext row
    by_cases same : key row = gone <;> simp [same]
  simp only [CodeIndex.storedAt, deleted.graph graph tables, tables, Option.getD_some,
    deleted.points ready, deleted.facts, Graph.deleteFile, bne, erased, nodes, chunks, facts]
  split <;> rfl

theorem Deletions.storedAt {paths : List String} (deletions : Deletions index paths after)
    (ready : index.Ready) (path : String) :
    after.storedAt path = if path ∈ paths then {} else index.storedAt path := by
  induction deletions with
  | nil => simp
  | @cons index middle after first rest done _ ih =>
      have deleted := ready.deleted done
      rw [ih deleted.ready, deleted.storedAt ready]
      by_cases same : path = first <;> by_cases later : path ∈ rest <;> simp [same, later]

end CodeIndex

namespace TaskTable

variable {table : TaskTable}

theorem Sound.removeAll (sound : table.Sound) (paths : List String) :
    (table.removeAll paths).Sound := by
  induction paths generalizing table with
  | nil => exact sound
  | cons path rest ih => exact ih (sound.removePath path)

theorem at?_removeAll (table : TaskTable) (paths : List String) (path : String) :
    (table.removeAll paths).at? path = if path ∈ paths then none else table.at? path := by
  induction paths generalizing table with
  | nil => simp [TaskTable.removeAll]
  | cons first rest ih =>
      have step : table.removeAll (first :: rest) = (table.removePath first).removeAll rest := rfl
      rw [step, ih, at?_removePath]
      by_cases same : path = first <;> by_cases later : path ∈ rest <;> simp [same, later]

def asked (maxRetries : Nat) (task : NewTask) : Option TaskRow → TaskRow
  | none => requestRow 0 task maxRetries
  | some row =>
      if row.hash = task.hash then
        if row.hasStatus .completed then requestRow 0 task maxRetries
        else if row.hasStatus .failed && decide (row.retryCount < row.maxRetries) then
          (renewed task row).unnamed
        else row.unnamed
      else if row.hasStatus .processing then
        { row.unnamed with hash := task.hash, size := saturated task.size, content := task.content }
      else (renewed task row).unnamed

theorem Responded.asked {task : NewTask} {maxRetries : Nat} {after : TaskTable} {scheduled : Bool}
    (responded : Responded table task maxRetries after scheduled) (sound : table.Sound)
    (fresh : ∀ row, table.at? task.path = some row →
      ¬(row.hasStatus .completed = true ∧ row.hash = task.hash)) :
    (after.at? task.path).map TaskRow.unnamed =
      some (asked maxRetries task (table.at? task.path)) := by
  cases responded with
  | inserted missing =>
      rw [at?_insert missing, if_pos rfl, missing]
      rfl
  | @waiting row found hash waits =>
      have idle : row.hasStatus .completed = false ∧ row.hasStatus .failed = false := by
        rcases waits with status | status <;>
          exact ⟨TaskRow.hasStatus_of_ne status (by decide),
            TaskRow.hasStatus_of_ne status (by decide)⟩
      simp [found, TaskTable.asked, hash, idle]
  | @renewed row found idle stale =>
      obtain ⟨member, same⟩ := sound.at?_eq_some.mp found
      rw [sound.at?_reset member, if_pos same.symm, found]
      by_cases hash : row.hash = task.hash
      · rcases stale with differ | ⟨failed, left⟩
        · exact absurd hash differ
        · have open' := TaskRow.hasStatus_of_ne failed (by decide : TaskStatus.failed ≠ .completed)
          simp [TaskTable.asked, hash, open', failed, left]
      · simp [TaskTable.asked, hash, idle]
  | @replaced row found differ held =>
      obtain ⟨member, same⟩ := sound.at?_eq_some.mp found
      have updated := @Sound.at?_change table sound row member
        (fun row => { row with
          hash := task.hash, size := saturated task.size, content := task.content })
        (fun _ => rfl) task.path
      rw [TaskTable.updateContent, updated, if_pos same.symm, found]
      simp [TaskTable.asked, differ, held, TaskRow.unnamed]
  | completed found hash done => exact absurd ⟨done, hash⟩ (fresh _ found)
  -- Such a task was forgotten before the request came.
  | @exhausted row found hash failed spent =>
      have open' := TaskRow.hasStatus_of_ne failed (by decide : TaskStatus.failed ≠ .completed)
      simp [found, TaskTable.asked, hash, open', failed, Int.not_lt.mpr spent]

end TaskTable

namespace Workspace

variable {workspace : Workspace}

theorem enqueue_asked (sound : workspace.queue.table.Sound)
    (bounded : workspace.queue.settings.maxRetries ≤ maxCount) (entry : FileEntry) :
    ∃ table scheduled, workspace.enqueue entry =
        .ok ({ workspace with queue := { workspace.queue with table } }, scheduled) ∧
      table.Sound ∧
      (table.at? entry.path).map TaskRow.unnamed =
        some (TaskTable.asked workspace.queue.settings.maxRetries (request entry)
          (workspace.queue.table.at? entry.path)) ∧
      ∀ path, path ≠ entry.path → table.at? path = workspace.queue.table.at? path := by
  obtain ⟨table, scheduled, enqueued, answered⟩ := enqueue_answered sound bounded entry
  obtain ⟨cleared, after, scheduled', enqueued', responded, how⟩ := enqueue_cases sound entry
  rw [enqueued] at enqueued'
  obtain ⟨rfl, rfl⟩ : table = after ∧ scheduled = scheduled' := by
    simpa using enqueued'
  refine ⟨table, scheduled, enqueued, answered.sound, ?_, answered.others⟩
  rcases how with ⟨rfl, fresh⟩ | ⟨rfl, row, found, done, hash⟩
  · exact responded.asked sound fun row found both => fresh ⟨row, found, both⟩
  · -- The completed task is forgotten first, so the request is answered as if there were none.
    have missing : (workspace.queue.table.removePath entry.path).at? entry.path = none := by
      rw [TaskTable.at?_removePath, if_pos rfl]
    have row' := responded.asked (sound.removePath entry.path)
      fun row found => by cases missing.symm.trans found
    refine row'.trans ?_
    simp only [show (request entry).path = entry.path from rfl, missing, found, TaskTable.asked,
      show row.hash = (request entry).hash from hash, done, if_true]

theorem enqueueAll_asked (entries : List FileEntry) (report : ScanReport)
    (sound : workspace.queue.table.Sound)
    (bounded : workspace.queue.settings.maxRetries ≤ maxCount)
    (unique : Table.Unique FileEntry.path entries) :
    ∃ table report', enqueueAll entries (workspace, report) =
        .ok ({ workspace with queue := { workspace.queue with table } }, report') ∧
      (∀ entry ∈ entries, (table.at? entry.path).map TaskRow.unnamed =
        some (TaskTable.asked workspace.queue.settings.maxRetries (request entry)
          (workspace.queue.table.at? entry.path))) ∧
      ∀ path, path ∉ entries.map FileEntry.path →
        table.at? path = workspace.queue.table.at? path := by
  induction entries generalizing workspace report with
  | nil => exact ⟨workspace.queue.table, report, rfl, by simp, fun _ _ => rfl⟩
  | cons entry rest ih =>
      obtain ⟨apart, unique⟩ := List.nodup_cons.mp unique
      obtain ⟨table, scheduled, enqueued, sound', row, others⟩ := enqueue_asked sound bounded entry
      obtain ⟨final, report', later, rows, kept⟩ :=
        @ih { workspace with queue := { workspace.queue with table } }
          { report with
            enqueued := if scheduled then report.enqueued + 1 else report.enqueued }
          sound' bounded unique
      refine ⟨final, report', ?_, ?_, ?_⟩
      · simp only [enqueueAll, enqueued]
        exact later
      · intro other member
        -- Different paths, so that no request undoes another one.
        rcases List.mem_cons.mp member with rfl | inside
        · rw [kept other.path apart, row]
        · have differ : other.path ≠ entry.path := by
            intro same
            exact apart (same ▸ List.mem_map_of_mem inside)
          rw [rows other inside, others other.path differ]
      · intro path missing
        rw [List.map_cons, List.mem_cons, not_or] at missing
        rw [kept path missing.2, others path missing.1]

end Workspace

end CodeGraph
