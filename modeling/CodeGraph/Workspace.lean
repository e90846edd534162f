import CodeGraph.Discovery
import CodeGraph.Workspace.Processing

/-!
A workspace: its files, what is known about them, and the queue that brings the index up to date.

A scan walks over the workspace, removes what is gone, processes what is new or changed and then
links the files. Single changes are applied in the same way.
-/

set_option autoImplicit false

namespace CodeGraph

structure Workspace where
  discovery : Discovery
  files : FileIndex := {}
  queue : Queue := {}
  index : CodeIndex

structure ScanReport where
  scanned : Nat := 0
  new : Nat := 0
  modified : Nat := 0
  unchanged : Nat := 0
  deleted : Nat := 0
  enqueued : Nat := 0
  processed : Nat := 0
  failed : List String := []
  links : Nat := 0
  errors : List String := []
deriving DecidableEq, Repr, Inhabited

namespace Workspace

/-- As many rounds as the tasks can take, each tried as often as it may be. -/
def rounds (table : TaskTable) : Nat :=
  2 * table.rows.foldl (fun sum row => sum + (row.maxRetries.toNat + 2)) 0 + 2

def drainWith (worker : Worker Stores) (workspace : Workspace) : Workspace :=
  let stores : Stores := { index := workspace.index, files := workspace.files }
  let (session, _) :=
    Queue.Session.run worker (rounds workspace.queue.table)
      { queue := workspace.queue, state := stores }
  { workspace with
    queue := session.queue, index := session.state.index, files := session.state.files }

def worker (disk : Disk) (workspace : Workspace) : Worker Stores :=
  Processing.worker disk workspace.discovery.maxFileSize

def drain (disk : Disk) (workspace : Workspace) : Workspace :=
  workspace.drainWith (workspace.worker disk)

/-- Asks for a file to be processed. A completed task for the same content is forgotten first, as
the file would not be asked for if its content were indexed. -/
def enqueue (workspace : Workspace) (entry : FileEntry) : Except IndexError (Workspace × Bool) := do
  let known ← (workspace.queue.table.getByPath entry.path).mapError .queue
  let queue :=
    match known with
    | some task =>
        if task.status = TaskStatus.completed ∧ task.hash = entry.hash then
          workspace.queue.removePath entry.path
        else workspace.queue
    | none => workspace.queue
  let task : NewTask := { path := entry.path, hash := entry.hash, size := entry.size }
  let (queue, answer) ← (queue.enqueue task).mapError .queue
  return ({ workspace with queue }, answer.scheduled)

def enqueueAll :
    List FileEntry → Workspace × ScanReport → Except IndexError (Workspace × ScanReport)
  | [], state => .ok state
  | entry :: rest, (workspace, report) => do
      let (workspace, scheduled) ← workspace.enqueue entry
      let enqueued := if scheduled then report.enqueued + 1 else report.enqueued
      enqueueAll rest (workspace, { report with enqueued })

def cleanupFailed (report : ScanReport) (path : String) (error : IndexError) : ScanReport :=
  { report with errors := report.errors ++ ["cleanup " ++ path ++ ": " ++ error.message] }

def remove (state : Workspace × ScanReport) (path : String) : Workspace × ScanReport :=
  let (workspace, report) := state
  match workspace.index.deleteFile path with
  | (index, .error error) =>
      ({ workspace with index, files := workspace.files.markDeleted path },
        cleanupFailed report path error)
  | (index, .ok ()) =>
      ({ workspace with
          index, queue := workspace.queue.removePath path, files := workspace.files.remove path },
        report)

def withdraw (state : Workspace × ScanReport) (path : String) : Workspace × ScanReport :=
  let (workspace, report) := state
  match workspace.index.deleteFile path with
  | (index, .error error) => ({ workspace with index }, cleanupFailed report path error)
  | (index, .ok ()) =>
      ({ workspace with
          index, queue := workspace.queue.removePath path
          files := workspace.files.clearIndexed path }, report)

def settleFile (state : Workspace × ScanReport) (path : String) :
    Except IndexError (Workspace × ScanReport) := do
  let (workspace, report) := state
  match ← (workspace.queue.table.getByPath path).mapError .queue with
  | none => return state
  | some task =>
      match task.status with
      | .completed =>
          let files :=
            if task.output.chunks = 0 then
              workspace.files.markIndexed (toString workspace.queue.now) path task.hash
            else workspace.files
          return ({ workspace with files }, { report with processed := report.processed + 1 })
      | .failed =>
          let files := workspace.files.markFailed path task.hash
          let failure := path ++ ": " ++ task.errorMessage.getD ""
          return ({ workspace with files }, { report with failed := report.failed ++ [failure] })
      | .pending | .processing => return state

def indexedFiles (workspace : Workspace) : Except IndexError (List (String × String)) := do
  let entries ← workspace.files.list
  return (entries.filter FileEntry.isCurrent).map (fun entry => (entry.path, entry.hash))

def linkFiles (disk : Disk) (state : Workspace × ScanReport) :
    Except IndexError (Workspace × ScanReport) := do
  let (workspace, report) := state
  match workspace.index.link disk (← workspace.indexedFiles) with
  | (index, .ok links) => return ({ workspace with index }, { report with links })
  | (index, .error error) =>
      let errors := report.errors ++ ["cross-file pass: " ++ error.message]
      return ({ workspace with index }, { report with errors })

def settle (worker : Worker Stores) (disk : Disk) (dirty : List String) (changed : Bool)
    (state : Workspace × ScanReport) : Except IndexError (Workspace × ScanReport) := do
  let (workspace, report) := state
  let workspace := if dirty.isEmpty then workspace else workspace.drainWith worker
  let state ← dirty.foldlM settleFile (workspace, report)
  if changed then linkFiles disk state else return state

def upsertAll (workspace : Workspace) (entries : List FileEntry) : Except IndexError Workspace := do
  return { workspace with files := ← entries.foldlM FileIndex.upsert workspace.files }

def takeIn (found : Discovered) (workspace : Workspace) :
    Except IndexError (ChangeSet × Workspace × ScanReport) := do
  let changes := diff found.entries (← workspace.files.list)
  let report : ScanReport :=
    { scanned := found.entries.length, errors := found.errors, new := changes.new.length
      modified := changes.modified.length, unchanged := changes.unchanged.length
      deleted := changes.deleted.length }
  let state := changes.deleted.foldl remove (workspace, report)
  let (workspace, report) := changes.withdrawn.foldl withdraw state
  let workspace ← workspace.upsertAll found.entries
  return (changes, ← enqueueAll changes.dirty (workspace, report))

def scanWith (worker : Worker Stores) (disk : Disk) (workspace : Workspace) :
    Except IndexError (Workspace × ScanReport) := do
  let found ← workspace.discovery.discover disk
  let (changes, state) ← workspace.takeIn found
  settle worker disk (changes.dirty.map FileEntry.path) changes.hasChanges state

def scan (disk : Disk) (workspace : Workspace) : Except IndexError (Workspace × ScanReport) :=
  workspace.scanWith (workspace.worker disk) disk

structure Applying where
  workspace : Workspace
  report : ScanReport := {}
  /-- The paths that are to be processed, the latest first. -/
  dirty : List String := []
  changed : Bool := false

def isBelow (path directory : String) : Bool :=
  path == directory || path.startsWith (directory ++ "/")

def applyRemoval (state : Applying) (path : String) : Except IndexError Applying := do
  let gone := ((← state.workspace.files.list).map FileEntry.path).filter (isBelow · path)
  let (workspace, report) := gone.foldl remove (state.workspace, state.report)
  return { state with
    workspace, report := { report with deleted := report.deleted + gone.length }
    changed := state.changed || !gone.isEmpty }

def applyEntry (state : Applying) (entry : FileEntry) : Except IndexError Applying := do
  let path := entry.path
  let previous ← state.workspace.files.get path
  let workspace := { state.workspace with files := ← state.workspace.files.upsert entry }
  let report := { state.report with scanned := state.report.scanned + 1 }
  match ← workspace.files.get path with
  | none => return { state with workspace, report }
  | some current =>
      if !current.available then
        if current.wasIndexed then
          let (workspace, report) := withdraw (workspace, report) path
          return { state with workspace, report, changed := true }
        else return { state with workspace, report }
      else if current.isDirty then
        let report :=
          if previous.any FileEntry.wasIndexed then
            { report with modified := report.modified + 1 }
          else { report with new := report.new + 1 }
        let (workspace, report) ← enqueueAll [current] (workspace, report)
        return { workspace, report, dirty := path :: state.dirty, changed := true }
      else
        return { state with
          workspace, report := { report with unchanged := report.unchanged + 1 } }

/-- Takes note of a change at a path. Changes of package metadata also make the packages that were
looked up unknown. -/
def applyPath (disk : Disk) (state : Applying) (path : String) : Except IndexError Applying := do
  let index := state.workspace.index
  let index := { index with packages := index.packages.invalidate path }
  let state := { state with workspace := { state.workspace with index } }
  let discovery := state.workspace.discovery
  match discovery.relative? path with
  | none => return state
  | some relative =>
      if discovery.isIgnored relative then return state
      else if !(disk.find path).isOk then applyRemoval state relative
      else
        match discovery.inspect disk path with
        | .ok (some entry) => applyEntry state entry
        | .ok none => return state
        | .error error =>
            let errors := state.report.errors ++ [error.message]
            return { state with report := { state.report with errors } }

def apply (disk : Disk) (workspace : Workspace) (paths : List String) :
    Except IndexError (Workspace × ScanReport) := do
  let state ← paths.foldlM (applyPath disk) { workspace }
  settle (workspace.worker disk) disk state.dirty.reverse state.changed
    (state.workspace, state.report)

end Workspace

end CodeGraph
