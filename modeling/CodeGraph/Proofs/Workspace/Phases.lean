import CodeGraph.Proofs.Links
import CodeGraph.Proofs.Queue.Drain
import CodeGraph.Proofs.Queue.Enqueue
import CodeGraph.Proofs.Workspace.Worker

set_option autoImplicit false

namespace CodeGraph

namespace CodeIndex

inductive Deletions : CodeIndex → List String → CodeIndex → Prop
  | nil (index : CodeIndex) : Deletions index [] index
  | cons {index middle after : CodeIndex} {path : String} {rest : List String}
      (first : index.deleteFile path = (middle, .ok ())) (others : Deletions middle rest after) :
      Deletions index (path :: rest) after

variable {index after : CodeIndex} {paths : List String}

theorem Deletions.append {a b c : CodeIndex} {first second : List String}
    (left : Deletions a first b) (right : Deletions b second c) :
    Deletions a (first ++ second) c := by
  induction left with
  | nil => exact right
  | cons deleted _ ih => exact .cons deleted (ih right)

theorem Deletions.split {first second : List String}
    (deletions : Deletions index (first ++ second) after) :
    ∃ middle, Deletions index first middle ∧ Deletions middle second after := by
  induction first generalizing index with
  | nil => exact ⟨index, .nil index, deletions⟩
  | cons path rest ih =>
      cases deletions with
      | cons deleted others =>
          obtain ⟨middle, left, right⟩ := ih others
          exact ⟨middle, .cons deleted left, right⟩

theorem Deletions.settings (deletions : Deletions index paths after) :
    after.root = index.root ∧ after.grammars = index.grammars := by
  induction deletions with
  | nil => exact ⟨rfl, rfl⟩
  | @cons index middle after path rest deleted _ ih =>
      have kept := index.deleteFile_settings path
      rw [deleted] at kept
      exact ⟨ih.1.trans kept.1, ih.2.trans kept.2⟩

theorem Deletions.ready (deletions : Deletions index paths after) (ready : index.Ready) :
    after.Ready := by
  induction deletions with
  | nil => exact ready
  | cons deleted _ ih => exact ih (ready.deleted deleted).ready

theorem Ready.deletions (ready : index.Ready) (paths : List String) :
    ∃ after, Deletions index paths after := by
  induction paths generalizing index with
  | nil => exact ⟨index, .nil index⟩
  | cons path rest ih =>
      obtain ⟨middle, done, deleted⟩ := deleteFile_ok ready path
      obtain ⟨after, others⟩ := ih deleted.ready
      exact ⟨after, .cons done others⟩

end CodeIndex

namespace TaskTable

def removeAll (table : TaskTable) (paths : List String) : TaskTable :=
  paths.foldl TaskTable.removePath table

theorem Unused.removeAll {table : TaskTable} (unused : table.Unused) (paths : List String) :
    (table.removeAll paths).Unused := by
  induction paths generalizing table with
  | nil => exact unused
  | cons path rest ih => exact ih (unused.removePath path)

theorem mem_removeAll {table : TaskTable} {paths : List String} {row : TaskRow}
    (member : row ∈ (table.removeAll paths).rows) : row ∈ table.rows := by
  induction paths generalizing table with
  | nil => exact member
  | cons path rest ih => exact (Table.mem_erase.mp (ih member)).1

end TaskTable

namespace Workspace

variable {workspace : Workspace}

def forgotten (workspace : Workspace) (paths : List String) (files : FileIndex)
    (index : CodeIndex) : Workspace :=
  { workspace with
    index, queue := { workspace.queue with table := workspace.queue.table.removeAll paths }, files }

theorem foldl_forget {step : Workspace × ScanReport → String → Workspace × ScanReport}
    {change : FileIndex → String → FileIndex}
    (forgets : ∀ (workspace : Workspace) report path index,
      workspace.index.deleteFile path = (index, .ok ()) → step (workspace, report) path =
        ({ workspace with
          index, queue := workspace.queue.removePath path, files := change workspace.files path },
          report))
    {paths : List String} {index : CodeIndex}
    (deletions : CodeIndex.Deletions workspace.index paths index) (report : ScanReport) :
    paths.foldl step (workspace, report) =
      (workspace.forgotten paths (paths.foldl change workspace.files) index, report) := by
  induction paths generalizing workspace with
  | nil =>
      cases deletions
      rfl
  | cons path rest ih =>
      cases deletions with
      | @cons _ middle _ _ _ first others =>
          let next : Workspace := { workspace with
            index := middle, queue := workspace.queue.removePath path
            files := change workspace.files path }
          rw [List.foldl_cons, forgets workspace report path middle first, @ih next others]
          rfl

/-- Files that are gone and files that are withdrawn are forgotten in the same way, if the stores
let go of them. -/
theorem forget_eq {deleted withdrawn : List String} {cleared : CodeIndex}
    (deletions : CodeIndex.Deletions workspace.index (deleted ++ withdrawn) cleared)
    (report : ScanReport) :
    withdrawn.foldl withdraw (deleted.foldl remove (workspace, report)) =
      (workspace.forgotten (deleted ++ withdrawn)
        (withdrawn.foldl FileIndex.clearIndexed (deleted.foldl FileIndex.remove workspace.files))
        cleared, report) := by
  obtain ⟨middle, first, second⟩ := deletions.split
  let gone := workspace.forgotten deleted (deleted.foldl FileIndex.remove workspace.files) middle
  have removed := @foldl_forget workspace remove FileIndex.remove
    (fun workspace report path index done => by simp only [remove, done]) deleted middle first
    report
  have forgotten := @foldl_forget gone withdraw FileIndex.clearIndexed
    (fun workspace report path index done => by simp only [withdraw, done]) withdrawn cleared second
    report
  rw [removed, forgotten]
  simp only [gone, Workspace.forgotten, TaskTable.removeAll, List.foldl_append]

end Workspace

namespace FileIndex

variable {files : FileIndex}

theorem Sound.foldl_remove (sound : files.Sound) (paths : List String) :
    (paths.foldl FileIndex.remove files).Sound := by
  induction paths generalizing files with
  | nil => exact sound
  | cons path rest ih => exact ih (sound.remove path)

theorem row?_foldl_remove (files : FileIndex) (paths : List String) (path : String) :
    (paths.foldl FileIndex.remove files).row? path =
      if path ∈ paths then none else files.row? path := by
  induction paths generalizing files with
  | nil => simp
  | cons first rest ih =>
      rw [List.foldl_cons, ih, row?_remove]
      by_cases same : path = first <;> simp [same]

theorem Sound.foldl_clearIndexed (sound : files.Sound) (paths : List String) :
    (paths.foldl FileIndex.clearIndexed files).Sound := by
  induction paths generalizing files with
  | nil => exact sound
  | cons path rest ih => exact ih (sound.clearIndexed path)

theorem row?_foldl_clearIndexed (files : FileIndex) (paths : List String) (path : String) :
    (paths.foldl FileIndex.clearIndexed files).row? path =
      if path ∈ paths then (files.row? path).map forget else files.row? path := by
  induction paths generalizing files with
  | nil => simp
  | cons first rest ih =>
      rw [List.foldl_cons, ih, row?_clearIndexed]
      by_cases same : path = first
      · subst same
        cases files.row? path <;> simp [forget]
      · simp [same]

theorem ofEntry_again (entry : FileEntry) (old : Option FileRow) :
    FileRow.ofEntry entry (some (.ofEntry entry old)) = .ofEntry entry old :=
  rfl

theorem foldlM_upsert (entries : List FileEntry) {files files' : FileIndex} (sound : files.Sound)
    (consistent : ∀ a ∈ entries, ∀ b ∈ entries, a.path = b.path → a = b)
    (written : entries.foldlM FileIndex.upsert files = .ok files') :
    files'.Sound ∧
      (∀ entry ∈ entries, files'.row? entry.path = some (.ofEntry entry (files.row? entry.path))) ∧
      ∀ path, path ∉ entries.map FileEntry.path → files'.row? path = files.row? path := by
  induction entries generalizing files with
  | nil =>
      cases written
      exact ⟨sound, by simp, fun _ _ => rfl⟩
  | cons entry rest ih =>
      rw [List.foldlM_cons] at written
      obtain ⟨next, first, others⟩ := Table.of_bind_eq_ok written
      obtain ⟨sound', found, kept⟩ := ih (sound.upsert first)
        (fun a one b two => consistent a (List.mem_cons_of_mem _ one) b
          (List.mem_cons_of_mem _ two)) others
      refine ⟨sound', ?_, ?_⟩
      · intro other member
        by_cases again : other.path ∈ rest.map FileEntry.path
        · -- A path that comes twice comes with the same entry, and its history is kept.
          obtain ⟨twin, inside, same⟩ := List.mem_map.mp again
          obtain rfl := consistent twin (List.mem_cons_of_mem _ inside) other member same
          rw [found twin inside, row?_upsert first]
          split
          next path =>
            obtain rfl := consistent twin member entry (List.mem_cons_self ..) path
            rw [ofEntry_again]
          next => rfl
        · rcases List.mem_cons.mp member with rfl | later
          · rw [kept other.path again, row?_upsert first, if_pos rfl]
          · exact absurd (List.mem_map_of_mem later) again
      · intro path missing
        rw [List.map_cons, List.mem_cons, not_or] at missing
        rw [kept path missing.2, row?_upsert first, if_neg missing.1]

theorem foldlM_upsert_ok (entries : List FileEntry) (files : FileIndex)
    (fits : ∀ entry ∈ entries, entry.size ≤ maxInteger) :
    ∃ files', entries.foldlM FileIndex.upsert files = .ok files' := by
  induction entries generalizing files with
  | nil => exact ⟨files, rfl⟩
  | cons entry rest ih =>
      obtain ⟨files', written⟩ := ih
        { rows := Table.put FileRow.path (.ofEntry entry (files.row? entry.path)) files.rows }
        fun other inside => fits other (List.mem_cons_of_mem _ inside)
      refine ⟨files', ?_⟩
      rw [List.foldlM_cons, upsert_eq files (fits entry (List.mem_cons_self ..))]
      exact written

theorem fits_of_foldlM_upsert (entries : List FileEntry) {files files' : FileIndex}
    (written : entries.foldlM FileIndex.upsert files = .ok files') :
    ∀ entry ∈ entries, entry.size ≤ maxInteger := by
  induction entries generalizing files with
  | nil => simp
  | cons entry rest ih =>
      rw [List.foldlM_cons] at written
      by_cases fits : entry.size ≤ maxInteger
      · rw [upsert_eq files fits] at written
        exact List.forall_mem_cons.mpr ⟨fits, ih written⟩
      · have refused : files.upsert entry = .error (.range .tooLarge) := by
          unfold FileIndex.upsert tableInteger
          rw [if_neg fits]
          rfl
        rw [refused] at written
        cases written

end FileIndex

namespace Workspace

variable {workspace after : Workspace}

structure Waiting (workspace : Workspace) : Prop where
  root : Path.IsRoot workspace.discovery.root
  sameRoot : workspace.index.root = workspace.discovery.root
  files : workspace.files.Sound
  unused : workspace.queue.table.Unused
  bounded : workspace.queue.settings.maxRetries ≤ maxCount
  calm : workspace.queue.paused = false ∧ workspace.queue.stopped = false
  running : workspace.queue.running = []

structure Quiet (workspace : Workspace) : Prop extends Waiting workspace where
  done : ∀ row ∈ workspace.queue.table.rows,
    row.hasStatus .completed = true ∨ row.hasStatus .failed = true

theorem not_pending_of_done {row : TaskRow}
    (done : row.hasStatus .completed = true ∨ row.hasStatus .failed = true) :
    row.hasStatus .pending = false := by
  rcases done with completed | failed
  · exact TaskRow.hasStatus_of_ne completed (by decide)
  · exact TaskRow.hasStatus_of_ne failed (by decide)

structure Processed (worker : Worker Stores) (workspace after : Workspace) (log : Queue.Log) :
    Prop where
  discovery : after.discovery = workspace.discovery
  settings : after.queue.settings = workspace.queue.settings
  calm : after.queue.paused = false ∧ after.queue.stopped = false
  running : after.queue.running = []
  unused : after.queue.table.Unused
  done : ∀ row ∈ after.queue.table.rows,
    row.hasStatus .completed = true ∨ row.hasStatus .failed = true
  rows : List.Forall₂ (Queue.Follows workspace.queue.settings.emptyOutput log)
    workspace.queue.table.rows after.queue.table.rows
  worked : Queue.Session.Worked worker { index := workspace.index, files := workspace.files } log
    { index := after.index, files := after.files }
  exact : ∀ path, path ∈ log.map Prod.fst ↔
    ∃ row ∈ workspace.queue.table.rows, row.hasStatus .pending = true ∧ row.path = path

variable {worker : Worker Stores} {disk : Disk} {log : Queue.Log}

theorem Waiting.drainWith (waiting : workspace.Waiting)
    (reports : Queue.Session.Reports worker) :
    ∃ log, Processed worker workspace (workspace.drainWith worker) log := by
  let initial : Queue.Session Stores :=
    { queue := workspace.queue, state := { index := workspace.index, files := workspace.files } }
  have rest : initial.AtRest :=
    ⟨waiting.unused.sound, waiting.calm, waiting.unused.plain, waiting.unused.unheld, rfl,
      waiting.running⟩
  obtain ⟨final, log, finished, drained⟩ := Queue.Session.run_drained reports rest
    (rounds workspace.queue.table) (Queue.Session.remaining_le_rounds rest)
  have result : workspace.drainWith worker =
      { workspace with
        queue := final.queue, index := final.state.index, files := final.state.files } := by
    simp only [Workspace.drainWith, initial] at finished ⊢
    rw [finished]
  rw [result]
  refine ⟨log, rfl, drained.settings, drained.calm, drained.running,
    ⟨drained.sound, drained.plain, ?_⟩, drained.done, drained.rows, drained.worked, drained.exact⟩
  intro row member
  rcases drained.done row member with completed | failed
  · exact TaskRow.hasStatus_of_ne completed (by decide)
  · exact TaskRow.hasStatus_of_ne failed (by decide)

theorem Quiet.processed_self (quiet : workspace.Quiet) (worker : Worker Stores) :
    Processed worker workspace workspace [] := by
  refine ⟨rfl, rfl, quiet.calm, quiet.running, quiet.unused, quiet.done, ?_, .nil, ?_⟩
  · apply List.forall₂_same.mpr
    intro row member
    have idle := not_pending_of_done (quiet.done row member)
    refine ⟨.refl row, quiet.unused.unheld row member, fun _ => rfl, ?_, ?_⟩
    · intro pending
      rw [idle] at pending
      cases pending
    · intro pending
      rw [idle] at pending
      cases pending
  · intro path
    simp only [List.map_nil, List.not_mem_nil, false_iff, not_exists, not_and]
    intro row member pending
    rw [not_pending_of_done (quiet.done row member)] at pending
    cases pending

theorem Processed.marked (processed : Processed worker workspace after log)
    (waiting : workspace.Waiting) (honest : Honest worker disk workspace.discovery.root) :
    after.index.root = workspace.discovery.root ∧
      Marked disk workspace.discovery.root log workspace.files after.files :=
  honest.marked waiting.sameRoot processed.worked

theorem Processed.quiet (processed : Processed worker workspace after log)
    (waiting : workspace.Waiting) (honest : Honest worker disk workspace.discovery.root) :
    after.Quiet := by
  obtain ⟨root, marked⟩ := processed.marked waiting honest
  exact
    { root := processed.discovery ▸ waiting.root, sameRoot := processed.discovery ▸ root
      files := marked.sound waiting.files, unused := processed.unused
      bounded := processed.settings ▸ waiting.bounded, calm := processed.calm
      running := processed.running, done := processed.done }

def settled (now : String) (task : TaskRow) (row : FileRow) : FileRow :=
  if task.hasStatus .completed then
    if task.chunks.toNat = 0 then row.indexed now task.hash else row
  else if task.hasStatus .failed then row.failed task.hash
  else row

theorem settled_again (now : String) (task : TaskRow) (row : FileRow) :
    settled now task (settled now task row) = settled now task row := by
  unfold settled
  split
  · split <;> rfl
  · split <;> rfl

theorem settled_empty {now : String} {task : TaskRow} {row : FileRow}
    (completed : task.hasStatus .completed = true) (empty : task.chunks.toNat = 0) :
    settled now task row = row.indexed now task.hash := by
  rw [settled, if_pos completed, if_pos empty]

theorem settled_stored {now : String} {task : TaskRow} {row : FileRow}
    (completed : task.hasStatus .completed = true) (stored : task.chunks.toNat ≠ 0) :
    settled now task row = row := by
  rw [settled, if_pos completed, if_neg stored]

theorem settled_failed {now : String} {task : TaskRow} {row : FileRow}
    (other : task.hasStatus .completed = false) (failed : task.hasStatus .failed = true) :
    settled now task row = row.failed task.hash := by
  rw [settled, other, if_neg Bool.false_ne_true, if_pos failed]

def noted (workspace : Workspace) (path : String) : Option FileRow :=
  match workspace.queue.table.at? path with
  | none => workspace.files.row? path
  | some task => (workspace.files.row? path).map (settled (toString workspace.queue.now) task)

theorem settleFile_ok (sound : workspace.queue.table.Sound) (known : workspace.files.Sound)
    (report : ScanReport) (path : String) :
    ∃ files report', settleFile (workspace, report) path = .ok ({ workspace with files }, report') ∧
      files.Sound ∧
      ∀ other, files.row? other =
        if other = path then workspace.noted path else workspace.files.row? other := by
  have same : ∀ other, workspace.files.row? other =
      if other = path then workspace.files.row? path else workspace.files.row? other := by
    intro other
    split
    next equal => rw [equal]
    next => rfl
  unfold noted
  cases found : workspace.queue.table.at? path with
  | none =>
      refine ⟨workspace.files, report, ?_, known, same⟩
      simp only [settleFile, TaskTable.Sound.getByPath_none found]
      rfl
  | some task =>
      obtain ⟨member, -⟩ := sound.at?_eq_some.mp found
      obtain ⟨status, named⟩ := (sound.rows task member).status
      have read := sound.getByPath_some found named
      have is := TaskRow.hasStatus_iff_of_name named
      have unchanged (quiet : settled (toString workspace.queue.now) task = id) :
          ∀ other, workspace.files.row? other =
            if other = path then (workspace.files.row? path).map
              (settled (toString workspace.queue.now) task)
            else workspace.files.row? other := by
        rw [quiet]
        simp
      simp only [settleFile, read, Except.mapError, bind, Except.bind, TaskRow.asTask]
      -- Only a completed task without chunks and a failed one leave a mark here; the worker has
      -- marked the others itself.
      cases status with
      | pending =>
          refine ⟨workspace.files, _, rfl, known, unchanged ?_⟩
          funext row
          simp [settled, (is _).not.mpr]
      | processing =>
          refine ⟨workspace.files, _, rfl, known, unchanged ?_⟩
          funext row
          simp [settled, (is _).not.mpr]
      | completed =>
          by_cases empty : task.chunks.toNat = 0
          · have mark : settled (toString workspace.queue.now) task =
                FileRow.indexed (toString workspace.queue.now) task.hash := by
              funext row
              simp [settled, (is .completed).mpr rfl, empty]
            simp only [empty, if_true, mark]
            exact ⟨_, _, rfl, known.markIndexed _ _ _, FileIndex.row?_markIndexed _ _ _ _⟩
          · simp only [empty, if_false]
            refine ⟨workspace.files, _, rfl, known, unchanged ?_⟩
            funext row
            simp [settled, (is .completed).mpr rfl, empty]
      | failed =>
          have mark : settled (toString workspace.queue.now) task = FileRow.failed task.hash := by
            funext row
            simp [settled, (is .completed).not.mpr, (is .failed).mpr]
          simp only [mark]
          exact ⟨_, _, rfl, known.markFailed _ _, FileIndex.row?_markFailed _ _ _⟩

theorem foldlM_settleFile (sound : workspace.queue.table.Sound) (known : workspace.files.Sound)
    (report : ScanReport) (paths : List String) :
    ∃ files report', paths.foldlM settleFile (workspace, report) =
        .ok ({ workspace with files }, report') ∧ files.Sound ∧
      ∀ path, files.row? path =
        if path ∈ paths then workspace.noted path else workspace.files.row? path := by
  induction paths generalizing workspace report with
  | nil => exact ⟨workspace.files, report, rfl, known, by simp⟩
  | cons first rest ih =>
      obtain ⟨middle, report', step, sound', row⟩ := settleFile_ok sound known report first
      obtain ⟨files, last, others, sound'', rows⟩ :=
        @ih { workspace with files := middle } sound sound' report'
      -- Noting an outcome twice is noting it once.
      have again (path : String) :
          ({ workspace with files := middle } : Workspace).noted path = workspace.noted path := by
        unfold noted
        dsimp only
        rw [row path]
        by_cases same : path = first
        · subst same
          unfold noted
          cases workspace.queue.table.at? path with
          | none => simp
          | some task => simp [Function.comp_def, settled_again]
        · simp [same]
      refine ⟨files, last, ?_, sound'', ?_⟩
      · rw [List.foldlM_cons, step]
        exact others
      · intro path
        rw [rows path, again path]
        by_cases later : path ∈ rest
        · simp [later]
        · by_cases same : path = first
          · subst same
            simp [later, row path]
          · simp [later, same, row path]

end Workspace

end CodeGraph
