import CodeGraph.Proofs.FileIndex.Operations
import CodeGraph.Proofs.Queue.Requests
import CodeGraph.Proofs.Queue.Soundness
import CodeGraph.Proofs.Workspace.Versions

/-!
Forced scans: the history of all entries is cleared before the walk, so that every file is asked for
again. From any tables that operations lead to, such a scan goes through, and it asks for exactly
the available files whose task has not used up its attempts on the same content. Clearing the
entries does not reach the tasks: a file that failed too often stays out.
-/

set_option autoImplicit false

namespace CodeGraph.Workspace

variable {workspace : Workspace} {disk : Disk}

theorem sound_drainWith (tasks : workspace.queue.table.Sound) (files : workspace.files.Sound)
    (disk : Disk) (maxFileSize : Nat) :
    (workspace.drainWith (Processing.worker disk maxFileSize)).queue.table.Sound ∧
      (workspace.drainWith (Processing.worker disk maxFileSize)).files.Sound := by
  let initial : Queue.Session Stores :=
    { queue := workspace.queue, state := { index := workspace.index, files := workspace.files } }
  have keeps : initial.Keeps (fun state => state.files.Sound) := ⟨tasks, files⟩
  have kept := @Queue.Session.Keeps.run _ (Processing.worker disk maxFileSize) _
    (fun task queue state table known =>
      ⟨Processing.sound_worker_table table task state,
        Processing.sound_worker_files known task queue⟩)
    (rounds workspace.queue.table) initial keeps
  exact ⟨kept.table, kept.state⟩

theorem settle_ok (tasks : workspace.queue.table.Sound) (files : workspace.files.Sound)
    (disk : Disk) (maxFileSize : Nat) (report : ScanReport) (paths : List String)
    (changed : Bool) :
    ∃ after last, settle (Processing.worker disk maxFileSize) disk paths changed
        (workspace, report) = .ok (after, last) ∧ Noting report last := by
  let rested := if paths.isEmpty then workspace
    else workspace.drainWith (Processing.worker disk maxFileSize)
  obtain ⟨tasks', files'⟩ : rested.queue.table.Sound ∧ rested.files.Sound := by
    simp only [rested]
    split
    · exact ⟨tasks, files⟩
    · exact sound_drainWith tasks files disk maxFileSize
  obtain ⟨files, last, settled, -, noting, -⟩ :=
    @settle_rested disk rested tasks' files' report paths changed
  exact ⟨_, last, settled, noting⟩

/-- What forgetting some files may do to a workspace, whether the index takes it or not. -/
structure Trims (paths : List String) (before after : Workspace × ScanReport) : Prop where
  tasks : before.1.queue.table.Sound → after.1.queue.table.Sound
  files : before.1.files.Sound → after.1.files.Sound
  settings : after.1.queue.settings = before.1.queue.settings
  others : ∀ path, path ∉ paths → after.1.queue.table.at? path = before.1.queue.table.at? path
  enqueued : after.2.enqueued = before.2.enqueued

theorem trimmed_remove (state : Workspace × ScanReport) (path : String) :
    Trims [path] state (remove state path) := by
  obtain ⟨workspace, report⟩ := state
  unfold remove
  dsimp only
  split
  · exact ⟨fun tasks => tasks, fun files => files.markDeleted path, rfl, fun _ _ => rfl, rfl⟩
  · refine ⟨fun tasks => tasks.removePath path, fun files => files.remove path, rfl, ?_, rfl⟩
    intro other missing
    exact (TaskTable.at?_removePath _ path other).trans (if_neg (by simpa using missing))

theorem trimmed_foldl_remove (paths : List String) (state : Workspace × ScanReport) :
    Trims paths state (paths.foldl remove state) := by
  induction paths generalizing state with
  | nil => exact ⟨id, id, rfl, fun _ _ => rfl, rfl⟩
  | cons path rest ih =>
      have first := trimmed_remove state path
      have later := ih (remove state path)
      refine ⟨later.tasks ∘ first.tasks, later.files ∘ first.files,
        later.settings.trans first.settings, ?_, later.enqueued.trans first.enqueued⟩
      intro other missing
      rw [List.mem_cons, not_or] at missing
      rw [List.foldl_cons, later.others other missing.2, first.others other (by simp [missing.1])]

def forced (workspace : Workspace) : Workspace :=
  { workspace with files := workspace.files.clearAllIndexed }

theorem forced_takeIn (files : workspace.files.Sound) (tasks : workspace.queue.table.Sound)
    (root : Path.IsRoot workspace.discovery.root)
    (bounded : workspace.queue.settings.maxRetries ≤ maxCount) {found : Discovered}
    (discovered : workspace.discovery.discover disk = .ok found)
    (fits : ∀ entry ∈ found.entries, entry.size ≤ maxInteger) :
    ∃ changes requested report, workspace.forced.takeIn found = .ok (changes, requested, report) ∧
      requested.queue.table.Sound ∧ requested.files.Sound ∧
      report.enqueued = (found.entries.filter FileEntry.available).countP
        (fun entry => !decide (workspace.queue.table.Exhausted entry.path entry.hash)) ∧
      ∀ entry ∈ found.entries, entry.available = true →
        (requested.queue.table.Scheduled entry.path entry.hash ↔
          ¬workspace.queue.table.Exhausted entry.path entry.hash) := by
  let known := workspace.files.clearAllIndexed.known
  have unmarked : ∀ entry ∈ known, entry.Unmarked := fun _ => FileIndex.unmarked_of_cleared
  let changes := diff found.entries known
  have dirty : changes.dirty = _ := ChangeSet.dirty_diff_unmarked unmarked found.entries
  have consistent : ∀ a ∈ found.entries, ∀ b ∈ found.entries, a.path = b.path → a = b :=
    fun _ first _ second same => (Discovery.finds_of_discover root discovered first).eq_of_path
      (Discovery.finds_of_discover root discovered second) same
  let trimmed := Workspace.trimmed found workspace.forced
  -- Nothing is withdrawn, as nothing is known to have been indexed.
  have trims : Trims changes.deleted (workspace.forced, started found changes) trimmed := by
    have none : changes.withdrawn = [] := ChangeSet.withdrawn_diff_unmarked unmarked found.entries
    simp only [trimmed, Workspace.trimmed]
    rw [show (diff found.entries workspace.forced.files.known).withdrawn = [] from none]
    exact trimmed_foldl_remove ..
  obtain ⟨recorded, upserted⟩ := FileIndex.foldlM_upsert_ok found.entries trimmed.1.files fits
  have files' := FileIndex.foldlM_upsert found.entries (trims.files files.clearAllIndexed)
    consistent upserted
  let walked : Workspace := { trimmed.1 with files := recorded }
  obtain ⟨table, report', enqueued, count, tasks', waits, -⟩ :=
    @enqueueAll_answered walked changes.dirty trimmed.2 (trims.tasks tasks)
      (trims.settings ▸ bounded) (by
        simp only [dirty, List.forall_mem_map, List.mem_filter, ChangeSet.path_merged,
          ChangeSet.hash_merged]
        intro a first b second same
        rw [consistent a first.1 b second.1 same])
  -- The files that were found are not among those that are gone, so their tasks stay.
  have kept {entry : FileEntry} (member : entry ∈ found.entries) :
      walked.queue.table.Exhausted entry.path entry.hash ↔
        workspace.queue.table.Exhausted entry.path entry.hash := by
    refine TaskTable.Sound.shows_congr tasks (trims.tasks tasks) (trims.others entry.path ?_)
    intro gone
    exact (mem_deleted_diff.mp gone).2 (List.mem_map_of_mem member)
  refine ⟨changes, { walked with queue := { walked.queue with table } }, report',
    takeIn_ok files.clearAllIndexed upserted enqueued, tasks', files'.1, ?_, ?_⟩
  · have start : trimmed.2.enqueued = 0 := trims.enqueued
    rw [count, start, Nat.zero_add, dirty, List.countP_map]
    apply List.countP_congr
    intro entry member
    simp [kept (List.mem_of_mem_filter member)]
  · intro entry member available
    have listed : ChangeSet.merged known entry ∈ changes.dirty := by
      rw [dirty]
      exact List.mem_map_of_mem (List.mem_filter.mpr ⟨member, available⟩)
    have both := waits _ listed
    simp only [ChangeSet.path_merged, ChangeSet.hash_merged] at both
    rw [both, kept member]

/-- From any tables that operations lead to, a forced scan goes through. An available file is asked
for just when its task is not exhausted, and the report counts these files; so it counts all that
are available just when none is exhausted. -/
theorem forced_scan_asks_for_all_iff (workspace : Workspace)
    (fileOperations : List FileIndex.Operation) (taskOperations : List TaskTable.Operation)
    (files : workspace.files = .run fileOperations)
    (tasks : workspace.queue.table = .run taskOperations)
    (root : Path.IsRoot workspace.discovery.root)
    (bounded : workspace.queue.settings.maxRetries ≤ maxCount) (disk : Disk) {found : Discovered}
    (discovered : workspace.discovery.discover disk = .ok found)
    (fits : ∀ entry ∈ found.entries, entry.size ≤ maxInteger) :
    ∃ changes requested before after report,
      workspace.forced.takeIn found = .ok (changes, requested, before) ∧
      workspace.forced.scan disk = .ok (after, report) ∧
      (∀ entry ∈ found.entries, entry.available = true →
        (requested.queue.table.Scheduled entry.path entry.hash ↔
          ¬workspace.queue.table.Exhausted entry.path entry.hash)) ∧
      report.enqueued = (found.entries.filter FileEntry.available).countP
        (fun entry => !decide (workspace.queue.table.Exhausted entry.path entry.hash)) ∧
      (report.enqueued = (found.entries.filter FileEntry.available).length ↔
        ∀ entry ∈ found.entries, entry.available = true →
          ¬workspace.queue.table.Exhausted entry.path entry.hash) := by
  obtain ⟨changes, requested, before, asked, tasks', files', count, waits⟩ :=
    @forced_takeIn workspace disk (files ▸ FileIndex.sound_run fileOperations)
      (tasks ▸ TaskTable.sound_run taskOperations) root bounded found discovered fits
  obtain ⟨after, report, settled, noting⟩ := settle_ok tasks' files' disk
    workspace.discovery.maxFileSize before (changes.dirty.map FileEntry.path) changes.hasChanges
  -- What comes after the requests leaves their count alone.
  have enqueued := noting.enqueued.trans count
  refine ⟨changes, requested, before, after, report, asked, ?_, waits, enqueued, ?_⟩
  · simp only [scan, scanWith,
      show workspace.forced.discovery.discover disk = .ok found from discovered, asked, bind,
      Except.bind]
    exact settled
  · rw [enqueued, List.countP_eq_length]
    simp

def spending (path hash : String) : List TaskTable.Operation :=
  .insert { path, hash } 3 ::
    (List.replicate 4 [.claim 1 0, .recordFailure 0 hash "unreadable" 0]).flatten

def givingUp (path hash : String) : List FileIndex.Operation :=
  [.upsert { path, hash }, .markFailed path hash]

def stuck (path hash : String) : Workspace :=
  { Setup.sample.fresh with
    files := .run (givingUp path hash)
    queue := { table := .run (spending path hash) } }

/-- A file whose task has used up its attempts is not asked for, although it is available and
nothing is recorded about it among the entries any more. -/
theorem exhausted_file_is_left_out :
    let text := "export const a = 1;\n"
    let workspace := stuck "a.js" (Digest.hex (Digest.blake3 (Text.bytes text)))
    let disk := Setup.sampleDisk [("a.js", text)]
    ∃ found after report, workspace.discovery.discover disk = .ok found ∧
      workspace.forced.scan disk = .ok (after, report) ∧
      (found.entries.filter FileEntry.available).length = 1 ∧ report.enqueued = 0 := by
  intro text workspace disk
  obtain ⟨hash, named⟩ : ∃ hash, hash = Digest.hex (Digest.blake3 (Text.bytes text)) := ⟨_, rfl⟩
  have spent : workspace.queue.table.Exhausted "a.js" hash := by
    rw [named]
    decide +kernel
  have walked : (workspace.discovery.discover disk).toOption.map
      (fun found => found.entries.map (fun entry =>
        (entry.path, entry.hash, entry.available, decide (entry.size ≤ maxInteger)))) =
      some [("a.js", hash, true, true)] := by
    rw [named]
    decide +kernel
  simp only [workspace, ← named] at spent walked ⊢
  cases discovered : (stuck "a.js" hash).discovery.discover disk with
  | error error =>
      rw [discovered] at walked
      cases walked
  | ok found =>
      rw [discovered] at walked
      obtain ⟨entry, single, facts⟩ := List.map_eq_singleton_iff.mp (Option.some.inj walked)
      simp only [Prod.mk.injEq, decide_eq_true_eq] at facts
      obtain ⟨path, same, available, fits⟩ := facts
      obtain ⟨-, -, -, after, report, -, scanned, -, count, -⟩ :=
        forced_scan_asks_for_all_iff (stuck "a.js" hash) (givingUp "a.js" hash)
          (spending "a.js" hash) (by simp only [stuck]) (by simp only [stuck]) Setup.sample.isRoot
          (show 3 ≤ maxCount by decide) disk discovered (by simpa [single] using fits)
      refine ⟨found, after, report, rfl, scanned, ?_, ?_⟩
      · simp [single, available]
      · rw [count]
        simp [single, available, path, same, spent]

end CodeGraph.Workspace
