import CodeGraph.Proofs.FileIndex.Operations
import CodeGraph.Proofs.Workspace.Phases

/-!
A scan, taken apart. `Scan` names what each phase leaves behind; every scan of a quiet workspace
that goes through is one, as long as the stores let go of the files that are gone.
-/

set_option autoImplicit false

namespace CodeGraph

namespace ScanReport

/-- Nothing was left behind because a store did not let go of it. -/
def Clean (report : ScanReport) : Prop :=
  ∀ path message, "cleanup " ++ path ++ ": " ++ message ∉ report.errors

theorem Clean.of_subset {before after : ScanReport} (clean : after.Clean)
    (grows : before.errors ⊆ after.errors) : before.Clean :=
  fun path message listed => clean path message (grows listed)

theorem clean_of_nil {report : ScanReport} (none : report.errors = []) : report.Clean := by
  intro path message
  simp [none]

end ScanReport

namespace Workspace

variable {worker : Worker Stores} {disk : Disk} {before after : Workspace}

structure Forgets (step : Workspace × ScanReport → String → Workspace × ScanReport) : Prop where
  index : ∀ state path, (step state path).1.index = (state.1.index.deleteFile path).1
  grows : ∀ state path, state.2.errors ⊆ (step state path).2.errors
  fails : ∀ state path error, (state.1.index.deleteFile path).2 = .error error →
    "cleanup " ++ path ++ ": " ++ error.message ∈ (step state path).2.errors
  quiet : ∀ state path, state.1.Quiet → (step state path).1.Quiet
  discovery : ∀ state path, (step state path).1.discovery = state.1.discovery
  settings : ∀ state path, (step state path).1.queue.settings = state.1.queue.settings

theorem Quiet.with_index {index : CodeIndex} (quiet : before.Quiet)
    (root : index.root = before.index.root) : Quiet { before with index } :=
  { quiet with sameRoot := root.trans quiet.sameRoot }

theorem Quiet.with_files {files : FileIndex} (quiet : before.Quiet) (sound : files.Sound) :
    Quiet { before with files } :=
  { quiet with files := sound }

theorem Quiet.removePath (quiet : before.Quiet) (path : String) :
    Quiet { before with queue := before.queue.removePath path } :=
  { quiet with
    unused := quiet.unused.removePath path
    done := fun row member => quiet.done row (Table.mem_erase.mp member).1 }

theorem forgets_of {step : Workspace × ScanReport → String → Workspace × ScanReport}
    {left change : FileIndex → String → FileIndex}
    (leaves : ∀ (workspace : Workspace) report path index error,
      workspace.index.deleteFile path = (index, .error error) → step (workspace, report) path =
        ({ workspace with index, files := left workspace.files path },
          cleanupFailed report path error))
    (forgets : ∀ (workspace : Workspace) report path index,
      workspace.index.deleteFile path = (index, .ok ()) → step (workspace, report) path =
        ({ workspace with
          index, queue := workspace.queue.removePath path, files := change workspace.files path },
          report))
    (leftSound : ∀ files path, files.Sound → (left files path).Sound)
    (changeSound : ∀ files path, files.Sound → (change files path).Sound) : Forgets step := by
  have cases (workspace : Workspace) (report : ScanReport) (path : String) :
      (∃ index error, workspace.index.deleteFile path = (index, .error error) ∧
        step (workspace, report) path =
          ({ workspace with index, files := left workspace.files path },
            cleanupFailed report path error)) ∨
      ∃ index, workspace.index.deleteFile path = (index, .ok ()) ∧
        step (workspace, report) path =
          ({ workspace with
            index, queue := workspace.queue.removePath path
            files := change workspace.files path }, report) := by
    cases done : workspace.index.deleteFile path with
    | mk index outcome =>
        cases outcome with
        | error error =>
            exact .inl ⟨index, error, rfl, leaves workspace report path index error done⟩
        | ok => exact .inr ⟨index, rfl, forgets workspace report path index done⟩
  -- Both steps do the same to the stores and differ in what becomes of the entry alone.
  constructor
  · rintro ⟨workspace, report⟩ path
    rcases cases workspace report path with ⟨index, error, done, same⟩ | ⟨index, done, same⟩ <;>
      rw [same, done]
  · rintro ⟨workspace, report⟩ path
    rcases cases workspace report path with ⟨index, error, done, same⟩ | ⟨index, done, same⟩
    · rw [same]
      exact List.subset_append_left ..
    · rw [same]
      exact fun _ listed => listed
  · rintro ⟨workspace, report⟩ path error failed
    rcases cases workspace report path with ⟨index, other, done, same⟩ | ⟨index, done, same⟩
    · rw [done] at failed
      cases failed
      rw [same]
      exact List.mem_append_right _ (List.mem_singleton_self _)
    · rw [done] at failed
      cases failed
  · rintro ⟨workspace, report⟩ path quiet
    have root := (workspace.index.deleteFile_settings path).1
    rcases cases workspace report path with ⟨index, error, done, same⟩ | ⟨index, done, same⟩
    · rw [done] at root
      rw [same]
      exact (quiet.with_index root).with_files (leftSound _ path quiet.files)
    · rw [done] at root
      rw [same]
      exact ((quiet.removePath path).with_index root).with_files (changeSound _ path quiet.files)
  · rintro ⟨workspace, report⟩ path
    rcases cases workspace report path with ⟨index, error, done, same⟩ | ⟨index, done, same⟩ <;>
      rw [same]
  · rintro ⟨workspace, report⟩ path
    rcases cases workspace report path with ⟨index, error, done, same⟩ | ⟨index, done, same⟩
    · rw [same]
    · rw [same]
      rfl

theorem forgets_remove : Forgets remove :=
  forgets_of (fun _ _ _ _ _ failed => by simp only [remove, failed])
    (fun _ _ _ _ done => by simp only [remove, done]) (fun _ path sound => sound.markDeleted path)
    (fun _ path sound => sound.remove path)

theorem forgets_withdraw : Forgets withdraw :=
  forgets_of (fun _ _ _ _ _ failed => by simp only [withdraw, failed])
    (fun _ _ _ _ done => by simp only [withdraw, done]) (fun _ _ sound => sound)
    (fun _ path sound => sound.clearIndexed path)

structure Forgotten (paths : List String) (before after : Workspace × ScanReport) : Prop where
  grows : before.2.errors ⊆ after.2.errors
  quiet : before.1.Quiet → after.1.Quiet
  deletions : after.2.Clean → CodeIndex.Deletions before.1.index paths after.1.index
  discovery : after.1.discovery = before.1.discovery
  settings : after.1.queue.settings = before.1.queue.settings

theorem Forgets.foldl {step : Workspace × ScanReport → String → Workspace × ScanReport}
    (forgets : Forgets step) (paths : List String) (state : Workspace × ScanReport) :
    Forgotten paths state (paths.foldl step state) := by
  induction paths generalizing state with
  | nil => exact ⟨fun _ listed => listed, id, fun _ => .nil _, rfl, rfl⟩
  | cons path rest ih =>
      have later := ih (step state path)
      refine ⟨List.Subset.trans (forgets.grows state path) later.grows,
        fun quiet => later.quiet (forgets.quiet state path quiet), fun clean => ?_,
        later.discovery.trans (forgets.discovery state path),
        later.settings.trans (forgets.settings state path)⟩
      have others := later.deletions clean
      rw [forgets.index] at others
      refine .cons ?_ others
      cases done : (state.1.index.deleteFile path).2 with
      | error error =>
          exact absurd (later.grows (forgets.fails state path error done))
            (clean path error.message)
      | ok => exact Prod.ext rfl done

def started (found : Discovered) (changes : ChangeSet) : ScanReport :=
  { scanned := found.entries.length, errors := found.errors, new := changes.new.length
    modified := changes.modified.length, unchanged := changes.unchanged.length
    deleted := changes.deleted.length }

def trimmed (found : Discovered) (before : Workspace) : Workspace × ScanReport :=
  let changes := diff found.entries before.files.known
  changes.withdrawn.foldl withdraw (changes.deleted.foldl remove (before, started found changes))

theorem forgotten_trimmed (found : Discovered) (before : Workspace) :
    let changes := diff found.entries before.files.known
    Forgotten (changes.deleted ++ changes.withdrawn) (before, started found changes)
      (trimmed found before) := by
  intro changes
  have first := forgets_remove.foldl changes.deleted (before, started found changes)
  have second := forgets_withdraw.foldl changes.withdrawn
    (changes.deleted.foldl remove (before, started found changes))
  exact ⟨List.Subset.trans first.grows second.grows, second.quiet ∘ first.quiet,
    fun clean => (first.deletions (clean.of_subset second.grows)).append (second.deletions clean),
    second.discovery.trans first.discovery, second.settings.trans first.settings⟩

theorem trimmed_eq {found : Discovered} {cleared : CodeIndex}
    (deletions : CodeIndex.Deletions before.index
      ((diff found.entries before.files.known).deleted ++
        (diff found.entries before.files.known).withdrawn) cleared) :
    trimmed found before =
      (before.forgotten ((diff found.entries before.files.known).deleted ++
          (diff found.entries before.files.known).withdrawn)
        ((diff found.entries before.files.known).withdrawn.foldl FileIndex.clearIndexed
          ((diff found.entries before.files.known).deleted.foldl FileIndex.remove before.files))
        cleared, started found (diff found.entries before.files.known)) :=
  forget_eq deletions _

theorem Waiting.finds (waiting : before.Waiting) {found : Discovered}
    (discovered : before.discovery.discover disk = .ok found) {entry : FileEntry}
    (member : entry ∈ found.entries) : Discovery.Finds disk before.discovery entry :=
  Discovery.finds_of_discover waiting.root discovered member

theorem Waiting.consistent (waiting : before.Waiting) {found : Discovered}
    (discovered : before.discovery.discover disk = .ok found) :
    ∀ a ∈ found.entries, ∀ b ∈ found.entries, a.path = b.path → a = b :=
  fun _ first _ second same =>
    (waiting.finds discovered first).eq_of_path (waiting.finds discovered second) same

theorem errors_enqueueAll (entries : List FileEntry) {state after : Workspace × ScanReport}
    (enqueued : enqueueAll entries state = .ok after) : after.2.errors = state.2.errors := by
  induction entries generalizing state with
  | nil =>
      cases enqueued
      rfl
  | cons entry rest ih =>
      obtain ⟨⟨workspace, scheduled⟩, -, others⟩ := Table.of_bind_eq_ok enqueued
      have later := ih others
      exact later

theorem takeIn_eq (sound : before.files.Sound) (found : Discovered) :
    before.takeIn found = (do
      let recorded ← found.entries.foldlM FileIndex.upsert (trimmed found before).1.files
      let state ← enqueueAll (diff found.entries before.files.known).dirty
        ({ (trimmed found before).1 with files := recorded }, (trimmed found before).2)
      return (diff found.entries before.files.known, state)) := by
  simp only [takeIn, sound.list_eq, upsertAll, trimmed, started, bind_assoc, pure_bind]
  rfl

theorem takeIn_ok (sound : before.files.Sound) {found : Discovered} {recorded : FileIndex}
    (upserted : found.entries.foldlM FileIndex.upsert (trimmed found before).1.files =
      .ok recorded) {state : Workspace × ScanReport}
    (enqueued : enqueueAll (diff found.entries before.files.known).dirty
      ({ (trimmed found before).1 with files := recorded }, (trimmed found before).2) =
        .ok state) :
    before.takeIn found = .ok (diff found.entries before.files.known, state) := by
  rw [takeIn_eq sound, upserted]
  simp only [bind, Except.bind, enqueued]
  rfl

structure Requested (found : Discovered) (before : Workspace) (recorded : FileIndex)
    (table : TaskTable) (report : ScanReport) : Prop where
  taken : before.takeIn found = .ok (diff found.entries before.files.known,
    { (trimmed found before).1 with
      files := recorded, queue := { (trimmed found before).1.queue with table } }, report)
  errors : report.errors = (trimmed found before).2.errors
  unused : table.Unused
  queued : ∀ entry ∈ (diff found.entries before.files.known).dirty, TaskTable.Queued
    ((trimmed found before).1.queue.table.at? entry.path) entry.hash (table.at? entry.path)
  others : ∀ path, path ∉ (diff found.entries before.files.known).dirty.map FileEntry.path →
    table.at? path = (trimmed found before).1.queue.table.at? path

theorem Quiet.requested (quiet : before.Quiet) {found : Discovered}
    (discovered : before.discovery.discover disk = .ok found) {recorded : FileIndex}
    (upserted : found.entries.foldlM FileIndex.upsert (trimmed found before).1.files =
      .ok recorded) :
    ∃ table report, Requested found before recorded table report := by
  have rest := (forgotten_trimmed found before).quiet quiet
  have consistent : ∀ a ∈ (diff found.entries before.files.known).dirty,
      ∀ b ∈ (diff found.entries before.files.known).dirty, a.path = b.path → a.hash = b.hash := by
    intro a one b two same
    obtain ⟨entry, inside, -, content⟩ := of_mem_dirty_diff one
    obtain ⟨entry', inside', -, content'⟩ := of_mem_dirty_diff two
    rw [content.path, content'.path] at same
    rw [content.hash, content'.hash, quiet.consistent discovered entry inside entry' inside' same]
  obtain ⟨table, report, enqueued, unused, queued, others⟩ :=
    @enqueueAll_ok _ { (trimmed found before).1 with files := recorded } (trimmed found before).2
      rest.unused rest.bounded consistent
  exact ⟨table, report, takeIn_ok quiet.files upserted enqueued, errors_enqueueAll _ enqueued,
    unused, queued, others⟩

def current (files : FileIndex) : List (String × String) :=
  (files.known.filter FileEntry.isCurrent).map (fun entry => (entry.path, entry.hash))

structure Noting (before after : ScanReport) : Prop where
  grows : before.errors ⊆ after.errors
  enqueued : after.enqueued = before.enqueued

theorem Noting.refl (report : ScanReport) : Noting report report :=
  ⟨fun _ listed => listed, rfl⟩

theorem Noting.trans {a b c : ScanReport} (first : Noting a b) (second : Noting b c) : Noting a c :=
  ⟨List.Subset.trans first.grows second.grows, second.enqueued.trans first.enqueued⟩

theorem noting_settleFile {state after : Workspace × ScanReport} {path : String}
    (settled : settleFile state path = .ok after) : Noting state.2 after.2 := by
  unfold settleFile at settled
  obtain ⟨task, -, noted⟩ := Table.of_bind_eq_ok settled
  split at noted
  · cases noted
    exact .refl _
  · split at noted <;> cases noted <;> exact ⟨fun _ listed => listed, rfl⟩

theorem noting_foldlM_settleFile (paths : List String) {state after : Workspace × ScanReport}
    (settled : paths.foldlM settleFile state = .ok after) : Noting state.2 after.2 := by
  induction paths generalizing state with
  | nil =>
      cases settled
      exact .refl _
  | cons path rest ih =>
      rw [List.foldlM_cons] at settled
      obtain ⟨middle, first, others⟩ := Table.of_bind_eq_ok settled
      exact (noting_settleFile first).trans (ih others)

theorem noting_linkFiles {state after : Workspace × ScanReport}
    (linked : linkFiles disk state = .ok after) : Noting state.2 after.2 := by
  unfold linkFiles at linked
  obtain ⟨files, -, written⟩ := Table.of_bind_eq_ok linked
  split at written
  · cases written
    exact ⟨fun _ listed => listed, rfl⟩
  · cases written
    exact ⟨List.subset_append_left .., rfl⟩

theorem indexedFiles_eq (sound : before.files.Sound) :
    before.indexedFiles = .ok (current before.files) := by
  simp only [indexedFiles, sound.list_eq]
  rfl

theorem linkFiles_ok (sound : before.files.Sound) (report : ScanReport) :
    ∃ report', linkFiles disk (before, report) =
      .ok ({ before with index := (before.index.link disk (current before.files)).1 },
        report') := by
  simp only [linkFiles, indexedFiles_eq sound, bind, Except.bind]
  cases before.index.link disk (current before.files) with
  | mk index outcome =>
      cases outcome with
      | ok links => exact ⟨_, rfl⟩
      | error error => exact ⟨_, rfl⟩

theorem settle_rested {rested : Workspace} (tasks : rested.queue.table.Sound)
    (known : rested.files.Sound) (report : ScanReport) (paths : List String) (changed : Bool) :
    ∃ files report', (do
        let state ← paths.foldlM settleFile (rested, report)
        if changed then linkFiles disk state else return state) =
        .ok ({ rested with
          files, index := if changed then (rested.index.link disk (current files)).1
            else rested.index }, report') ∧
      files.Sound ∧ Noting report report' ∧
      ∀ path, files.row? path =
        if path ∈ paths then rested.noted path else rested.files.row? path := by
  obtain ⟨files, report', settled, sound, rows⟩ := foldlM_settleFile tasks known report paths
  have noting := noting_foldlM_settleFile paths settled
  rw [settled]
  cases changed with
  | false => exact ⟨files, report', rfl, sound, noting, rows⟩
  | true =>
      obtain ⟨last, linked⟩ := @linkFiles_ok disk { rested with files } sound report'
      exact ⟨files, last, linked, sound, noting.trans (noting_linkFiles linked), rows⟩

structure Scan (worker : Worker Stores) (disk : Disk) (before after : Workspace) where
  quiet : before.Quiet
  honest : Honest worker disk before.discovery.root
  found : Discovered
  discovered : before.discovery.discover disk = .ok found
  changes : ChangeSet
  compared : changes = diff found.entries before.files.known
  cleared : CodeIndex
  deletions : CodeIndex.Deletions before.index (changes.deleted ++ changes.withdrawn) cleared
  recorded : FileIndex
  upserted : found.entries.foldlM FileIndex.upsert
    (changes.withdrawn.foldl FileIndex.clearIndexed
      (changes.deleted.foldl FileIndex.remove before.files)) = .ok recorded
  table : TaskTable
  unused : table.Unused
  queued : ∀ entry ∈ changes.dirty, TaskTable.Queued
    ((before.queue.table.removeAll (changes.deleted ++ changes.withdrawn)).at? entry.path)
    entry.hash (table.at? entry.path)
  others : ∀ path, path ∉ changes.dirty.map FileEntry.path → table.at? path =
    (before.queue.table.removeAll (changes.deleted ++ changes.withdrawn)).at? path
  waiting : Waiting { before with
    index := cleared, files := recorded, queue := { before.queue with table } }
  rested : Workspace
  log : Queue.Log
  processed : Processed worker { before with
    index := cleared, files := recorded, queue := { before.queue with table } } rested log
  files : FileIndex
  sound : files.Sound
  noted : ∀ path, files.row? path =
    if path ∈ changes.dirty.map FileEntry.path then rested.noted path else rested.files.row? path
  lastFiles : after.files = files
  lastQueue : after.queue = rested.queue
  lastDiscovery : after.discovery = rested.discovery
  lastIndex : after.index =
    if changes.hasChanges then (rested.index.link disk (current files)).1 else rested.index
  quietAfter : after.Quiet

theorem Scan.discovery_eq (scan : Scan worker disk before after) :
    after.discovery = before.discovery :=
  scan.lastDiscovery.trans scan.processed.discovery

theorem Scan.settings_eq (scan : Scan worker disk before after) :
    after.queue.settings = before.queue.settings := by
  rw [scan.lastQueue, scan.processed.settings]

theorem Quiet.scanned (quiet : before.Quiet) (honest : Honest worker disk before.discovery.root)
    {found : Discovered} (discovered : before.discovery.discover disk = .ok found)
    {recorded : FileIndex}
    (upserted : found.entries.foldlM FileIndex.upsert (trimmed found before).1.files =
      .ok recorded) :
    ∃ after report, before.scanWith worker disk = .ok (after, report) ∧
      after.Quiet ∧ after.discovery = before.discovery ∧
      (trimmed found before).2.errors ⊆ report.errors ∧
      ∀ cleared, CodeIndex.Deletions before.index
        ((diff found.entries before.files.known).deleted ++
          (diff found.entries before.files.known).withdrawn) cleared →
        Nonempty (Scan worker disk before after) := by
  have forgotten := forgotten_trimmed found before
  have rest := forgotten.quiet quiet
  obtain ⟨table, report, requested⟩ := quiet.requested discovered upserted
  let changes := diff found.entries before.files.known
  let asked : Workspace := { (trimmed found before).1 with
    files := recorded, queue := { (trimmed found before).1.queue with table } }
  have waiting : asked.Waiting :=
    { rest with
      unused := requested.unused
      files := (FileIndex.foldlM_upsert found.entries rest.files (quiet.consistent discovered)
        upserted).1 }
  have place : asked.discovery = before.discovery := forgotten.discovery
  rw [← place] at honest
  -- With nothing to process the queue is not touched.
  let rested := if (changes.dirty.map FileEntry.path).isEmpty then asked else asked.drainWith worker
  obtain ⟨log, processed⟩ : ∃ log, Processed worker asked rested log := by
    by_cases none : (changes.dirty.map FileEntry.path).isEmpty = true
    · simp only [rested, none, if_true]
      refine ⟨[], Quiet.processed_self ⟨waiting, ?_⟩ worker⟩
      intro row member
      have empty : changes.dirty.map FileEntry.path = [] := by simpa using none
      have kept := requested.others row.path (by
        rw [show (diff found.entries before.files.known).dirty.map FileEntry.path = [] from empty]
        simp)
      rw [requested.unused.sound.at?_eq_some.mpr ⟨member, rfl⟩] at kept
      exact rest.done row (rest.unused.sound.at?_eq_some.mp kept.symm).1
    · simp only [rested, none]
      exact waiting.drainWith honest.reports
  have calm := processed.quiet waiting honest
  obtain ⟨files, last, finished, sound, noting, noted⟩ := @settle_rested disk rested
    calm.unused.sound calm.files report (changes.dirty.map FileEntry.path) changes.hasChanges
  let after : Workspace := { rested with
    files, index := if changes.hasChanges then (rested.index.link disk (current files)).1
      else rested.index }
  have quietAfter : after.Quiet := by
    refine (calm.with_files sound).with_index ?_
    split
    · obtain ⟨graph, facts, same⟩ := rested.index.link_rest disk (current files)
      rw [same]
    · rfl
  refine ⟨after, last, ?_, quietAfter, processed.discovery.trans place,
    requested.errors ▸ noting.grows, fun cleared deletions => ?_⟩
  · simp only [scanWith, discovered, bind, Except.bind, requested.taken]
    exact finished
  · have gone := trimmed_eq deletions
    have same : asked = { before with
        index := cleared, files := recorded, queue := { before.queue with table } } := by
      simp only [asked, gone]
      rfl
    have queued := requested.queued
    have others := requested.others
    rw [gone] at upserted queued others
    exact ⟨{
      quiet, honest := place ▸ honest, found, discovered, changes, compared := rfl, cleared
      deletions, recorded, upserted, table, unused := requested.unused, queued, others
      waiting := same ▸ waiting, rested, log, processed := same ▸ processed, files, sound, noted
      lastFiles := rfl, lastQueue := rfl, lastDiscovery := rfl, lastIndex := rfl, quietAfter }⟩

/-- A scan fails only in its walk or in recording what was found. -/
theorem Quiet.exists_upserted (quiet : before.Quiet) {report : ScanReport}
    (scanned : before.scanWith worker disk = .ok (after, report)) :
    ∃ found recorded, before.discovery.discover disk = .ok found ∧
      found.entries.foldlM FileIndex.upsert (trimmed found before).1.files = .ok recorded := by
  obtain ⟨found, discovered, rest⟩ := Table.of_bind_eq_ok scanned
  obtain ⟨state, taken, -⟩ := Table.of_bind_eq_ok rest
  rw [takeIn_eq quiet.files] at taken
  obtain ⟨recorded, upserted, -⟩ := Table.of_bind_eq_ok taken
  exact ⟨found, recorded, discovered, upserted⟩

theorem Quiet.quiet_after (quiet : before.Quiet)
    (honest : Honest worker disk before.discovery.root) {report : ScanReport}
    (scanned : before.scanWith worker disk = .ok (after, report)) :
    after.Quiet ∧ after.discovery = before.discovery := by
  obtain ⟨found, recorded, discovered, upserted⟩ := quiet.exists_upserted scanned
  obtain ⟨after', report', again, quietAfter, place, -⟩ :=
    quiet.scanned honest discovered upserted
  rw [scanned] at again
  cases again
  exact ⟨quietAfter, place⟩

theorem Quiet.exists_scan (quiet : before.Quiet)
    (honest : Honest worker disk before.discovery.root) {report : ScanReport}
    (scanned : before.scanWith worker disk = .ok (after, report)) (clean : report.Clean) :
    Nonempty (Scan worker disk before after) := by
  obtain ⟨found, recorded, discovered, upserted⟩ := quiet.exists_upserted scanned
  obtain ⟨after', report', again, -, -, grows, taken⟩ := quiet.scanned honest discovered upserted
  rw [scanned] at again
  cases again
  exact taken _ ((forgotten_trimmed found before).deletions (clean.of_subset grows))

structure Settled (workspace : Workspace) : Prop extends Quiet workspace where
  ready : workspace.index.Ready

theorem honest_worker (disk : Disk) (workspace : Workspace) :
    Honest (workspace.worker disk) disk workspace.discovery.root :=
  Processing.honest disk workspace.discovery.root workspace.discovery.maxFileSize

theorem Settled.exists_scan (settled : before.Settled) {report : ScanReport}
    (scanned : before.scan disk = .ok (after, report)) :
    Nonempty (Scan (before.worker disk) disk before after) := by
  unfold scan at scanned
  obtain ⟨found, recorded, discovered, upserted⟩ := settled.toQuiet.exists_upserted scanned
  obtain ⟨after', report', again, -, -, -, taken⟩ :=
    settled.toQuiet.scanned (honest_worker disk before) discovered upserted
  rw [scanned] at again
  cases again
  obtain ⟨cleared, deletions⟩ := settled.ready.deletions _
  exact taken cleared deletions

theorem Settled.scan_ok (settled : before.Settled) {found : Discovered}
    (discovered : before.discovery.discover disk = .ok found)
    (fits : ∀ entry ∈ found.entries, entry.size ≤ maxInteger) :
    ∃ after report, before.scan disk = .ok (after, report) := by
  obtain ⟨recorded, upserted⟩ := FileIndex.foldlM_upsert_ok found.entries _ fits
  obtain ⟨after, report, scanned, -⟩ :=
    settled.toQuiet.scanned (honest_worker disk before) discovered upserted
  exact ⟨after, report, scanned⟩

end Workspace

end CodeGraph
