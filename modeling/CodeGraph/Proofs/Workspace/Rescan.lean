import CodeGraph.Proofs.Workspace.Fate
import CodeGraph.Proofs.Workspace.Reached

/-!
A second scan of the same files does nothing. Whatever became of a file in the first scan, its entry
says that the file is done with, and there are no entries but those of the files.

The worker is left open here: it may fail on any file for reasons of its own, and each scan may have
another one.
-/

set_option autoImplicit false

namespace CodeGraph.Workspace

open ChangeSet

variable {worker : Worker Stores} {disk : Disk} {before after : Workspace}

structure Recorded (files : FileIndex) (entries : List FileEntry) : Prop where
  rows : ∀ entry ∈ entries, ∃ old, files.row? entry.path = some (.ofEntry entry old)
  done : ∀ entry ∈ entries, ¬Unrecorded files.known entry ∧ ¬Withdraws files.known entry
  only : ∀ path, (files.row? path).isSome = true → path ∈ entries.map FileEntry.path

theorem Scan.done_after (scan : Scan worker disk before after) {entry : FileEntry}
    (member : entry ∈ scan.found.entries) :
    (∃ old, after.files.row? entry.path = some (.ofEntry entry old)) ∧
      ¬Unrecorded after.files.known entry ∧ ¬Withdraws after.files.known entry := by
  have sound := scan.quietAfter.files
  have only {other : FileEntry} (inside : other ∈ scan.found.entries)
      (same : other.path = entry.path) : other = entry :=
    scan.eq_of_path inside member same
  rw [sound.unrecorded_iff, sound.withdraws_iff]
  -- One case for each way a file can end; each of them leaves a stamp that the comparison reads.
  have fate := scan.fate entry.path
  generalize after.files.row? entry.path = row at fate
  cases fate with
  | gone missing idle => exact absurd (List.mem_map_of_mem member) missing
  | withdrawn other inside same withdraws idle =>
      obtain rfl := only inside same
      refine ⟨⟨none, rfl⟩, ?_, ?_⟩
      · simp [withdraws.1]
      · simp [FileRow.ofEntry]
  | kept other inside same recorded stays idle =>
      obtain rfl := only inside same
      rw [scan.quiet.files.unrecorded_iff] at recorded
      rw [scan.quiet.files.withdraws_iff] at stays
      refine ⟨⟨_, rfl⟩, ?_, ?_⟩
      · rintro ⟨available, dirty⟩
        apply recorded
        refine ⟨available, ?_⟩
        intro row found
        simpa [found, FileRow.ofEntry, FileRow.value, FileEntry.withHistory] using dirty
      · rintro ⟨unavailable, skipped, row, found, indexed⟩
        apply stays
        refine ⟨unavailable, skipped, ?_⟩
        obtain rfl := Option.some.inj found
        cases old : before.files.row? other.path with
        | none => simp [old, FileRow.ofEntry] at indexed
        | some row => exact ⟨row, rfl, by simpa [old, FileRow.ofEntry] using indexed⟩
  | failed other inside same dirty old unmarked reason =>
      obtain rfl := only inside same
      let row := (FileRow.ofEntry other old).failed other.hash
      refine ⟨⟨some row, rfl⟩, ?_, ?_⟩
      · rintro ⟨-, again⟩
        simp [FileRow.failed, FileRow.value, FileEntry.withHistory, FileEntry.isDirty] at again
      · simp [dirty.1]
  | indexed other inside same dirty accepted now =>
      obtain rfl := only inside same
      let row := (FileRow.ofEntry other (before.files.row? other.path)).indexed now other.hash
      refine ⟨⟨some row, rfl⟩, ?_, ?_⟩
      · rintro ⟨-, again⟩
        simp [FileRow.indexed, FileRow.value, FileEntry.withHistory, FileEntry.isDirty,
          FileEntry.wasIndexed] at again
      · simp [dirty.1]

theorem Scan.recorded_after (scan : Scan worker disk before after) :
    Recorded after.files scan.found.entries where
  rows entry member := (scan.done_after member).1
  done entry member := (scan.done_after member).2
  only := by
    intro path present
    have fate := scan.fate path
    generalize after.files.row? path = row at fate present
    cases fate with
    | gone missing idle => cases present
    | withdrawn other inside same withdraws idle => exact same ▸ List.mem_map_of_mem inside
    | kept other inside same recorded stays idle => exact same ▸ List.mem_map_of_mem inside
    | failed other inside same dirty old unmarked reason =>
        exact same ▸ List.mem_map_of_mem inside
    | indexed other inside same dirty accepted now => exact same ▸ List.mem_map_of_mem inside

theorem Recorded.diff_eq {files : FileIndex} {entries : List FileEntry}
    (recorded : Recorded files entries) :
    (diff entries files.known).dirty = [] ∧ (diff entries files.known).withdrawn = [] ∧
      (diff entries files.known).deleted = [] := by
  refine ⟨?_, ?_, ?_⟩
  · apply List.eq_nil_iff_forall_not_mem.mpr
    intro dirty member
    obtain ⟨entry, inside, unrecorded, -⟩ := of_mem_dirty_diff member
    exact (recorded.done entry inside).1 unrecorded
  · apply List.eq_nil_iff_forall_not_mem.mpr
    intro path member
    obtain ⟨entry, inside, -, withdraws⟩ := mem_withdrawn_diff.mp member
    exact (recorded.done entry inside).2 withdraws
  · apply List.eq_nil_iff_forall_not_mem.mpr
    intro path member
    obtain ⟨known, missing⟩ := mem_deleted_diff.mp member
    exact missing (recorded.only path (FileIndex.mem_paths_known.mp known))

theorem foldlM_upsert_self {files : FileIndex} (entries : List FileEntry)
    (rows : ∀ entry ∈ entries, ∃ old, files.row? entry.path = some (.ofEntry entry old))
    (fits : ∀ entry ∈ entries, entry.size ≤ maxInteger) :
    entries.foldlM FileIndex.upsert files = .ok files := by
  induction entries with
  | nil => rfl
  | cons entry rest ih =>
      obtain ⟨old, row⟩ := rows entry (List.mem_cons_self ..)
      have same : Table.put FileRow.path (.ofEntry entry (files.row? entry.path)) files.rows =
          files.rows := by
        apply Table.put_of_present
        rw [row]
        exact row
      rw [List.foldlM_cons, FileIndex.upsert_eq files (fits entry (List.mem_cons_self ..)), same]
      exact ih (fun other inside => rows other (List.mem_cons_of_mem _ inside))
        fun other inside => fits other (List.mem_cons_of_mem _ inside)

def Idle (report : ScanReport) : Prop :=
  report.new = 0 ∧ report.modified = 0 ∧ report.deleted = 0 ∧ report.enqueued = 0 ∧
    report.processed = 0 ∧ report.links = 0 ∧ report.failed = []

theorem scanWith_of_recorded {workspace : Workspace} (sound : workspace.files.Sound)
    {found : Discovered} (discovered : workspace.discovery.discover disk = .ok found)
    (recorded : Recorded workspace.files found.entries)
    (fits : ∀ entry ∈ found.entries, entry.size ≤ maxInteger) (worker : Worker Stores) :
    ∃ report, workspace.scanWith worker disk = .ok (workspace, report) ∧ Idle report := by
  obtain ⟨dirty, withdrawn, deleted⟩ := recorded.diff_eq
  have parts := List.append_eq_nil_iff.mp dirty
  have unchanged : (diff found.entries workspace.files.known).hasChanges = false := by
    simp [ChangeSet.hasChanges, parts.1, parts.2, withdrawn, deleted]
  have kept : trimmed found workspace =
      (workspace, started found (diff found.entries workspace.files.known)) := by
    simp only [trimmed, deleted, withdrawn, List.foldl_nil]
  have upserted := foldlM_upsert_self found.entries recorded.rows fits
  have taken : workspace.takeIn found = .ok (diff found.entries workspace.files.known, workspace,
      started found (diff found.entries workspace.files.known)) := by
    rw [takeIn_eq sound, kept]
    dsimp only
    rw [upserted, dirty]
    rfl
  simp only [scanWith, discovered, taken, bind, Except.bind, settle, dirty, List.map_nil,
    List.isEmpty_nil, if_true, List.foldlM_nil, unchanged]
  exact ⟨_, rfl, by simp [started, parts.1], by simp [started, parts.2], by simp [started, deleted],
    rfl, rfl, rfl, rfl⟩

/-- Once the files that are gone were cleaned up, scanning the same files again changes nothing and
reports that there was nothing to do, whatever the workers made of the files. -/
theorem rescan_is_idle {setup : Setup} (reached : Reached setup before)
    (honest : Honest worker disk setup.discovery.root) {report : ScanReport}
    (scanned : before.scanWith worker disk = .ok (after, report)) (clean : report.Clean)
    (other : Worker Stores) :
    ∃ report', after.scanWith other disk = .ok (after, report') ∧ Idle report' := by
  obtain ⟨quiet, same⟩ := reached.quiet
  obtain ⟨scan⟩ := quiet.exists_scan (same ▸ honest) scanned clean
  have discovered : after.discovery.discover disk = .ok scan.found := by
    rw [scan.discovery_eq]
    exact scan.discovered
  exact scanWith_of_recorded scan.quietAfter.files discovered scan.recorded_after
    (FileIndex.fits_of_foldlM_upsert _ scan.upserted) other

def failing : Worker Stores := fun _ queue state =>
  { queue, state, result := .error (.taskFailed "embedding failed") }

theorem honest_failing (disk : Disk) (root : List String) : Honest failing disk root where
  reports _ _ _ := ⟨[], rfl⟩
  sameRoot _ _ _ _ := rfl
  marks _ _ _ _ _ := rfl

set_option maxRecDepth 100000 in
theorem rescan_after_failure :
    let changed := Setup.sampleDisk [("a.js", "export const b = 2;\n")]
    let hidden := Setup.hiddenDisk "a.js"
    ∃ before middle after report report', Reached Setup.sample before ∧
      before.scanWith failing changed = .ok (middle, report) ∧ report.failed.length = 1 ∧
      (∃ again, middle.scanWith failing changed = .ok (middle, again) ∧ Idle again) ∧
      middle.scanWith failing hidden = .ok (after, report') ∧ report'.scanned = 1 ∧
      ∃ again, after.scanWith failing hidden = .ok (after, again) ∧ Idle again := by
  intro changed hidden
  let first := Setup.sampleDisk [("a.js", "export const a = 1;\n")]
  have ran : (Setup.sample.fresh.scan first).toOption.bind (fun before =>
      (before.1.scanWith failing changed).toOption.bind (fun middle =>
        (middle.1.scanWith failing hidden).toOption.map (fun after =>
          (middle.2.failed.length, middle.2.errors, after.2.scanned, after.2.errors)))) =
      some (1, [], 1, []) := by
    decide +kernel
  simp only [Option.bind_eq_some_iff, Option.map_eq_some_iff, Prod.mk.injEq,
    Table.toOption_eq_some] at ran
  obtain ⟨⟨before, _⟩, start, ⟨middle, report⟩, scanned, ⟨after, report'⟩, scanned', failed, errors,
    listed, errors'⟩ := ran
  have reached : Reached Setup.sample before :=
    .scan .fresh (honest_worker first Setup.sample.fresh) start
  have reached' : Reached Setup.sample middle := reached.scan (honest_failing _ _) scanned
  exact ⟨before, middle, after, report, report', reached, scanned, failed,
    rescan_is_idle reached (honest_failing _ _) scanned (ScanReport.clean_of_nil errors) failing,
    scanned', listed,
    rescan_is_idle reached' (honest_failing _ _) scanned' (ScanReport.clean_of_nil errors') failing⟩

end CodeGraph.Workspace
