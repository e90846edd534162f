import CodeGraph.Proofs.Discovery.Walk
import CodeGraph.Proofs.FileIndex.Decisions
import CodeGraph.Proofs.Workspace.Held
import CodeGraph.Proofs.Workspace.Reached

/-!
A scan and a single change come to a decision about a file in different ways: the scan compares what
it found with the entries that it knew, a single change looks at the entry that it has just written.

`carriedOut` says what a decision makes of what is held for a path. Both ways carry their decision
out, so they leave the same behind when they decide alike. They do so unless the file could not be
read and was indexed before: a scan leaves such a file alone, a single change withdraws it.
-/

set_option autoImplicit false

namespace CodeGraph

namespace Workspace

variable {workspace : Workspace}

def carriedOut (workspace : Workspace) (entry : FileEntry) (decision : Decision) : Held :=
  let row := workspace.files.row? entry.path
  let task := workspace.queue.table.at? entry.path
  { file := some (.ofEntry entry (if decision = .withdrawn then row.map FileIndex.forget else row))
    task :=
      if decision = .withdrawn then none
      else if decision.isDirty then
        some (TaskTable.asked workspace.queue.settings.maxRetries (request entry) task)
      else task.map TaskRow.unnamed
    stored := if decision = .withdrawn then {} else workspace.index.storedAt entry.path }

theorem request_of_dirty {current known : List FileEntry}
    (unique : Table.Unique FileEntry.path current) {entry dirty : FileEntry}
    (listed : entry ∈ current) (member : dirty ∈ (diff current known).dirty)
    (same : dirty.path = entry.path) : request dirty = request entry := by
  obtain ⟨other, inside, -, content⟩ := of_mem_dirty_diff member
  obtain rfl := List.inj_on_of_nodup_map unique inside listed (content.path.symm.trans same)
  simp only [request, content.path, content.hash, content.size]

section Listed

variable {current : List FileEntry} (unique : Table.Unique FileEntry.path current)
  {entry : FileEntry} (listed : entry ∈ current)

include unique listed

theorem mem_withdrawn_iff (files : workspace.files.Sound) :
    entry.path ∈ (diff current workspace.files.known).withdrawn ↔
      ChangeSet.judge ((workspace.files.row? entry.path).map FileRow.value) entry = .withdrawn := by
  rw [← files.get?_known entry.path]
  exact ChangeSet.mem_decided_diff unique listed (by decide : Decision.withdrawn ≠ .nothing)

theorem task_asked (files : workspace.files.Sound) {cleared table : TaskTable}
    (removed : cleared.at? entry.path =
      if ChangeSet.judge ((workspace.files.row? entry.path).map FileRow.value) entry = .withdrawn
      then none else workspace.queue.table.at? entry.path)
    (asked : ∀ dirty ∈ (diff current workspace.files.known).dirty,
      (table.at? dirty.path).map TaskRow.unnamed =
        some (TaskTable.asked workspace.queue.settings.maxRetries (request dirty)
          (cleared.at? dirty.path)))
    (others : ∀ path, path ∉ (diff current workspace.files.known).dirty.map FileEntry.path →
      table.at? path = cleared.at? path) :
    (table.at? entry.path).map TaskRow.unnamed =
      (workspace.carriedOut entry
        (ChangeSet.judge ((workspace.files.row? entry.path).map FileRow.value) entry)).task := by
  have dirty := @ChangeSet.mem_dirty_diff workspace.files.known _ unique entry listed
  rw [files.get?_known entry.path] at dirty
  dsimp only [carriedOut]
  by_cases asks : entry.path ∈ (diff current workspace.files.known).dirty.map FileEntry.path
  · obtain ⟨other, inside, same⟩ := List.mem_map.mp asks
    have row := asked other inside
    rw [same, request_of_dirty unique listed inside same] at row
    have isDirty := dirty.mp asks
    -- Dirty content is not withdrawn, so the task was not taken away before it was asked for.
    have stays : ChangeSet.judge ((workspace.files.row? entry.path).map FileRow.value) entry ≠
        .withdrawn := by
      intro withdrawn
      rw [withdrawn] at isDirty
      cases isDirty
    rw [if_neg stays, if_pos isDirty, row, removed, if_neg stays]
  · rw [others _ asks, if_neg (dirty.not.mp asks), removed]
    split <;> rfl

end Listed

theorem takeIn_carriedOut (files : workspace.files.Sound) (tasks : workspace.queue.table.Sound)
    (ready : workspace.index.Ready) (bounded : workspace.queue.settings.maxRetries ≤ maxCount)
    {found : Discovered} (unique : Table.Unique FileEntry.path found.entries)
    (fits : ∀ entry ∈ found.entries, entry.size ≤ maxInteger) {entry : FileEntry}
    (listed : entry ∈ found.entries) :
    ∃ scanned report, workspace.takeIn found =
        .ok (diff found.entries workspace.files.known, scanned, report) ∧
      scanned.index = (trimmed found workspace).1.index ∧
      scanned.holding entry.path = workspace.carriedOut entry
        (ChangeSet.judge ((workspace.files.row? entry.path).map FileRow.value) entry) := by
  let changes := diff found.entries workspace.files.known
  let forgotten := changes.deleted ++ changes.withdrawn
  obtain ⟨cleared, deletions⟩ := ready.deletions forgotten
  have forgot := trimmed_eq deletions
  obtain ⟨recorded, upserted⟩ := FileIndex.foldlM_upsert_ok found.entries
    (changes.withdrawn.foldl FileIndex.clearIndexed
      (changes.deleted.foldl FileIndex.remove workspace.files)) fits
  have rows := (FileIndex.foldlM_upsert found.entries
    ((files.foldl_remove changes.deleted).foldl_clearIndexed changes.withdrawn)
    (fun a first b second same => List.inj_on_of_nodup_map unique first second same)
    upserted).2.1 entry listed
  let walked : Workspace := { workspace with
    index := cleared, files := recorded
    queue := { workspace.queue with table := workspace.queue.table.removeAll forgotten } }
  obtain ⟨table, report, enqueued, asked, others⟩ := @enqueueAll_asked walked changes.dirty
    (started found changes) (tasks.removeAll forgotten) bounded (ChangeSet.unique_dirty_diff unique)
  refine ⟨{ walked with queue := { walked.queue with table } }, report, ?_, ?_, ?_⟩
  · refine @takeIn_ok workspace files found recorded ?_ _ ?_
    · rw [forgot]
      exact upserted
    · rw [forgot]
      exact enqueued
  · rw [forgot]
    rfl
  · -- A walk lists the path, so it is withdrawn or stays; it is never among those that are gone.
    have present : entry.path ∉ changes.deleted := fun gone =>
      (mem_deleted_diff.mp gone).2 (List.mem_map_of_mem listed)
    have withdrawn := mem_withdrawn_iff unique listed files
    have gone := List.mem_append.trans ((or_iff_right present).trans withdrawn)
    have removed := TaskTable.at?_removeAll workspace.queue.table forgotten entry.path
    simp only [forgotten, changes, gone] at removed
    simp only [holding, carriedOut, Held.mk.injEq]
    refine ⟨?_, task_asked unique listed files removed asked others, ?_⟩
    · rw [rows, FileIndex.row?_foldl_clearIndexed, FileIndex.row?_foldl_remove, if_neg present]
      simp only [changes, withdrawn]
    · rw [deletions.storedAt ready]
      simp only [forgotten, changes, gone]

/-- What a single change decides about an entry, given the known entry of its path. -/
def judgeSingle (previous : Option FileEntry) (entry : FileEntry) : Decision :=
  if entry.available then ChangeSet.judge previous entry
  else if previous.any FileEntry.wasIndexed then .withdrawn
  else .nothing

def Applying.decision (state : Applying) : Decision :=
  if state.report.new ≠ 0 then .new
  else if state.report.modified ≠ 0 then .modified
  else if state.report.unchanged ≠ 0 then .unchanged
  else if state.changed then .withdrawn
  else .nothing

theorem get_eq {files : FileIndex} (sound : files.Sound) (path : String) :
    files.get path = .ok ((files.row? path).map FileRow.value) := by
  rw [FileIndex.get]
  cases found : files.row? path with
  | none => rfl
  | some row =>
      have known := sound.rows row (sound.row?_eq_some.mp found).1
      simp [known.entry_eq]

theorem forget_ofEntry (entry : FileEntry) (old : Option FileRow) :
    FileIndex.forget (.ofEntry entry old) = .ofEntry entry (old.map FileIndex.forget) := by
  cases old <;> rfl

theorem judgeSingle_eq (entry : FileEntry) (old : Option FileRow) :
    judgeSingle (old.map FileRow.value) entry =
      let current := (FileRow.ofEntry entry old).value
      if !current.available then if current.wasIndexed then .withdrawn else .nothing
      else if current.isDirty then
        if (old.map FileRow.value).any FileEntry.wasIndexed then .modified else .new
      else .unchanged := by
  cases old with
  | none =>
      cases available : entry.available <;>
        simp [judgeSingle, ChangeSet.judge, FileRow.ofEntry, FileRow.value, FileEntry.wasIndexed,
          FileEntry.isDirty, available]
  | some row =>
      have same : (entry.withHistory row.value).isDirty =
          (FileRow.ofEntry entry (some row)).value.isDirty := rfl
      have stays : (FileRow.ofEntry entry (some row)).value.available = entry.available := rfl
      have indexed : (FileRow.ofEntry entry (some row)).value.wasIndexed = row.value.wasIndexed :=
        rfl
      simp only [judgeSingle, ChangeSet.judge, same, stays, indexed, Option.map_some,
        Option.any_some]
      cases entry.available <;> cases (FileRow.ofEntry entry (some row)).value.isDirty <;>
        by_cases known : row.value.wasIndexed = true <;> simp [known]

theorem applyEntry_carriedOut (files : workspace.files.Sound) (tasks : workspace.queue.table.Sound)
    (ready : workspace.index.Ready) (bounded : workspace.queue.settings.maxRetries ≤ maxCount)
    {entry : FileEntry} (fits : entry.size ≤ maxInteger) :
    ∃ applied, applyEntry { workspace } entry = .ok applied ∧
      applied.decision =
        judgeSingle ((workspace.files.row? entry.path).map FileRow.value) entry ∧
      applied.workspace.holding entry.path = workspace.carriedOut entry applied.decision ∧
      applied.workspace.index =
        if applied.decision = .withdrawn then (workspace.index.deleteFile entry.path).1
        else workspace.index := by
  obtain ⟨written, upserted⟩ : ∃ written, workspace.files.upsert entry = .ok written :=
    ⟨_, FileIndex.upsert_eq workspace.files fits⟩
  have rows := FileIndex.row?_upsert upserted entry.path
  rw [if_pos rfl] at rows
  have read := get_eq (files.upsert upserted) entry.path
  rw [rows, Option.map_some] at read
  -- What is held for the path if the file is not withdrawn.
  have held {after : Workspace} {decision : Decision} (stays : decision ≠ .withdrawn)
      (sameFiles : after.files = written) (sameIndex : after.index = workspace.index)
      (task : (after.queue.table.at? entry.path).map TaskRow.unnamed =
        (workspace.carriedOut entry decision).task) :
      after.holding entry.path = workspace.carriedOut entry decision := by
    simp only [holding, sameFiles, rows, sameIndex, task]
    simp only [carriedOut, if_neg stays]
  rw [judgeSingle_eq]
  simp only [applyEntry, get_eq files entry.path, upserted, read, bind, Except.bind]
  -- The entry that was read back asks for the same content as the one that was written.
  have asks : request (FileRow.ofEntry entry (workspace.files.row? entry.path)).value =
      request entry := rfl
  have path : (FileRow.ofEntry entry (workspace.files.row? entry.path)).value.path = entry.path :=
    rfl
  generalize (FileRow.ofEntry entry (workspace.files.row? entry.path)).value = current at *
  generalize ((workspace.files.row? entry.path).map FileRow.value).any FileEntry.wasIndexed =
    known at *
  by_cases available : current.available = true
  · by_cases dirty : current.isDirty = true
    · obtain ⟨table, scheduled, enqueued, -, asked, -⟩ :=
        @enqueue_asked { workspace with files := written } tasks bounded current
      rw [path, asks] at asked
      simp only [available, dirty, Bool.not_true, Bool.false_eq_true, if_false, if_true,
        enqueueAll, enqueued, bind, Except.bind]
      refine ⟨_, rfl, ?_, held ?_ rfl rfl ?_, ?_⟩ <;> cases known <;>
        simp [Applying.decision, carriedOut, Decision.isDirty, asked]
    · simp only [available, dirty, Bool.not_true, Bool.false_eq_true, if_false]
      refine ⟨_, rfl, ?_, held ?_ rfl rfl ?_, ?_⟩ <;>
        simp [Applying.decision, carriedOut, Decision.isDirty]
  · by_cases indexed : current.wasIndexed = true
    · obtain ⟨after, deleted, forgot⟩ := CodeIndex.deleteFile_ok ready entry.path
      simp only [available, indexed, Bool.not_false, if_true, withdraw, deleted]
      refine ⟨_, rfl, by simp [Applying.decision], ?_, by simp [Applying.decision]⟩
      have cleared := FileIndex.row?_clearIndexed written entry.path entry.path
      rw [if_pos rfl, rows] at cleared
      have removed := TaskTable.at?_removePath workspace.queue.table entry.path entry.path
      rw [if_pos rfl] at removed
      have stored := forgot.storedAt ready entry.path
      rw [if_pos rfl] at stored
      simp only [holding, cleared, Queue.removePath, removed, stored, Option.map_some,
        forget_ofEntry]
      simp [Applying.decision, carriedOut]
    · simp only [available, indexed, Bool.not_false, if_true, Bool.false_eq_true, if_false]
      refine ⟨_, rfl, ?_, held ?_ rfl rfl ?_, ?_⟩ <;>
        simp [Applying.decision, carriedOut, Decision.isDirty]

theorem invalidate_of_language {path : String} {language : Language}
    (known : Language.ofPath? path = some language) (cache : PackageCache) :
    cache.invalidate path = cache := by
  have none (name : String) (listed : name ∈ Manifest.fileName :: Lockfile.fileNames) :
      (Text.splitLast '.' name.toList).bind (fun parts =>
        if parts.1.isEmpty then Option.none else Language.ofExtension? (String.ofList parts.2)) =
          Option.none := by
    revert name
    decide
  -- No language has the extension of a lockfile or a manifest.
  have other (name : String) (listed : name ∈ Manifest.fileName :: Lockfile.fileNames) :
      Path.fileName? path ≠ some name := by
    intro named
    have missing := none name listed
    simp only [Language.ofPath?, Path.extension?, named, bind, Option.bind_some] at known
    cases split : Text.splitLast '.' name.toList with
    | none => simp [split] at known
    | some parts =>
        by_cases bare : parts.1.isEmpty = true <;> simp_all
  unfold PackageCache.invalidate PackageCache.invalidate?
  cases named : Path.fileName? path with
  | none => rfl
  | some name =>
      have unlisted : name ∉ Manifest.fileName :: Lockfile.fileNames :=
        fun listed => other name listed named
      simp only [List.mem_cons, not_or] at unlisted
      simp [unlisted]

theorem applyPath_eq {disk : Disk} {path : String} {entry : FileEntry}
    (inspected : workspace.discovery.inspect disk path = .ok (some entry))
    (watched : workspace.discovery.isIgnored entry.path = false)
    (present : (disk.find path).isOk = true) :
    applyPath disk { workspace } path = applyEntry { workspace } entry := by
  obtain ⟨relative, language, -⟩ := Discovery.inspect_cases inspected
  obtain ⟨language, known⟩ := Option.isSome_iff_exists.mp language
  simp only [applyPath, invalidate_of_language known, relative, watched, present, inspected,
    Bool.not_true, Bool.false_eq_true, if_false]

theorem apply_singleton (disk : Disk) (workspace : Workspace) (path : String) :
    workspace.apply disk [path] = (do
      let state ← applyPath disk { workspace } path
      settle (workspace.worker disk) disk state.dirty.reverse state.changed
        (state.workspace, state.report)) := by
  simp only [apply, List.foldlM_cons, List.foldlM_nil, bind_pure]

/-- Whether a file that was indexed before cannot be read. -/
def LostSight (workspace : Workspace) (entry : FileEntry) : Prop :=
  entry.available = false ∧ entry.hashStatus = .failed ∧
    ∃ row, workspace.files.row? entry.path = some row ∧ row.lastIndexedAt.isSome = true

theorem judge_eq_judgeSingle {entry : FileEntry}
    (inspected : entry.available = true ∨ entry.hashStatus = .skipped ∨
      entry.hashStatus = .failed) (seen : ¬workspace.LostSight entry) :
    ChangeSet.judge ((workspace.files.row? entry.path).map FileRow.value) entry =
      judgeSingle ((workspace.files.row? entry.path).map FileRow.value) entry := by
  unfold judgeSingle
  cases available : entry.available with
  | true => rw [if_pos rfl]
  | false =>
      cases found : workspace.files.row? entry.path with
      | none => simp [ChangeSet.judge, available]
      | some row =>
          rcases inspected with here | skipped | failed
          · cases available.symm.trans here
          · simp [ChangeSet.judge, available, skipped]
          · have unindexed : row.value.wasIndexed = false := by
              rw [Bool.eq_false_iff]
              exact fun indexed => seen ⟨available, failed, row, found, indexed⟩
            simp [ChangeSet.judge, available, unindexed]

theorem LostSight.judged {entry : FileEntry} (lost : workspace.LostSight entry) :
    ChangeSet.judge ((workspace.files.row? entry.path).map FileRow.value) entry = .nothing ∧
      judgeSingle ((workspace.files.row? entry.path).map FileRow.value) entry = .withdrawn := by
  obtain ⟨available, failed, row, found, indexed⟩ := lost
  have known : row.value.wasIndexed = true := indexed
  simp [ChangeSet.judge, judgeSingle, found, available, failed, known]

theorem index_of_forgotten {changes : ChangeSet} {path : String} (start : ScanReport)
    (ready : workspace.index.Ready) (distinct : changes.withdrawn.Nodup)
    (none : changes.deleted = []) (only : ∀ other ∈ changes.withdrawn, other = path) :
    (changes.withdrawn.foldl withdraw (changes.deleted.foldl remove (workspace, start))).1.index =
      if path ∈ changes.withdrawn then (workspace.index.deleteFile path).1
      else workspace.index := by
  rw [none, List.foldl_nil]
  match listed : changes.withdrawn with
  | [] => rfl
  | [first] =>
      obtain rfl := only first (by simp [listed])
      obtain ⟨after, deleted, -⟩ := CodeIndex.deleteFile_ok ready first
      simp [withdraw, deleted]
  | first :: second :: rest =>
      have one := only first (by simp [listed])
      have two := only second (by simp [listed])
      rw [listed, one, two] at distinct
      simp at distinct

/-- A scan and a single change decide alike about a file and leave the same behind for it, unless
the file was indexed before and cannot be read. What the scan decides does not depend on the other
files that it found; if it forgets none of the others, both leave the same index. -/
theorem scan_decides_like_single (workspace : Workspace) (files : workspace.files.Sound)
    (tasks : workspace.queue.table.Sound) (ready : workspace.index.Ready)
    (bounded : workspace.queue.settings.maxRetries ≤ maxCount) (disk : Disk) (path : String)
    {entry : FileEntry} (inspected : workspace.discovery.inspect disk path = .ok (some entry))
    (watched : workspace.discovery.isIgnored entry.path = false)
    (present : (disk.find path).isOk = true) (found : Discovered)
    (unique : Table.Unique FileEntry.path found.entries)
    (fits : ∀ entry ∈ found.entries, entry.size ≤ maxInteger) (listed : entry ∈ found.entries) :
    ∃ changes scanned report applied,
      workspace.takeIn found = .ok (changes, scanned, report) ∧
      applyPath disk { workspace } path = .ok applied ∧
      changes.decision entry.path = (diff [entry] workspace.files.known).decision entry.path ∧
      (¬workspace.LostSight entry → changes.decision entry.path = applied.decision ∧
        scanned.holding entry.path = applied.workspace.holding entry.path ∧
        (changes.deleted = [] → (∀ other ∈ changes.withdrawn, other = entry.path) →
          scanned.index = applied.workspace.index)) ∧
      (workspace.LostSight entry →
        changes.decision entry.path = .nothing ∧ applied.decision = .withdrawn) := by
  obtain ⟨scanned, report, taken, index, held⟩ :=
    takeIn_carriedOut files tasks ready bounded unique fits listed
  obtain ⟨applied, written, decision, held', index'⟩ :=
    applyEntry_carriedOut files tasks ready bounded (fits entry listed)
  -- Both decisions are read off the known entry of the path.
  have judged := @ChangeSet.decision_diff workspace.files.known _ unique entry listed
  have alone := @ChangeSet.decision_diff workspace.files.known [entry]
    (by simp [Table.Unique]) entry (List.mem_singleton_self entry)
  rw [files.get?_known] at judged alone
  refine ⟨_, scanned, report, applied, taken, ?_, judged.trans alone.symm, ?_, ?_⟩
  · rw [applyPath_eq inspected watched present]
    exact written
  · intro seen
    have alike := judge_eq_judgeSingle (Discovery.inspect_cases inspected).2.2 seen
    rw [alike, ← decision] at judged held
    refine ⟨judged, held.trans held'.symm, ?_⟩
    intro none only
    have withdrawn := mem_withdrawn_iff unique listed files
    rw [alike, ← decision] at withdrawn
    rw [index, trimmed, index_of_forgotten _ ready (ChangeSet.nodup_withdrawn_diff unique) none
      only, index']
    simp only [← withdrawn]
  · intro lost
    rw [judged, decision]
    exact lost.judged

def once : Workspace :=
  { Setup.sample.fresh with
    discovery := { Setup.sample.discovery with maxFileSize := 5000 }
    files := .run [.upsert { path := "a.js", hash := "h" }, .markIndexed "0" "a.js" "h"] }

def replacedDisk : Disk :=
  { entries := [(["w"], .directory), (["w", "a.js"], .directory)] }

def unreadable : FileEntry :=
  { path := "a.js", available := false, size := 4096, hash := "", hashStatus := .failed
    language := some "javascript" }

/-- A directory with the name of a file that was indexed: a single change takes the file out of the
index, although a comparison with what was found says that nothing is to be done. -/
theorem unreadable_file_is_withdrawn :
    ∃ changes scanned report applied,
      once.takeIn { entries := [unreadable] } = .ok (changes, scanned, report) ∧
      applyPath replacedDisk { workspace := once } "/w/a.js" = .ok applied ∧
      changes.decision "a.js" = .nothing ∧ applied.decision = .withdrawn := by
  have inspected : once.discovery.inspect replacedDisk "/w/a.js" = .ok (some unreadable) := by
    decide
  obtain ⟨changes, scanned, report, applied, taken, written, -, -, differ⟩ :=
    scan_decides_like_single once (FileIndex.sound_run _) (TaskTable.empty_sound 0)
      Setup.sample.ready_fresh (by decide) replacedDisk "/w/a.js" inspected (by decide +kernel)
      (by decide) { entries := [unreadable] } (by simp [Table.Unique]) (by decide) (by decide)
  refine ⟨changes, scanned, report, applied, taken, written, differ ?_⟩
  exact ⟨rfl, rfl, _, rfl, by decide⟩

end Workspace

end CodeGraph
