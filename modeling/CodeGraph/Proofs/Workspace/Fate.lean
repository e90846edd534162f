import CodeGraph.Proofs.Workspace.Scan

set_option autoImplicit false

namespace CodeGraph.Workspace

open ChangeSet

variable {worker : Worker Stores} {disk : Disk} {before after : Workspace}

namespace Scan

variable (scan : Scan worker disk before after)

def paths : List String :=
  scan.log.map Prod.fst

def Accepted (path : String) : Prop :=
  ∃ outcome, (path, outcome) ∈ scan.log ∧
    Queue.accepts before.queue.settings.emptyOutput outcome = true

def Refused (path : String) : Prop :=
  ∃ outcome, (path, outcome) ∈ scan.log ∧
    Queue.accepts before.queue.settings.emptyOutput outcome = false

theorem mem_paths {path : String} {outcome : Option Nat} (listed : (path, outcome) ∈ scan.log) :
    path ∈ scan.paths :=
  List.mem_map_of_mem listed

variable {scan} in
theorem Accepted.mem_paths {path : String} (accepted : scan.Accepted path) : path ∈ scan.paths :=
  let ⟨_, listed, _⟩ := accepted
  scan.mem_paths listed

variable {scan} in
theorem Refused.mem_paths {path : String} (refused : scan.Refused path) : path ∈ scan.paths :=
  let ⟨_, listed, _⟩ := refused
  scan.mem_paths listed

theorem eq_of_path {a b : FileEntry} (first : a ∈ scan.found.entries)
    (second : b ∈ scan.found.entries) (same : a.path = b.path) : a = b :=
  scan.quiet.consistent scan.discovered a first b second same

theorem mem_dirty {path : String} :
    path ∈ scan.changes.dirty.map FileEntry.path ↔
      ∃ entry ∈ scan.found.entries, entry.path = path ∧ Unrecorded before.files.known entry := by
  rw [scan.compared, List.mem_map]
  constructor
  · rintro ⟨dirty, member, rfl⟩
    obtain ⟨entry, inside, unrecorded, same⟩ := of_mem_dirty_diff member
    exact ⟨entry, inside, same.path.symm, unrecorded⟩
  · rintro ⟨entry, inside, rfl, unrecorded⟩
    obtain ⟨dirty, member, same⟩ := exists_dirty_diff inside unrecorded
    exact ⟨dirty, member, same.path⟩

theorem mem_withdrawn {path : String} :
    path ∈ scan.changes.withdrawn ↔
      ∃ entry ∈ scan.found.entries, entry.path = path ∧ Withdraws before.files.known entry := by
  rw [scan.compared]
  exact mem_withdrawn_diff

theorem mem_deleted {path : String} :
    path ∈ scan.changes.deleted ↔
      (before.files.row? path).isSome = true ∧ path ∉ scan.found.entries.map FileEntry.path := by
  rw [scan.compared, mem_deleted_diff, FileIndex.mem_paths_known]

theorem not_deleted {entry : FileEntry} (member : entry ∈ scan.found.entries) :
    entry.path ∉ scan.changes.deleted := by
  rw [scan.mem_deleted]
  exact fun gone => gone.2 (List.mem_map_of_mem member)

theorem dirty_iff {entry : FileEntry} (member : entry ∈ scan.found.entries) :
    entry.path ∈ scan.changes.dirty.map FileEntry.path ↔ Unrecorded before.files.known entry := by
  rw [scan.mem_dirty]
  constructor
  · rintro ⟨other, inside, same, unrecorded⟩
    rwa [scan.eq_of_path inside member same] at unrecorded
  · exact fun unrecorded => ⟨entry, member, rfl, unrecorded⟩

theorem withdrawn_iff {entry : FileEntry} (member : entry ∈ scan.found.entries) :
    entry.path ∈ scan.changes.withdrawn ↔ Withdraws before.files.known entry := by
  rw [scan.mem_withdrawn]
  constructor
  · rintro ⟨other, inside, same, withdraws⟩
    rwa [scan.eq_of_path inside member same] at withdraws
  · exact fun withdraws => ⟨entry, member, rfl, withdraws⟩

theorem row?_recorded {entry : FileEntry} (member : entry ∈ scan.found.entries) :
    scan.recorded.row? entry.path = some (.ofEntry entry
      (if entry.path ∈ scan.changes.withdrawn then none else before.files.row? entry.path)) := by
  obtain ⟨-, found, -⟩ := FileIndex.foldlM_upsert scan.found.entries
    ((scan.quiet.files.foldl_remove _).foldl_clearIndexed _)
    (scan.quiet.consistent scan.discovered) scan.upserted
  rw [found entry member, FileIndex.row?_foldl_clearIndexed, FileIndex.row?_foldl_remove,
    if_neg (scan.not_deleted member)]
  by_cases withdrawn : entry.path ∈ scan.changes.withdrawn
  · rw [if_pos withdrawn, if_pos withdrawn]
    cases before.files.row? entry.path <;> rfl
  · rw [if_neg withdrawn, if_neg withdrawn]

theorem row?_recorded_gone {path : String}
    (missing : path ∉ scan.found.entries.map FileEntry.path) : scan.recorded.row? path = none := by
  obtain ⟨-, -, kept⟩ := FileIndex.foldlM_upsert scan.found.entries
    ((scan.quiet.files.foldl_remove _).foldl_clearIndexed _)
    (scan.quiet.consistent scan.discovered) scan.upserted
  rw [kept path missing, FileIndex.row?_foldl_clearIndexed, FileIndex.row?_foldl_remove]
  have gone : (if path ∈ scan.changes.deleted then none else before.files.row? path) = none := by
    split
    next => rfl
    next present =>
      rw [scan.mem_deleted] at present
      by_contra some
      exact present ⟨by simpa [Option.isSome_iff_ne_none] using some, missing⟩
  rw [gone]
  split <;> rfl

theorem pending_dirty {row : TaskRow} (member : row ∈ scan.table.rows)
    (pending : row.hasStatus .pending = true) :
    row.path ∈ scan.changes.dirty.map FileEntry.path := by
  by_contra clean
  have kept := scan.others row.path clean
  rw [scan.unused.sound.at?_eq_some.mpr ⟨member, rfl⟩] at kept
  have old := scan.quiet.unused.removeAll (scan.changes.deleted ++ scan.changes.withdrawn)
  have inside := TaskTable.mem_removeAll (old.sound.at?_eq_some.mp kept.symm).1
  rcases scan.quiet.done row inside with completed | failed
  · exact absurd (TaskRow.status_unique pending completed) (by decide)
  · exact absurd (TaskRow.status_unique pending failed) (by decide)

theorem paths_dirty {path : String} (member : path ∈ scan.paths) :
    path ∈ scan.changes.dirty.map FileEntry.path := by
  obtain ⟨row, inside, pending, rfl⟩ := (scan.processed.exact path).mp member
  exact scan.pending_dirty inside pending

theorem task_of_dirty {entry : FileEntry} (member : entry ∈ scan.found.entries)
    (unrecorded : Unrecorded before.files.known entry) :
    ∃ row, scan.table.at? entry.path = some row ∧ row.hash = entry.hash ∧
      (row.hasStatus .pending = true ∧ entry.path ∈ scan.paths ∨
        row.hasStatus .failed = true ∧ row ∈ before.queue.table.rows ∧
          entry.path ∉ scan.paths) := by
  obtain ⟨dirty, inside, same⟩ : ∃ dirty ∈ scan.changes.dirty, SameContent entry dirty := by
    rw [scan.compared]
    exact exists_dirty_diff member unrecorded
  obtain ⟨row, found, hash, waits⟩ := scan.queued dirty inside
  rw [same.path] at found waits
  refine ⟨row, found, hash.trans same.hash, ?_⟩
  obtain ⟨present, path⟩ := scan.unused.sound.at?_eq_some.mp found
  rcases waits with pending | ⟨failed, old⟩
  · exact .inl ⟨pending, (scan.processed.exact entry.path).mpr ⟨row, present, pending, path⟩⟩
  · have unused := scan.quiet.unused.removeAll (scan.changes.deleted ++ scan.changes.withdrawn)
    refine .inr ⟨failed, TaskTable.mem_removeAll (unused.sound.at?_eq_some.mp old).1, ?_⟩
    intro processed
    obtain ⟨other, inside', pending, path'⟩ := (scan.processed.exact entry.path).mp processed
    have again := scan.unused.sound.at?_eq_some.mpr ⟨inside', path'⟩
    rw [found] at again
    rw [← Option.some.inj again] at pending
    exact absurd (TaskRow.status_unique pending failed) (by decide)

theorem task_rested {path : String} {row : TaskRow} (found : scan.table.at? path = some row) :
    ∃ last, scan.rested.queue.table.at? path = some last ∧
      Queue.Follows before.queue.settings.emptyOutput scan.log row last ∧
      (last.hasStatus .completed = true ∨ last.hasStatus .failed = true) := by
  obtain ⟨member, rfl⟩ := scan.unused.sound.at?_eq_some.mp found
  obtain ⟨index, bound, rfl⟩ := List.mem_iff_getElem.mp member
  have rows := scan.processed.rows
  have later : index < scan.rested.queue.table.rows.length := rows.length_eq ▸ bound
  have follows := rows.get bound later
  have inside := List.getElem_mem later
  refine ⟨scan.rested.queue.table.rows[index], ?_, follows, scan.processed.done _ inside⟩
  exact scan.processed.unused.sound.at?_eq_some.mpr ⟨inside, follows.same.path⟩

theorem task_waiting {row : TaskRow} (member : row ∈ after.queue.table.rows) :
    ∃ first ∈ scan.table.rows,
      Queue.Follows before.queue.settings.emptyOutput scan.log first row := by
  rw [scan.lastQueue] at member
  obtain ⟨index, bound, rfl⟩ := List.mem_iff_getElem.mp member
  have rows := scan.processed.rows
  have earlier : index < scan.table.rows.length := rows.length_eq ▸ bound
  exact ⟨scan.table.rows[index], List.getElem_mem earlier, rows.get earlier bound⟩

theorem completed_of_paths {path : String} (processed : path ∈ scan.paths)
    (accepted : ¬scan.Refused path) {row : TaskRow} (member : row ∈ after.queue.table.rows)
    (same : row.path = path) : row.hasStatus .completed = true := by
  obtain ⟨first, inside, pending, rfl⟩ := (scan.processed.exact path).mp processed
  obtain ⟨last, found, follows, done⟩ :=
    scan.task_rested (scan.unused.sound.at?_eq_some.mpr ⟨inside, rfl⟩)
  rw [scan.lastQueue] at member
  rw [scan.processed.unused.sound.at?_eq_some.mpr ⟨member, same⟩] at found
  obtain rfl := Option.some.inj found
  rcases done with completed | failed
  · exact completed
  · exact absurd (follows.failed pending failed) accepted

inductive Fate (path : String) : Option FileRow → Prop
  | gone (missing : path ∉ scan.found.entries.map FileEntry.path) (idle : path ∉ scan.paths) :
      Fate path none
  | withdrawn (entry : FileEntry) (member : entry ∈ scan.found.entries) (same : entry.path = path)
      (withdraws : Withdraws before.files.known entry) (idle : path ∉ scan.paths) :
      Fate path (some (.ofEntry entry none))
  | kept (entry : FileEntry) (member : entry ∈ scan.found.entries) (same : entry.path = path)
      (recorded : ¬Unrecorded before.files.known entry)
      (stays : ¬Withdraws before.files.known entry) (idle : path ∉ scan.paths) :
      Fate path (some (.ofEntry entry (before.files.row? path)))
  | failed (entry : FileEntry) (member : entry ∈ scan.found.entries) (same : entry.path = path)
      (dirty : Unrecorded before.files.known entry) (old : Option FileRow)
      (unmarked : (∀ count, (path, some (count + 1)) ∉ scan.log) → old = before.files.row? path)
      (reason : scan.Refused path ∨ path ∉ scan.paths ∧ ∃ row ∈ before.queue.table.rows,
        row.path = path ∧ row.hasStatus .failed = true) :
      Fate path (some ((FileRow.ofEntry entry old).failed entry.hash))
  | indexed (entry : FileEntry) (member : entry ∈ scan.found.entries) (same : entry.path = path)
      (dirty : Unrecorded before.files.known entry) (accepted : scan.Accepted path)
      (now : String) :
      Fate path (some ((FileRow.ofEntry entry (before.files.row? path)).indexed now entry.hash))

theorem marked :
    Marked disk before.discovery.root scan.log scan.recorded scan.rested.files :=
  (scan.processed.marked scan.waiting scan.honest).2

theorem eq_of_hashes {entry : FileEntry} (member : entry ∈ scan.found.entries)
    (available : entry.available = true) {hash : String}
    (hashes : disk.Hashes before.discovery.root entry.path hash) : hash = entry.hash := by
  obtain ⟨bytes, content, -, -, same⟩ :=
    (scan.quiet.finds scan.discovered member).content scan.quiet.root available
  rw [hashes bytes content, same]

theorem row?_rested {entry : FileEntry} (member : entry ∈ scan.found.entries)
    (dirty : Unrecorded before.files.known entry) :
    (∀ count, (entry.path, some (count + 1)) ∉ scan.log) ∧
      scan.rested.files.row? entry.path =
        some (.ofEntry entry (before.files.row? entry.path)) ∨
    (∃ count, (entry.path, some (count + 1)) ∈ scan.log) ∧
      ∃ now, scan.rested.files.row? entry.path =
        some ((FileRow.ofEntry entry (before.files.row? entry.path)).indexed now entry.hash) := by
  have stays : entry.path ∉ scan.changes.withdrawn := by
    rw [scan.withdrawn_iff member]
    exact not_withdraws dirty.1
  have recorded := scan.row?_recorded member
  rw [if_neg stays] at recorded
  by_cases processed : ∃ count, (entry.path, some (count + 1)) ∈ scan.log
  · obtain ⟨count, listed⟩ := processed
    obtain ⟨now, hash, hashes, row⟩ := scan.marked.marked entry.path count listed
    rw [recorded, Option.map_some, scan.eq_of_hashes member dirty.1 hashes] at row
    exact .inr ⟨⟨count, listed⟩, now, row⟩
  · rw [not_exists] at processed
    exact .inl ⟨processed, (scan.marked.kept entry.path processed).trans recorded⟩

theorem fate_of_dirty {entry : FileEntry} (member : entry ∈ scan.found.entries)
    (dirty : Unrecorded before.files.known entry) :
    scan.Fate entry.path (scan.files.row? entry.path) := by
  obtain ⟨row, found, hash, waits⟩ := scan.task_of_dirty member dirty
  obtain ⟨last, rested, follows, done⟩ := scan.task_rested found
  have noted : scan.files.row? entry.path =
      (scan.rested.files.row? entry.path).map
        (Workspace.settled (toString scan.rested.queue.now) last) := by
    rw [scan.noted, if_pos ((scan.dirty_iff member).mpr dirty), Workspace.noted, rested]
  obtain ⟨-, path⟩ := scan.unused.sound.at?_eq_some.mp found
  have lastHash : last.hash = entry.hash := follows.same.hash.trans hash
  have failing (failed : last.hasStatus .failed = true) : scan.files.row? entry.path =
      (scan.rested.files.row? entry.path).map (FileRow.failed entry.hash) := by
    have other : last.hasStatus .completed = false :=
      TaskRow.hasStatus_of_ne failed (by decide)
    rw [noted]
    congr 1
    funext row
    rw [settled_failed other failed, lastHash]
  rcases waits with ⟨pending, processed⟩ | ⟨failed, old, idle⟩
  · rcases done with completed | failed
    · obtain ⟨count, listed, accepted, chunks⟩ := follows.completed pending completed
      rw [path] at listed
      have accepts : scan.Accepted entry.path := ⟨_, listed, accepted⟩
      cases count with
      | zero =>
          -- The worker marks only files with chunks; the others are marked once it is done.
          have mark : settled (toString scan.rested.queue.now) last =
              FileRow.indexed (toString scan.rested.queue.now) entry.hash := by
            funext row
            rw [settled_empty completed (by rw [chunks]; rfl), lastHash]
          rw [noted, mark]
          rcases scan.row?_rested member dirty with ⟨-, kept⟩ | ⟨-, now, kept⟩ <;> rw [kept] <;>
            exact .indexed entry member rfl dirty accepts _
      | succ count =>
          rcases scan.row?_rested member dirty with ⟨unmarked, -⟩ | ⟨-, now, marked⟩
          · exact absurd listed (unmarked count)
          · rw [noted, marked, Option.map_some, settled_stored completed]
            · exact .indexed entry member rfl dirty accepts now
            · rw [chunks]
              simp [saturated, maxInteger]
    · have refused : scan.Refused entry.path := path ▸ follows.failed pending failed
      rw [failing failed]
      rcases scan.row?_rested member dirty with ⟨-, kept⟩ | ⟨⟨count, listed⟩, now, marked⟩
      · rw [kept]
        exact .failed entry member rfl dirty _ (fun _ => rfl) (.inl refused)
      · rw [marked]
        exact .failed entry member rfl dirty (some (FileRow.indexed now entry.hash
          (.ofEntry entry (before.files.row? entry.path))))
          (fun unmarked => absurd listed (unmarked count)) (.inl refused)
  · -- The content failed for good in an earlier scan, and its task was left alone.
    have waiting : row.hasStatus .pending = false :=
      TaskRow.hasStatus_of_ne failed (by decide)
    have still : last.hasStatus .failed = true := by
      rw [follows.idle waiting]
      exact failed
    rw [failing still]
    rcases scan.row?_rested member dirty with ⟨-, kept⟩ | ⟨⟨count, listed⟩, -⟩
    · rw [kept]
      exact .failed entry member rfl dirty _ (fun _ => rfl) (.inr ⟨idle, row, old, path, failed⟩)
    · exact absurd (scan.mem_paths listed) idle

theorem fate (path : String) : scan.Fate path (after.files.row? path) := by
  rw [scan.lastFiles]
  have unmarked (idle : path ∉ scan.paths) (count : Nat) : (path, some (count + 1)) ∉ scan.log :=
    fun listed => idle (scan.mem_paths listed)
  by_cases listed : path ∈ scan.found.entries.map FileEntry.path
  · obtain ⟨entry, member, rfl⟩ := List.mem_map.mp listed
    by_cases dirty : Unrecorded before.files.known entry
    · exact scan.fate_of_dirty member dirty
    · have clean : entry.path ∉ scan.changes.dirty.map FileEntry.path :=
        fun inside => dirty ((scan.dirty_iff member).mp inside)
      have idle : entry.path ∉ scan.paths := fun inside => clean (scan.paths_dirty inside)
      rw [scan.noted, if_neg clean, scan.marked.kept entry.path (unmarked idle),
        scan.row?_recorded member]
      by_cases withdraws : Withdraws before.files.known entry
      · rw [if_pos ((scan.withdrawn_iff member).mpr withdraws)]
        exact .withdrawn entry member rfl withdraws idle
      · rw [if_neg fun inside => withdraws ((scan.withdrawn_iff member).mp inside)]
        exact .kept entry member rfl dirty withdraws idle
  · have clean : path ∉ scan.changes.dirty.map FileEntry.path := by
      rw [scan.mem_dirty]
      rintro ⟨entry, inside, same, -⟩
      exact listed (same ▸ List.mem_map_of_mem inside)
    have idle : path ∉ scan.paths := fun inside => clean (scan.paths_dirty inside)
    rw [scan.noted, if_neg clean, scan.marked.kept path (unmarked idle),
      scan.row?_recorded_gone listed]
    exact .gone listed idle

theorem row_of_recorded {entry : FileEntry} (member : entry ∈ scan.found.entries)
    (recorded : ¬Unrecorded before.files.known entry)
    (stays : ¬Withdraws before.files.known entry) :
    after.files.row? entry.path = some (.ofEntry entry (before.files.row? entry.path)) ∧
      entry.path ∉ scan.paths := by
  have only {other : FileEntry} (inside : other ∈ scan.found.entries)
      (same : other.path = entry.path) : other = entry :=
    scan.eq_of_path inside member same
  have fate := scan.fate entry.path
  generalize after.files.row? entry.path = row at fate
  -- The fate is that of another entry of the path, which is the same one.
  cases fate with
  | gone missing idle => exact absurd (List.mem_map_of_mem member) missing
  | withdrawn other inside same withdraws idle =>
      exact absurd (only inside same ▸ withdraws) stays
  | kept other inside same recorded' stays' idle =>
      obtain rfl := only inside same
      exact ⟨rfl, idle⟩
  | failed other inside same dirty => exact absurd (only inside same ▸ dirty) recorded
  | indexed other inside same dirty => exact absurd (only inside same ▸ dirty) recorded

end Scan

end CodeGraph.Workspace
