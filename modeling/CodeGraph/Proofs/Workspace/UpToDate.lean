import CodeGraph.Proofs.LinkPass
import CodeGraph.Proofs.Workspace.Versions

/-!
Workspaces in which every file could be indexed so far. After each scan such a workspace is up to
date: it holds just the versions that the disk offers, remembers their facts and has their links.
-/

set_option autoImplicit false

namespace CodeGraph

def Discovery.Indexable (discovery : Discovery) (grammars : Grammars) (disk : Disk) : Prop :=
  ∀ found, discovery.discover disk = .ok found → ∀ entry ∈ found.entries, entry.available = true →
    ∃ version, Processing.stored? grammars disk discovery.root discovery.maxFileSize entry.path =
      some version ∧ version.chunks ≠ []

theorem Discovery.OneFile.indexable {discovery : Discovery} {grammars : Grammars} {disk : Disk}
    {path : String} {version : Parsed} (one : discovery.OneFile grammars disk path version)
    (solid : version.chunks ≠ []) : discovery.Indexable grammars disk := by
  intro found discovered entry member available
  obtain ⟨found', only, discovered', entries, named, -⟩ := one.walk
  rw [discovered] at discovered'
  obtain rfl : found = found' := by simpa using discovered'
  rw [entries, List.mem_singleton] at member
  subst member
  exact ⟨version, named ▸ one.stored, solid⟩

/-- A walk that can read the file at a path, if there is one. -/
def Discovery.Reads (discovery : Discovery) (disk : Disk) (path : String) : Prop :=
  ∀ found, discovery.discover disk = .ok found →
    ∀ entry ∈ found.entries, entry.path = path → entry.hashStatus ≠ .failed

namespace Workspace

structure UpToDate (versions : String → Parsed → Prop) (workspace : Workspace)
    (contents : Contents) : Prop where
  tracked : Tracked versions workspace contents
  remembers : workspace.index.Remembers contents
  completed : ∀ row ∈ workspace.queue.table.rows, row.hasStatus .completed = true
  unfailed : ∀ path row, workspace.files.row? path = some row → row.lastFailedHash = none
  indexed : ∀ path version, contents path = some version →
    ∃ row, workspace.files.row? path = some row ∧ row.lastIndexedAt.isSome = true
  links : ∃ graph known, workspace.index.graph.tables = some graph ∧
    (∀ path, path ∈ known ↔ (contents path).isSome = true) ∧
    CodeIndex.LinksExact graph contents known

theorem upToDate_fresh (setup : Setup) (versions : String → Parsed → Prop) :
    UpToDate versions setup.fresh (fun _ => none) where
  tracked := tracked_fresh setup versions
  remembers := fun _ _ none => by cases none
  completed := by simp [Setup.fresh]
  unfailed := by simp [Setup.fresh, FileIndex.row?, Table.get?]
  indexed := fun _ _ none => by cases none
  links := ⟨{}, [], rfl, by simp, fun _ _ none => by cases none⟩

/-- What a scan needs to go well: all files on disk can be indexed, and hashes tell the versions of
a file apart. -/
structure Smooth (versions : String → Parsed → Prop) (discovery : Discovery) (grammars : Grammars)
    (disk : Disk) : Prop where
  separate : Separate grammars versions
  unique : ∀ path version version', versions path version → versions path version' →
    version.hash = version'.hash → version = version'
  solid : ∀ path version, versions path version → version.chunks ≠ []
  offered : ∀ path version, discovery.Offers grammars disk path version → versions path version
  indexable : discovery.Indexable grammars disk

variable {disk : Disk} {before after : Workspace} {versions : String → Parsed → Prop}
  {contents : Contents}

namespace UpToDate

variable (upToDate : UpToDate versions before contents)
  (smooth : Smooth versions before.discovery before.index.grammars disk)
  (scan : Scan (before.worker disk) disk before after)
  (seen : ∀ path, (contents path).isSome = true → before.discovery.Reads disk path)

include smooth in
theorem stored_of_available {entry : FileEntry} (member : entry ∈ scan.found.entries)
    (available : entry.available = true) :
    ∃ version, scan.stored? entry.path = some version ∧ version.chunks ≠ [] ∧
      versions entry.path version := by
  obtain ⟨version, stored, solid⟩ :=
    smooth.indexable scan.found scan.discovered entry member available
  exact ⟨version, stored, solid, smooth.offered entry.path version
    ⟨scan.found, scan.discovered, ⟨entry, member, rfl, available⟩, stored⟩⟩

include upToDate smooth in
theorem indexed_of_dirty {entry : FileEntry} (member : entry ∈ scan.found.entries)
    (dirty : ChangeSet.Unrecorded before.files.known entry) :
    entry.path ∈ scan.paths ∧ ∃ now, after.files.row? entry.path =
      some ((FileRow.ofEntry entry (before.files.row? entry.path)).indexed now entry.hash) := by
  have settled := upToDate.tracked.settled
  obtain ⟨version, stored, solid, -⟩ := stored_of_available smooth scan member dirty.1
  rcases scan.row_of_dirty settled member dirty with
    ⟨-, refused | ⟨-, task, listed, -, failed⟩⟩ | ⟨accepted, now, row⟩
  · exact absurd refused (scan.not_refused settled stored solid)
  · have done := upToDate.completed task listed
    exact absurd (TaskRow.status_unique done failed) (by decide)
  · exact ⟨accepted.mem_paths, now, row⟩

include upToDate smooth in
theorem held_of_recorded {entry : FileEntry} (available : entry.available = true)
    (recorded : ¬ChangeSet.Unrecorded before.files.known entry) :
    ∃ row version, before.files.row? entry.path = some row ∧ row.lastIndexedAt.isSome = true ∧
      row.lastIndexedHash = some entry.hash ∧ contents entry.path = some version ∧
      version.hash = entry.hash := by
  have tracked := upToDate.tracked
  rw [tracked.settled.files.unrecorded_iff] at recorded
  cases found : before.files.row? entry.path with
  | none => exact absurd ⟨available, by simp [found]⟩ recorded
  | some row =>
      have clean : (entry.withHistory row.value).isDirty = false := by
        by_contra dirty
        exact recorded ⟨available, by simpa [found] using dirty⟩
      simp only [FileEntry.isDirty, FileEntry.withHistory, FileEntry.wasIndexed, FileRow.value,
        available, upToDate.unfailed _ row found, Bool.true_and, Bool.and_eq_false_iff,
        Bool.or_eq_false_iff, Bool.not_eq_false', bne_eq_false_iff_eq, reduceCtorEq, or_false]
        at clean
      obtain ⟨indexed, stamp⟩ := clean
      obtain ⟨held, version, holds, stamped⟩ := tracked.stamped _ row found indexed _ stamp
      refine ⟨row, held, rfl, indexed, stamp, holds, ?_⟩
      rcases stamped.held with rfl | ⟨empty, -⟩
      · exact stamped.hash
      · exact absurd empty (smooth.solid _ held (tracked.holds.known _ held holds))

include upToDate smooth in
theorem held_of_offers {path : String} {version : Parsed}
    (offers : before.Offers disk path version) :
    scan.contents contents path = some version ∧ ∃ row, after.files.row? path = some row ∧
      row.value.isCurrent = true ∧ row.hash = version.hash := by
  obtain ⟨entry, member, rfl, available, hash, stored⟩ := scan.entry_of_offers offers
  by_cases dirty : ChangeSet.Unrecorded before.files.known entry
  · obtain ⟨processed, now, row⟩ := upToDate.indexed_of_dirty smooth scan member dirty
    refine ⟨scan.contents_of_stored processed stored contents, _, row, ?_, hash⟩
    simp [FileEntry.isCurrent, FileEntry.wasIndexed, FileRow.value, FileRow.indexed,
      FileRow.ofEntry, available]
  · have stays : ¬ChangeSet.Withdraws before.files.known entry := ChangeSet.not_withdraws available
    obtain ⟨old, held, found, indexed, stamp, holds, same⟩ :=
      upToDate.held_of_recorded smooth available dirty
    obtain ⟨row, idle⟩ := scan.row_of_recorded member dirty stays
    -- The entry has the hash of both, the version that is held and the one on disk.
    obtain rfl : held = version := smooth.unique _ held version
      (upToDate.tracked.holds.known _ held holds) (smooth.offered _ version offers)
      (same.trans hash)
    refine ⟨?_, _, row, ?_, hash⟩
    · rw [scan.contents_of_listed member stays fun processed => absurd processed idle]
      exact holds
    · simp [FileEntry.isCurrent, FileEntry.wasIndexed, FileRow.value, FileRow.ofEntry, found,
        available, indexed, stamp]

include upToDate smooth seen in
theorem offers_of_held {path : String} {version : Parsed}
    (held : scan.contents contents path = some version) : before.Offers disk path version := by
  have listed {entry : FileEntry} (member : entry ∈ scan.found.entries)
      (available : entry.available = true) (same : entry.path = path) :
      before.Offers disk path version := by
    obtain ⟨other, stored, -, -⟩ := stored_of_available smooth scan member available
    have offers : before.Offers disk entry.path other :=
      ⟨scan.found, scan.discovered, ⟨entry, member, rfl, available⟩, stored⟩
    obtain ⟨again, -⟩ := upToDate.held_of_offers smooth scan offers
    subst same
    rw [held] at again
    rwa [Option.some.inj again]
  -- An available file is held in the version on disk, and any other file is not held.
  have fate := scan.fate path
  generalize after.files.row? path = row at fate
  cases fate with
  | gone missing idle =>
      have forgotten : path ∉ scan.changes.deleted := by
        intro deleted
        rw [scan.contents_of_forgotten idle (.inl deleted)] at held
        cases held
      have stays : path ∉ scan.changes.withdrawn := by
        intro withdrawn
        rw [scan.contents_of_forgotten idle (.inr withdrawn)] at held
        cases held
      simp only [Scan.contents, Contents.renewed, Contents.without, idle, List.mem_append,
        forgotten, stays, or_self, if_false] at held
      obtain ⟨row, found, -⟩ := upToDate.indexed path version held
      exact absurd (scan.mem_deleted.mpr ⟨by simp [found], missing⟩) forgotten
  | withdrawn entry member same withdraws idle =>
      subst same
      rw [scan.contents_of_forgotten idle
        (.inr ((scan.withdrawn_iff member).mpr withdraws))] at held
      cases held
  | kept entry member same recorded stays idle =>
      cases available : entry.available with
      | true => exact listed member available same
      | false =>
          subst same
          rw [scan.contents_of_listed member stays fun processed => absurd processed idle] at held
          -- A file that was held would be withdrawn, as it could be read.
          have known := (scan.quiet.finds scan.discovered member).status available
          have skipped := known.resolve_right
            (seen _ (by simp [held]) scan.found scan.discovered entry member rfl)
          refine absurd (scan.quiet.files.withdraws_iff entry |>.mpr ⟨available, skipped, ?_⟩) stays
          exact upToDate.indexed _ version held
  | failed entry member same dirty old unmarked reason => exact listed member dirty.1 same
  | indexed entry member same dirty accepted now => exact listed member dirty.1 same

include upToDate smooth seen in
theorem contents_iff {path : String} {version : Parsed} :
    scan.contents contents path = some version ↔ before.Offers disk path version :=
  ⟨upToDate.offers_of_held smooth scan seen,
    fun offers => (upToDate.held_of_offers smooth scan offers).1⟩

include upToDate smooth scan in
theorem completed_after : ∀ row ∈ after.queue.table.rows, row.hasStatus .completed = true := by
  have settled := upToDate.tracked.settled
  intro row member
  obtain ⟨first, waiting, follows⟩ := scan.task_waiting member
  -- A task is that of a file that was processed, or one of before.
  by_cases dirty : first.path ∈ scan.changes.dirty.map FileEntry.path
  · obtain ⟨entry, listed, path, unrecorded⟩ := scan.mem_dirty.mp dirty
    obtain ⟨processed, -⟩ := upToDate.indexed_of_dirty smooth scan listed unrecorded
    obtain ⟨version, stored, solid, -⟩ := stored_of_available smooth scan listed unrecorded.1
    exact scan.completed_of_paths processed (scan.not_refused settled stored solid) member
      (follows.same.path.trans path.symm)
  · have old := scan.others first.path dirty
    rw [scan.unused.sound.at?_eq_some.mpr ⟨waiting, rfl⟩] at old
    have unused := settled.unused.removeAll (scan.changes.deleted ++ scan.changes.withdrawn)
    have done := upToDate.completed first
      (TaskTable.mem_removeAll (unused.sound.at?_eq_some.mp old.symm).1)
    have idle : first.hasStatus .pending = false :=
      TaskRow.hasStatus_of_ne done (by decide)
    rw [follows.idle idle]
    exact done

include upToDate smooth scan in
theorem unfailed_after (path : String) (row : FileRow) (found : after.files.row? path = some row) :
    row.lastFailedHash = none := by
  have fate := scan.fate path
  rw [found] at fate
  cases fate with
  | withdrawn entry member same withdraws idle => rfl
  | kept entry member same recorded stays idle =>
      cases old : before.files.row? path with
      | none => rfl
      | some row => exact upToDate.unfailed path row old
  | failed entry member same dirty old unmarked reason =>
      subst same
      obtain ⟨-, now, indexed⟩ := upToDate.indexed_of_dirty smooth scan member dirty
      rw [found] at indexed
      rw [Option.some.inj indexed]
      rfl
  | indexed entry member same dirty accepted now => rfl

include upToDate smooth seen in
theorem indexed_after (path : String) (version : Parsed)
    (held : scan.contents contents path = some version) :
    ∃ row, after.files.row? path = some row ∧ row.lastIndexedAt.isSome = true := by
  obtain ⟨-, row, found, isCurrent, -⟩ :=
    upToDate.held_of_offers smooth scan (upToDate.offers_of_held smooth scan seen held)
  exact ⟨row, found, (stamp_of_isCurrent isCurrent).1⟩

include upToDate smooth seen in
theorem mem_current_iff {path hash : String} :
    (path, hash) ∈ current scan.files ↔
      ∃ version, scan.contents contents path = some version ∧ version.hash = hash := by
  rw [mem_current scan.sound, ← scan.lastFiles]
  constructor
  · rintro ⟨row, found, isCurrent, rfl⟩
    obtain ⟨indexed, stamp⟩ := stamp_of_isCurrent isCurrent
    obtain ⟨held, version, holds, stamped⟩ :=
      upToDate.tracked.stamped_after scan smooth.offered found indexed stamp
    refine ⟨held, holds, ?_⟩
    rcases stamped.held with rfl | ⟨empty, -⟩
    · exact stamped.hash
    · have offers := upToDate.offers_of_held smooth scan seen holds
      exact absurd empty (smooth.solid _ held (smooth.offered _ held offers))
  · rintro ⟨version, held, rfl⟩
    exact (upToDate.held_of_offers smooth scan (upToDate.offers_of_held smooth scan seen held)).2

include upToDate smooth seen in
theorem links_after_pass (changed : scan.changes.hasChanges = true) :
    after.index.Remembers (scan.contents contents) ∧
      ∃ graph known, after.index.graph.tables = some graph ∧
        (∀ path, path ∈ known ↔ (scan.contents contents path).isSome = true) ∧
        CodeIndex.LinksExact graph (scan.contents contents) known := by
  have settled := upToDate.tracked.settled
  have steps := scan.steps settled upToDate.tracked.supported smooth.offered contents
  obtain ⟨-, graph, tables, holds⟩ :=
    CodeIndex.Holds.steps smooth.separate steps upToDate.tracked.holds
  have remembers := CodeIndex.Remembers.steps steps upToDate.remembers
  have ready := (scan.ready_rested settled).ready
  have lists : CodeIndex.Lists (current scan.files) (scan.contents contents) :=
    fun pair member => (upToDate.mem_current_iff smooth scan seen).mp member
  have known (path : String) : path ∈ (current scan.files).map Prod.fst ↔
      (scan.contents contents path).isSome = true := by
    rw [List.mem_map, Option.isSome_iff_exists]
    constructor
    · rintro ⟨⟨path, hash⟩, member, rfl⟩
      obtain ⟨version, held, -⟩ := (upToDate.mem_current_iff smooth scan seen).mp member
      exact ⟨version, held⟩
    · rintro ⟨version, held⟩
      exact ⟨(path, version.hash),
        (upToDate.mem_current_iff smooth scan seen).mpr ⟨version, held, rfl⟩, rfl⟩
  obtain ⟨graph', linked, -, links⟩ := @CodeIndex.link_exact _ graph disk scan.rested.index _ lists
    (fun path => (known path).mpr) ready tables holds remembers
  rw [scan.lastIndex, if_pos changed, linked]
  exact ⟨remembers, graph', _, rfl, known, links⟩

theorem index_of_unchanged (unchanged : scan.changes.hasChanges = false) :
    after.index = before.index ∧ scan.contents contents = contents := by
  simp only [ChangeSet.hasChanges, Bool.not_eq_false', Bool.and_eq_true, List.isEmpty_iff]
    at unchanged
  obtain ⟨⟨⟨new, modified⟩, deleted⟩, withdrawn⟩ := unchanged
  have idle : scan.paths = [] := by
    apply List.eq_nil_iff_forall_not_mem.mpr
    intro path processed
    have dirty := scan.paths_dirty processed
    simp [ChangeSet.dirty, new, modified] at dirty
  refine ⟨?_, ?_⟩
  · have deletions := scan.deletions
    have worked := scan.processed.worked
    rw [deleted, withdrawn] at deletions
    rw [List.map_eq_nil_iff.mp idle] at worked
    rw [scan.lastIndex, if_neg (by simp [ChangeSet.hasChanges, new, modified, deleted, withdrawn])]
    have cleared : scan.cleared = before.index := by
      generalize scan.cleared = cleared at deletions
      cases deletions
      rfl
    generalize nothing : ([] : Queue.Log) = log at worked
    generalize stores :
      ({ index := scan.rested.index, files := scan.rested.files } : Stores) = state at worked
    cases worked with
    | nil => exact (congrArg Stores.index stores).trans cleared
    | snoc => simp at nothing
  · funext path
    simp [Scan.contents, Contents.renewed, Contents.without, idle, deleted, withdrawn]

end UpToDate

theorem UpToDate.scan (upToDate : UpToDate versions before contents)
    (smooth : Smooth versions before.discovery before.index.grammars disk)
    (scan : Scan (before.worker disk) disk before after)
    (seen : ∀ path, (contents path).isSome = true → before.discovery.Reads disk path) :
    UpToDate versions after (scan.contents contents) := by
  have tracked := upToDate.tracked.scan smooth.separate scan smooth.offered
  obtain ⟨remembers, links⟩ : after.index.Remembers (scan.contents contents) ∧
      ∃ graph known, after.index.graph.tables = some graph ∧
        (∀ path, path ∈ known ↔ (scan.contents contents path).isSome = true) ∧
        CodeIndex.LinksExact graph (scan.contents contents) known := by
    -- Without changes there is no pass, but then the links of before are still exact.
    cases changed : scan.changes.hasChanges with
    | true => exact upToDate.links_after_pass smooth scan seen changed
    | false =>
        obtain ⟨same, still⟩ :=
          @UpToDate.index_of_unchanged disk before after contents scan changed
        rw [same, still]
        exact ⟨upToDate.remembers, upToDate.links⟩
  exact ⟨tracked, remembers, upToDate.completed_after smooth scan,
    upToDate.unfailed_after smooth scan, upToDate.indexed_after smooth scan seen, links⟩

end Workspace

end CodeGraph
