import CodeGraph.Proofs.Contents
import CodeGraph.Proofs.Workspace.Reached
import CodeGraph.Proofs.Workspace.Verdict

/-!
Which versions of the files a workspace holds. `Tracked` says it along with what the entries
promise: a file that was indexed with some hash is held in the version with this hash, unless it was
emptied since by a version without chunks, which the queue does not accept.
-/

set_option autoImplicit false

namespace CodeGraph

namespace Discovery

/-- A version of a file that a walk finds available and that the tables take. -/
def Offers (discovery : Discovery) (grammars : Grammars) (disk : Disk) (path : String)
    (version : Parsed) : Prop :=
  ∃ found, discovery.discover disk = .ok found ∧
    (∃ entry ∈ found.entries, entry.path = path ∧ entry.available = true) ∧
    Processing.stored? grammars disk discovery.root discovery.maxFileSize path = some version

def OffersIn (discovery : Discovery) (grammars : Grammars) (snapshots : Disk → Prop) (path : String)
    (version : Parsed) : Prop :=
  ∃ disk, snapshots disk ∧ discovery.Offers grammars disk path version

/-- No identifier of a chunk stands for chunks of two files, and no hash for two contents of a
file, among what some states of the disk offer. -/
structure Distinct (discovery : Discovery) (grammars : Grammars) (snapshots : Disk → Prop) :
    Prop where
  chunks : ∀ path version path' version', discovery.OffersIn grammars snapshots path version →
    discovery.OffersIn grammars snapshots path' version' → path ≠ path' →
    ∀ chunk ∈ version.chunks, ∀ chunk' ∈ version'.chunks, chunk.id ≠ chunk'.id
  hashes : ∀ path version version', discovery.OffersIn grammars snapshots path version →
    discovery.OffersIn grammars snapshots path version' → version.hash = version'.hash →
    version.bytes = version'.bytes

def Scannable (discovery : Discovery) (disk : Disk) : Prop :=
  ∃ found, discovery.discover disk = .ok found ∧ ∀ entry ∈ found.entries, entry.size ≤ maxInteger

variable {discovery : Discovery} {grammars : Grammars} {snapshots : Disk → Prop}

theorem OffersIn.parsed {path : String} {version : Parsed}
    (offers : discovery.OffersIn grammars snapshots path version) : version.Of grammars path := by
  obtain ⟨disk, -, found, -, -, stored⟩ := offers
  exact (Processing.attempt_eq_ok (Processing.stored?_eq_some.mp stored).1).2

theorem Distinct.separate (distinct : discovery.Distinct grammars snapshots) :
    Separate grammars (discovery.OffersIn grammars snapshots) :=
  ⟨fun _ _ offers => offers.parsed, distinct.chunks⟩

theorem Distinct.eq_of_hash (distinct : discovery.Distinct grammars snapshots) {path : String}
    {version version' : Parsed} (first : discovery.OffersIn grammars snapshots path version)
    (second : discovery.OffersIn grammars snapshots path version')
    (same : version.hash = version'.hash) : version = version' :=
  first.parsed.eq_of_bytes second.parsed (distinct.hashes path version version' first second same)

structure OneFile (discovery : Discovery) (grammars : Grammars) (disk : Disk) (path : String)
    (version : Parsed) : Prop where
  walk : ∃ found entry, discovery.discover disk = .ok found ∧ found.entries = [entry] ∧
    entry.path = path ∧ entry.available = true ∧ entry.size ≤ maxInteger
  stored :
    Processing.stored? grammars disk discovery.root discovery.maxFileSize path = some version

theorem exists_oneFile {disk : Disk} {path : String}
    (walked : (discovery.discover disk).toOption.map (fun found => found.entries.map
      (fun entry => (entry.path, entry.available, decide (entry.size ≤ maxInteger)))) =
        some [(path, true, true)])
    (stored : (Processing.stored? grammars disk discovery.root discovery.maxFileSize
      path).isSome = true) :
    ∃ version, discovery.OneFile grammars disk path version := by
  obtain ⟨version, stored⟩ := Option.isSome_iff_exists.mp stored
  obtain ⟨found, discovered, listed⟩ := Option.map_eq_some_iff.mp walked
  obtain ⟨entry, single, facts⟩ := List.map_eq_singleton_iff.mp listed
  simp only [Prod.mk.injEq, decide_eq_true_eq] at facts
  exact ⟨version, ⟨found, entry, Table.toOption_eq_some.mp discovered, single, facts⟩, stored⟩

theorem OneFile.offers_iff {disk : Disk} {path path' : String} {version version' : Parsed}
    (one : discovery.OneFile grammars disk path version) :
    discovery.Offers grammars disk path' version' ↔ path' = path ∧ version' = version := by
  obtain ⟨found, entry, discovered, entries, named, available, -⟩ := one.walk
  constructor
  · rintro ⟨found', discovered', ⟨other, member, rfl, -⟩, stored⟩
    rw [discovered] at discovered'
    obtain rfl : found = found' := by simpa using discovered'
    rw [entries, List.mem_singleton] at member
    subst member
    rw [named, one.stored] at stored
    exact ⟨named, (Option.some.inj stored).symm⟩
  · rintro ⟨rfl, rfl⟩
    exact ⟨found, discovered, ⟨entry, by simp [entries], named, available⟩, one.stored⟩

theorem OneFile.scannable {disk : Disk} {path : String} {version : Parsed}
    (one : discovery.OneFile grammars disk path version) : discovery.Scannable disk := by
  obtain ⟨found, entry, discovered, entries, -, -, fits⟩ := one.walk
  exact ⟨found, discovered, by simp [entries, fits]⟩

end Discovery

theorem CodeIndex.steps_of_deletions {versions : String → Parsed → Prop} {index after : CodeIndex}
    {paths : List String} (ready : index.Ready) (deletions : Deletions index paths after)
    (supported : ∀ path ∈ paths, isSupported path = true) (contents : Contents) :
    Steps versions (index, contents) (after, contents.without paths) := by
  induction deletions generalizing contents with
  | nil =>
      have same : contents.without [] = contents := by
        funext path
        simp [Contents.without]
      rw [same]
  | cons first _ ih =>
      have deleted := ready.deleted first
      rw [← Contents.without_cons]
      exact .head (.delete (supported _ (List.mem_cons_self ..)) deleted)
        (ih deleted.ready (fun path inside => supported path (List.mem_cons_of_mem _ inside)) _)

namespace Workspace

variable {disk : Disk} {before after : Workspace} {versions : String → Parsed → Prop}

abbrev Offers (workspace : Workspace) (disk : Disk) (path : String) (version : Parsed) : Prop :=
  workspace.discovery.Offers workspace.index.grammars disk path version

namespace Scan

def contents (scan : Scan (before.worker disk) disk before after) (old : Contents) : Contents :=
  (old.without (scan.changes.deleted ++ scan.changes.withdrawn)).renewed scan.stored? scan.paths

variable (scan : Scan (before.worker disk) disk before after)

theorem contents_of_stored {path : String} (processed : path ∈ scan.paths) {version : Parsed}
    (stored : scan.stored? path = some version) (old : Contents) :
    scan.contents old path = some version := by
  simp [Scan.contents, Contents.renewed, processed, stored]

theorem contents_of_forgotten {path : String} (idle : path ∉ scan.paths)
    (forgotten : path ∈ scan.changes.deleted ∨ path ∈ scan.changes.withdrawn) (old : Contents) :
    scan.contents old path = none := by
  simp [Scan.contents, Contents.renewed, Contents.without, idle, forgotten]

theorem entry_of_offers {path : String} {version : Parsed}
    (offers : before.Offers disk path version) :
    ∃ entry ∈ scan.found.entries, entry.path = path ∧ entry.available = true ∧
      entry.hash = version.hash ∧ scan.stored? path = some version := by
  obtain ⟨found, discovered, ⟨entry, member, rfl, available⟩, stored⟩ := offers
  rw [scan.discovered] at discovered
  obtain rfl : scan.found = found := by simpa using discovered
  exact ⟨entry, member, rfl, available, (scan.hash_of_attempt member available
    (Processing.stored?_eq_some.mp stored).1).symm, stored⟩

theorem offers_of_processed {path : String} (processed : path ∈ scan.paths) {version : Parsed}
    (stored : scan.stored? path = some version) :
    before.Offers disk path version := by
  obtain ⟨entry, inside, same, unrecorded⟩ := scan.mem_dirty.mp (scan.paths_dirty processed)
  exact ⟨scan.found, scan.discovered, ⟨entry, inside, same, unrecorded.1⟩, stored⟩

include scan in
theorem offers_eq (settled : before.Settled) :
    after.Offers = before.Offers := by
  unfold Offers
  rw [scan.discovery_eq, scan.grammars_after settled]

theorem steps (settled : before.Settled)
    (supported : ∀ path, (before.files.row? path).isSome = true → isSupported path = true)
    (offered : ∀ path version, before.Offers disk path version → versions path version)
    (old : Contents) :
    CodeIndex.Steps versions (before.index, old) (scan.rested.index, scan.contents old) := by
  have forgotten : ∀ path ∈ scan.changes.deleted ++ scan.changes.withdrawn,
      isSupported path = true := by
    intro path member
    rcases List.mem_append.mp member with deleted | withdrawn
    · exact supported path (scan.mem_deleted.mp deleted).1
    · obtain ⟨entry, inside, rfl, -⟩ := scan.mem_withdrawn.mp withdrawn
      exact (scan.quiet.finds scan.discovered inside).supported
  have first := @CodeIndex.steps_of_deletions versions _ _ _ settled.ready scan.deletions forgotten
    old
  exact first.trans (Processing.steps_of_worked (scan.ready_cleared settled) scan.processed.worked
    (fun path processed version stored =>
      offered path version (scan.offers_of_processed processed stored))
    (old.without (scan.changes.deleted ++ scan.changes.withdrawn)))

theorem contents_of_listed {entry : FileEntry} (member : entry ∈ scan.found.entries)
    (stays : ¬ChangeSet.Withdraws before.files.known entry)
    (unstored : entry.path ∈ scan.paths → scan.stored? entry.path = none) (old : Contents) :
    scan.contents old entry.path = old entry.path := by
  have present := scan.not_deleted member
  have kept : entry.path ∉ scan.changes.withdrawn := by
    rwa [scan.withdrawn_iff member]
  by_cases processed : entry.path ∈ scan.paths
  · simp [Scan.contents, Contents.renewed, Contents.without, present, kept, unstored processed]
  · simp [Scan.contents, Contents.renewed, Contents.without, present, kept, processed]

end Scan

/-- What is held of a file whose entry is stamped with a hash: the version that was indexed, or one
without chunks that came later and was not accepted. -/
structure Stamped (versions : String → Parsed → Prop) (policy : EmptyOutputPolicy)
    (path hash : String) (held indexed : Parsed) : Prop where
  known : versions path indexed
  hash : indexed.hash = hash
  accepted : indexed.chunks = [] → policy = .succeed
  held : held = indexed ∨ held.chunks = [] ∧ policy ≠ .succeed

structure Tracked (versions : String → Parsed → Prop) (workspace : Workspace)
    (contents : Contents) : Prop where
  settled : workspace.Settled
  holds : workspace.index.Holds versions contents
  supported : ∀ path, (workspace.files.row? path).isSome = true → isSupported path = true
  stamped : ∀ path row, workspace.files.row? path = some row → row.lastIndexedAt.isSome = true →
    ∀ hash, row.lastIndexedHash = some hash → ∃ held indexed, contents path = some held ∧
      Stamped versions workspace.queue.settings.emptyOutput path hash held indexed

variable {contents : Contents}

theorem Scan.supported_after (scan : Scan (before.worker disk) disk before after) (path : String)
    (present : (after.files.row? path).isSome = true) : isSupported path = true := by
  have fate := scan.fate path
  have listed {entry : FileEntry} (member : entry ∈ scan.found.entries)
      (same : entry.path = path) : isSupported path = true :=
    same ▸ (scan.quiet.finds scan.discovered member).supported
  generalize after.files.row? path = row at fate present
  cases fate with
  | gone missing idle => cases present
  | withdrawn entry member same => exact listed member same
  | kept entry member same => exact listed member same
  | failed entry member same => exact listed member same
  | indexed entry member same => exact listed member same

theorem Tracked.stamped_after (tracked : Tracked versions before contents)
    (scan : Scan (before.worker disk) disk before after)
    (offered : ∀ path version, before.Offers disk path version → versions path version)
    {path : String} {row : FileRow} (found : after.files.row? path = some row)
    (indexed : row.lastIndexedAt.isSome = true) {hash : String}
    (stamp : row.lastIndexedHash = some hash) :
    ∃ held indexed, scan.contents contents path = some held ∧
      Stamped versions before.queue.settings.emptyOutput path hash held indexed := by
  have settled := tracked.settled
  have fate := scan.fate path
  rw [found] at fate
  -- The history of an entry that is not processed is the one that it had before.
  have earlier (entry : FileEntry)
      (indexed : (FileRow.ofEntry entry (before.files.row? path)).lastIndexedAt.isSome = true)
      (stamp : (FileRow.ofEntry entry (before.files.row? path)).lastIndexedHash = some hash) :
      ∃ held indexed, contents path = some held ∧
        Stamped versions before.queue.settings.emptyOutput path hash held indexed := by
    cases old : before.files.row? path with
    | none => simp [old, FileRow.ofEntry] at indexed
    | some row =>
        rw [old] at indexed stamp
        exact tracked.stamped path row old indexed hash stamp
  cases fate with
  | withdrawn entry member same withdraws idle => simp [FileRow.ofEntry] at indexed
  | kept entry member same recorded stays idle =>
      subst same
      rw [scan.contents_of_listed member stays fun processed => absurd processed idle]
      exact earlier entry indexed stamp
  | failed entry member same dirty old unmarked reason =>
      subst same
      have stays : ¬ChangeSet.Withdraws before.files.known entry := ChangeSet.not_withdraws dirty.1
      obtain rfl : old = before.files.row? entry.path :=
        unmarked (scan.unmarked_of_failed settled reason)
      rcases reason with refused | ⟨idle, -⟩
      · cases stored : scan.stored? entry.path with
        | none =>
            rw [scan.contents_of_listed member stays fun _ => stored]
            exact earlier entry indexed stamp
        | some version =>
            -- The worker has stored what the queue did not accept.
            obtain ⟨_, indexed, -, stamped⟩ := earlier entry indexed stamp
            exact ⟨version, indexed, scan.contents_of_stored refused.mem_paths stored contents,
              { stamped with held := .inr (scan.empty_of_refused settled refused stored) }⟩
      · rw [scan.contents_of_listed member stays fun processed => absurd processed idle]
        exact earlier entry indexed stamp
  | indexed entry member same dirty accepted now =>
      subst same
      obtain ⟨version, stored, permitted⟩ := scan.stored_of_accepted settled accepted
      have processed := accepted.mem_paths
      refine ⟨version, version, scan.contents_of_stored processed stored contents, ?_, ?_,
        permitted, .inl rfl⟩
      · exact offered _ _ (scan.offers_of_processed processed stored)
      · rw [scan.hash_of_attempt member dirty.1 (Processing.stored?_eq_some.mp stored).1]
        exact Option.some.inj stamp

theorem mem_current {files : FileIndex} (sound : files.Sound) {path hash : String} :
    (path, hash) ∈ current files ↔ ∃ row, files.row? path = some row ∧
      row.value.isCurrent = true ∧ row.hash = hash := by
  unfold current
  simp only [List.mem_map, List.mem_filter, Prod.mk.injEq]
  constructor
  · rintro ⟨entry, ⟨known, isCurrent⟩, rfl, rfl⟩
    obtain ⟨row, member, rfl⟩ := FileIndex.mem_known.mp known
    exact ⟨row, (sound.row?_eq_some).mpr ⟨member, rfl⟩, isCurrent, rfl⟩
  · rintro ⟨row, found, isCurrent, rfl⟩
    obtain ⟨member, rfl⟩ := (sound.row?_eq_some).mp found
    exact ⟨row.value, ⟨FileIndex.mem_known.mpr ⟨row, member, rfl⟩, isCurrent⟩, rfl, rfl⟩

theorem stamp_of_isCurrent {row : FileRow} (isCurrent : row.value.isCurrent = true) :
    row.lastIndexedAt.isSome = true ∧ row.lastIndexedHash = some row.hash := by
  simp only [FileEntry.isCurrent, FileEntry.wasIndexed, FileRow.value, Bool.and_eq_true,
    beq_iff_eq] at isCurrent
  exact ⟨isCurrent.1.2, isCurrent.2⟩

theorem Tracked.isSome_of_current (tracked : Tracked versions before contents)
    (scan : Scan (before.worker disk) disk before after)
    (offered : ∀ path version, before.Offers disk path version → versions path version)
    {path : String} (member : path ∈ (current scan.files).map Prod.fst) :
    ((scan.contents contents).graphs path).isSome = true := by
  obtain ⟨⟨path, hash⟩, listed, rfl⟩ := List.mem_map.mp member
  obtain ⟨row, found, isCurrent, -⟩ := (mem_current scan.sound).mp listed
  rw [← scan.lastFiles] at found
  obtain ⟨indexed, stamp⟩ := stamp_of_isCurrent isCurrent
  obtain ⟨version, -, held, -⟩ := tracked.stamped_after scan offered found indexed stamp
  simp [Contents.graphs, held]

theorem Tracked.scan (tracked : Tracked versions before contents)
    {grammars : Grammars} (separate : Separate grammars versions)
    (scan : Scan (before.worker disk) disk before after)
    (offered : ∀ path version, before.Offers disk path version → versions path version) :
    Tracked versions after (scan.contents contents) := by
  have settled := tracked.settled
  have rested : scan.rested.index.Holds versions (scan.contents contents) :=
    CodeIndex.Holds.steps separate (scan.steps settled tracked.supported offered contents)
      tracked.holds
  refine ⟨scan.settled_after settled, ?_, scan.supported_after, ?_⟩
  · rw [scan.lastIndex]
    split
    next changed =>
      obtain ⟨graph, tables, held⟩ := rested.graph
      have linked := @CodeIndex.link_linked disk scan.rested.index (scan.ready_rested settled).1
        (current scan.files)
      obtain ⟨graph', tables', -⟩ := linked.graph graph tables
      exact ⟨rested.known, graph', tables',
        held.linked (fun path => tracked.isSome_of_current scan offered) linked tables tables'⟩
    next => exact rested
  · rw [scan.settings_eq]
    exact fun path row found indexed hash stamp =>
      tracked.stamped_after scan offered found indexed stamp

theorem tracked_fresh (setup : Setup) (versions : String → Parsed → Prop) :
    Tracked versions setup.fresh (fun _ => none) where
  settled := setup.settled_fresh
  holds := ⟨by simp, {}, rfl, Graph.holds_empty⟩
  supported := by simp [Setup.fresh, FileIndex.row?, Table.get?]
  stamped := by simp [Setup.fresh, FileIndex.row?, Table.get?]

end Workspace

end CodeGraph
