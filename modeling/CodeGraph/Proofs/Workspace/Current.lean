import CodeGraph.Proofs.Workspace.Versions

/-!
Whether the graph holds the content of a file whose entry says that it is current.

The worker writes a file to the graph before the queue decides on its task. Content without chunks
thus empties the file in the graph even where it is not accepted, and the entry keeps the stamp of
what was indexed before; when that content comes back, nothing is done. `current_is_exact_iff` says
that nothing else can go wrong, and that this does wherever it can.
-/

set_option autoImplicit false

namespace CodeGraph

theorem FileGraph.chunkRows_eq_nil {file : FileGraph} : file.chunkRows = [] ↔ file.chunks = [] := by
  constructor
  · intro none
    apply List.eq_nil_iff_forall_not_mem.mpr
    intro chunk member
    have listed := (file.map_id_chunkRows chunk.id).mpr (List.mem_map_of_mem member)
    rw [none] at listed
    cases listed
  · intro none
    rw [FileGraph.chunkRows, none]
    rfl

namespace Workspace

/-- The graph holds the chunks of the version that has the hash of the entry. -/
def Exact (versions : String → Parsed → Prop) (workspace : Workspace) (entry : FileEntry) : Prop :=
  ∃ graph version, workspace.index.graph.tables = some graph ∧ versions entry.path version ∧
    version.hash = entry.hash ∧
    graph.chunks.filter (fun row => row.filePath == entry.path) =
      (version.graph entry.path).chunkRows

variable {disk : Disk} {before after workspace : Workspace} {versions : String → Parsed → Prop}
  {snapshots : Disk → Prop} {contents : Contents}

theorem Tracked.scanAll {grammars : Grammars} (separate : Separate grammars versions)
    (disks : List Disk) (tracked : Tracked versions before contents)
    (offered : ∀ disk ∈ disks, ∀ path version,
      before.Offers disk path version → versions path version)
    (scanned : scanAll disks before = .ok after) :
    (∃ contents, Tracked versions after contents) ∧
      after.queue.settings = before.queue.settings := by
  induction disks generalizing before contents with
  | nil =>
      cases scanned
      exact ⟨⟨contents, tracked⟩, rfl⟩
  | cons disk rest ih =>
      obtain ⟨result, first, others⟩ := Table.of_bind_eq_ok scanned
      obtain ⟨scan⟩ := tracked.settled.exists_scan first
      have next := tracked.scan separate scan (offered disk (List.mem_cons_self ..))
      obtain ⟨last, kept⟩ := ih next (fun disk inside => scan.offers_eq tracked.settled ▸
        offered disk (List.mem_cons_of_mem _ inside)) others
      exact ⟨last, kept.trans scan.settings_eq⟩

/-- A current file is held as it is, or it was emptied by a version without chunks. -/
theorem Tracked.exact_or_emptied (tracked : Tracked versions workspace contents)
    {entry : FileEntry} (member : entry ∈ workspace.files.known)
    (isCurrent : entry.isCurrent = true) :
    Exact versions workspace entry ∨
      workspace.queue.settings.emptyOutput ≠ .succeed ∧
        ∃ full empty, versions entry.path full ∧ full.chunks ≠ [] ∧
          versions entry.path empty ∧ empty.chunks = [] := by
  obtain ⟨row, listed, rfl⟩ := FileIndex.mem_known.mp member
  obtain ⟨indexed, stamp⟩ := stamp_of_isCurrent isCurrent
  have found := tracked.settled.files.row?_eq_some.mpr ⟨listed, rfl⟩
  obtain ⟨held, version, holds, stamped⟩ := tracked.stamped row.path row found indexed _ stamp
  obtain ⟨known, graph, tables, graphs⟩ := tracked.holds
  rcases stamped.held with rfl | ⟨empty, policy⟩
  · left
    refine ⟨graph, held, tables, stamped.known, stamped.hash, ?_⟩
    have rows := graphs.chunks row.path
    rw [Contents.graphs, holds] at rows
    exact rows
  · right
    exact ⟨policy, version, held, stamped.known, fun none => policy (stamped.accepted none),
      known row.path held holds, empty⟩

namespace Scan

variable (scan : Scan (before.worker disk) disk before after) {path : String} {version : Parsed}

include scan in
theorem indexes (settled : before.Settled) (offers : before.Offers disk path version)
    (solid : version.chunks ≠ []) (new : before.files.row? path = none)
    (untried : ∀ row ∈ before.queue.table.rows, row.path ≠ path) :
    (∃ row, after.files.row? path = some row ∧ row.lastIndexedAt.isSome = true ∧
      row.lastIndexedHash = some version.hash ∧ row.lastFailedHash = none) ∧
    ∀ row ∈ after.queue.table.rows, row.path = path → row.hasStatus .completed = true := by
  obtain ⟨entry, member, rfl, available, hash, stored⟩ := scan.entry_of_offers offers
  have dirty : ChangeSet.Unrecorded before.files.known entry := by
    rw [settled.files.unrecorded_iff, new]
    exact ⟨available, by simp⟩
  rcases scan.row_of_dirty settled member dirty with ⟨-, reason⟩ | ⟨accepted, now, row⟩
  · rcases reason with refused | ⟨-, task, listed, there, -⟩
    · exact absurd refused (scan.not_refused settled stored solid)
    · exact absurd there (untried task listed)
  · refine ⟨⟨_, row, rfl, ?_, rfl⟩, ?_⟩
    · simp [FileRow.indexed, hash]
    · exact fun task listed there => scan.completed_of_paths accepted.mem_paths
        (scan.not_refused settled stored solid) listed there

theorem empties (settled : before.Settled) (offers : before.Offers disk path version)
    (empty : version.chunks = []) (policy : before.queue.settings.emptyOutput ≠ .succeed)
    {row : FileRow} (found : before.files.row? path = some row)
    (stamp : row.lastIndexedHash ≠ some version.hash) (untried : row.lastFailedHash = none)
    (completed : ∀ row ∈ before.queue.table.rows, row.path = path →
      row.hasStatus .completed = true) :
    (∃ row', after.files.row? path = some row' ∧ row'.lastIndexedAt = row.lastIndexedAt ∧
      row'.lastIndexedHash = row.lastIndexedHash) ∧
    ∀ old, scan.contents old path = some version := by
  obtain ⟨entry, member, rfl, available, hash, stored⟩ := scan.entry_of_offers offers
  have dirty : ChangeSet.Unrecorded before.files.known entry := by
    rw [settled.files.unrecorded_iff]
    refine ⟨available, fun other same => ?_⟩
    obtain rfl := Option.some.inj (found.symm.trans same)
    rw [← hash] at stamp
    simp [FileEntry.isDirty, FileEntry.withHistory, FileRow.value, available, stamp, untried]
  rcases scan.row_of_dirty settled member dirty with ⟨last, reason⟩ | ⟨accepted, -⟩
  · rcases reason with refused | ⟨-, task, listed, there, failed⟩
    · refine ⟨⟨_, last, ?_, ?_⟩, scan.contents_of_stored refused.mem_paths stored⟩
      · simp [FileRow.failed, FileRow.ofEntry, found]
      · simp [FileRow.failed, FileRow.ofEntry, found]
    · have done := completed task listed there
      exact absurd (TaskRow.status_unique done failed) (by decide)
  · obtain ⟨other, again, permitted⟩ := scan.stored_of_accepted settled accepted
    rw [stored] at again
    obtain rfl := Option.some.inj again
    exact absurd (permitted empty) policy

theorem leaves (settled : before.Settled) (offers : before.Offers disk path version)
    {row : FileRow} (found : before.files.row? path = some row)
    (indexed : row.lastIndexedAt.isSome = true) (stamp : row.lastIndexedHash = some version.hash) :
    (∃ row', after.files.row? path = some row' ∧ row'.value.isCurrent = true ∧
      row'.hash = version.hash) ∧
    ∀ old, scan.contents old path = old path := by
  obtain ⟨entry, member, rfl, available, hash, -⟩ := scan.entry_of_offers offers
  have recorded : ¬ChangeSet.Unrecorded before.files.known entry := by
    rw [settled.files.unrecorded_iff]
    rintro ⟨-, dirty⟩
    have again := dirty row found
    rw [← hash] at stamp
    simp [FileEntry.isDirty, FileEntry.wasIndexed, FileEntry.withHistory, FileRow.value, indexed,
      stamp] at again
  have stays : ¬ChangeSet.Withdraws before.files.known entry := ChangeSet.not_withdraws available
  obtain ⟨last, idle⟩ := scan.row_of_recorded member recorded stays
  refine ⟨⟨_, last, ?_, hash⟩, ?_⟩
  · simp [FileEntry.isCurrent, FileEntry.wasIndexed, FileRow.value, FileRow.ofEntry, found,
      available, indexed, stamp, hash]
  · exact scan.contents_of_listed member stays fun processed => absurd processed idle

end Scan

theorem exists_inexact {setup : Setup}
    (distinct : setup.discovery.Distinct setup.grammars snapshots)
    (policy : setup.settings.emptyOutput ≠ .succeed) {first second : Disk}
    (inside : snapshots first) (inside' : snapshots second)
    (scannable : setup.discovery.Scannable first) (scannable' : setup.discovery.Scannable second)
    {path : String} {full empty : Parsed}
    (offers : setup.discovery.Offers setup.grammars first path full)
    (solid : full.chunks ≠ []) (offers' : setup.discovery.Offers setup.grammars second path empty)
    (none : empty.chunks = []) :
    ∃ workspace, scanAll [first, second, first] setup.fresh = .ok workspace ∧
      ∃ entry ∈ workspace.files.known, entry.isCurrent = true ∧
        ¬Exact (setup.discovery.OffersIn setup.grammars snapshots) workspace entry := by
  have offered {disk : Disk} (member : snapshots disk) (path : String) (version : Parsed)
      (offers : setup.discovery.Offers setup.grammars disk path version) :
      setup.discovery.OffersIn setup.grammars snapshots path version :=
    ⟨disk, member, offers⟩
  have separate := distinct.separate
  obtain ⟨found, discovered, fits⟩ := scannable
  obtain ⟨found', discovered', fits'⟩ := scannable'
  have differ : full.hash ≠ empty.hash := by
    intro same
    have equal := distinct.eq_of_hash (offered inside path full offers)
      (offered inside' path empty offers') same
    exact solid (equal ▸ none)
  -- The content is indexed.
  have tracked := tracked_fresh setup (setup.discovery.OffersIn setup.grammars snapshots)
  obtain ⟨one, _, ran⟩ := tracked.settled.scan_ok discovered fits
  obtain ⟨scan⟩ := tracked.settled.exists_scan ran
  have tracked₁ := tracked.scan separate scan (offered inside)
  have discovery₁ : one.discovery = setup.discovery := scan.discovery_eq
  have same₁ : one.Offers = setup.discovery.Offers setup.grammars :=
    scan.offers_eq tracked.settled
  have settings₁ : one.queue.settings = setup.settings := scan.settings_eq
  obtain ⟨⟨row₁, at₁, indexed₁, stamp₁, untried₁⟩, completed⟩ :=
    scan.indexes tracked.settled offers solid rfl (by simp [Setup.fresh])
  -- It is emptied.
  rw [← discovery₁] at discovered'
  rw [← same₁] at offers'
  obtain ⟨two, _, ran'⟩ := tracked₁.settled.scan_ok discovered' fits'
  obtain ⟨scan'⟩ := tracked₁.settled.exists_scan ran'
  have tracked₂ := tracked₁.scan separate scan' (same₁ ▸ offered inside')
  have discovery₂ : two.discovery = setup.discovery := scan'.discovery_eq.trans discovery₁
  have same₂ : two.Offers = setup.discovery.Offers setup.grammars :=
    (scan'.offers_eq tracked₁.settled).trans same₁
  obtain ⟨⟨row₂, at₂, same, same'⟩, emptied⟩ := scan'.empties tracked₁.settled offers' none
    (settings₁ ▸ policy) at₁ (by simp [stamp₁, differ]) untried₁ completed
  -- It comes back.
  have again := offers
  rw [← discovery₂] at discovered
  rw [← same₂] at again
  obtain ⟨three, _, ran''⟩ := tracked₂.settled.scan_ok discovered fits
  obtain ⟨scan''⟩ := tracked₂.settled.exists_scan ran''
  have tracked₃ := tracked₂.scan separate scan'' (same₂ ▸ offered inside)
  obtain ⟨⟨row₃, at₃, isCurrent, hash⟩, left⟩ := scan''.leaves tracked₂.settled again at₂
    (same ▸ indexed₁) (same' ▸ stamp₁)
  refine ⟨three, ?_, row₃.value, ?_, isCurrent, ?_⟩
  · simp only [scanAll, ran, ran', ran'', bind, Except.bind]
  · exact FileIndex.mem_known.mpr
      ⟨row₃, (tracked₃.settled.files.row?_eq_some.mp at₃).1, rfl⟩
  · rintro ⟨graph, version, tables, known, sameHash, rows⟩
    have place : row₃.value.path = path := (tracked₃.settled.files.row?_eq_some.mp at₃).2
    rw [place] at known rows
    obtain rfl := distinct.eq_of_hash known (offered inside path full offers) (sameHash.trans hash)
    obtain ⟨graph', tables', held⟩ := tracked₃.holds.graph
    rw [tables] at tables'
    obtain rfl := Option.some.inj tables'
    rw [held.chunks path, Contents.graphs, left, emptied] at rows
    have lost : (empty.graph path).chunkRows = [] := FileGraph.chunkRows_eq_nil.mpr none
    exact solid (FileGraph.chunkRows_eq_nil.mp (rows.symm.trans lost))

/-- Every current file is held as it is in every run of scans, if and only if content without chunks
is accepted or no file can change between content with chunks and content without. -/
theorem current_is_exact_iff (setup : Setup) (snapshots : Disk → Prop)
    (scannable : ∀ disk, snapshots disk → setup.discovery.Scannable disk)
    (distinct : setup.discovery.Distinct setup.grammars snapshots) :
    (∀ disks, (∀ disk ∈ disks, snapshots disk) → ∀ workspace,
      scanAll disks setup.fresh = .ok workspace → ∀ entry ∈ workspace.files.known,
      entry.isCurrent = true →
      Exact (setup.discovery.OffersIn setup.grammars snapshots) workspace entry) ↔
    setup.settings.emptyOutput = .succeed ∨
      ∀ path full empty, setup.discovery.OffersIn setup.grammars snapshots path full →
        full.chunks ≠ [] → setup.discovery.OffersIn setup.grammars snapshots path empty →
        empty.chunks ≠ [] := by
  constructor
  · intro exact'
    -- Otherwise a file is indexed, emptied and back again, in three scans.
    by_contra wrong
    simp only [not_or, not_forall, not_not] at wrong
    obtain ⟨policy, path, full, empty, ⟨first, inside, offers⟩, solid, ⟨second, inside', offers'⟩,
      none⟩ := wrong
    obtain ⟨workspace, ran, entry, member, isCurrent, inexact⟩ :=
      exists_inexact distinct policy inside inside' (scannable first inside)
        (scannable second inside') offers solid offers' none
    exact inexact (exact' _ (by simp [inside, inside']) workspace ran entry member isCurrent)
  · intro harmless disks inside workspace scanned entry member isCurrent
    obtain ⟨⟨contents, tracked⟩, settings⟩ := Tracked.scanAll distinct.separate disks
      (tracked_fresh setup _) (fun disk listed path version offers =>
        ⟨disk, inside disk listed, offers⟩) scanned
    rcases tracked.exact_or_emptied member isCurrent with
      held | ⟨policy, full, empty, offers, solid, offers', none⟩
    · exact held
    · rcases harmless with accepted | never
      · exact absurd (settings ▸ accepted) policy
      · exact absurd none (never _ full empty offers solid offers')

def fullDisk : Disk :=
  Setup.sampleDisk [("a.js", "export const a = 1;\n")]

def emptyDisk : Disk :=
  Setup.sampleDisk [("a.js", "\u00a0\n")]

set_option maxRecDepth 100000 in
/-- A file that is indexed, emptied and back again is lost. -/
theorem current_file_is_lost :
    ¬∀ disks, (∀ disk ∈ disks, disk = fullDisk ∨ disk = emptyDisk) → ∀ workspace,
      scanAll disks Setup.sample.fresh = .ok workspace → ∀ entry ∈ workspace.files.known,
      entry.isCurrent = true →
      Exact (Setup.sample.discovery.OffersIn Setup.sample.grammars
        (fun disk => disk = fullDisk ∨ disk = emptyDisk)) workspace entry := by
  let discovery := Setup.sample.discovery
  let stored (disk : Disk) := Processing.stored? Setup.sample.grammars disk discovery.root
    discovery.maxFileSize "a.js"
  obtain ⟨full, one⟩ := @Discovery.exists_oneFile discovery Setup.sample.grammars fullDisk "a.js"
    (by decide +kernel) (by decide +kernel)
  obtain ⟨empty, two⟩ := @Discovery.exists_oneFile discovery Setup.sample.grammars emptyDisk "a.js"
    (by decide +kernel) (by decide +kernel)
  have chunks : [fullDisk, emptyDisk].map (fun disk => (stored disk).map
      (fun version => version.chunks.isEmpty)) = [some false, some true] := by
    decide +kernel
  have hashes : (stored fullDisk).map Parsed.hash ≠ (stored emptyDisk).map Parsed.hash := by
    decide +kernel
  simp only [stored, List.map_cons, List.map_nil, one.stored, two.stored, Option.map_some]
    at chunks hashes
  obtain ⟨solid, none⟩ : full.chunks ≠ [] ∧ empty.chunks = [] := by simpa using chunks
  -- Neither way out is open: an empty output fails, and the file goes from chunks to none.
  rw [current_is_exact_iff Setup.sample (fun disk => disk = fullDisk ∨ disk = emptyDisk)]
  · rintro (accepted | never)
    · cases accepted
    · exact never "a.js" full empty ⟨fullDisk, .inl rfl, one.offers_iff.mpr ⟨rfl, rfl⟩⟩ solid
        ⟨emptyDisk, .inr rfl, two.offers_iff.mpr ⟨rfl, rfl⟩⟩ none
  · rintro disk (rfl | rfl)
    · exact one.scannable
    · exact two.scannable
  · have known {path : String} {version : Parsed} (offers : discovery.OffersIn
        Setup.sample.grammars (fun disk => disk = fullDisk ∨ disk = emptyDisk) path version) :
        path = "a.js" ∧ (version = full ∨ version = empty) := by
      obtain ⟨disk, rfl | rfl, offers⟩ := offers
      · exact ⟨(one.offers_iff.mp offers).1, .inl (one.offers_iff.mp offers).2⟩
      · exact ⟨(two.offers_iff.mp offers).1, .inr (two.offers_iff.mp offers).2⟩
    refine ⟨?_, ?_⟩
    · intro path version path' version' offers offers' apart
      exact absurd ((known offers).1.trans (known offers').1.symm) apart
    · intro path version version' offers offers' same
      rcases (known offers).2 with rfl | rfl <;> rcases (known offers').2 with rfl | rfl
      · rfl
      · exact absurd (congrArg some same) hashes
      · exact absurd (congrArg some same.symm) hashes
      · rfl

end Workspace

end CodeGraph
