import CodeGraph.Proofs.Workspace.UpToDate
import Mathlib.Data.List.Chain

/-!
Scanning one state of the disk after the other gives the graph that one scan of the last state
gives. Both ways the index holds what the last state offers, and this determines the rows of the
graph up to their order and the edges to packages.

A file that was indexed and cannot be read any more is left as it is, so it is not what a scan of
that state alone would hold: `unreadable_file_stays`.
-/

set_option autoImplicit false

namespace CodeGraph

namespace Graph

/-- Two graphs with the same rows. Edges to packages are left out: they depend on the packages that
were installed when a file was indexed. -/
structure Same (a b : Graph) : Prop where
  files : a.files.Perm b.files
  chunks : a.chunks.Perm b.chunks
  edges : (a.edges.filter (fun row => row.kind != EdgeKind.importsPackage.name)).Perm
    (b.edges.filter (fun row => row.kind != EdgeKind.importsPackage.name))

variable {a b : Graph} {contents : Contents} {known known' : List String}

theorem Holds.mem_chunks_iff {graph : Graph} {stored : String → Option FileGraph}
    (holds : graph.Holds stored) (row : ChunkRow) :
    row ∈ graph.chunks ↔ ∃ file, stored row.filePath = some file ∧ row ∈ file.chunkRows := by
  constructor
  · exact holds.chunk_mem
  · rintro ⟨file, found, member⟩
    have rows := holds.chunks row.filePath
    rw [found, Option.elim_some] at rows
    rw [← rows] at member
    exact List.mem_of_mem_filter member

theorem Holds.mem_links_iff (holds : a.Holds contents.graphs)
    (links : CodeIndex.LinksExact a contents known) {row : EdgeRow} (isLink : row.isLink = true) :
    row ∈ a.edges ↔ ∃ path version, contents path = some version ∧
      row ∈ (contents.links known path version).map EdgeRow.ofEdge := by
  constructor
  · intro member
    obtain ⟨-, path, file, found, source⟩ := holds.owned row member
    obtain ⟨version, held, rfl⟩ := Option.map_eq_some_iff.mp found
    exact ⟨path, version, held, (links path version held row isLink source).mp member⟩
  · rintro ⟨path, version, held, member⟩
    refine (links path version held row isLink ?_).mpr member
    obtain ⟨edge, inside, rfl⟩ := List.mem_map.mp member
    have leaves := (CodeIndex.isLinkFrom_of_mem_links inside).2
    apply (holds.mem_nodes_iff held _).mp
    rw [List.mem_append, List.mem_singleton, or_comm]
    exact List.mem_cons.mp leaves

theorem isLocal_or_isLink {row : EdgeRow} (named : ∃ kind : EdgeKind, row.kind = kind.name)
    (other : (row.kind != EdgeKind.importsPackage.name) = true) :
    row.isLocal = true ∨ row.isLink = true := by
  obtain ⟨kind, same⟩ := named
  rw [same] at other
  simp only [EdgeRow.isLocal, EdgeRow.isLink, same]
  cases kind with
  | importsPackage => simp at other
  | contains | documents | references => exact .inl (by decide)
  | imports | importsSymbol => exact .inr (by decide)

theorem Holds.same (first : a.Holds contents.graphs) (second : b.Holds contents.graphs)
    (links : CodeIndex.LinksExact a contents known)
    (links' : CodeIndex.LinksExact b contents known')
    (listed : ∀ path, path ∈ known ↔ path ∈ known') : a.Same b := by
  have edges {row : EdgeRow} (kind : row.isLocal = true ∨ row.isLink = true) :
      row ∈ a.edges ↔ row ∈ b.edges := by
    rcases kind with isLocal | isLink
    · rw [first.edges row isLocal, second.edges row isLocal]
    · rw [first.mem_links_iff links isLink, second.mem_links_iff links' isLink]
      simp only [Contents.links, Import.targets_congr listed]
  refine ⟨?_, ?_, ?_⟩
  · apply (List.perm_ext_iff_of_nodup first.uniqueFiles.of_map second.uniqueFiles.of_map).mpr
    intro row
    rw [first.files, second.files]
  · apply (List.perm_ext_iff_of_nodup first.uniqueChunks.of_map second.uniqueChunks.of_map).mpr
    intro row
    rw [first.mem_chunks_iff, second.mem_chunks_iff]
  · apply (List.perm_ext_iff_of_nodup (first.uniqueEdges.of_map.filter _)
      (second.uniqueEdges.of_map.filter _)).mpr
    intro row
    rw [List.mem_filter, List.mem_filter]
    constructor
    · rintro ⟨member, other⟩
      exact ⟨(edges (isLocal_or_isLink (first.owned row member).1 other)).mp member, other⟩
    · rintro ⟨member, other⟩
      exact ⟨(edges (isLocal_or_isLink (second.owned row member).1 other)).mpr member, other⟩

end Graph

/-- Whether a walk can read what is left of the files that a walk over the disk before it found
available. -/
def Discovery.KeepsSight (discovery : Discovery) (disk next : Disk) : Prop :=
  ∀ found, discovery.discover disk = .ok found →
    ∀ entry ∈ found.entries, entry.available = true → discovery.Reads next entry.path

theorem Discovery.OneFile.keepsSight {discovery : Discovery} {grammars : Grammars} {disk : Disk}
    {path : String} {version : Parsed} (one : discovery.OneFile grammars disk path version)
    (isRoot : Path.IsRoot discovery.root) (earlier : Disk) : discovery.KeepsSight earlier disk := by
  intro _ _ _ _ _ found discovered entry member _ failed
  obtain ⟨found', only, discovered', entries, -, available, -⟩ := one.walk
  rw [discovered] at discovered'
  obtain rfl : found = found' := by simpa using discovered'
  obtain rfl : entry = only := by simpa [entries] using member
  rw [(finds_of_discover isRoot discovered member).computed available] at failed
  cases failed

namespace Workspace

variable {before : Workspace} {versions : String → Parsed → Prop} {contents : Contents}

theorem UpToDate.holds_tables (upToDate : UpToDate versions before contents) {graph : Graph}
    (tables : before.index.graph.tables = some graph) : graph.Holds contents.graphs := by
  obtain ⟨graph', tables', holds⟩ := upToDate.tracked.holds.graph
  rw [tables] at tables'
  rwa [Option.some.inj tables']

theorem UpToDate.scan_ok (upToDate : UpToDate versions before contents) {disk : Disk}
    (smooth : Smooth versions before.discovery before.index.grammars disk)
    (scannable : before.discovery.Scannable disk)
    (seen : ∀ path, (contents path).isSome = true → before.discovery.Reads disk path) :
    ∃ after report contents', before.scan disk = .ok (after, report) ∧
      UpToDate versions after contents' ∧ after.discovery = before.discovery ∧
      after.index.grammars = before.index.grammars ∧
      ∀ path version, contents' path = some version ↔ before.Offers disk path version := by
  have settled := upToDate.tracked.settled
  obtain ⟨found, discovered, fits⟩ := scannable
  obtain ⟨after, report, ran⟩ := settled.scan_ok discovered fits
  obtain ⟨scan⟩ := settled.exists_scan ran
  exact ⟨after, report, scan.contents contents, ran, upToDate.scan smooth scan seen,
    scan.discovery_eq, scan.grammars_after settled,
    fun path version => upToDate.contents_iff smooth scan seen⟩

theorem UpToDate.scanAll {last : Disk} (earlier : List Disk)
    (upToDate : UpToDate versions before contents)
    (smooth : ∀ disk ∈ earlier ++ [last],
      Smooth versions before.discovery before.index.grammars disk)
    (scannable : ∀ disk ∈ earlier ++ [last], before.discovery.Scannable disk)
    (sight : (earlier ++ [last]).IsChain before.discovery.KeepsSight)
    (seen : ∀ disk ∈ (earlier ++ [last]).head?, ∀ path, (contents path).isSome = true →
      before.discovery.Reads disk path) :
    ∃ after contents', scanAll (earlier ++ [last]) before = .ok after ∧
      UpToDate versions after contents' ∧
      ∀ path version, contents' path = some version ↔ before.Offers last path version := by
  induction earlier generalizing before contents with
  | nil =>
      obtain ⟨after, report, contents', ran, later, -, -, offers⟩ :=
        upToDate.scan_ok (smooth last (by simp)) (scannable last (by simp)) (seen last (by simp))
      exact ⟨after, contents', by simp only [List.nil_append, Workspace.scanAll, ran]; rfl, later,
        offers⟩
  | cons disk rest ih =>
      obtain ⟨next, report, contents', ran, later, discovery, grammars, offers⟩ :=
        upToDate.scan_ok (smooth disk (by simp)) (scannable disk (by simp)) (seen disk (by simp))
      rw [List.cons_append, List.isChain_cons] at sight
      have inside {other : Disk} (listed : other ∈ rest ++ [last]) :
          other ∈ disk :: rest ++ [last] :=
        List.mem_cons_of_mem _ listed
      -- What is held is what the last state had available.
      have reads : ∀ other ∈ (rest ++ [last]).head?, ∀ path, (contents' path).isSome = true →
          next.discovery.Reads other path := by
        intro other first path held
        obtain ⟨version, held⟩ := Option.isSome_iff_exists.mp held
        obtain ⟨found, discovered, ⟨entry, member, rfl, available⟩, -⟩ :=
          (offers path version).mp held
        rw [discovery]
        exact sight.1 other first found discovered entry member available
      obtain ⟨after, contents'', others, upToDate', same⟩ := ih later
        (fun disk listed => by rw [discovery, grammars]; exact smooth disk (inside listed))
        (fun disk listed => by rw [discovery]; exact scannable disk (inside listed))
        (by rw [discovery]; exact sight.2) reads
      refine ⟨after, contents'', ?_, upToDate', ?_⟩
      · simp only [List.cons_append, Workspace.scanAll, ran]
        exact others
      · simpa only [Offers, discovery, grammars] using same

theorem smooth_of_distinct {setup : Setup} {snapshots : Disk → Prop}
    (indexable : ∀ disk, snapshots disk → setup.discovery.Indexable setup.grammars disk)
    (distinct : setup.discovery.Distinct setup.grammars snapshots) {disk : Disk}
    (inside : snapshots disk) :
    Smooth (setup.discovery.OffersIn setup.grammars snapshots) setup.discovery setup.grammars
      disk where
  separate := distinct.separate
  unique := fun _ _ _ first second same => distinct.eq_of_hash first second same
  solid := by
    rintro path version ⟨disk, inside, found, discovered, ⟨entry, member, rfl, available⟩, stored⟩
    obtain ⟨other, again, solid⟩ := indexable disk inside found discovered entry member available
    rw [stored] at again
    rwa [Option.some.inj again]
  offered := fun _ _ offers => ⟨disk, inside, offers⟩
  indexable := indexable disk inside

/-- Scans of several states of the disk end with the graph of one scan of the last state, if all
files can be indexed and none that could be read in one state cannot be read in the next. -/
theorem scans_eq_rebuild (setup : Setup) (earlier : List Disk) (last : Disk)
    (scannable : ∀ disk ∈ earlier ++ [last], setup.discovery.Scannable disk)
    (indexable : ∀ disk ∈ earlier ++ [last], setup.discovery.Indexable setup.grammars disk)
    (distinct : setup.discovery.Distinct setup.grammars (fun disk => disk ∈ earlier ++ [last]))
    (sight : (earlier ++ [last]).IsChain setup.discovery.KeepsSight) :
    ∃ workspace once graph graph', scanAll (earlier ++ [last]) setup.fresh = .ok workspace ∧
      scanAll [last] setup.fresh = .ok once ∧ workspace.index.graph.tables = some graph ∧
      once.index.graph.tables = some graph' ∧ graph.Same graph' := by
  have smooth {disk : Disk} (inside : disk ∈ earlier ++ [last]) :=
    smooth_of_distinct indexable distinct inside
  have fresh := upToDate_fresh setup
    (setup.discovery.OffersIn setup.grammars (fun disk => disk ∈ earlier ++ [last]))
  have ends : last ∈ earlier ++ [last] := by simp
  obtain ⟨workspace, contents, scanned, upToDate, offers⟩ := fresh.scanAll earlier
    (fun disk inside => smooth inside) scannable sight (by simp)
  obtain ⟨once, contents', scanned', upToDate', offers'⟩ := fresh.scanAll []
    (fun disk only => smooth (by simp_all)) (fun disk only => scannable disk (by simp_all))
    (List.isChain_singleton last) (by simp)
  -- What is held is what the last state offers, however it was reached.
  obtain rfl : contents = contents' := by
    funext path
    apply Option.ext
    intro version
    rw [offers, offers']
  obtain ⟨graph, known, tables, listed, links⟩ := upToDate.links
  obtain ⟨graph', known', tables', listed', links'⟩ := upToDate'.links
  refine ⟨workspace, once, graph, graph', scanned, scanned', tables, tables', ?_⟩
  exact (upToDate.holds_tables tables).same (upToDate'.holds_tables tables') links links'
    fun path => (listed path).trans (listed' path).symm

set_option maxRecDepth 100000 in
theorem rebuild_after_return :
    ∃ workspace once graph graph', scanAll
        [Setup.sampleDisk [("a.js", "export const a = 1;\n")],
          Setup.sampleDisk [("b.js", "export const b = 2;\n")],
          Setup.sampleDisk [("a.js", "export const c = 3;\n")]] Setup.sample.fresh =
        .ok workspace ∧
      scanAll [Setup.sampleDisk [("a.js", "export const c = 3;\n")]] Setup.sample.fresh = .ok once ∧
      workspace.index.graph.tables = some graph ∧ once.index.graph.tables = some graph' ∧
      graph.Same graph' := by
  let first := Setup.sampleDisk [("a.js", "export const a = 1;\n")]
  let second := Setup.sampleDisk [("b.js", "export const b = 2;\n")]
  let third := Setup.sampleDisk [("a.js", "export const c = 3;\n")]
  let discovery := Setup.sample.discovery
  let grammars := Setup.sample.grammars
  obtain ⟨a, one⟩ := @Discovery.exists_oneFile discovery grammars first "a.js" (by decide +kernel)
    (by decide +kernel)
  obtain ⟨b, two⟩ := @Discovery.exists_oneFile discovery grammars second "b.js" (by decide +kernel)
    (by decide +kernel)
  obtain ⟨c, three⟩ := @Discovery.exists_oneFile discovery grammars third "a.js" (by decide +kernel)
    (by decide +kernel)
  -- The identifiers and the hashes, computed.
  let stored (disk : Disk) := Processing.stored? grammars disk discovery.root discovery.maxFileSize
  let ids (disk : Disk) (path : String) :=
    (stored disk path).map (fun version => version.chunks.map Chunk.id)
  have solid : ids first "a.js" ≠ some [] ∧ ids second "b.js" ≠ some [] ∧
      ids third "a.js" ≠ some [] := by
    decide +kernel
  have apart : ∀ id ∈ (ids first "a.js").getD [] ++ (ids third "a.js").getD [],
      id ∉ (ids second "b.js").getD [] := by
    decide +kernel
  have hashes : (stored first "a.js").map Parsed.hash ≠ (stored third "a.js").map Parsed.hash := by
    decide +kernel
  simp only [ids, stored, one.stored, two.stored, three.stored, Option.map_some,
    Option.getD_some, ne_eq, Option.some.injEq, List.map_eq_nil_iff] at solid apart hashes
  have known {path : String} {version : Parsed} (offers : discovery.OffersIn grammars
      (fun disk => disk ∈ [first, second] ++ [third]) path version) :
      path = "a.js" ∧ (version = a ∨ version = c) ∨ path = "b.js" ∧ version = b := by
    obtain ⟨disk, inside, offers⟩ := offers
    simp only [List.cons_append, List.nil_append, List.mem_cons, List.not_mem_nil, or_false]
      at inside
    rcases inside with rfl | rfl | rfl
    · exact .inl ⟨(one.offers_iff.mp offers).1, .inl (one.offers_iff.mp offers).2⟩
    · exact .inr (two.offers_iff.mp offers)
    · exact .inl ⟨(three.offers_iff.mp offers).1, .inr (three.offers_iff.mp offers).2⟩
  refine scans_eq_rebuild Setup.sample [first, second] third ?_ ?_ ⟨?_, ?_⟩ ?_
  · simp only [List.cons_append, List.nil_append, List.forall_mem_cons]
    exact ⟨one.scannable, two.scannable, three.scannable, by simp⟩
  · simp only [List.cons_append, List.nil_append, List.forall_mem_cons]
    exact ⟨one.indexable solid.1, two.indexable solid.2.1, three.indexable solid.2.2, by simp⟩
  · intro path version path' version' offers offers' differ chunk inside chunk' inside' same
    have clash {owner : Parsed} (listed : owner = a ∨ owner = c) {left right : Chunk}
        (member : left ∈ owner.chunks) (member' : right ∈ b.chunks) : left.id ≠ right.id := by
      intro equal
      refine apart left.id ?_ (equal ▸ List.mem_map_of_mem member')
      rcases listed with rfl | rfl
      · exact List.mem_append_left _ (List.mem_map_of_mem member)
      · exact List.mem_append_right _ (List.mem_map_of_mem member)
    rcases known offers with ⟨rfl, owner⟩ | ⟨rfl, rfl⟩ <;>
      rcases known offers' with ⟨rfl, owner'⟩ | ⟨rfl, rfl⟩
    · exact differ rfl
    · exact clash owner inside inside' same
    · exact clash owner' inside' inside same.symm
    · exact differ rfl
  · intro path version version' offers offers' same
    rcases known offers with ⟨rfl, rfl | rfl⟩ | ⟨rfl, rfl⟩ <;>
      rcases known offers' with ⟨path, rfl | rfl⟩ | ⟨path, rfl⟩
    all_goals first
      | rfl
      | exact absurd same hashes
      | exact absurd same.symm hashes
      | exact absurd path (by decide)
  · simp only [List.cons_append, List.nil_append, List.isChain_cons_cons, List.isChain_singleton,
      and_true]
    exact ⟨two.keepsSight Setup.sample.isRoot _, three.keepsSight Setup.sample.isRoot _⟩

theorem discover_hiddenDisk :
    ∃ found, Setup.sample.discovery.discover (Setup.hiddenDisk "a.js") = .ok found ∧
      ∀ entry ∈ found.entries, entry.available = false ∧ entry.size ≤ maxInteger := by
  have walked : (Setup.sample.discovery.discover (Setup.hiddenDisk "a.js")).toOption.map
      (fun found => found.entries.all (fun entry =>
        !entry.available && decide (entry.size ≤ maxInteger))) = some true := by
    decide +kernel
  obtain ⟨found, discovered, entries⟩ := Option.map_eq_some_iff.mp walked
  exact ⟨found, Table.toOption_eq_some.mp discovered, by simpa using entries⟩

set_option maxRecDepth 100000 in
/-- What was indexed of a file stays in the graph while the file cannot be read. -/
theorem unreadable_file_stays :
    ¬∀ (setup : Setup) (earlier : List Disk) (last : Disk),
      (∀ disk ∈ earlier ++ [last], setup.discovery.Scannable disk) →
      (∀ disk ∈ earlier ++ [last], setup.discovery.Indexable setup.grammars disk) →
      setup.discovery.Distinct setup.grammars (fun disk => disk ∈ earlier ++ [last]) →
      ∃ workspace once graph graph', scanAll (earlier ++ [last]) setup.fresh = .ok workspace ∧
        scanAll [last] setup.fresh = .ok once ∧ workspace.index.graph.tables = some graph ∧
        once.index.graph.tables = some graph' ∧ graph.Same graph' := by
  intro claim
  let first := Setup.sampleDisk [("a.js", "export const a = 1;\n")]
  let hidden := Setup.hiddenDisk "a.js"
  let discovery := Setup.sample.discovery
  let grammars := Setup.sample.grammars
  obtain ⟨version, one⟩ := @Discovery.exists_oneFile discovery grammars first "a.js"
    (by decide +kernel) (by decide +kernel)
  have solid : (Processing.stored? grammars first discovery.root discovery.maxFileSize "a.js").map
      (fun version => version.chunks.isEmpty) = some false := by
    decide +kernel
  rw [one.stored] at solid
  obtain ⟨found, discovered, entries⟩ := discover_hiddenDisk
  have unavailable {entry : FileEntry} {again : Discovered}
      (discovered' : discovery.discover hidden = .ok again)
      (member : entry ∈ again.entries) : entry.available ≠ true := by
    obtain rfl : found = again := Except.ok.inj (discovered.symm.trans discovered')
    simp [(entries entry member).1]
  have known {path : String} {other : Parsed} (offers : discovery.OffersIn grammars
      (fun disk => disk ∈ [first] ++ [hidden]) path other) :
      path = "a.js" ∧ other = version := by
    obtain ⟨disk, inside, offers⟩ := offers
    simp only [List.cons_append, List.nil_append, List.mem_cons, List.not_mem_nil, or_false]
      at inside
    rcases inside with rfl | rfl
    · exact one.offers_iff.mp offers
    · obtain ⟨again, discovered', ⟨entry, member, -, available⟩, -⟩ := offers
      exact absurd available (unavailable discovered' member)
  have scannable : ∀ disk ∈ [first] ++ [hidden], discovery.Scannable disk := by
    simp only [List.cons_append, List.nil_append, List.forall_mem_cons]
    exact ⟨one.scannable, ⟨found, discovered, fun entry member => (entries entry member).2⟩,
      by simp⟩
  have indexable : ∀ disk ∈ [first] ++ [hidden], discovery.Indexable grammars disk := by
    simp only [List.cons_append, List.nil_append, List.forall_mem_cons]
    exact ⟨one.indexable (by simpa using solid), fun again discovered' entry member available =>
      absurd available (unavailable discovered' member), by simp⟩
  have distinct : discovery.Distinct grammars (fun disk => disk ∈ [first] ++ [hidden]) :=
    { chunks := fun _ _ _ _ offers offers' differ =>
        absurd ((known offers).1.trans (known offers').1.symm) differ
      hashes := fun _ _ _ offers offers' _ => by rw [(known offers).2, (known offers').2] }
  obtain ⟨workspace, once, graph, graph', ran, ran', tables, tables', same⟩ :=
    claim Setup.sample [first] hidden scannable indexable distinct
  let files (disks : List Disk) : Option Nat :=
    ((scanAll disks Setup.sample.fresh).toOption.bind (fun workspace =>
      workspace.index.graph.tables)).map (fun graph => graph.files.length)
  have counts : files ([first] ++ [hidden]) = some 1 ∧ files [hidden] = some 0 := by
    decide +kernel
  simp only [files, ran, ran', Except.toOption, Option.bind_some, tables, tables',
    Option.map_some, Option.some.injEq] at counts
  have equal := same.files.length_eq
  omega

end Workspace

end CodeGraph
