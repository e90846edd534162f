import CodeGraph.Proofs.CodeIndex.Agreement
import CodeGraph.Proofs.Graph.Integrity
import CodeGraph.Proofs.Table.Revisions

/-!
The rows of all stores of an index, and what files bring to them.

A file that is put revises each table: the rows of its old state go and its new ones come. As long
as nodes of different files, and packages, cannot be mistaken for each other, no file drops or
overwrites what another one brings. So it does not matter in which order files are put.
-/

set_option autoImplicit false

namespace CodeGraph

structure Holdings where
  graph : Graph
  points : List Point
  facts : List CachedFacts

structure Contribution where
  file : FileGraph
  points : List Point
  facts : CachedFacts

namespace Graph

variable {graph graph' : Graph} {file : FileGraph}

theorem isReplaced_congr
    (same : ∀ id, id ∈ graph.chunkIds file.path ↔ id ∈ graph'.chunkIds file.path) :
    graph.isReplaced file = graph'.isReplaced file := by
  funext row
  simp only [isReplaced, List.contains_eq_mem, List.mem_filter, same]

theorem chunkIds_perm (perm : graph.chunks.Perm graph'.chunks) (path id : String) :
    id ∈ graph.chunkIds path ↔ id ∈ graph'.chunkIds path := by
  simp only [mem_chunkIds, perm.mem_iff]

end Graph

/-- Identifiers of chunks that belong to one file each, and are neither paths of some files nor
nodes of packages. -/
structure Naming (owns : String → String → Prop) (paths : List String) : Prop where
  apart : ∀ path other id, owns path id → owns other id → path = other
  paths : ∀ path id, owns path id → id ∉ paths
  packages : ∀ path id, owns path id → isPackageNode id = false

theorem Naming.node_ne {owns : String → String → Prop} {paths : List String}
    (naming : Naming owns paths) {path other node : String}
    (listed : path ∈ paths) (listed' : other ∈ paths) (differ : path ≠ other)
    (inside : node = path ∨ owns path node) : node ≠ other ∧ ¬owns other node := by
  rcases inside with rfl | owned
  · exact ⟨differ, fun owned => naming.paths _ _ owned listed⟩
  · refine ⟨?_, fun owned' => differ (naming.apart _ _ _ owned owned')⟩
    rintro rfl
    exact naming.paths _ _ owned listed'

namespace Contribution

structure Own (owns : String → String → Prop) (new : Contribution) : Prop where
  fitting : Graph.Fitting owns new.file
  sources : ∀ edge ∈ new.file.edges, edge.source = new.file.path ∨ owns new.file.path edge.source
  targets : ∀ edge ∈ new.file.edges,
    owns new.file.path edge.target ∨ isPackageNode edge.target = true
  points : ∀ point ∈ new.points, ∃ chunk ∈ new.file.chunks,
    point.id = chunk.id ∧ point.payload = chunk.payload
  facts : new.facts.path = new.file.path

theorem Own.owned {owns : String → String → Prop} {new : Contribution} (own : new.Own owns) :
    ∀ chunk ∈ new.file.chunks, owns chunk.filePath chunk.id := by
  intro chunk inside
  rw [own.fitting.chunks chunk inside]
  exact own.fitting.owned chunk inside

theorem Own.ids_ne {owns : String → String → Prop} {paths : List String} {a b : Contribution}
    (naming : Naming owns paths) (first : a.Own owns) (second : b.Own owns)
    (differ : a.file.path ≠ b.file.path) {chunk chunk' : Chunk} (inside : chunk ∈ a.file.chunks)
    (inside' : chunk' ∈ b.file.chunks) : chunk.id ≠ chunk'.id := by
  intro same
  have owned := first.fitting.owned chunk inside
  exact differ (naming.apart _ _ _ (same ▸ owned) (second.fitting.owned chunk' inside'))

end Contribution

namespace Holdings

def put (holdings : Holdings) (new : Contribution) : Holdings where
  graph := holdings.graph.replaced new.file
  points := Table.revise Point.id
    (fun point => !VectorStore.matchesText point.payload "file_path" new.file.path) new.points
    holdings.points
  facts := Table.put CachedFacts.path new.facts holdings.facts

def delete (holdings : Holdings) (path : String) : Holdings where
  graph := holdings.graph.deleteFile path
  points := holdings.points.filter
    (fun point => !VectorStore.matchesText point.payload "file_path" path)
  facts := Table.erase CachedFacts.path path holdings.facts

structure Same (a b : Holdings) : Prop where
  files : a.graph.files.Perm b.graph.files
  chunks : a.graph.chunks.Perm b.graph.chunks
  edges : a.graph.edges.Perm b.graph.edges
  points : a.points.Perm b.points
  facts : ∀ path, Table.get? CachedFacts.path a.facts path =
    Table.get? CachedFacts.path b.facts path

theorem Same.refl (holdings : Holdings) : Same holdings holdings :=
  ⟨.refl _, .refl _, .refl _, .refl _, fun _ => rfl⟩

theorem Same.trans {a b c : Holdings} (first : Same a b) (second : Same b c) : Same a c :=
  ⟨first.files.trans second.files, first.chunks.trans second.chunks,
    first.edges.trans second.edges, first.points.trans second.points,
    fun path => (first.facts path).trans (second.facts path)⟩

structure Sound (owns : String → String → Prop) (holdings : Holdings) : Prop where
  files : Table.Unique FileNodeRow.path holdings.graph.files
  chunks : Table.Unique ChunkRow.id holdings.graph.chunks
  edges : Table.Unique EdgeRow.key holdings.graph.edges
  points : Table.Unique Point.id holdings.points
  owned : ∀ row ∈ holdings.graph.chunks, owns row.filePath row.id

variable {owns : String → String → Prop} {holdings : Holdings} {paths : List String}

theorem Sound.put (sound : holdings.Sound owns) {new : Contribution}
    (owned : ∀ chunk ∈ new.file.chunks, owns chunk.filePath chunk.id) :
    (holdings.put new).Sound owns where
  files := sound.files.put _
  chunks := sound.chunks.revise _ _
  edges := sound.edges.revise _ _
  points := sound.points.revise _ _
  owned := by
    intro row member
    rcases Graph.mem_chunks_replaced member with ⟨old, -⟩ | ⟨chunk, inside, rfl⟩
    · exact sound.owned row old
    · exact owned chunk inside

theorem Sound.delete (sound : holdings.Sound owns) (path : String) :
    (holdings.delete path).Sound owns where
  files := sound.files.erase _
  chunks := sound.chunks.filter _
  edges := sound.edges.filter _
  points := sound.points.filter _
  owned row member := sound.owned row (List.mem_of_mem_filter member)

theorem Same.put {a b : Holdings} (same : Same a b) (first : a.Sound owns) (second : b.Sound owns)
    (new : Contribution) : Same (a.put new) (b.put new) where
  files := by
    simp only [Holdings.put, Graph.replaced, Table.put_eq_revise]
    exact Table.perm_revise first.files second.files same.files _ _
  chunks := Table.perm_revise first.chunks second.chunks same.chunks _ _
  edges := by
    have gone := Graph.isReplaced_congr fun id => Graph.chunkIds_perm same.chunks new.file.path id
    simp only [Holdings.put, Graph.replaced, gone]
    exact Table.perm_revise first.edges second.edges same.edges _ _
  points := Table.perm_revise first.points second.points same.points _ _
  facts := by
    intro path
    by_cases own : new.facts.path = path
    · subst own
      rw [Holdings.put, Holdings.put, Table.get?_put_self, Table.get?_put_self]
    · simp only [Holdings.put, Table.get?_put_of_ne _ _ _ _ own, same.facts]

theorem Sound.chunkIds_put (naming : Naming owns paths) (sound : holdings.Sound owns)
    {new : Contribution} (own : new.Own owns) {path : String} (differ : path ≠ new.file.path)
    (id : String) :
    id ∈ holdings.graph.chunkIds path ↔ id ∈ (holdings.put new).graph.chunkIds path := by
  simp only [Graph.mem_chunkIds]
  refine exists_congr fun row => and_congr_left fun ⟨place, _⟩ => ?_
  constructor
  · intro inside
    refine (Table.mem_revise sound.chunks).mpr (.inr ⟨inside, by simpa [place] using differ, ?_⟩)
    intro written
    obtain ⟨other, image, same⟩ := List.mem_map.mp written
    obtain ⟨chunk, listed, rfl⟩ := List.mem_map.mp image
    have owned := own.fitting.owned chunk listed
    rw [show chunk.id = row.id from same] at owned
    exact differ (place ▸ naming.apart _ _ _ (sound.owned row inside) owned)
  · intro inside
    rcases Graph.mem_chunks_replaced inside with ⟨old, -⟩ | ⟨chunk, listed, rfl⟩
    · exact old
    · exact absurd (place.symm.trans (own.fitting.chunks chunk listed)) differ

theorem Sound.isReplaced_eq_false (naming : Naming owns paths) (sound : holdings.Sound owns)
    {new other : Contribution} (own : other.Own owns) (listed : new.file.path ∈ paths)
    (listed' : other.file.path ∈ paths) (differ : other.file.path ≠ new.file.path) {row : EdgeRow}
    (member : row ∈ other.file.edges.map EdgeRow.ofEdge) :
    holdings.graph.isReplaced new.file row = false := by
  obtain ⟨edge, inside, rfl⟩ := List.mem_map.mp member
  have owned {id : String} (stored : id ∈ holdings.graph.chunkIds new.file.path) :
      owns new.file.path id := by
    obtain ⟨row, inside, place, rfl⟩ := Graph.mem_chunkIds.mp stored
    exact place ▸ sound.owned row inside
  obtain ⟨notFile, notChunk⟩ := naming.node_ne listed' listed differ (own.sources edge inside)
  have target : edge.target ∉ holdings.graph.chunkIds new.file.path := by
    intro stored
    rcases own.targets edge inside with chunk | package
    · exact differ (naming.apart _ _ _ chunk (owned stored))
    · cases package.symm.trans (naming.packages _ _ (owned stored))
  simp only [Graph.isReplaced, EdgeRow.ofEdge, Bool.or_eq_false_iff, beq_eq_false_iff_ne,
    List.contains_eq_mem, decide_eq_false_iff_not]
  exact ⟨⟨notFile, fun stored => notChunk (owned stored)⟩,
    fun removed => target (List.mem_of_mem_filter removed)⟩

section Two

variable {a b : Contribution} (naming : Naming owns paths) (sound : holdings.Sound owns)
  (first : a.Own owns) (second : b.Own owns) (listed : a.file.path ∈ paths)
  (listed' : b.file.path ∈ paths) (differ : a.file.path ≠ b.file.path)

include naming sound first second listed listed' differ

theorem Sound.edges_comm :
    ((holdings.put a).put b).graph.edges.Perm ((holdings.put b).put a).graph.edges := by
  have after := Graph.isReplaced_congr (sound.chunkIds_put naming first differ.symm)
  have after' := Graph.isReplaced_congr (sound.chunkIds_put naming second differ)
  have edges (first second : Contribution) : ((holdings.put first).put second).graph.edges =
      Table.revise EdgeRow.key
        (fun row => !(holdings.put first).graph.isReplaced second.file row)
        (second.file.edges.map EdgeRow.ofEdge)
        (Table.revise EdgeRow.key (fun row => !holdings.graph.isReplaced first.file row)
          (first.file.edges.map EdgeRow.ofEdge) holdings.graph.edges) := rfl
  rw [edges, edges, ← after, ← after']
  refine Table.revise_comm sound.edges ?_ ?_ ?_
  · intro row member
    rw [sound.isReplaced_eq_false naming second listed listed' differ.symm member]
    rfl
  · intro row member
    rw [sound.isReplaced_eq_false naming first listed' listed differ member]
    rfl
  · intro row member other member' same
    obtain ⟨edge, inside, rfl⟩ := List.mem_map.mp member
    obtain ⟨edge', inside', rfl⟩ := List.mem_map.mp member'
    have source : edge.source = edge'.source := congrArg Prod.fst same
    obtain ⟨notFile, notChunk⟩ := naming.node_ne listed listed' differ (first.sources edge inside)
    rcases second.sources edge' inside' with file | chunk
    · exact notFile (source.trans file)
    · exact notChunk (source ▸ chunk)

theorem Sound.put_comm : Same ((holdings.put a).put b) ((holdings.put b).put a) where
  files := by
    simp only [Holdings.put, Graph.replaced, Table.put_eq_revise]
    refine Table.revise_comm sound.files (fun _ _ => rfl) (fun _ _ => rfl) ?_
    simpa [FileGraph.row] using differ
  chunks := by
    -- Each table is revised twice, and the files own what they drop and write.
    refine Table.revise_comm sound.chunks ?_ ?_ ?_
    · intro row member
      obtain ⟨chunk, inside, rfl⟩ := List.mem_map.mp member
      simpa [ChunkRow.image, second.fitting.chunks chunk inside] using differ.symm
    · intro row member
      obtain ⟨chunk, inside, rfl⟩ := List.mem_map.mp member
      simpa [ChunkRow.image, first.fitting.chunks chunk inside] using differ
    · intro row member other member'
      obtain ⟨chunk, inside, rfl⟩ := List.mem_map.mp member
      obtain ⟨chunk', inside', rfl⟩ := List.mem_map.mp member'
      exact first.ids_ne naming second differ inside inside'
  edges := sound.edges_comm naming first second listed listed' differ
  points := by
    refine Table.revise_comm sound.points ?_ ?_ ?_
    · intro point member
      obtain ⟨chunk, inside, -, payload⟩ := second.points point member
      rw [payload, Chunk.matchesText_payload, second.fitting.chunks chunk inside]
      simpa using differ.symm
    · intro point member
      obtain ⟨chunk, inside, -, payload⟩ := first.points point member
      rw [payload, Chunk.matchesText_payload, first.fitting.chunks chunk inside]
      simpa using differ
    · intro point member other member'
      obtain ⟨chunk, inside, id, -⟩ := first.points point member
      obtain ⟨chunk', inside', id', -⟩ := second.points other member'
      rw [id, id']
      exact first.ids_ne naming second differ inside inside'
  facts := by
    intro path
    have apart : a.facts.path ≠ b.facts.path := by
      rw [first.facts, second.facts]
      exact differ
    by_cases own : a.facts.path = path
    · subst own
      simp only [Holdings.put, Table.get?_put_self, Table.get?_put_of_ne _ _ _ _ apart.symm]
    · simp only [Holdings.put, Table.get?_put_of_ne _ _ _ _ own]
      by_cases other : b.facts.path = path
      · subst other
        simp only [Table.get?_put_self]
      · simp only [Table.get?_put_of_ne _ _ _ _ other, Table.get?_put_of_ne _ _ _ _ own]

end Two

def putAll (holdings : Holdings) (new : List Contribution) : Holdings :=
  new.foldl Holdings.put holdings

theorem Same.putAll {a b : Holdings} (same : Same a b) (first : a.Sound owns)
    (second : b.Sound owns) {new : List Contribution} (own : ∀ file ∈ new, file.Own owns) :
    Same (a.putAll new) (b.putAll new) := by
  induction new generalizing a b with
  | nil => exact same
  | cons file rest ih =>
      obtain ⟨head, tail⟩ := List.forall_mem_cons.mp own
      exact ih (same.put first second file) (first.put head.owned) (second.put head.owned) tail

theorem Sound.putAll_perm (naming : Naming owns paths) {new new' : List Contribution}
    (perm : new.Perm new') (sound : holdings.Sound owns) (own : ∀ file ∈ new, file.Own owns)
    (listed : ∀ file ∈ new, file.file.path ∈ paths)
    (differ : (new.map (fun file => file.file.path)).Nodup) :
    Same (holdings.putAll new) (holdings.putAll new') := by
  induction perm generalizing holdings with
  | nil => exact .refl _
  | cons file _ ih =>
      obtain ⟨head, tail⟩ := List.forall_mem_cons.mp own
      exact ih (sound.put head.owned) tail (List.forall_mem_cons.mp listed).2
        (List.nodup_cons.mp differ).2
  | swap a b rest =>
      obtain ⟨second, first, others⟩ :
          b.Own owns ∧ a.Own owns ∧ ∀ file ∈ rest, file.Own owns := by
        simpa [List.forall_mem_cons] using own
      simp only [List.forall_mem_cons] at listed
      have apart : b.file.path ≠ a.file.path := by
        intro same
        simp [same] at differ
      have swapped := sound.put_comm naming second first listed.1 listed.2.1 apart
      exact swapped.putAll ((sound.put second.owned).put first.owned)
        ((sound.put first.owned).put second.owned) others
  | trans earlier _ ih ih' =>
      refine (ih sound own listed differ).trans (ih' sound ?_ ?_ ?_)
      · exact fun file inside => own file (earlier.mem_iff.mpr inside)
      · exact fun file inside => listed file (earlier.mem_iff.mpr inside)
      · exact (earlier.map _).nodup_iff.mp differ

end Holdings

end CodeGraph
