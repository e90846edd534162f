import CodeGraph.Proofs.CodeIndex.Holdings
import CodeGraph.Proofs.CodeIndex.Integrity
import CodeGraph.Proofs.Resolver

/-!
The order in which files are put into an index.

A file brings the same to an index before and after other files, as long as the disk says the same
about packages. What files bring may come in any order, if chunks have names of their own: an
identifier of a chunk that is also the path of a file, or the node of a package, makes the two one
node, and then the file that comes last takes away what the other one brought.
-/

set_option autoImplicit false

namespace CodeGraph

namespace CodeIndex

inductive Embeds : Option VectorIndex → Option HashEmbedder → List Point → Prop
  | off : Embeds none none []
  | on {vectors : VectorIndex} {points : List Point} (holds : vectors.Holds points) :
      Embeds (some vectors) (some vectors.embedder) points

structure Has (index : CodeIndex) (embedder : Option HashEmbedder) (holdings : Holdings) :
    Prop where
  tables : index.graph.tables = some holdings.graph
  vectors : Embeds index.vectors embedder holdings.points
  facts : index.facts = holdings.facts

def SameStores (a b : CodeIndex) : Prop :=
  ∃ embedder holdings holdings', a.Has embedder holdings ∧ b.Has embedder holdings' ∧
    holdings.Same holdings'

def pointsOf (embedder : Option HashEmbedder) (path : String) (chunks : List Chunk) : List Point :=
  embedder.elim [] (fun embedder => chunks.map (embedder.point (Language.ofPath? path)))

def contribution (embedder : Option HashEmbedder) (path content hash : String)
    (chunks : List Chunk) (extracted : Extraction) : Contribution where
  file := fileGraph path content chunks extracted.edges
  points := pointsOf embedder path chunks
  facts := { path, hash, facts := extracted.facts }

variable {index start : CodeIndex} {embedder : Option HashEmbedder} {holdings : Holdings}
  {owns : String → String → Prop}

theorem Has.ready (has : index.Has embedder holdings) : index.Ready where
  tables := ⟨_, has.tables⟩
  vectors := by
    intro known same
    have embeds := has.vectors
    rw [same] at embeds
    cases embeds with
    | on holds => exact holds.ready

theorem embedder_renew {vectors after : VectorIndex} {path : String} {chunks : List Chunk}
    (put : vectors.renew path chunks = .ok after) :
    after.embedder = vectors.embedder := by
  obtain ⟨cleared, -, rest⟩ := Table.of_bind_eq_ok put
  obtain ⟨stored, -, done⟩ := Table.of_bind_eq_ok rest
  rw [← Except.ok.inj done]

theorem Embeds.renew {vectors after : Option VectorIndex} {points : List Point}
    (embeds : Embeds vectors embedder points) {path : String} {chunks : List Chunk}
    (written : vectors.mapM (VectorIndex.renew path chunks) = .ok after) :
    Embeds after embedder (Table.revise Point.id
      (fun point => !VectorStore.matchesText point.payload "file_path" path)
      (pointsOf embedder path chunks) points) := by
  cases embeds with
  | off =>
      obtain rfl : none = after := Except.ok.inj written
      exact .off
  | @on known points holds =>
      obtain ⟨new, put, holds'⟩ := holds.renew path chunks
      rw [Option.mapM_some, put] at written
      obtain rfl : some new = after := Except.ok.inj written
      have embeds := Embeds.on holds'
      rwa [embedder_renew put] at embeds

theorem Embeds.deleteFile {vectors after : Option VectorIndex} {points : List Point}
    (embeds : Embeds vectors embedder points) {path : String}
    (removed : vectors.mapM (fun vectors => do
      return { vectors with store := ← vectors.store.deleteFile path }) = .ok after) :
    Embeds after embedder
      (points.filter (fun point => !VectorStore.matchesText point.payload "file_path" path)) := by
  cases embeds with
  | off =>
      obtain rfl : none = after := Except.ok.inj removed
      exact .off
  | on holds =>
      obtain ⟨store, deleted, holds'⟩ := holds.deleteFile path
      rw [Option.mapM_some, deleted] at removed
      obtain rfl := Except.ok.inj removed
      exact .on holds'

theorem Has.putFile (has : index.Has embedder holdings) (disk : Disk) (path content hash : String)
    (chunks : List Chunk) :
    (index.putFile disk path content hash chunks).1.Has embedder
      (if Takes path content chunks then
        holdings.put (contribution embedder path content hash chunks
          (extraction disk index path content chunks))
      else holdings) := by
  split
  next takes =>
    obtain ⟨after, outcome, put, -, done⟩ := putFile_taken has.ready disk path content hash takes
    rw [put]
    refine ⟨done.graph _ has.tables, ?_, ?_⟩
    · exact has.vectors.renew done.vectors
    · rw [done.facts, has.facts, ← Extraction.facts_ofFile]
      rfl
  next refuses =>
    obtain ⟨packages, error, put⟩ := putFile_refused has.ready disk path content hash refuses
    rw [put]
    exact ⟨has.tables, has.vectors, has.facts⟩

theorem Has.apply (has : index.Has embedder holdings) (sound : holdings.Sound owns) (call : Call)
    (owned : ∀ chunk ∈ call.chunks, owns chunk.filePath chunk.id) :
    ∃ after, (index.apply call).Has embedder after ∧ after.Sound owns := by
  cases call with
  | put disk path content hash chunks =>
      refine ⟨_, has.putFile disk path content hash chunks, ?_⟩
      split
      · exact sound.put owned
      · exact sound
  | delete path =>
      obtain ⟨after, deleted, done⟩ := deleteFile_ok has.ready path
      refine ⟨holdings.delete path, ?_, sound.delete path⟩
      simp only [CodeIndex.apply, deleted]
      refine ⟨done.graph _ has.tables, has.vectors.deleteFile done.vectors, ?_⟩
      rw [done.facts, has.facts]
      rfl
  | link disk files =>
      have linked := @link_linked disk index has.ready files
      obtain ⟨graph, tables, sameFiles, sameChunks, unique, -⟩ := linked.graph _ has.tables
      refine ⟨{ graph, points := holdings.points, facts := (index.link disk files).1.facts },
        ⟨tables, ?_, rfl⟩, ?_⟩
      · simp only [CodeIndex.apply, linked.vectors]
        exact has.vectors
      · refine ⟨?_, ?_, unique sound.edges, sound.points, ?_⟩
        · exact sameFiles ▸ sound.files
        · exact sameChunks ▸ sound.chunks
        · exact fun row member => sound.owned row (sameChunks ▸ member)

theorem Has.run (has : index.Has embedder holdings) (sound : holdings.Sound owns)
    (calls : List Call)
    (owned : ∀ chunk ∈ calls.flatMap Call.chunks, owns chunk.filePath chunk.id) :
    ∃ after, (index.run calls).Has embedder after ∧ after.Sound owns := by
  induction calls generalizing index holdings with
  | nil => exact ⟨holdings, has, sound⟩
  | cons call rest ih =>
      rw [List.flatMap_cons, List.forall_mem_append] at owned
      obtain ⟨middle, has', sound'⟩ := has.apply sound call owned.1
      exact ih has' sound' owned.2

structure Submission where
  disk : Disk
  path : String
  content : String
  hash : String
  chunks : List Chunk

namespace Submission

def call (file : Submission) : Call :=
  .put file.disk file.path file.content file.hash file.chunks

def contribution (embedder : Option HashEmbedder) (index : CodeIndex) (file : Submission) :
    Contribution :=
  CodeIndex.contribution embedder file.path file.content file.hash file.chunks
    (extraction file.disk index file.path file.content file.chunks)

def contributions (embedder : Option HashEmbedder) (index : CodeIndex) (files : List Submission) :
    List Contribution :=
  (files.filter (fun file => decide (Takes file.path file.content file.chunks))).map
    (contribution embedder index)

theorem ends_of_mem_contribution {file : Submission} {edge : Edge}
    (member : edge ∈ (file.contribution embedder index).file.edges) :
    edge.source ∈ file.path :: file.chunks.map Chunk.id ∧
      (edge.target ∈ file.chunks.map Chunk.id ∨ isPackageNode edge.target = true) := by
  obtain ⟨packages, foreign, edges⟩ := Extraction.edges_ofFile file.disk index.root index.packages
    file.path file.content file.chunks index.grammars
  simp only [contribution, CodeIndex.contribution, extraction, edges] at member
  rcases fileGraph_cases foreign member with ⟨-, source, target⟩ | ⟨-, source, target⟩ |
    ⟨-, source, target⟩ | ⟨-, source, package⟩
  · exact ⟨source ▸ List.mem_cons_self .., .inl target⟩
  · exact ⟨List.mem_cons_of_mem _ source, .inl target⟩
  · exact ⟨source, .inl target⟩
  · exact ⟨source ▸ List.mem_cons_self .., .inr package⟩

theorem own_contribution {file : Submission} (own : file.call.Own)
    (owned : ∀ chunk ∈ file.chunks, owns file.path chunk.id) :
    (file.contribution embedder index).Own owns := by
  have listed {id : String} (member : id ∈ file.chunks.map Chunk.id) : owns file.path id := by
    obtain ⟨chunk, inside, rfl⟩ := List.mem_map.mp member
    exact owned chunk inside
  have ends {edge : Edge} (member : edge ∈ (file.contribution embedder index).file.edges) :=
    @ends_of_mem_contribution index embedder file edge member
  refine ⟨⟨own, owned⟩, fun edge member => ?_, fun edge member => ?_, ?_, rfl⟩
  · exact (List.mem_cons.mp (ends member).1).imp_right listed
  · exact (ends member).2.imp_left listed
  · intro point member
    cases embedder with
    | none => cases member
    | some embedder =>
        obtain ⟨chunk, inside, rfl⟩ := List.mem_map.mp member
        exact ⟨chunk, inside, by simp only [HashEmbedder.point], by simp only [HashEmbedder.point]⟩

end Submission

structure Alike (disk : Disk) (a b : CodeIndex) : Prop where
  root : a.root = b.root
  grammars : a.grammars = b.grammars
  known : Resolver.known disk a.root a.packages = Resolver.known disk b.root b.packages

theorem Alike.extraction {disk other : Disk} (alike : Alike disk index start)
    (metadata : disk.SameMetadata other) (path content : String) (chunks : List Chunk) :
    extraction other index path content chunks = extraction other start path content chunks := by
  unfold CodeIndex.extraction
  rw [alike.root, alike.grammars]
  refine Extraction.ofFile_congr path content chunks start.grammars ?_
  rw [← metadata.known, ← metadata.known, ← alike.root, alike.known, alike.root]

theorem Alike.putFile {disk : Disk} (alike : Alike disk index start) {file : Submission}
    (metadata : disk.SameMetadata file.disk) : Alike disk (index.apply file.call) start := by
  obtain ⟨root, grammars, packages⟩ := index.putFile_settings file.disk file.path file.content
    file.hash file.chunks
  refine ⟨root.trans alike.root, grammars.trans alike.grammars, ?_⟩
  simp only [CodeIndex.apply, Submission.call, root, packages]
  rw [metadata.known, Extraction.known_ofFile, ← metadata.known, alike.known]

theorem Has.runFiles {disk : Disk} (has : index.Has embedder holdings)
    (alike : Alike disk index start) {files : List Submission}
    (metadata : ∀ file ∈ files, disk.SameMetadata file.disk) :
    (index.run (files.map Submission.call)).Has embedder
      (holdings.putAll (Submission.contributions embedder start files)) := by
  induction files generalizing index holdings with
  | nil => exact has
  | cons file rest ih =>
      obtain ⟨head, tail⟩ := List.forall_mem_cons.mp metadata
      have put := has.putFile file.disk file.path file.content file.hash file.chunks
      rw [alike.extraction head] at put
      have later := ih put (alike.putFile head) tail
      unfold Submission.contributions
      by_cases takes : Takes file.path file.content file.chunks
      · rw [if_pos takes] at later
        rw [List.filter_cons_of_pos (by simpa using takes)]
        exact later
      · rw [if_neg takes] at later
        rw [List.filter_cons_of_neg (by simpa using takes)]
        exact later

structure Fresh (index : CodeIndex) : Prop where
  tables : index.graph.tables = some {}
  vectors : ∀ vectors, index.vectors = some vectors → vectors.Holds []

structure Independent (history : List Call) (files : List Submission) : Prop where
  own : ∀ file ∈ files, file.call.Own
  paths : (files.map Submission.path).Nodup
  distinct : Call.Distinct (history ++ files.map Submission.call)
  metadata : ∀ a ∈ files, ∀ b ∈ files, a.disk.SameMetadata b.disk

/-- No chunk that was ever put has the path of one of some files or the node of a package for its
identifier. -/
def NamesApart (history : List Call) (files : List Submission) : Prop :=
  ∀ chunk ∈ (history ++ files.map Submission.call).flatMap Call.chunks,
    chunk.id ∉ files.map Submission.path ∧ isPackageNode chunk.id = false

instance (history : List Call) (files : List Submission) : Decidable (NamesApart history files) :=
  inferInstanceAs (Decidable (∀ chunk ∈ (history ++ files.map Submission.call).flatMap Call.chunks,
    chunk.id ∉ files.map Submission.path ∧ isPackageNode chunk.id = false))

theorem Fresh.has (fresh : index.Fresh) :
    ∃ embedder, index.Has embedder { graph := {}, points := [], facts := index.facts } := by
  cases attached : index.vectors with
  | none => exact ⟨none, fresh.tables, attached ▸ .off, rfl⟩
  | some vectors =>
      exact ⟨some vectors.embedder, fresh.tables, attached ▸ .on (fresh.vectors vectors attached),
        rfl⟩

theorem Independent.naming {history : List Call} {files : List Submission}
    (independent : Independent history files) (apart : NamesApart history files) :
    Naming (Owns (history ++ files.map Submission.call)) (files.map Submission.path) where
  apart := Owns.unique independent.distinct
  paths := by
    rintro path id ⟨chunk, listed, -, rfl⟩
    exact (apart chunk listed).1
  packages := by
    rintro path id ⟨chunk, listed, -, rfl⟩
    exact (apart chunk listed).2

theorem Independent.own_contributions {history : List Call} {files : List Submission}
    (independent : Independent history files) :
    ∀ new ∈ Submission.contributions embedder index files,
      new.Own (Owns (history ++ files.map Submission.call)) := by
  intro new member
  obtain ⟨file, taken, rfl⟩ := List.mem_map.mp member
  have inside := List.mem_of_mem_filter taken
  have own := independent.own file inside
  refine Submission.own_contribution own fun chunk listed => ⟨chunk, ?_, own chunk listed, rfl⟩
  exact List.mem_flatMap.mpr
    ⟨file.call, List.mem_append_right _ (List.mem_map_of_mem inside), listed⟩

theorem Submission.paths_contributions (files : List Submission) :
    ((contributions embedder index files).map (fun new => new.file.path)).Sublist
      (files.map Submission.path) := by
  rw [contributions, List.map_map]
  exact List.filter_sublist.map Submission.path

/-- The order in which different files are put does not matter. -/
theorem puts_in_any_order {history : List Call} {files files' : List Submission}
    (fresh : start.Fresh) (independent : Independent history files)
    (apart : NamesApart history files) (perm : files.Perm files') :
    SameStores ((start.run history).run (files.map Submission.call))
      ((start.run history).run (files'.map Submission.call)) := by
  obtain ⟨embedder, empty⟩ := fresh.has
  have blank : Holdings.Sound (Owns (history ++ files.map Submission.call))
      { graph := {}, points := [], facts := start.facts } := by
    constructor <;> simp [Table.Unique]
  obtain ⟨holdings, has, sound⟩ := empty.run blank history fun chunk listed => by
    refine ⟨chunk, ?_, rfl, rfl⟩
    rw [List.flatMap_append]
    exact List.mem_append_left _ listed
  obtain ⟨disk, metadata⟩ : ∃ disk, ∀ file ∈ files, Disk.SameMetadata disk file.disk := by
    cases files with
    | nil => exact ⟨{}, by simp⟩
    | cons first rest => exact ⟨first.disk, independent.metadata first (List.mem_cons_self ..)⟩
  have alike : Alike disk (start.run history) (start.run history) := ⟨rfl, rfl, rfl⟩
  have metadata' : ∀ file ∈ files', Disk.SameMetadata disk file.disk :=
    fun file inside => metadata file (perm.mem_iff.mpr inside)
  refine ⟨embedder, _, _, has.runFiles alike metadata, has.runFiles alike metadata', ?_⟩
  refine sound.putAll_perm (independent.naming apart) ((perm.filter _).map _)
    independent.own_contributions ?_ ?_
  · intro new member
    exact (Submission.paths_contributions files).subset (List.mem_map_of_mem member)
  · exact (Submission.paths_contributions files).nodup independent.paths

namespace Submission

def ofChunks (path content hash : String) (chunks : List Chunk) : Submission where
  disk := {}
  path := path
  content := content
  hash := hash
  chunks := chunks

def define (path id name : String) (type : ChunkType) (line : Nat) : Chunk where
  id := id
  content := name
  filePath := path
  lineStart := line
  lineEnd := line
  type := type
  symbol := some name
  kind := none

theorem sameMetadata {files : List Submission} (empty : ∀ file ∈ files, file.disk = {}) :
    ∀ a ∈ files, ∀ b ∈ files, a.disk.SameMetadata b.disk := by
  intro a inside b inside'
  rw [empty a inside, empty b inside']
  exact fun _ _ _ => rfl

end Submission

open Submission

def linkedFiles : List Call :=
  [(ofChunks "b.js" "" "1" [define "b.js" "1-f" "f" .function 1]).call,
    (ofChunks "a.js" "import { f } from './b';\nimport 'x';\n" "2"
      [define "a.js" "2-f" "f" .block 3]).call,
    .link {} [("a.js", "2"), ("b.js", "1")]]

def newVersions : List Submission :=
  [ofChunks "b.js" "" "3" [define "b.js" "3-g" "g" .function 1],
    ofChunks "a.js" "import 'x';\n" "4" [define "a.js" "4-h" "h" .function 2]]

theorem newVersions_in_any_order :
    let start := CodeIndex.prepare
      { root := ["/", "w"], vectors := some { store := {}, embedder := .make 8 } }
    SameStores ((start.run linkedFiles).run (newVersions.map Submission.call))
      ((start.run linkedFiles).run (newVersions.reverse.map Submission.call)) := by
  refine puts_in_any_order ⟨rfl, ?_⟩
    ⟨by decide, by decide, by decide, sameMetadata (by decide)⟩ (by decide)
    (List.reverse_perm _).symm
  rintro vectors same
  obtain rfl := Option.some.inj same
  exact VectorIndex.holds_ensure _ _

theorem not_sameStores {a b : CodeIndex}
    (differ : a.graph.tables.map (fun graph => graph.edges.length) ≠
      b.graph.tables.map (fun graph => graph.edges.length)) : ¬SameStores a b := by
  rintro ⟨embedder, holdings, holdings', has, has', same⟩
  rw [has.tables, has'.tables, Option.map_some, Option.map_some, same.edges.length_eq] at differ
  exact differ rfl

def namesakes : List Submission :=
  [ofChunks "b.js" "" "1"
      [define "b.js" "d3a61f74-5930-5e4c-b96a-4699e60c9d53" "f" .doc 1,
        define "b.js" "d83b3ca9-94da-5b0d-be9d-3352462d7c57" "f" .function 2],
    ofChunks "d3a61f74-5930-5e4c-b96a-4699e60c9d53" "" "2" []]

def packageLike : Call :=
  (ofChunks "b.js" "" "1" [define "b.js" "pkg:x@unknown" "x" .function 1]).call

def packageUsers : List Submission :=
  [ofChunks "a.js" "import 'x';\n" "2" [], ofChunks "b.js" "" "3" []]

/-- The file that comes last takes away an edge of the other one, if a chunk has the path of a file
or the node of a package for its identifier. -/
theorem shared_names_make_order_matter :
    let start : CodeIndex := { root := ["/", "w"], graph := .initialized }
    start.Fresh ∧ Independent [] namesakes ∧
      ¬SameStores (start.run (namesakes.map Submission.call))
        (start.run (namesakes.reverse.map Submission.call)) ∧
      Independent [packageLike] packageUsers ∧
      ¬SameStores ((start.run [packageLike]).run (packageUsers.map Submission.call))
        ((start.run [packageLike]).run (packageUsers.reverse.map Submission.call)) :=
  ⟨⟨rfl, nofun⟩, ⟨by decide, by decide, by decide, sameMetadata (by decide)⟩,
    not_sameStores (by decide +kernel),
    ⟨by decide, by decide, by decide, sameMetadata (by decide)⟩,
    not_sameStores (by decide +kernel)⟩

end CodeIndex

end CodeGraph
