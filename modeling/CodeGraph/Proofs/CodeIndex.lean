import CodeGraph.Proofs.Extraction
import CodeGraph.Proofs.Vectors

/-!
What the operations of the index do to its stores. An index whose stores were created stays so, and
then a file is refused only if its numbers do not fit into the tables.
-/

set_option autoImplicit false

namespace CodeGraph.CodeIndex

structure Ready (index : CodeIndex) : Prop where
  tables : ∃ graph, index.graph.tables = some graph
  vectors : ∀ vectors, index.vectors = some vectors → vectors.Ready

variable {index : CodeIndex}

theorem Ready.mapM_vectors (ready : index.Ready)
    {write : VectorIndex → Except StoreError VectorIndex}
    (takes : ∀ known : VectorIndex, known.Ready → ∃ new, write known = .ok new ∧ new.Ready) :
    ∃ vectors, index.vectors.mapM write = .ok vectors ∧
      ∀ known, vectors = some known → known.Ready := by
  cases old : index.vectors with
  | none => exact ⟨none, rfl, by simp⟩
  | some known =>
      obtain ⟨new, written, readyNew⟩ := takes known (ready.vectors known old)
      refine ⟨some new, ?_, ?_⟩
      · simp only [Option.mapM_some, written]
        rfl
      · rintro other same
        rwa [← Option.some.inj same]

def extraction (disk : Disk) (index : CodeIndex) (path content : String) (chunks : List Chunk) :
    Extraction :=
  (Extraction.ofFile disk index.root index.packages path content chunks index.grammars).1

structure Put (disk : Disk) (index : CodeIndex) (path content hash : String) (chunks : List Chunk)
    (after : CodeIndex) : Prop where
  root : after.root = index.root
  ready : after.Ready
  graph : ∀ graph, index.graph.tables = some graph → after.graph.tables =
    some (graph.replaced
      (fileGraph path content chunks (extraction disk index path content chunks).edges))
  vectors : index.vectors.mapM (VectorIndex.renew path chunks) = .ok after.vectors
  facts : after.facts = Table.put CachedFacts.path
    { path, hash, facts := Extraction.factsOf index.grammars path content } index.facts
  grammars : after.grammars = index.grammars

def Takes (path content : String) (chunks : List Chunk) : Prop :=
  (fileGraph path content chunks []).Fits

instance (path content : String) (chunks : List Chunk) : Decidable (Takes path content chunks) :=
  inferInstanceAs (Decidable (FileGraph.Fits _))

/-- As every chunk gets its embedding, only the stores can refuse a file. -/
theorem putFile_eq (index : CodeIndex) (disk : Disk) (path content hash : String)
    (chunks : List Chunk) :
    index.putFile disk path content hash chunks =
      let extraction :=
        Extraction.ofFile disk index.root index.packages path content chunks index.grammars
      let index := { index with packages := extraction.2 }
      let file := fileGraph path content chunks extraction.1.edges
      match index.graph.replaceFile file with
      | .error error => (index, .error (.store error))
      | .ok graph =>
          match index.vectors.mapM (VectorIndex.renew path chunks) with
          | .error error => ({ index with graph }, .error (.store error))
          | .ok vectors =>
              ({ index with graph, vectors }.putFacts path hash extraction.1.facts,
                .ok { chunks := file.chunks.length, edges := file.edges.length }) := by
  unfold putFile
  cases known : index.vectors with
  | none => rfl
  | some vectors =>
      simp only [Option.mapM_some, HashEmbedder.embed_eq, VectorIndex.renew]
      rfl

theorem putFile_settings (index : CodeIndex) (disk : Disk) (path content hash : String)
    (chunks : List Chunk) :
    let after := (index.putFile disk path content hash chunks).1
    after.root = index.root ∧ after.grammars = index.grammars ∧
      after.packages = (Extraction.ofFile disk index.root index.packages path content chunks
        index.grammars).2 := by
  rw [putFile_eq]
  dsimp only
  split
  · exact ⟨rfl, rfl, rfl⟩
  · split <;> exact ⟨rfl, rfl, rfl⟩

theorem putFile_taken (ready : index.Ready) (disk : Disk) (path content hash : String)
    {chunks : List Chunk} (takes : Takes path content chunks) :
    ∃ after outcome, index.putFile disk path content hash chunks = (after, .ok outcome) ∧
      outcome.chunks = chunks.length ∧ Put disk index path content hash chunks after := by
  obtain ⟨graph, tables⟩ := ready.tables
  let file := fileGraph path content chunks (extraction disk index path content chunks).edges
  have replaced : index.graph.replaceFile file = .ok ⟨some (graph.replaced file)⟩ := by
    simp only [GraphStore.replaceFile, GraphStore.write, GraphStore.graph, tables]
    simp only [bind, Except.bind, @Graph.replaceFile_eq graph file takes]
    rfl
  obtain ⟨vectors, written, readyVectors⟩ := ready.mapM_vectors fun known readyKnown =>
    VectorIndex.renew_ready readyKnown path chunks
  simp only [extraction, file] at replaced
  simp only [putFile_eq, replaced, written]
  refine ⟨_, _, rfl, rfl, rfl, ⟨⟨_, rfl⟩, readyVectors⟩, ?_, written, ?_, rfl⟩
  · intro other same
    rw [tables] at same
    rw [← Option.some.inj same]
    rfl
  · simp only [putFacts, Extraction.facts_ofFile]

theorem putFile_refused (ready : index.Ready) (disk : Disk) (path content hash : String)
    {chunks : List Chunk} (refuses : ¬Takes path content chunks) :
    ∃ packages error, index.putFile disk path content hash chunks =
      ({ index with packages }, .error error) := by
  obtain ⟨graph, tables⟩ := ready.tables
  let file := fileGraph path content chunks (extraction disk index path content chunks).edges
  obtain ⟨error, refused⟩ : ∃ error, index.graph.replaceFile file = .error error := by
    simp only [GraphStore.replaceFile, GraphStore.write, GraphStore.graph, tables]
    obtain ⟨error, refused⟩ := @Graph.replaceFile_error graph file refuses
    exact ⟨error, by simp only [bind, Except.bind, refused]⟩
  simp only [extraction, file] at refused
  simp only [putFile_eq, refused]
  exact ⟨_, _, rfl⟩

theorem Ready.packages (ready : index.Ready) (packages : PackageCache) :
    CodeIndex.Ready { index with packages } :=
  ⟨ready.tables, ready.vectors⟩

structure Deleted (index : CodeIndex) (path : String) (after : CodeIndex) : Prop where
  root : after.root = index.root
  ready : after.Ready
  graph : ∀ graph, index.graph.tables = some graph →
    after.graph.tables = some (graph.deleteFile path)
  vectors : index.vectors.mapM (fun vectors => do
    return { vectors with store := ← vectors.store.deleteFile path }) = .ok after.vectors
  facts : after.facts = Table.erase CachedFacts.path path index.facts
  grammars : after.grammars = index.grammars

theorem deleteFile_settings (index : CodeIndex) (path : String) :
    (index.deleteFile path).1.root = index.root ∧
      (index.deleteFile path).1.grammars = index.grammars := by
  unfold deleteFile
  split
  · exact ⟨rfl, rfl⟩
  · dsimp only
    split <;> exact ⟨rfl, rfl⟩

theorem deleteFile_ok (ready : index.Ready) (path : String) :
    ∃ after, index.deleteFile path = (after, .ok ()) ∧ Deleted index path after := by
  obtain ⟨graph, tables⟩ := ready.tables
  have deleted : index.graph.deleteFile path = .ok ⟨some (graph.deleteFile path)⟩ := by
    simp only [GraphStore.deleteFile, GraphStore.write, GraphStore.graph, tables]
    rfl
  obtain ⟨vectors, removed, readyVectors⟩ := @Ready.mapM_vectors index ready
    (fun vectors => do return { vectors with store := ← vectors.store.deleteFile path })
    (by
      intro known readyKnown
      obtain ⟨store, written, readyStore⟩ := VectorIndex.deleteFile_ready readyKnown path
      refine ⟨{ known with store }, ?_, readyStore⟩
      rw [written]
      rfl)
  simp only [deleteFile, deleted, removed]
  refine ⟨_, rfl, rfl, ⟨⟨_, rfl⟩, readyVectors⟩, ?_, removed, rfl, rfl⟩
  intro other same
  rw [tables] at same
  rw [← Option.some.inj same]

theorem Ready.deleted (ready : index.Ready) {path : String} {after : CodeIndex}
    (done : index.deleteFile path = (after, .ok ())) : Deleted index path after := by
  obtain ⟨other, done', deleted⟩ := deleteFile_ok ready path
  rw [done] at done'
  cases done'
  exact deleted

end CodeGraph.CodeIndex
