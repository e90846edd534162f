import CodeGraph.Proofs.LinkPass

set_option autoImplicit false

namespace CodeGraph.CodeIndex

inductive Call where
  | put (disk : Disk) (path content hash : String) (chunks : List Chunk)
  | delete (path : String)
  | link (disk : Disk) (files : List (String × String))

namespace Call

def chunks : Call → List Chunk
  | .put _ _ _ _ chunks => chunks
  | _ => []

def Own : Call → Prop
  | .put _ path _ _ chunks => ∀ chunk ∈ chunks, chunk.filePath = path
  | _ => True

instance (call : Call) : Decidable call.Own :=
  match call with
  | .put _ path _ _ chunks =>
      inferInstanceAs (Decidable (∀ chunk ∈ chunks, chunk.filePath = path))
  | .delete _ => inferInstanceAs (Decidable True)
  | .link _ _ => inferInstanceAs (Decidable True)

def ofFile (grammars : Grammars) (disk : Disk) (minBlockSize : Nat) (path content hash : String) :
    Call :=
  .put disk path content hash ((Chunking.ofFile? minBlockSize path content grammars).getD [])

theorem own_ofFile {grammars : Grammars} {disk : Disk} {minBlockSize : Nat}
    {path content hash : String} : (ofFile grammars disk minBlockSize path content hash).Own := by
  intro chunk member
  cases cut : Chunking.ofFile? minBlockSize path content grammars with
  | none => simp [cut] at member
  | some chunks =>
      rw [cut] at member
      exact (Chunking.belongs_of_ofFile? cut chunk member).filePath

/-- No chunks of different files have one identifier. -/
def Distinct (calls : List Call) : Prop :=
  ∀ a ∈ calls.flatMap chunks, ∀ b ∈ calls.flatMap chunks, a.id = b.id → a.filePath = b.filePath

instance (calls : List Call) : Decidable (Distinct calls) :=
  inferInstanceAs (Decidable (∀ a ∈ calls.flatMap chunks, ∀ b ∈ calls.flatMap chunks,
    a.id = b.id → a.filePath = b.filePath))

end Call

def apply (index : CodeIndex) : Call → CodeIndex
  | .put disk path content hash chunks => (index.putFile disk path content hash chunks).1
  | .delete path => (index.deleteFile path).1
  | .link disk files => (index.link disk files).1

def run (index : CodeIndex) (calls : List Call) : CodeIndex :=
  calls.foldl apply index

variable {index : CodeIndex} {graph : Graph}

theorem apply_settings (index : CodeIndex) (call : Call) :
    (index.apply call).root = index.root ∧ (index.apply call).grammars = index.grammars := by
  cases call with
  | put disk path content hash chunks =>
      obtain ⟨root, grammars, -⟩ := index.putFile_settings disk path content hash chunks
      exact ⟨root, grammars⟩
  | delete path => exact index.deleteFile_settings path
  | link disk files =>
      obtain ⟨graph, facts, same⟩ := index.link_rest disk files
      rw [apply, same]
      exact ⟨rfl, rfl⟩

theorem run_settings (index : CodeIndex) (calls : List Call) :
    (index.run calls).root = index.root ∧ (index.run calls).grammars = index.grammars := by
  induction calls generalizing index with
  | nil => exact ⟨rfl, rfl⟩
  | cons call rest ih =>
      obtain ⟨root, grammars⟩ := index.apply_settings call
      exact ⟨(ih _).1.trans root, (ih _).2.trans grammars⟩

theorem tables_putFile (tables : index.graph.tables = some graph) (disk : Disk)
    (path content hash : String) (chunks : List Chunk) :
    (index.putFile disk path content hash chunks).1.graph.tables = some graph ∨
      (index.putFile disk path content hash chunks).1.graph.tables =
        some (graph.replaced
          (fileGraph path content chunks (extraction disk index path content chunks).edges)) := by
  let file := fileGraph path content chunks (extraction disk index path content chunks).edges
  by_cases fits : file.Fits
  · have replaced : index.graph.replaceFile file = .ok ⟨some (graph.replaced file)⟩ := by
      simp only [GraphStore.replaceFile, GraphStore.write, GraphStore.graph, tables]
      simp only [bind, Except.bind, Graph.replaceFile_eq graph fits]
      rfl
    simp only [extraction, file] at replaced
    simp only [putFile_eq, replaced]
    -- The graph was written, whatever the vectors say.
    right
    split <;> rfl
  · obtain ⟨error, refused⟩ : ∃ error, index.graph.replaceFile file = .error error := by
      simp only [GraphStore.replaceFile, GraphStore.write, GraphStore.graph, tables]
      obtain ⟨error, refused⟩ := Graph.replaceFile_error graph fits
      exact ⟨error, by simp only [bind, Except.bind, refused]⟩
    simp only [extraction, file] at refused
    simp only [putFile_eq, refused]
    exact .inl tables

theorem tables_deleteFile (tables : index.graph.tables = some graph) (path : String) :
    (index.deleteFile path).1.graph.tables = some (graph.deleteFile path) := by
  have deleted : index.graph.deleteFile path = .ok ⟨some (graph.deleteFile path)⟩ := by
    simp only [GraphStore.deleteFile, GraphStore.write, GraphStore.graph, tables]
    rfl
  simp only [deleteFile, deleted]
  split <;> rfl

end CodeGraph.CodeIndex
