import CodeGraph.CodeIndex
import CodeGraph.Proofs.VectorStore

/-!
The vectors of an index take every file. The collection of the index exists once it was prepared,
with as many dimensions as the embedder gives its vectors, and writes keep it so; each write is
given with the points that it leaves.
-/

set_option autoImplicit false

namespace CodeGraph

namespace Embedding

theorem length_normalize (vector : Embedding) : (normalize vector).length = vector.length := by
  simp only [normalize]
  split <;> simp

theorem size_foldl_count (slots : List (Nat × Bool)) (vector : Array Float32) :
    (slots.foldl count vector).size = vector.size := by
  induction slots generalizing vector with
  | nil => rfl
  | cons slot rest ih =>
      rw [List.foldl_cons, ih]
      simp [count]

theorem length_ofText (dimensions : Nat) (text : String) :
    (ofText dimensions text).length = dimensions := by
  have counted := size_foldl_count ((tokens text).map (bucket dimensions))
    (Array.replicate dimensions (0 : Float32))
  rw [List.foldl_map, Array.size_replicate] at counted
  rw [ofText, length_normalize, Array.length_toList]
  exact counted

end Embedding

namespace HashEmbedder

theorem embedAll_eq (embedder : HashEmbedder) (batchSize : Nat) (texts : List String) :
    embedder.embedAll batchSize texts = texts.map embedder.embed := by
  rw [embedAll, List.flatMap_def, ← List.map_flatten, batches_flatten]

def point (embedder : HashEmbedder) (language : Option Language) (chunk : Chunk) : Point :=
  ⟨chunk.id, embedder.embed (chunk.embeddingText language), chunk.payload⟩

def embedded (embedder : HashEmbedder) (path : String) (chunks : List Chunk) :
    List (Chunk × Option Embedding) :=
  chunks.map (fun chunk =>
    (chunk, some (embedder.embed (chunk.embeddingText (Language.ofPath? path)))))

theorem filterMap_embedded (embedder : HashEmbedder) (path : String) (chunks : List Chunk) :
    (embedder.embedded path chunks).filterMap (fun (chunk, vector) =>
        vector.map (fun vector => (⟨chunk.id, vector, chunk.payload⟩ : Point))) =
      chunks.map (embedder.point (Language.ofPath? path)) := by
  simp [embedded, point]

theorem embed_eq (vectors : VectorIndex) (batchSize : Nat) (path : String) (chunks : List Chunk) :
    CodeIndex.embed batchSize path chunks vectors = .ok (vectors.embedder.embedded path chunks) := by
  simp [CodeIndex.embed, embedAll_eq, embedded, List.zip_map_right, Function.comp_def,
    ← List.zip_map']

end HashEmbedder

namespace VectorIndex

def Ready (vectors : VectorIndex) : Prop :=
  ∃ found, Table.get? Collection.name vectors.store.store.collections vectors.store.collection =
    some found ∧ found.dimensions = vectors.embedder.dimensions

def Holds (vectors : VectorIndex) (points : List Point) : Prop :=
  ∃ found, Table.get? Collection.name vectors.store.store.collections vectors.store.collection =
    some found ∧ found.dimensions = vectors.embedder.dimensions ∧ found.points = points

variable {vectors : VectorIndex} {points : List Point}

theorem Ready.holds (ready : vectors.Ready) : ∃ points, vectors.Holds points := by
  obtain ⟨found, present, dimensions⟩ := ready
  exact ⟨found.points, found, present, dimensions, rfl⟩

theorem Holds.ready (holds : vectors.Holds points) : vectors.Ready := by
  obtain ⟨found, present, dimensions, -⟩ := holds
  exact ⟨found, present, dimensions⟩

theorem holds_of_written {found : Collection} (present : Table.get? Collection.name
      vectors.store.store.collections vectors.store.collection = some found)
    (dimensions : found.dimensions = vectors.embedder.dimensions) (points : List Point) :
    VectorIndex.Holds { vectors with
      store := { vectors.store with
        store := ⟨Table.put Collection.name { found with points }
          vectors.store.store.collections⟩ } } points := by
  have written := VectorStore.collection_put (VectorStore.collection_eq_ok_iff.mpr present) points
  exact ⟨_, VectorStore.collection_eq_ok_iff.mp written, dimensions, rfl⟩

theorem Holds.deleteFile (holds : vectors.Holds points) (path : String) :
    ∃ store, vectors.store.deleteFile path = .ok store ∧
      VectorIndex.Holds { vectors with store }
        (points.filter (fun point => !VectorStore.matchesText point.payload "file_path" path)) := by
  obtain ⟨found, present, dimensions, rfl⟩ := holds
  rw [ChunkVectors.deleteFile,
    VectorStore.deleteMatching_eq (VectorStore.collection_eq_ok_iff.mpr present)]
  exact ⟨_, rfl, holds_of_written present dimensions _⟩

theorem Holds.upsert (holds : vectors.Holds points) {chunks : List (Chunk × Option Embedding)}
    {new : List Point}
    (taken : chunks.filterMap (fun (chunk, vector) =>
      vector.map (fun vector => (⟨chunk.id, vector, chunk.payload⟩ : Point))) = new)
    (fits : ∀ point ∈ new, point.vector.length = vectors.embedder.dimensions) :
    ∃ count store, vectors.store.upsert chunks = .ok (count, store) ∧
      VectorIndex.Holds { vectors with store } (Table.putAll Point.id points new) := by
  obtain ⟨found, present, dimensions, rfl⟩ := holds
  unfold ChunkVectors.upsert
  rw [taken]
  cases new with
  | nil => exact ⟨0, vectors.store, rfl, found, present, dimensions, rfl⟩
  | cons first rest =>
      obtain ⟨-, written⟩ | ⟨odd, -⟩ :=
        VectorStore.upsert_eq (VectorStore.collection_eq_ok_iff.mpr present) (first :: rest)
      · refine ⟨(first :: rest).length, _, ?_, holds_of_written present dimensions _⟩
        simp only [List.isEmpty_cons, written]
        rfl
      · obtain ⟨point, member, differs⟩ := List.all_eq_false.mp odd
        simp [fits point member, dimensions] at differs

def renew (path : String) (chunks : List Chunk) (vectors : VectorIndex) :
    Except StoreError VectorIndex :=
  CodeIndex.putVectors path (vectors.embedder.embedded path chunks) vectors

theorem Holds.renew (holds : vectors.Holds points) (path : String) (chunks : List Chunk) :
    ∃ vectors', vectors.renew path chunks = .ok vectors' ∧
      vectors'.Holds (Table.putAll Point.id
        (points.filter (fun point => !VectorStore.matchesText point.payload "file_path" path))
        (chunks.map (vectors.embedder.point (Language.ofPath? path)))) := by
  obtain ⟨cleared, removed, remain⟩ := holds.deleteFile path
  obtain ⟨count, store, stored, holds'⟩ := remain.upsert
    (vectors.embedder.filterMap_embedded path chunks)
    (by
      intro point member
      obtain ⟨chunk, -, rfl⟩ := List.mem_map.mp member
      exact Embedding.length_ofText ..)
  refine ⟨{ vectors with store }, ?_, holds'⟩
  simp only [VectorIndex.renew, CodeIndex.putVectors, removed]
  simp only [bind, Except.bind]
  rw [stored]
  rfl

theorem deleteFile_ready (ready : vectors.Ready) (path : String) :
    ∃ store, vectors.store.deleteFile path = .ok store ∧
      VectorIndex.Ready { vectors with store } := by
  obtain ⟨points, holds⟩ := ready.holds
  obtain ⟨store, removed, remain⟩ := holds.deleteFile path
  exact ⟨store, removed, remain.ready⟩

theorem renew_ready (ready : vectors.Ready) (path : String) (chunks : List Chunk) :
    ∃ vectors', vectors.renew path chunks = .ok vectors' ∧ vectors'.Ready := by
  obtain ⟨points, holds⟩ := ready.holds
  obtain ⟨vectors', written, holds'⟩ := holds.renew path chunks
  exact ⟨vectors', written, holds'.ready⟩

theorem holds_ensure (embedder : HashEmbedder) (collection : String) :
    VectorIndex.Holds
      { store := ({ collection } : ChunkVectors).ensure embedder.dimensions, embedder } [] := by
  refine ⟨⟨collection, embedder.dimensions, []⟩, ?_, rfl, rfl⟩
  simp [ChunkVectors.ensure, VectorStore.ensure, Table.has, Table.put, Table.get?]

theorem ensure_ready (embedder : HashEmbedder) (collection : String) :
    VectorIndex.Ready
      { store := ({ collection } : ChunkVectors).ensure embedder.dimensions, embedder } :=
  (holds_ensure embedder collection).ready

end VectorIndex

end CodeGraph
