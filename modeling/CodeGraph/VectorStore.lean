import CodeGraph.Chunk
import CodeGraph.Embedding
import CodeGraph.Error
import CodeGraph.Json
import CodeGraph.Table

/-!
Collections of vectors with payloads, and the chunks stored in them. A search compares the query
with every point, so its answer is exact.
-/

set_option autoImplicit false

namespace CodeGraph

structure Point where
  id : String
  vector : Embedding
  payload : Properties

structure Collection where
  name : String
  dimensions : Nat
  points : List Point

structure Hit (σ : Type) where
  id : String
  score : σ
  payload : Properties

/-- Better scores come first, and equal ones in the order of identifiers. -/
def Hit.le {σ : Type} (less : σ → σ → Bool) (a b : Hit σ) : Bool :=
  if less b.score a.score then true
  else if less a.score b.score then false
  else decide (a.id ≤ b.id)

def nearest {σ : Type} (less : σ → σ → Bool) (limit : Nat) (hits : List (Hit σ)) : List (Hit σ) :=
  (hits.mergeSort (Hit.le less)).take limit

structure VectorStore where
  collections : List Collection := []

namespace VectorStore

def collection (store : VectorStore) (name : String) : Except VectorError Collection :=
  match Table.get? Collection.name store.collections name with
  | some collection => .ok collection
  | none => .error (.missingCollection name)

def pointCount? (store : VectorStore) (name : String) : Option Nat :=
  (Table.get? Collection.name store.collections name).map (fun c => c.points.length)

def ensure (store : VectorStore) (name : String) (dimensions : Nat) : VectorStore :=
  if Table.has Collection.name store.collections name then store
  else ⟨Table.put Collection.name ⟨name, dimensions, []⟩ store.collections⟩

def upsert (store : VectorStore) (name : String) (points : List Point) :
    Except VectorError VectorStore := do
  let found ← store.collection name
  match points.find? (fun point => decide (point.vector.length ≠ found.dimensions)) with
  | some point => throw (.dimensions point.id point.vector.length found.dimensions)
  | none =>
      let points := points.foldl (fun rows point => Table.put Point.id point rows) found.points
      return ⟨Table.put Collection.name { found with points } store.collections⟩

def search (store : VectorStore) (name : String) (query : Embedding) (limit : Nat) :
    Except VectorError (List (Hit Float32)) := do
  let found ← store.collection name
  let hits := found.points.map
    (fun point => (⟨point.id, Embedding.cosine query point.vector, point.payload⟩ : Hit Float32))
  return nearest (fun a b => decide (a < b)) limit hits

def payloads (store : VectorStore) (name : String) (ids : List String) :
    Except VectorError (List (String × Properties)) := do
  let found ← store.collection name
  return ids.filterMap (fun id =>
    (Table.get? Point.id found.points id).map (fun point => (id, point.payload)))

def matchesText (payload : Properties) (key value : String) : Bool :=
  ((Properties.get? payload key).bind Json.string?) == some value

def deleteMatching (store : VectorStore) (name key value : String) :
    Except VectorError VectorStore := do
  let found ← store.collection name
  let points := found.points.filter (fun point => !matchesText point.payload key value)
  return ⟨Table.put Collection.name { found with points } store.collections⟩

end VectorStore

namespace Chunk

def payload (chunk : Chunk) : Properties :=
  Properties.ofList
    [("file_path", .string chunk.filePath), ("line_start", .nat chunk.lineStart),
      ("line_end", .nat chunk.lineEnd), ("chunk_type", .string chunk.type.name),
      ("symbol_name", .optionalString chunk.symbol), ("symbol_kind", .optionalString chunk.kind),
      ("content", .string chunk.content)]

def payloadText? (payload : Properties) (key : String) : Option String :=
  (Properties.get? payload key).bind Json.string?

def payloadLine (id : String) (payload : Properties) (key : String) : Except StoreError Nat :=
  match (Properties.get? payload key).bind Json.nat? with
  | some line => .ok line
  | none => .error (.payloadMissing id key)

def ofPayload (id : String) (payload : Properties) : Except StoreError Chunk := do
  let some filePath := payloadText? payload "file_path" | throw (.payloadMissing id "file_path")
  let lineStart ← payloadLine id payload "line_start"
  let lineEnd ← payloadLine id payload "line_end"
  return { id, filePath, lineStart, lineEnd
           content := (payloadText? payload "content").getD ""
           type := ChunkType.ofName ((payloadText? payload "chunk_type").getD "")
           symbol := payloadText? payload "symbol_name"
           kind := payloadText? payload "symbol_kind" }

end Chunk

structure ChunkVectors where
  store : VectorStore := {}
  collection : String := "codeweave_chunks"

namespace ChunkVectors

def ensure (vectors : ChunkVectors) (dimensions : Nat) : ChunkVectors :=
  { vectors with store := vectors.store.ensure vectors.collection dimensions }

def upsert (vectors : ChunkVectors) (chunks : List (Chunk × Option Embedding)) :
    Except StoreError (Nat × ChunkVectors) := do
  let points := chunks.filterMap
    (fun (chunk, vector) => vector.map (fun vector => (⟨chunk.id, vector, chunk.payload⟩ : Point)))
  if points.isEmpty then return (0, vectors)
  let store ← (vectors.store.upsert vectors.collection points).mapError .vector
  return (points.length, { vectors with store })

def search (vectors : ChunkVectors) (query : Embedding) (limit : Nat) :
    Except StoreError (List (Chunk × Float32)) := do
  let hits ← (vectors.store.search vectors.collection query limit).mapError .vector
  hits.mapM (fun hit => return (← Chunk.ofPayload hit.id hit.payload, hit.score))

def getChunks (vectors : ChunkVectors) (ids : List String) : Except StoreError (List Chunk) := do
  if ids.isEmpty then return []
  let found ← (vectors.store.payloads vectors.collection ids).mapError .vector
  found.mapM (fun (id, payload) => Chunk.ofPayload id payload)

def deleteFile (vectors : ChunkVectors) (path : String) : Except StoreError ChunkVectors := do
  let store ← (vectors.store.deleteMatching vectors.collection "file_path" path).mapError .vector
  return { vectors with store }

end ChunkVectors

end CodeGraph
