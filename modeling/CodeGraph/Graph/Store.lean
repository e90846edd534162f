import CodeGraph.Graph

/-!
A graph store, whose tables may not have been created yet. Without tables every query fails that
touches one; requests that need no query succeed.
-/

set_option autoImplicit false

namespace CodeGraph

structure GraphStore where
  tables : Option Graph := none
deriving Repr, Inhabited

namespace GraphStore

def initialized : GraphStore := ⟨some {}⟩

def createTables (store : GraphStore) : GraphStore :=
  ⟨some (store.tables.getD {})⟩

def graph (store : GraphStore) : Except StoreError Graph :=
  match store.tables with
  | some graph => .ok graph
  | none => .error .database

def read {α : Type} (store : GraphStore) (query : Graph → Except StoreError α) :
    Except StoreError α := do
  query (← store.graph)

def write (store : GraphStore) (change : Graph → Except StoreError Graph) :
    Except StoreError GraphStore := do
  return ⟨some (← change (← store.graph))⟩

def writeAll {α : Type} (store : GraphStore) (items : List α)
    (change : Graph → Except StoreError Graph) : Except StoreError GraphStore :=
  if items.isEmpty then .ok store else store.write change

/-- The numbers of a row are checked before a table is reached. -/
def checkFirst (store : GraphStore) (chunks : List Chunk) : Except StoreError Unit := do
  match chunks.head?, store.tables with
  | some chunk, none => discard (ChunkRow.ofChunk chunk)
  | _, _ => pure ()

def putFile (store : GraphStore) (path language : String) (lines : Nat) :
    Except StoreError GraphStore := do
  discard ((tableInteger lines).mapError StoreError.range)
  store.write (·.putFile path language lines)

def putChunks (store : GraphStore) (chunks : List Chunk) : Except StoreError GraphStore := do
  store.checkFirst chunks
  store.writeAll chunks (·.putChunks chunks)

def putEdges (store : GraphStore) (edges : List Edge) : Except StoreError GraphStore :=
  store.writeAll edges (fun graph => .ok (graph.putEdges edges))

def replaceFile (store : GraphStore) (file : FileGraph) : Except StoreError GraphStore :=
  store.write (·.replaceFile file)

def deleteFile (store : GraphStore) (path : String) : Except StoreError GraphStore :=
  store.write (fun graph => .ok (graph.deleteFile path))

def dropEdgesFrom (store : GraphStore) (ids : List String) (kinds : List EdgeKind) :
    Except StoreError GraphStore :=
  store.writeAll ids (fun graph => .ok (Graph.dropEdgesFrom Graph.idLimit graph ids kinds))

def getChunks (store : GraphStore) (ids : List String) : Except StoreError (List Chunk) :=
  if ids.isEmpty then .ok [] else store.read (fun graph => Graph.getChunks Graph.idLimit graph ids)

def relatedChunks (store : GraphStore) (ids : List String) (depth : Nat) :
    Except StoreError (List Chunk) :=
  if ids.isEmpty || depth = 0 then .ok []
  else store.read (fun graph => graph.relatedChunks ids depth)

end GraphStore

end CodeGraph
