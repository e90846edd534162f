import CodeGraph.Batch
import CodeGraph.Chunk
import CodeGraph.Edge
import CodeGraph.Error
import CodeGraph.Table

/-!
The graph of files, chunks and edges, as three tables. A write either succeeds as a whole or
leaves the graph as it was. Rows are read back with checks, as a table may hold anything.
-/

set_option autoImplicit false

namespace CodeGraph

structure FileNode where
  path : String
  language : String
  lines : Nat
deriving DecidableEq, Repr

structure FileNodeRow where
  path : String
  language : String
  lines : Int
deriving DecidableEq, Repr

structure ChunkRow where
  id : String
  filePath : String
  content : String
  lineStart : Int
  lineEnd : Int
  type : String
  symbol : Option String
  kind : Option String
deriving DecidableEq, Repr

structure EdgeRow where
  source : String
  target : String
  kind : String
  /-- `none` stands for a text that is no JSON object. -/
  properties : Option Properties
deriving Repr

namespace FileNodeRow

def node (row : FileNodeRow) : Except StoreError FileNode := do
  return ⟨row.path, row.language, ← (ofTableInteger row.lines).mapError .range⟩

end FileNodeRow

namespace ChunkRow

def ofChunk (chunk : Chunk) : Except StoreError ChunkRow := do
  let lineStart ← (tableInteger chunk.lineStart).mapError .range
  let lineEnd ← (tableInteger chunk.lineEnd).mapError .range
  return ⟨chunk.id, chunk.filePath, chunk.content, lineStart, lineEnd, chunk.type.name,
    chunk.symbol, chunk.kind⟩

def chunk (row : ChunkRow) : Except StoreError Chunk := do
  let lineStart ← (ofTableInteger row.lineStart).mapError .range
  let lineEnd ← (ofTableInteger row.lineEnd).mapError .range
  return ⟨row.id, row.content, row.filePath, lineStart, lineEnd, ChunkType.ofName row.type,
    row.symbol, row.kind⟩

def le (a b : ChunkRow) : Bool :=
  if a.lineStart ≠ b.lineStart then decide (a.lineStart < b.lineStart)
  else if a.lineEnd ≠ b.lineEnd then decide (a.lineEnd < b.lineEnd)
  else decide (a.id ≤ b.id)

end ChunkRow

namespace EdgeRow

abbrev Key : Type := String × String × String

def key (row : EdgeRow) : Key :=
  (row.source, row.target, row.kind)

def ofEdge (edge : Edge) : EdgeRow :=
  ⟨edge.source, edge.target, edge.kind.name, some edge.properties⟩

def edge (row : EdgeRow) : Except StoreError Edge := do
  let some kind := EdgeKind.ofName? row.kind | throw (.unknownEdgeKind row.kind)
  let some properties := row.properties | throw .json
  return { source := row.source, target := row.target, kind, properties }

def le (a b : EdgeRow) : Bool :=
  if a.kind ≠ b.kind then decide (a.kind < b.kind)
  else if a.source ≠ b.source then decide (a.source < b.source)
  else decide (a.target ≤ b.target)

end EdgeRow

structure FileGraph where
  path : String
  language : String
  lines : Nat
  chunks : List Chunk := []
  edges : List Edge := []
deriving Repr, Inhabited

structure Graph where
  files : List FileNodeRow := []
  chunks : List ChunkRow := []
  edges : List EdgeRow := []
deriving Repr, Inhabited

namespace Graph

def idLimit : Nat := 400

def putFile (graph : Graph) (path language : String) (lines : Nat) : Except StoreError Graph := do
  let lines ← (tableInteger lines).mapError .range
  return { graph with files := Table.put FileNodeRow.path ⟨path, language, lines⟩ graph.files }

def putChunk (graph : Graph) (chunk : Chunk) : Except StoreError Graph := do
  return { graph with chunks := Table.put ChunkRow.id (← ChunkRow.ofChunk chunk) graph.chunks }

def putChunks (graph : Graph) (chunks : List Chunk) : Except StoreError Graph :=
  chunks.foldlM putChunk graph

def putEdge (graph : Graph) (edge : Edge) : Graph :=
  { graph with edges := Table.put EdgeRow.key (EdgeRow.ofEdge edge) graph.edges }

def putEdges (graph : Graph) (edges : List Edge) : Graph :=
  edges.foldl putEdge graph

def dropEdges (graph : Graph) (drop : EdgeRow → Bool) : Graph :=
  { graph with edges := graph.edges.filter (fun row => !drop row) }

def chunkIds (graph : Graph) (path : String) : List String :=
  (graph.chunks.filter (fun row => row.filePath == path)).map ChunkRow.id

def dropEdgesInto (limit : Nat) (graph : Graph) (ids : List String) : Graph :=
  (batches limit ids).foldl
    (fun graph batch => graph.dropEdges (fun row => batch.contains row.target)) graph

/-- Removes the edges that leave some nodes, batch by batch; no kinds mean every kind. -/
def dropEdgesFrom (limit : Nat) (graph : Graph) (ids : List String) (kinds : List EdgeKind) :
    Graph :=
  (batches limit ids).foldl
    (fun graph batch => graph.dropEdges (fun row =>
      batch.contains row.source &&
        (kinds.isEmpty || (kinds.map EdgeKind.name).contains row.kind))) graph

/-- Swaps the stored state of a file. Edges into the file and into chunks that stay are kept. -/
def replaceFile (graph : Graph) (file : FileGraph) : Except StoreError Graph := do
  let old := graph.chunkIds file.path
  let new := file.chunks.map Chunk.id
  let removed := old.filter (fun id => !new.contains id)
  let cut := graph.dropEdges (fun row => row.source == file.path || old.contains row.source)
  let cut := dropEdgesInto idLimit cut removed
  let cut := { cut with chunks := cut.chunks.filter (fun row => row.filePath != file.path) }
  let graph ← cut.putFile file.path file.language file.lines
  let graph ← graph.putChunks file.chunks
  return graph.putEdges file.edges

def deleteFile (graph : Graph) (path : String) : Graph :=
  let ids := graph.chunkIds path
  { files := Table.erase FileNodeRow.path path graph.files
    chunks := graph.chunks.filter (fun row => row.filePath != path)
    edges := graph.edges.filter (fun row =>
      !(row.source == path || row.target == path || ids.contains row.source ||
        ids.contains row.target)) }

def fileChunks (graph : Graph) (path : String) : Except StoreError (List Chunk) :=
  ((graph.chunks.filter (fun row => row.filePath == path)).mergeSort ChunkRow.le).mapM
    ChunkRow.chunk

def fileNodes (graph : Graph) : Except StoreError (List FileNode) :=
  (graph.files.mergeSort (fun a b => decide (a.path ≤ b.path))).mapM FileNodeRow.node

def chunkRows (limit : Nat) (graph : Graph) (ids : List String) : List ChunkRow :=
  (batches limit ids).flatMap (fun batch => graph.chunks.filter (fun row => batch.contains row.id))

def distinct (seen : List String) : List String → List String
  | [] => []
  | id :: rest => if seen.contains id then distinct seen rest else id :: distinct (id :: seen) rest

/-- Takes the chunks that are asked for out of a table, so that none of them is found again. -/
def takeChunks (table : List Chunk) : List String → List Chunk
  | [] => []
  | id :: rest =>
      match Table.get? Chunk.id table id with
      | some chunk => chunk :: takeChunks (Table.erase Chunk.id id table) rest
      | none => takeChunks table rest

def getChunks (limit : Nat) (graph : Graph) (ids : List String) :
    Except StoreError (List Chunk) := do
  let found ← (chunkRows limit graph ids).mapM ChunkRow.chunk
  return takeChunks (found.foldl (fun table chunk => Table.put Chunk.id chunk table) []) ids

def edgesFor (graph : Graph) (id : String) : Except StoreError (List Edge) :=
  ((graph.edges.filter (fun row => row.source == id || row.target == id)).mergeSort
    EdgeRow.le).mapM EdgeRow.edge

def neighbours (limit : Nat) (graph : Graph) (ids : List String) : List (String × String) :=
  (batches limit ids).flatMap (fun batch =>
    (graph.edges.filter
      (fun row => batch.contains row.source || batch.contains row.target)).map
        (fun row => (row.source, row.target)))

structure Search where
  visited : List String
  reached : List String
  frontier : List String

/-- Notes a node that is seen for the first time. Packages are reached, but not left again. -/
def Search.see (search : Search) (id : String) : Search :=
  if search.visited.contains id then search
  else
    { visited := id :: search.visited
      reached := search.reached ++ [id]
      frontier := if isPackageNode id then search.frontier else search.frontier ++ [id] }

def Search.expand (graph : Graph) (search : Search) : Search :=
  (neighbours (idLimit / 2) graph search.frontier).foldl
    (fun search ends => (search.see ends.1).see ends.2) { search with frontier := [] }

def Search.run (graph : Graph) : Nat → Search → Search
  | 0, search => search
  | depth + 1, search =>
      if search.frontier.isEmpty then search else Search.run graph depth (search.expand graph)

def reachable (graph : Graph) (ids : List String) (depth : Nat) : List String :=
  (Search.run graph depth ⟨ids, [], ids⟩).reached

def relatedChunks (graph : Graph) (ids : List String) (depth : Nat) :
    Except StoreError (List Chunk) :=
  getChunks idLimit graph (reachable graph ids depth)

structure Stats where
  files : Nat
  chunks : Nat
  edges : Nat
  byKind : List (String × Nat)
deriving DecidableEq, Repr

def stats (graph : Graph) : Stats :=
  let kinds := (graph.edges.map EdgeRow.kind).mergeSort (fun a b => decide (a ≤ b))
  { files := graph.files.length
    chunks := graph.chunks.length
    edges := graph.edges.length
    byKind := (distinct [] kinds).map (fun kind => (kind, kinds.count kind)) }

def attachedEdges (graph : Graph) : Except StoreError (List Edge) :=
  let ids := graph.files.map FileNodeRow.path ++ graph.chunks.map ChunkRow.id
  ((graph.edges.filter (fun row => ids.contains row.source || ids.contains row.target)).mergeSort
    EdgeRow.le).mapM EdgeRow.edge

end Graph

end CodeGraph
