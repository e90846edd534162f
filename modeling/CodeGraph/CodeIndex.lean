import CodeGraph.Edge.Import
import CodeGraph.Edge.Structure
import CodeGraph.Extraction
import CodeGraph.Graph.Store
import CodeGraph.VectorStore

set_option autoImplicit false

namespace CodeGraph

structure VectorIndex where
  store : ChunkVectors
  embedder : HashEmbedder

structure CachedFacts where
  path : String
  hash : String
  facts : Facts

structure IndexOutcome where
  chunks : Nat
  edges : Nat
deriving DecidableEq, Repr, Inhabited

structure SearchResults where
  direct : List (Chunk × Float32) := []
  related : List Chunk := []

structure CodeIndex where
  root : List String
  graph : GraphStore := {}
  vectors : Option VectorIndex := none
  packages : PackageCache := {}
  batchSize : Nat := 32
  facts : List CachedFacts := []
  grammars : Grammars := Language.tree

namespace CodeIndex

def prepare (index : CodeIndex) : CodeIndex :=
  { index with
    graph := index.graph.createTables
    vectors := index.vectors.map (fun vectors =>
      { vectors with store := vectors.store.ensure vectors.embedder.dimensions }) }

def fileGraph (path content : String) (chunks : List Chunk) (extracted : List Edge) : FileGraph :=
  { path, language := ((Language.ofPath? path).map Language.id).getD "unknown"
    lines := (Text.lines content.toList).length, chunks
    edges := Edge.merge (Edge.contains path chunks ++ Edge.documents chunks ++ extracted) }

/-- The chunks with their embeddings. The embedder of this library gives one for each text; those
that ask a server, and may fail or give fewer, are left out. -/
def embed (batchSize : Nat) (path : String) (chunks : List Chunk) (vectors : VectorIndex) :
    Except IndexError (List (Chunk × Option Embedding)) :=
  let texts := chunks.map (fun chunk => chunk.embeddingText (Language.ofPath? path))
  let embeddings := vectors.embedder.embedAll (max batchSize 1) texts
  if embeddings.length = chunks.length then .ok (chunks.zip (embeddings.map some))
  else
    .error (.processing path
      (toString embeddings.length ++ " embeddings for " ++ toString chunks.length ++ " chunks"))

def putVectors (path : String) (embedded : List (Chunk × Option Embedding))
    (vectors : VectorIndex) : Except StoreError VectorIndex := do
  let store ← vectors.store.deleteFile path
  let (_, store) ← store.upsert embedded
  return { vectors with store }

def putFacts (index : CodeIndex) (path hash : String) (facts : Facts) : CodeIndex :=
  { index with facts := Table.put CachedFacts.path { path, hash, facts } index.facts }

/-- Replaces all that is stored for a file. The chunks are embedded before anything is written, and
only the packages that were looked up stay known if a store refuses the file. -/
def putFile (disk : Disk) (index : CodeIndex) (path content hash : String) (chunks : List Chunk) :
    CodeIndex × Except IndexError IndexOutcome :=
  let (extraction, packages) :=
    Extraction.ofFile disk index.root index.packages path content chunks index.grammars
  let index := { index with packages }
  let file := fileGraph path content chunks extraction.edges
  let embedded := index.vectors.mapM (fun vectors =>
    return (vectors, ← embed index.batchSize path chunks vectors))
  match embedded with
  | .error error => (index, .error error)
  | .ok embedded =>
      match index.graph.replaceFile file with
      | .error error => (index, .error (.store error))
      | .ok graph =>
          match embedded.mapM (fun (vectors, embedded) => putVectors path embedded vectors) with
          | .error error => ({ index with graph }, .error (.store error))
          | .ok vectors =>
              ({ index with graph, vectors }.putFacts path hash extraction.facts,
                .ok { chunks := file.chunks.length, edges := file.edges.length })

def deleteFile (index : CodeIndex) (path : String) : CodeIndex × Except IndexError Unit :=
  match index.graph.deleteFile path with
  | .error error => (index, .error (.store error))
  | .ok graph =>
      let removed := index.vectors.mapM (fun vectors => do
        return { vectors with store := ← vectors.store.deleteFile path })
      match removed with
      | .error error => ({ index with graph }, .error (.store error))
      | .ok vectors =>
          ({ index with
              graph, vectors, facts := Table.erase CachedFacts.path path index.facts }, .ok ())

/-- The facts of a file: those that are known for the hash, or else those of the file on disk. -/
def factsFor (disk : Disk) (index : CodeIndex) (path hash : String) :
    CodeIndex × Except IndexError Facts :=
  match (Table.get? CachedFacts.path index.facts path).filter (fun known => known.hash == hash) with
  | some known => (index, .ok known.facts)
  | none =>
      match disk.readText (Path.components (Path.join (Path.ofComponents index.root) path)) with
      | .error error => (index, .error (.unreadable error.message))
      | .ok content =>
          match Facts.ofFile? path content index.grammars with
          | none => (index, .error (.unsupportedLanguage path))
          | some facts => (index.putFacts path hash facts, .ok facts)

def importEdge (path target : String) (entry : Import) : Edge :=
  let edge : Edge := { source := path, target, kind := .imports }
  ((edge.withProperty "specifier" (.string entry.source)).withProperty "specifiers"
    (.array (entry.specifiers.map .string))).withProperty "kind" (.string entry.kind.name)

/-- The links of a file to its targets. A pass writes edges only, so the chunks of a target are the
same when they are read again. -/
def importEdges (disk : Disk) (files : List (String × String)) (path : String) (own : List Chunk) :
    List (Import × String) → CodeIndex → CodeIndex × Except IndexError (List Edge)
  | [], index => (index, .ok [])
  | (entry, target) :: rest, index =>
      match index.graph.read (·.fileChunks target) with
      | .error error => (index, .error (.store error))
      | .ok chunks =>
          let (index, facts) :=
            match files.lookup target with
            | some hash =>
                let (index, facts) := index.factsFor disk target hash
                (index, facts.toOption)
            | none => (index, none)
          let edges := importEdge path target entry :: Edge.symbols path entry own chunks facts
          let (index, later) := importEdges disk files path own rest index
          (index, (edges ++ ·) <$> later)

def replaceLinks (index : CodeIndex) (path : String) (own : List Chunk) (edges : List Edge) :
    Except StoreError GraphStore := do
  let graph ← index.graph.dropEdgesFrom (own.map Chunk.id ++ [path]) [.imports, .importsSymbol]
  graph.putEdges edges

/-- Links one file. A file whose facts are not to be had is left as it is. -/
def linkFile (disk : Disk) (files : List (String × String)) (index : CodeIndex)
    (path hash : String) : CodeIndex × Except IndexError Nat :=
  match index.factsFor disk path hash with
  | (index, .error _) => (index, .ok 0)
  | (index, .ok facts) =>
      match index.graph.read (·.fileChunks path) with
      | .error error => (index, .error (.store error))
      | .ok own =>
          let targets := Import.targets path facts.imports (files.map Prod.fst)
          match importEdges disk files path own targets index with
          | (index, .error error) => (index, .error error)
          | (index, .ok edges) =>
              let edges := Edge.merge edges
              match index.replaceLinks path own edges with
              | .error error => (index, .error (.store error))
              | .ok graph => ({ index with graph }, .ok edges.length)

def linkFiles (disk : Disk) (files : List (String × String)) :
    List (String × String) → CodeIndex → CodeIndex × Except IndexError Nat
  | [], index => (index, .ok 0)
  | (path, hash) :: rest, index =>
      match index.linkFile disk files path hash with
      | (index, .error error) => (index, .error error)
      | (index, .ok count) =>
          let (index, later) := linkFiles disk files rest index
          (index, (count + ·) <$> later)

def link (disk : Disk) (index : CodeIndex) (files : List (String × String)) :
    CodeIndex × Except IndexError Nat :=
  let sorted := files.mergeSort (fun a b => decide (a.1 ≤ b.1))
  linkFiles disk sorted sorted index

def search (index : CodeIndex) (query : String) (limit depth : Nat) :
    Except IndexError SearchResults :=
  match index.vectors with
  | none => .ok {}
  | some vectors => do
      let direct ← (vectors.store.search (vectors.embedder.embed query) limit).mapError .store
      if direct.isEmpty then return {}
      let related ←
        (index.graph.relatedChunks (direct.map (fun hit => hit.1.id)) depth).mapError .store
      return { direct, related }

def stats (index : CodeIndex) : Except IndexError Graph.Stats :=
  (index.graph.read (fun graph => .ok graph.stats)).mapError .store

end CodeIndex

end CodeGraph
