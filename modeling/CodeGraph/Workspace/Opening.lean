import CodeGraph.Config
import CodeGraph.Database
import CodeGraph.Url
import CodeGraph.Workspace

/-!
Opening a workspace: its database, its vectors and the pipeline between them.

Only the embedder and the vector store that need no server are part of this library, so a
configuration that asks for a server cannot be opened with vectors.
-/

set_option autoImplicit false

namespace CodeGraph

inductive DatabasePlace where
  | memory
  | file (location : Location)
deriving DecidableEq, Repr, Inhabited

structure Machine where
  disk : Disk := {}
  databases : List (Location × Database) := []

inductive OpenError where
  | database (path : String)
  | noVectorServer
  | badServer
  | stores
  | index (error : IndexError)
deriving DecidableEq, Repr

def OpenError.message : OpenError → String
  | .database path => "failed to open database " ++ path
  | .noVectorServer => "storage.qdrant_url is not set"
  | .badServer => "embedding.base_url"
  | .stores => "failed to initialize index stores"
  | .index error => error.message

namespace Machine

def databaseAt? (machine : Machine) (location : Location) : Option Database :=
  (Table.get? Prod.fst machine.databases location).map Prod.snd

/-- Opens the database at a path, in a directory that is made if need be. A file that holds anything
else cannot be opened. -/
def connect? (machine : Machine) (path : String) : Option (Machine × DatabasePlace) := do
  if path == ":memory:" then return (machine, .memory)
  let components := Path.components path
  let (disk, directory) ← machine.disk.enterDirectory? components.dropLast
  let location := directory ++ [← components.getLast?]
  let fresh := { machine with
    disk := disk.write location []
    databases := Table.put Prod.fst (location, {}) machine.databases }
  match disk.at? location with
  | some .directory => none
  | none => return (fresh, .file location)
  | some (.file content) =>
      if content ≠ .bytes [] then none
      else if (machine.databaseAt? location).isSome then
        return ({ machine with disk }, .file location)
      else return (fresh, .file location)

def load (machine : Machine) : DatabasePlace → Database
  | .memory => {}
  | .file location => (machine.databaseAt? location).getD {}

def save (machine : Machine) (database : Database) : DatabasePlace → Machine
  | .memory => machine
  | .file location =>
      { machine with databases := Table.put Prod.fst (location, database) machine.databases }

end Machine

/-- The vectors that a configuration asks for; `none` if they need a server. -/
def Config.vectors? (config : Config) : Except OpenError (Option VectorIndex) :=
  if config.storage.vectorBackend = .server ∧ config.storage.vectorServer = none then
    .error .noVectorServer
  else if config.embedding.provider = .server ∧ !Url.isServer config.embedding.baseUrl then
    .error .badServer
  else if config.storage.vectorBackend = .server ∨ config.embedding.provider = .server then .ok none
  else .ok (some { store := {}, embedder := HashEmbedder.make config.embedding.dimensions })

namespace Workspace

def database (workspace : Workspace) : Database :=
  { graph := workspace.index.graph, files := workspace.files, tasks := workspace.queue.table }

def openIndex (config : Config) (root : List String) (graph : GraphStore) (withVectors : Bool) :
    Except OpenError CodeIndex := do
  let index : CodeIndex := { root, graph, batchSize := max config.embedding.batchSize 1 }
  if withVectors then
    match ← config.vectors? with
    | some vectors => return { index with vectors := some vectors }.prepare
    | none => throw .stores
  else return index.prepare

/-- The database as it is once a workspace is being opened: tables exist, tasks that were being
processed wait again, and all files are to be indexed if their vectors were only in memory. -/
def openDatabase (database : Database) (graph : GraphStore) (withVectors : Bool) : Database :=
  { graph, tasks := database.tasks.recover
    files := if withVectors then database.files.clearAllIndexed else database.files }

/-- Opens the workspace at a root. The database keeps what opening did to it, even if the ignore
patterns turn out to be malformed. -/
def openAt (machine : Machine) (config : Config) (root : List String) (withVectors : Bool) :
    Machine × Except OpenError (Workspace × DatabasePlace) :=
  let path := config.databasePath (Path.ofComponents root)
  match machine.connect? path with
  | none => (machine, .error (.database path))
  | some (machine, place) =>
      let withVectors := withVectors && config.storage.vectorEnabled
      let stored := machine.load place
      match openIndex config root stored.graph withVectors with
      | .error .stores =>
          (machine.save { stored with graph := stored.graph.createTables } place, .error .stores)
      | .error error => (machine, .error error)
      | .ok index =>
          let database := openDatabase stored index.graph withVectors
          let machine := machine.save database place
          let patterns := config.workspace.ignore
          match Discovery.make machine.disk root patterns config.workspace.maxFileSize with
          | .error error => (machine, .error (.index error))
          | .ok discovery =>
              let queue : Queue := { settings := config.queue, table := database.tasks }
              (machine, .ok ({ discovery, files := database.files, queue, index }, place))

def close (machine : Machine) (workspace : Workspace) (place : DatabasePlace) : Machine :=
  machine.save workspace.database place

end Workspace

end CodeGraph
