import CodeGraph.Path
import CodeGraph.Task
import CodeGraph.Toml.Reader

/-!
The configuration of the program. A file gives settings, the environment overrides them, and what is
given nowhere has a default. Overrides that cannot be read are passed over.
-/

set_option autoImplicit false

namespace CodeGraph

inductive VectorBackend where
  | memory
  | server
deriving DecidableEq, Repr, Inhabited

def VectorBackend.name : VectorBackend → String
  | .memory => "memory"
  | .server => "qdrant"

def VectorBackend.ofName? (text : String) : Option VectorBackend :=
  [VectorBackend.memory, .server].find? (fun backend => backend.name == text)

inductive EmbeddingProvider where
  | server
  | hash
deriving DecidableEq, Repr, Inhabited

def EmbeddingProvider.name : EmbeddingProvider → String
  | .server => "ollama"
  | .hash => "hash"

def EmbeddingProvider.ofName? (text : String) : Option EmbeddingProvider :=
  [EmbeddingProvider.server, .hash].find? (fun provider => provider.name == text)

structure WorkspaceSection where
  root : String := "."
  ignore : List String := []
  maxFileSize : Nat := 1024 * 1024
deriving DecidableEq, Repr, Inhabited

structure StorageSection where
  databasePath : String := ".codeweave/codeweave.db"
  vectorEnabled : Bool := true
  vectorBackend : VectorBackend := .memory
  vectorServer : Option String := none
deriving DecidableEq, Repr, Inhabited

structure EmbeddingSection where
  provider : EmbeddingProvider := .server
  baseUrl : String := "http://localhost:11434"
  model : String := "nomic-embed-text"
  batchSize : Nat := 32
  dimensions : Nat := 384
deriving DecidableEq, Repr, Inhabited

structure SearchSection where
  limit : Nat := 10
  depth : Nat := 1
deriving DecidableEq, Repr, Inhabited

structure Config where
  workspace : WorkspaceSection := {}
  queue : QueueSettings := {}
  storage : StorageSection := {}
  embedding : EmbeddingSection := {}
  search : SearchSection := {}
deriving DecidableEq, Repr, Inhabited

inductive ConfigError where
  | unreadable
  | malformed
deriving DecidableEq, Repr

def ConfigError.message : ConfigError → String
  | .unreadable => "failed to read config file"
  | .malformed => "failed to parse config file"

namespace Config

def wordLimit : Nat := 18446744073709551615

def shortLimit : Nat := 4294967295

def named? {α : Type} (ofName? : String → Option α) (value : Toml) : Option α :=
  value.string?.bind ofName?

def workspace? (value : Toml) : Option WorkspaceSection := do
  let base : WorkspaceSection := {}
  match ← value.fields? ["root", "ignore", "max_file_size"] with
  | [root, ignore, size] =>
      return { root := ← Toml.withDefault base.root Toml.string? root
               ignore := ← Toml.withDefault base.ignore Toml.strings? ignore
               maxFileSize := ← Toml.withDefault base.maxFileSize (Toml.natural? wordLimit) size }
  | _ => none

def queue? (value : Toml) : Option QueueSettings := do
  let base : QueueSettings := {}
  match ← value.fields? ["concurrency", "max_retries", "retry_delay_ms", "tick_ms",
      "empty_output"] with
  | [concurrency, retries, delay, tick, policy] =>
      return { concurrency :=
                 ← Toml.withDefault base.concurrency (Toml.natural? wordLimit) concurrency
               maxRetries := ← Toml.withDefault base.maxRetries (Toml.natural? shortLimit) retries
               retryDelay := ← Toml.withDefault base.retryDelay (Toml.natural? wordLimit) delay
               tick := ← Toml.withDefault base.tick (Toml.natural? wordLimit) tick
               emptyOutput := ← Toml.withDefault base.emptyOutput (named? EmptyOutputPolicy.ofName?)
                 policy }
  | _ => none

def storage? (value : Toml) : Option StorageSection := do
  let base : StorageSection := {}
  match ← value.fields? ["sqlite_path", "vector_enabled", "vector_backend", "qdrant_url"] with
  | [path, enabled, backend, url] =>
      return { databasePath := ← Toml.withDefault base.databasePath Toml.string? path
               vectorEnabled := ← Toml.withDefault base.vectorEnabled Toml.boolean? enabled
               vectorBackend := ← Toml.withDefault base.vectorBackend (named? VectorBackend.ofName?)
                 backend
               vectorServer := ← Toml.withDefault base.vectorServer (fun v => v.string?.map some)
                 url }
  | _ => none

def embedding? (value : Toml) : Option EmbeddingSection := do
  let base : EmbeddingSection := {}
  match ← value.fields? ["provider", "base_url", "model", "batch_size", "dimensions"] with
  | [provider, url, model, batch, dimensions] =>
      return { provider := ← Toml.withDefault base.provider (named? EmbeddingProvider.ofName?)
                 provider
               baseUrl := ← Toml.withDefault base.baseUrl Toml.string? url
               model := ← Toml.withDefault base.model Toml.string? model
               batchSize := ← Toml.withDefault base.batchSize (Toml.natural? wordLimit) batch
               dimensions := ← Toml.withDefault base.dimensions (Toml.natural? wordLimit) dimensions }
  | _ => none

def search? (value : Toml) : Option SearchSection := do
  let base : SearchSection := {}
  match ← value.fields? ["limit", "depth"] with
  | [limit, depth] =>
      return { limit := ← Toml.withDefault base.limit (Toml.natural? wordLimit) limit
               depth := ← Toml.withDefault base.depth (Toml.natural? wordLimit) depth }
  | _ => none

def ofToml? (value : Toml) : Option Config := do
  match ← value.fields? ["workspace", "queue", "storage", "embedding", "search"] with
  | [workspace, queue, storage, embedding, search] =>
      return { workspace := ← Toml.withDefault {} workspace? workspace
               queue := ← Toml.withDefault {} queue? queue
               storage := ← Toml.withDefault {} storage? storage
               embedding := ← Toml.withDefault {} embedding? embedding
               search := ← Toml.withDefault {} search? search }
  | _ => none

def parse (content : Option String) : Except ConfigError Config :=
  match content with
  | none => .ok {}
  | some content =>
      match (Toml.read? content).bind ofToml? with
      | some config => .ok config
      | none => .error .malformed

abbrev Environment : Type := List (String × String)

def variableNames : List String :=
  ["CODEWEAVE_CONFIG", "CODEWEAVE_ROOT", "CODEWEAVE_IGNORE", "CODEWEAVE_MAX_FILE_SIZE",
    "CODEWEAVE_QUEUE_CONCURRENCY", "CODEWEAVE_QUEUE_MAX_RETRIES", "CODEWEAVE_QUEUE_RETRY_DELAY_MS",
    "CODEWEAVE_QUEUE_EMPTY_OUTPUT", "CODEWEAVE_SQLITE_PATH", "CODEWEAVE_VECTOR_ENABLED",
    "CODEWEAVE_VECTOR_BACKEND", "CODEWEAVE_QDRANT_URL", "CODEWEAVE_EMBEDDING_PROVIDER",
    "CODEWEAVE_EMBEDDING_BASE_URL", "CODEWEAVE_EMBEDDING_MODEL", "CODEWEAVE_EMBEDDING_BATCH_SIZE",
    "CODEWEAVE_SEARCH_LIMIT", "CODEWEAVE_SEARCH_DEPTH"]

def override {α : Type} (environment : Environment) (name : String) (read? : String → Option α)
    (setting : α) : α :=
  ((environment.lookup name).bind read?).getD setting

def number? (limit : Nat) (text : String) : Option Nat :=
  Text.boundedNatural? limit text.toList

def truth? (text : String) : Option Bool :=
  if text == "true" then some true
  else if text == "false" then some false
  else none

def patterns (text : String) : List String :=
  (((Text.splitOn ',' text.toList).map Text.trim).filter (fun p => !p.isEmpty)).map String.ofList

def withEnvironment (config : Config) (environment : Environment) : Config :=
  { workspace :=
      { root := override environment "CODEWEAVE_ROOT" some config.workspace.root
        ignore := override environment "CODEWEAVE_IGNORE" (some ∘ patterns) config.workspace.ignore
        maxFileSize := override environment "CODEWEAVE_MAX_FILE_SIZE" (number? wordLimit)
          config.workspace.maxFileSize }
    queue :=
      { config.queue with
        concurrency := override environment "CODEWEAVE_QUEUE_CONCURRENCY" (number? wordLimit)
          config.queue.concurrency
        maxRetries := override environment "CODEWEAVE_QUEUE_MAX_RETRIES" (number? shortLimit)
          config.queue.maxRetries
        retryDelay := override environment "CODEWEAVE_QUEUE_RETRY_DELAY_MS" (number? wordLimit)
          config.queue.retryDelay
        emptyOutput := override environment "CODEWEAVE_QUEUE_EMPTY_OUTPUT"
          EmptyOutputPolicy.ofName? config.queue.emptyOutput }
    storage :=
      { databasePath := override environment "CODEWEAVE_SQLITE_PATH" some config.storage.databasePath
        vectorEnabled := override environment "CODEWEAVE_VECTOR_ENABLED" truth?
          config.storage.vectorEnabled
        vectorBackend := override environment "CODEWEAVE_VECTOR_BACKEND" VectorBackend.ofName?
          config.storage.vectorBackend
        vectorServer := override environment "CODEWEAVE_QDRANT_URL" (some ∘ some)
          config.storage.vectorServer }
    embedding :=
      { config.embedding with
        provider := override environment "CODEWEAVE_EMBEDDING_PROVIDER" EmbeddingProvider.ofName?
          config.embedding.provider
        baseUrl := override environment "CODEWEAVE_EMBEDDING_BASE_URL" some config.embedding.baseUrl
        model := override environment "CODEWEAVE_EMBEDDING_MODEL" some config.embedding.model
        batchSize := override environment "CODEWEAVE_EMBEDDING_BATCH_SIZE" (number? wordLimit)
          config.embedding.batchSize }
    search :=
      { limit := override environment "CODEWEAVE_SEARCH_LIMIT" (number? wordLimit)
          config.search.limit
        depth := override environment "CODEWEAVE_SEARCH_DEPTH" (number? wordLimit)
          config.search.depth } }

def load (content : Option String) (environment : Environment) : Except ConfigError Config := do
  return (← parse content).withEnvironment environment

inductive Problem where
  | concurrency
  | batchSize
  | dimensions
  | vectorServer
deriving DecidableEq, Repr

def Problem.message : Problem → String
  | .concurrency => "queue.concurrency must be at least 1"
  | .batchSize => "embedding.batch_size must be at least 1"
  | .dimensions => "embedding.dimensions must be at least 1"
  | .vectorServer => "storage.vector_backend = \"qdrant\" requires storage.qdrant_url"

def isBlankUrl (url : Option String) : Bool :=
  url.all (fun url => (Text.trim url.toList).isEmpty)

def problem? (config : Config) : Option Problem :=
  if config.queue.concurrency = 0 then some .concurrency
  else if config.embedding.batchSize = 0 then some .batchSize
  else if config.embedding.provider = .hash ∧ config.embedding.dimensions = 0 then some .dimensions
  else if config.storage.vectorEnabled ∧ config.storage.vectorBackend = .server ∧
      isBlankUrl config.storage.vectorServer then some .vectorServer
  else none

def workspaceRoot (config : Config) (base : String) : String :=
  if Path.isAbsolute config.workspace.root then config.workspace.root
  else Path.join base config.workspace.root

def databasePath (config : Config) (root : String) : String :=
  let path := config.storage.databasePath
  if path == ":memory:" || Path.isAbsolute path then path else Path.join root path

end Config

end CodeGraph
