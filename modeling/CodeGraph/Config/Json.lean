import CodeGraph.Config
import CodeGraph.Json

set_option autoImplicit false

namespace CodeGraph

namespace WorkspaceSection

def toJson (settings : WorkspaceSection) : Json :=
  .record [("root", .string settings.root), ("ignore", .array (settings.ignore.map .string)),
    ("max_file_size", .nat settings.maxFileSize)]

end WorkspaceSection

namespace QueueSettings

def toJson (settings : QueueSettings) : Json :=
  .record [("concurrency", .nat settings.concurrency), ("max_retries", .nat settings.maxRetries),
    ("retry_delay_ms", .nat settings.retryDelay), ("tick_ms", .nat settings.tick),
    ("empty_output", .string settings.emptyOutput.name)]

end QueueSettings

namespace StorageSection

def toJson (settings : StorageSection) : Json :=
  .record ([("sqlite_path", .string settings.databasePath),
    ("vector_enabled", .bool settings.vectorEnabled),
    ("vector_backend", .string settings.vectorBackend.name)] ++
    (settings.vectorServer.map (fun url => ("qdrant_url", Json.string url))).toList)

end StorageSection

namespace EmbeddingSection

def toJson (settings : EmbeddingSection) : Json :=
  .record [("provider", .string settings.provider.name), ("base_url", .string settings.baseUrl),
    ("model", .string settings.model), ("batch_size", .nat settings.batchSize),
    ("dimensions", .nat settings.dimensions)]

end EmbeddingSection

namespace SearchSection

def toJson (settings : SearchSection) : Json :=
  .record [("limit", .nat settings.limit), ("depth", .nat settings.depth)]

end SearchSection

def Config.toJson (config : Config) : Json :=
  .record [("workspace", config.workspace.toJson), ("queue", config.queue.toJson),
    ("storage", config.storage.toJson), ("embedding", config.embedding.toJson),
    ("search", config.search.toJson)]

end CodeGraph
