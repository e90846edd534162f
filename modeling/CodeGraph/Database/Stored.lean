import CodeGraph.Database
import CodeGraph.Json.Reader
import CodeGraph.Json.Writer

set_option autoImplicit false

namespace CodeGraph

namespace Column

def text? : Json → Option String
  | .string text => some text
  | .number (.int value) => some (toString value)
  | _ => none

def optionalText? : Json → Option (Option String)
  | .null => some none
  | value => some <$> text? value

def optionalInteger? : Json → Option (Option Int)
  | .null => some none
  | value => some <$> value.int?

def truth (value : Bool) : Json :=
  .int (if value then 1 else 0)

def truth? (value : Json) : Option Bool :=
  value.int?.map (· != 0)

def optionalInteger (value : Option Int) : Json :=
  Json.ofOption Json.int value

/-- The row in which one column holds another value; the row itself if it cannot hold that. -/
def overwrite {α : Type} (store : α → Json) (load? : Json → Option α) (column : String)
    (value : Json) (row : α) : α :=
  match store row with
  | .object fields => (load? (.object (Properties.insert column value fields))).getD row
  | _ => row

def rows? {α : Type} (row? : Json → Option α) (value : Json) : Option (List α) := do
  (← value.array?).mapM row?

end Column

namespace FileRow

def toJson (row : FileRow) : Json :=
  .record [("path", .string row.path), ("available", Column.truth row.available),
    ("deleted", Column.truth row.deleted), ("size", .int row.size),
    ("modified_ms", .int row.modified),
    ("hash_algorithm", .string row.hashAlgorithm), ("hash", .string row.hash),
    ("hash_status", .string row.hashStatus), ("language", .optionalString row.language),
    ("last_indexed_at", .optionalString row.lastIndexedAt),
    ("last_indexed_hash", .optionalString row.lastIndexedHash),
    ("last_failed_hash", .optionalString row.lastFailedHash)]

def ofJson? (value : Json) : Option FileRow := do
  return { path := ← Column.text? (← value.get? "path")
           available := ← Column.truth? (← value.get? "available")
           deleted := ← Column.truth? (← value.get? "deleted")
           size := ← (← value.get? "size").int?
           modified := ← (← value.get? "modified_ms").int?
           hashAlgorithm := ← Column.text? (← value.get? "hash_algorithm")
           hash := ← Column.text? (← value.get? "hash")
           hashStatus := ← Column.text? (← value.get? "hash_status")
           language := ← Column.optionalText? (← value.get? "language")
           lastIndexedAt := ← Column.optionalText? (← value.get? "last_indexed_at")
           lastIndexedHash := ← Column.optionalText? (← value.get? "last_indexed_hash")
           lastFailedHash := ← Column.optionalText? (← value.get? "last_failed_hash") }

def setColumn : String → Json → FileRow → FileRow :=
  Column.overwrite toJson ofJson?

end FileRow

namespace TaskRow

def toJson (row : TaskRow) : Json :=
  .record [("id", .nat row.id), ("path", .string row.path), ("name", .string row.name),
    ("size", .int row.size), ("hash", .string row.hash), ("content", .optionalString row.content),
    ("status", .string row.status), ("progress", .int row.progress),
    ("retry_count", .int row.retryCount), ("max_retries", .int row.maxRetries),
    ("current_step", .optionalString row.step),
    ("started_at", Column.optionalInteger row.startedAt),
    ("completed_at", Column.optionalInteger row.completedAt), ("available_at", .int row.availableAt),
    ("error_message", .optionalString row.errorMessage), ("chunks_created", .int row.chunks),
    ("relationships_created", .int row.edges)]

def ofJson? (value : Json) : Option TaskRow := do
  return { id := ← (← value.get? "id").nat?
           path := ← Column.text? (← value.get? "path")
           name := ← Column.text? (← value.get? "name")
           size := ← (← value.get? "size").int?
           hash := ← Column.text? (← value.get? "hash")
           content := ← Column.optionalText? (← value.get? "content")
           status := ← Column.text? (← value.get? "status")
           progress := ← (← value.get? "progress").int?
           retryCount := ← (← value.get? "retry_count").int?
           maxRetries := ← (← value.get? "max_retries").int?
           step := ← Column.optionalText? (← value.get? "current_step")
           startedAt := ← Column.optionalInteger? (← value.get? "started_at")
           completedAt := ← Column.optionalInteger? (← value.get? "completed_at")
           availableAt := ← (← value.get? "available_at").int?
           errorMessage := ← Column.optionalText? (← value.get? "error_message")
           chunks := ← (← value.get? "chunks_created").int?
           edges := ← (← value.get? "relationships_created").int? }

def setColumn : String → Json → TaskRow → TaskRow :=
  Column.overwrite toJson ofJson?

end TaskRow

namespace FileNodeRow

def toJson (row : FileNodeRow) : Json :=
  .record [("path", .string row.path), ("language", .string row.language), ("lines", .int row.lines)]

def ofJson? (value : Json) : Option FileNodeRow := do
  return { path := ← Column.text? (← value.get? "path")
           language := ← Column.text? (← value.get? "language")
           lines := ← (← value.get? "lines").int? }

end FileNodeRow

namespace ChunkRow

def toJson (row : ChunkRow) : Json :=
  .record [("id", .string row.id), ("file_path", .string row.filePath),
    ("content", .string row.content), ("line_start", .int row.lineStart),
    ("line_end", .int row.lineEnd), ("chunk_type", .string row.type),
    ("symbol_name", .optionalString row.symbol), ("symbol_kind", .optionalString row.kind)]

def ofJson? (value : Json) : Option ChunkRow := do
  return { id := ← Column.text? (← value.get? "id")
           filePath := ← Column.text? (← value.get? "file_path")
           content := ← Column.text? (← value.get? "content")
           lineStart := ← (← value.get? "line_start").int?
           lineEnd := ← (← value.get? "line_end").int?
           type := ← Column.text? (← value.get? "chunk_type")
           symbol := ← Column.optionalText? (← value.get? "symbol_name")
           kind := ← Column.optionalText? (← value.get? "symbol_kind") }

def setColumn : String → Json → ChunkRow → ChunkRow :=
  Column.overwrite toJson ofJson?

end ChunkRow

namespace EdgeRow

def toJson (row : EdgeRow) : Json :=
  .record [("from_id", .string row.source), ("to_id", .string row.target), ("kind", .string row.kind),
    ("properties",
      .string ((row.properties.map (fun fields => (Json.object fields).render)).getD ""))]

def ofJson? (value : Json) : Option EdgeRow := do
  let properties ← Column.text? (← value.get? "properties")
  return { source := ← Column.text? (← value.get? "from_id")
           target := ← Column.text? (← value.get? "to_id")
           kind := ← Column.text? (← value.get? "kind")
           properties := Json.read? properties >>= Json.object? }

def setColumn : String → Json → EdgeRow → EdgeRow :=
  Column.overwrite toJson ofJson?

end EdgeRow

namespace Graph

def toJson (graph : Graph) : Json :=
  .record [("files", .array (graph.files.map FileNodeRow.toJson)),
    ("chunks", .array (graph.chunks.map ChunkRow.toJson)),
    ("edges", .array (graph.edges.map EdgeRow.toJson))]

def ofJson? (value : Json) : Option Graph := do
  return { files := ← Column.rows? FileNodeRow.ofJson? (← value.get? "files")
           chunks := ← Column.rows? ChunkRow.ofJson? (← value.get? "chunks")
           edges := ← Column.rows? EdgeRow.ofJson? (← value.get? "edges") }

end Graph

namespace Database

def toJson (database : Database) : Json :=
  .record [("graph", Json.ofOption Graph.toJson database.graph.tables),
    ("files", .array (database.files.rows.map FileRow.toJson)),
    ("tasks", .array (database.tasks.rows.map TaskRow.toJson)),
    ("next_task", .nat database.tasks.nextId)]

def graph? : Json → Option GraphStore
  | .null => some {}
  | value => (Graph.ofJson? value).map (fun graph => ⟨some graph⟩)

def ofJson? (value : Json) : Option Database := do
  return { graph := ← graph? (← value.get? "graph")
           files := ⟨← Column.rows? FileRow.ofJson? (← value.get? "files")⟩
           tasks := { rows := ← Column.rows? TaskRow.ofJson? (← value.get? "tasks")
                      nextId := ← (← value.get? "next_task").nat? } }

end Database

end CodeGraph
