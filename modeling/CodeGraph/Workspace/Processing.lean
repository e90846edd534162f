import CodeGraph.Chunking
import CodeGraph.CodeIndex
import CodeGraph.FileIndex
import CodeGraph.Queue.Run

set_option autoImplicit false

namespace CodeGraph

structure Stores where
  index : CodeIndex
  files : FileIndex := {}

namespace Processing

/-- The bytes of a task: its own content, or else the file at its path. -/
def read (disk : Disk) (root : List String) (task : Task) : Except IndexError (List UInt8) :=
  match task.content with
  | some content => .ok (Text.bytes content)
  | none =>
      (disk.readBytes (Path.components (Path.join (Path.ofComponents root) task.path))).mapError
        (fun error => .unreadable error.message)

def check (maxFileSize : Nat) (path : String) (bytes : List UInt8) : Except IndexError Unit :=
  if bytes.isEmpty then .error (.processing path "empty file")
  else if maxFileSize < bytes.length then
    .error (.processing path
      (toString bytes.length ++ " bytes exceeds the " ++ toString maxFileSize ++ " byte limit"))
  else if isSupported path then .ok ()
  else .error (.unsupportedLanguage path)

def text (path : String) (bytes : List UInt8) : Except IndexError String :=
  match Text.ofBytes? bytes with
  | some content => .ok content
  | none => .error (.processing path "not valid UTF-8")

def chunks (grammars : Grammars) (path content : String) : Except IndexError (List Chunk) :=
  match Chunking.ofFile? Chunking.defaultBlockSize path content grammars with
  | some chunks => .ok chunks
  | none => .error (.unsupportedLanguage path)

def failed (queue : Queue) (state : Stores) (error : IndexError) : Attempt Stores :=
  { queue, state, result := .error (.taskFailed error.message) }

/-- Indexes the chunks of a task. A file that has some is marked as indexed. -/
def store (disk : Disk) (task : Task) (bytes : List UInt8) (content : String) (found : List Chunk)
    (queue : Queue) (state : Stores) : Attempt Stores :=
  let hash := Digest.hex (Digest.blake3 bytes)
  match state.index.putFile disk task.path content hash found with
  | (index, .error error) => failed queue { state with index } error
  | (index, .ok outcome) =>
      let files :=
        if 0 < outcome.chunks && !task.isVirtual then
          state.files.markIndexed (toString queue.now) task.path hash
        else state.files
      { queue := queue.report task "done" 100, state := { index, files }
        result := .ok { chunks := outcome.chunks, edges := outcome.edges } }

def worker (disk : Disk) (maxFileSize : Nat) : Worker Stores := fun task queue state =>
  let queue := queue.report task "reading" 5
  match read disk state.index.root task with
  | .error error => failed queue state error
  | .ok bytes =>
      let queue := queue.report task "validating" 15
      match check maxFileSize task.path bytes with
      | .error error => failed queue state error
      | .ok () =>
          let queue := queue.report task "hashing" 25
          match text task.path bytes with
          | .error error => failed queue state error
          | .ok content =>
              let queue := queue.report task "parsing" 40
              match chunks state.index.grammars task.path content with
              | .error error => failed queue state error
              | .ok found =>
                  let queue := (queue.report task "summarizing" 55).report task "indexing" 70
                  store disk task bytes content found queue state

end Processing

end CodeGraph
