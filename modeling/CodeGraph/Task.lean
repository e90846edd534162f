import CodeGraph.Digest.Blake3
import CodeGraph.Digest.Hex
import CodeGraph.Error
import CodeGraph.Text

set_option autoImplicit false

namespace CodeGraph

inductive TaskStatus where
  | pending
  | processing
  | completed
  | failed
deriving DecidableEq, Repr, Inhabited

namespace TaskStatus

def all : List TaskStatus :=
  [.pending, .processing, .completed, .failed]

def name : TaskStatus → String
  | .pending => "pending"
  | .processing => "processing"
  | .completed => "completed"
  | .failed => "failed"

def ofName? (text : String) : Option TaskStatus :=
  all.find? (fun status => status.name == text)

@[simp] theorem ofName?_name (status : TaskStatus) : ofName? status.name = some status := by
  cases status <;> rfl

end TaskStatus

structure TaskOutput where
  chunks : Nat := 0
  edges : Nat := 0
deriving DecidableEq, Repr, Inhabited

inductive EmptyOutputPolicy where
  | fail
  | retry
  | succeed
deriving DecidableEq, Repr, Inhabited

def EmptyOutputPolicy.name : EmptyOutputPolicy → String
  | .fail => "fail"
  | .retry => "retry"
  | .succeed => "succeed"

def EmptyOutputPolicy.ofName? (text : String) : Option EmptyOutputPolicy :=
  [EmptyOutputPolicy.fail, .retry, .succeed].find? (fun policy => policy.name == text)

structure NewTask where
  path : String
  size : Nat := 0
  hash : String := ""
  content : Option String := none
deriving DecidableEq, Repr, Inhabited

namespace NewTask

def ofContent (path content : String) : NewTask :=
  let bytes := Text.bytes content
  { path, size := bytes.length, hash := Digest.hex (Digest.blake3 bytes), content := some content }

def displayName (task : NewTask) : String :=
  String.ofList ((Text.splitBy (fun c => c == '/' || c == '\\') task.path.toList).getLastD [])

end NewTask

structure QueueSettings where
  concurrency : Nat := 2
  maxRetries : Nat := 3
  /-- The time between a failed attempt and the next one, in milliseconds. -/
  retryDelay : Nat := 5000
  tick : Nat := 1000
  emptyOutput : EmptyOutputPolicy := .fail
deriving DecidableEq, Repr, Inhabited

structure Task where
  id : Nat
  path : String
  name : String
  size : Nat
  hash : String
  content : Option String
  status : TaskStatus
  progress : Nat
  retryCount : Nat
  maxRetries : Nat
  step : Option String
  startedAt : Option Int
  completedAt : Option Int
  /-- The earliest time at which a pending task may be claimed, in milliseconds. -/
  availableAt : Int
  errorMessage : Option String
  output : TaskOutput
deriving DecidableEq, Repr, Inhabited

def Task.isVirtual (task : Task) : Bool :=
  task.content.isSome

end CodeGraph
