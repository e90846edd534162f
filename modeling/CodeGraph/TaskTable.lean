import CodeGraph.Table
import CodeGraph.Task

/-!
The table of tasks, in the order of their insertion. Every operation is one change of the rows, and
a row is read back with checks, as a table may hold anything.
-/

set_option autoImplicit false

namespace CodeGraph

/-- A count as the table holds it: one that does not fit is cut to the largest that does. -/
def saturated (value : Nat) : Int :=
  (min value maxInteger : Nat)

def maxCount : Nat := 4294967295

structure TaskRow where
  id : Nat
  path : String
  name : String
  size : Int
  hash : String
  content : Option String := none
  status : String := TaskStatus.pending.name
  progress : Int := 0
  retryCount : Int := 0
  maxRetries : Int
  step : Option String := none
  startedAt : Option Int := none
  completedAt : Option Int := none
  availableAt : Int := 0
  errorMessage : Option String := none
  chunks : Int := 0
  edges : Int := 0
deriving DecidableEq, Repr, Inhabited

namespace TaskRow

def number (row : TaskRow) (field : String) (limit : Nat) (value : Int) : Except QueueError Nat :=
  if 0 ≤ value ∧ value ≤ limit then .ok value.toNat
  else .error (.corrupt (toString row.id) field)

def task (row : TaskRow) : Except QueueError Task := do
  let some status := TaskStatus.ofName? row.status | throw (.corrupt (toString row.id) "status")
  let size ← row.number "size" maxInteger row.size
  let progress ← row.number "progress" 255 row.progress
  let retryCount ← row.number "retry_count" maxCount row.retryCount
  let maxRetries ← row.number "max_retries" maxCount row.maxRetries
  let chunks ← row.number "chunks" maxInteger row.chunks
  let edges ← row.number "relationships" maxInteger row.edges
  return { id := row.id, path := row.path, name := row.name, size, hash := row.hash
           content := row.content, status, progress, retryCount, maxRetries, step := row.step
           startedAt := row.startedAt, completedAt := row.completedAt
           availableAt := row.availableAt, errorMessage := row.errorMessage
           output := { chunks, edges } }

def hasStatus (status : TaskStatus) (row : TaskRow) : Bool :=
  row.status == status.name

def isDue (now : Int) (row : TaskRow) : Bool :=
  row.hasStatus .pending && decide (row.availableAt ≤ now)

def complete (now : Int) (hash : String) (output : TaskOutput) (row : TaskRow) : TaskRow :=
  let same := row.hash == hash
  { row with
    status := (if same then TaskStatus.completed else .pending).name
    progress := if same then 100 else 0
    completedAt := if same then some now else none
    chunks := saturated output.chunks, edges := saturated output.edges
    step := none, errorMessage := none }

def recordFailure (hash error : String) (retryAt : Int) (row : TaskRow) : TaskRow :=
  if row.hash != hash then
    { row with
      status := TaskStatus.pending.name, retryCount := 0, availableAt := 0
      errorMessage := none, step := none }
  else
    let again := decide (row.retryCount < row.maxRetries)
    { row with
      status := (if again then TaskStatus.pending else .failed).name
      retryCount := if again then row.retryCount + 1 else row.retryCount
      availableAt := retryAt, errorMessage := some error, step := none }

def failTerminal (hash error : String) (row : TaskRow) : TaskRow :=
  if row.hash == hash then
    { row with status := TaskStatus.failed.name, errorMessage := some error, step := none }
  else
    { row with
      status := TaskStatus.pending.name, retryCount := 0, availableAt := 0
      errorMessage := none, step := none }

end TaskRow

/-- How many tasks are in each status. Rows with no known status count only in the total. -/
structure TaskStats where
  pending : Nat := 0
  processing : Nat := 0
  completed : Nat := 0
  failed : Nat := 0
  total : Nat := 0
deriving DecidableEq, Repr, Inhabited

inductive FailureOutcome where
  | retrying (attempt : Nat)
  | failed
  /-- Its content changed meanwhile, so it waits again as if new. -/
  | requeued
deriving DecidableEq, Repr, Inhabited

structure TaskTable where
  rows : List TaskRow := []
  nextId : Nat := 0
deriving DecidableEq, Repr, Inhabited

namespace TaskTable

def row? (table : TaskTable) (id : Nat) : Option TaskRow :=
  Table.get? TaskRow.id table.rows id

def change (table : TaskTable) (id : Nat) (f : TaskRow → TaskRow) : TaskTable :=
  { table with rows := Table.update TaskRow.id id f table.rows }

def keep (table : TaskTable) (p : TaskRow → Bool) : TaskTable :=
  { table with rows := table.rows.filter p }

def taskOf : Option TaskRow → Except QueueError (Option Task)
  | some row => some <$> row.task
  | none => .ok none

def get (table : TaskTable) (id : Nat) : Except QueueError (Option Task) :=
  taskOf (table.row? id)

def getByPath (table : TaskTable) (path : String) : Except QueueError (Option Task) :=
  taskOf (Table.get? TaskRow.path table.rows path)

def withStatus (table : TaskTable) (status : TaskStatus) : Except QueueError (List Task) :=
  (table.rows.filter (TaskRow.hasStatus status)).mapM TaskRow.task

def insert (table : TaskTable) (task : NewTask) (maxRetries : Nat) :
    Except QueueError (TaskTable × Nat) :=
  if Table.has TaskRow.path table.rows task.path then .error .database
  else
    let row : TaskRow :=
      { id := table.nextId, path := task.path, name := task.displayName
        size := saturated task.size, hash := task.hash, content := task.content
        maxRetries := maxRetries }
    .ok ({ rows := table.rows ++ [row], nextId := table.nextId + 1 }, table.nextId)

def reset (table : TaskTable) (id : Nat) (task : NewTask) : TaskTable :=
  table.change id fun row =>
    { row with
      status := TaskStatus.pending.name, hash := task.hash, size := saturated task.size
      content := task.content, progress := 0, retryCount := 0, step := none
      errorMessage := none, availableAt := 0, startedAt := none, completedAt := none }

def updateContent (table : TaskTable) (id : Nat) (task : NewTask) : TaskTable :=
  table.change id fun row =>
    { row with hash := task.hash, size := saturated task.size, content := task.content }

def due (table : TaskTable) (limit : Nat) (now : Int) : List Nat :=
  ((table.rows.filter (TaskRow.isDue now)).take limit).map TaskRow.id

def isPending (table : TaskTable) (id : Nat) : Bool :=
  table.rows.any (fun row => row.id == id && row.hasStatus .pending)

def take (table : TaskTable) (now : Int) (id : Nat) : TaskTable :=
  { table with
    rows := table.rows.map fun row =>
      if row.id = id ∧ row.hasStatus .pending then
        { row with
          status := TaskStatus.processing.name, progress := 0, step := none
          startedAt := some now }
      else row }

/-- Takes tasks one after the other, up to the first whose row cannot be read. -/
def takeAll (now : Int) : List Nat → TaskTable → TaskTable × Except QueueError (List Task)
  | [], table => (table, .ok [])
  | id :: rest, table =>
      if table.isPending id then
        let taken := table.take now id
        match taken.get id with
        | .error e => (taken, .error e)
        | .ok task? =>
            let (table, tasks) := takeAll now rest taken
            (table, (task?.toList ++ ·) <$> tasks)
      else takeAll now rest table

def claim (table : TaskTable) (limit : Nat) (now : Int) :
    TaskTable × Except QueueError (List Task) :=
  takeAll now (table.due limit now) table

def report (table : TaskTable) (id : Nat) (step : String) (percent : Nat) : TaskTable :=
  { table with
    rows := table.rows.map fun row =>
      if row.id = id ∧ row.hasStatus .processing then
        { row with step := some step, progress := percent }
      else row }

/-- Notes that content with a hash was processed. If the task has other content by now, it is
pending again. -/
def complete (table : TaskTable) (now : Int) (id : Nat) (hash : String) (output : TaskOutput) :
    Except QueueError (TaskTable × TaskStatus) :=
  match table.row? id with
  | none => .error (.notFound (toString id))
  | some row =>
      .ok (table.change id (TaskRow.complete now hash output),
        if row.hash == hash then .completed else .pending)

def recordFailure (table : TaskTable) (id : Nat) (hash error : String) (retryAt : Int) :
    TaskTable × Except QueueError FailureOutcome :=
  match table.row? id with
  | none => (table, .error (.notFound (toString id)))
  | some row =>
      let row' := TaskRow.recordFailure hash error retryAt row
      let outcome :=
        if row.hash != hash then .ok .requeued
        else if row'.hasStatus .pending then
          FailureOutcome.retrying <$> row'.number "retry_count" maxCount row'.retryCount
        else .ok .failed
      (table.change id (TaskRow.recordFailure hash error retryAt), outcome)

def failTerminal (table : TaskTable) (id : Nat) (hash error : String) :
    Except QueueError (TaskTable × FailureOutcome) :=
  match table.row? id with
  | none => .error (.notFound (toString id))
  | some row =>
      .ok (table.change id (TaskRow.failTerminal hash error),
        if row.hash == hash then .failed else .requeued)

def count (table : TaskTable) (status : TaskStatus) : Nat :=
  table.rows.countP (TaskRow.hasStatus status)

def changeStatus (table : TaskTable) (status : TaskStatus) (f : TaskRow → TaskRow) : TaskTable :=
  { table with rows := table.rows.map fun row => if row.hasStatus status then f row else row }

def retryFailed (table : TaskTable) : TaskTable :=
  table.changeStatus .failed fun row =>
    { row with
      status := TaskStatus.pending.name, retryCount := 0, errorMessage := none
      availableAt := 0, progress := 0 }

def recover (table : TaskTable) : TaskTable :=
  table.changeStatus .processing fun row =>
    { row with status := TaskStatus.pending.name, progress := 0, step := none }

def deleteStatus (table : TaskTable) (status : TaskStatus) : TaskTable :=
  table.keep (fun row => !row.hasStatus status)

def deleteAll (table : TaskTable) : TaskTable :=
  { table with rows := [] }

def hasPath (table : TaskTable) (path : String) : Bool :=
  Table.has TaskRow.path table.rows path

def removePath (table : TaskTable) (path : String) : TaskTable :=
  { table with rows := Table.erase TaskRow.path path table.rows }

def stats (table : TaskTable) : TaskStats :=
  { pending := table.count .pending, processing := table.count .processing
    completed := table.count .completed, failed := table.count .failed
    total := table.rows.length }

def isIdle (table : TaskTable) : Bool :=
  table.count .pending == 0 && table.count .processing == 0

end TaskTable

end CodeGraph
