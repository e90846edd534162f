import CodeGraph.TaskTable

set_option autoImplicit false

namespace CodeGraph

inductive QueueEvent where
  | started (task : Nat) (path : String)
  | progress (task : Nat) (path step : String) (percent : Nat)
  | completed (task : Nat) (path : String) (output : TaskOutput)
  | retrying (task : Nat) (path : String) (attempt : Nat) (error : String)
  | failed (task : Nat) (path error : String)
  | queueEmpty
  | paused
  | resumed
deriving DecidableEq, Repr

def QueueEvent.path? : QueueEvent → Option String
  | .started _ path => some path
  | .progress _ path _ _ => some path
  | .completed _ path _ => some path
  | .retrying _ path _ _ => some path
  | .failed _ path _ => some path
  | _ => none

structure Enqueued where
  id : Nat
  scheduled : Bool
deriving DecidableEq, Repr

/-- Writes a request down, given the task that its path had when the request came in. -/
def TaskTable.respond (table : TaskTable) (task : NewTask) (maxRetries : Nat) :
    Option Task → Except QueueError (TaskTable × Enqueued)
  | none => do
      let (table, id) ← table.insert task maxRetries
      return (table, { id, scheduled := true })
  | some old =>
      if old.hash = task.hash then
        match old.status with
        | .pending | .processing => .ok (table, { id := old.id, scheduled := true })
        | .completed => .ok (table, { id := old.id, scheduled := false })
        | .failed =>
            if old.retryCount < old.maxRetries then
              .ok (table.reset old.id task, { id := old.id, scheduled := true })
            else .ok (table, { id := old.id, scheduled := false })
      else
        let table :=
          if old.status = .processing then table.updateContent old.id task
          else table.reset old.id task
        .ok (table, { id := old.id, scheduled := true })

structure Queue where
  settings : QueueSettings := {}
  table : TaskTable := {}
  running : List Task := []
  paused : Bool := false
  stopped : Bool := false
  /-- Whether tasks were taken since the queue was last empty. -/
  busy : Bool := false
  now : Int := 0
  /-- What was announced, the latest event first. -/
  announced : List QueueEvent := []
deriving DecidableEq, Repr, Inhabited

namespace Queue

def publish (queue : Queue) (event : QueueEvent) : Queue :=
  { queue with announced := event :: queue.announced }

def events (queue : Queue) : List QueueEvent :=
  queue.announced.reverse

@[simp] theorem events_publish (queue : Queue) (event : QueueEvent) :
    (queue.publish event).events = queue.events ++ [event] := by
  simp [events, publish]

def cap (queue : Queue) : Nat :=
  max queue.settings.concurrency 1

def enqueue (queue : Queue) (task : NewTask) : Except QueueError (Queue × Enqueued) := do
  let old ← queue.table.getByPath task.path
  let (table, answer) ← queue.table.respond task queue.settings.maxRetries old
  return ({ queue with table }, answer)

def pause (queue : Queue) : Queue :=
  if queue.paused then queue else { queue with paused := true }.publish .paused

def resume (queue : Queue) : Queue :=
  if queue.paused then { queue with paused := false }.publish .resumed else queue

def stop (queue : Queue) : Queue :=
  { queue with stopped := true }

def recover (queue : Queue) : Queue :=
  { queue with table := queue.table.recover }

def retryFailed (queue : Queue) : Queue :=
  { queue with table := queue.table.retryFailed }

def clearCompleted (queue : Queue) : Queue :=
  { queue with table := queue.table.deleteStatus .completed }

def clearAll (queue : Queue) : Queue :=
  { queue with table := queue.table.deleteAll }

def removePath (queue : Queue) (path : String) : Queue :=
  { queue with table := queue.table.removePath path }

def isIdle (queue : Queue) : Bool :=
  queue.running.isEmpty && queue.table.isIdle

def drained (queue : Queue) : Queue :=
  if queue.busy then { queue with busy := false }.publish .queueEmpty else queue

def pull (queue : Queue) : Queue × List Task :=
  if queue.paused || queue.running.length ≥ queue.cap then (queue, [])
  else
    match queue.table.claim (queue.cap - queue.running.length) queue.now with
    | (table, .error _) => ({ queue with table }, [])
    | (table, .ok []) =>
        let queue := { queue with table }
        (if queue.isIdle then queue.drained else queue, [])
    | (table, .ok tasks) =>
        ({ queue with table, busy := true, running := queue.running ++ tasks }, tasks)

def report (queue : Queue) (task : Task) (step : String) (percent : Nat) : Queue :=
  let percent := min percent 100
  { queue with table := queue.table.report task.id step percent }.publish
    (.progress task.id task.path step percent)

def announceFailure (queue : Queue) (task : Task) (error : String) : FailureOutcome → Queue
  | .retrying attempt => queue.publish (.retrying task.id task.path attempt error)
  | .failed => queue.publish (.failed task.id task.path error)
  | .requeued => queue

def retryAt (queue : Queue) : Int :=
  min (queue.now + queue.settings.retryDelay) maxInteger

def recordError (queue : Queue) (task : Task) (error : String) : Queue :=
  match queue.table.recordFailure task.id task.hash error queue.retryAt with
  | (table, .ok outcome) => { queue with table }.announceFailure task error outcome
  | (table, .error _) => { queue with table }

def recordEmpty (queue : Queue) (task : Task) (error : String) : Queue :=
  match queue.table.failTerminal task.id task.hash error with
  | .ok (table, outcome) => { queue with table }.announceFailure task error outcome
  | .error _ => queue

def recordOutput (queue : Queue) (task : Task) (output : TaskOutput) : Queue :=
  match queue.table.complete queue.now task.id task.hash output with
  | .ok (table, .pending) => { queue with table }
  | .ok (table, _) => { queue with table }.publish (.completed task.id task.path output)
  | .error _ => queue

def noOutput : String := "worker produced no output"

def record (queue : Queue) (task : Task) : Except QueueError TaskOutput → Queue
  | .error error => queue.recordError task error.message
  | .ok output =>
      if output.chunks = 0 then
        match queue.settings.emptyOutput with
        | .succeed => queue.recordOutput task output
        | .retry => queue.recordError task noOutput
        | .fail => queue.recordEmpty task noOutput
      else queue.recordOutput task output

def finish (queue : Queue) (task : Task) (result : Except QueueError TaskOutput) : Queue :=
  let queue := queue.record task result
  { queue with running := queue.running.eraseP (fun held => held.id == task.id) }

def nextDue? (queue : Queue) : Option Int :=
  ((queue.table.rows.filter (TaskRow.hasStatus .pending)).map TaskRow.availableAt).min?

end Queue

end CodeGraph
