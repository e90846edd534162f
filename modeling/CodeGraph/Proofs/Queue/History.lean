import CodeGraph.Proofs.Queue.Landing
import CodeGraph.Proofs.Queue.Scheduling
import CodeGraph.Proofs.TaskTable.Effects

set_option autoImplicit false

namespace CodeGraph

namespace QueueEvent

def task? : QueueEvent → Option Nat
  | .started task _ => some task
  | .progress task _ _ _ => some task
  | .completed task _ _ => some task
  | .retrying task _ _ _ => some task
  | .failed task _ _ => some task
  | .queueEmpty | .paused | .resumed => none

def isStart : QueueEvent → Bool
  | .started _ _ => true
  | _ => false

def outcome? : QueueEvent → Option FailureOutcome
  | .retrying _ _ attempt _ => some (.retrying attempt)
  | .failed _ _ _ => some .failed
  | _ => none

end QueueEvent

def TaskRow.verdict (row : TaskRow) : FailureOutcome :=
  if row.retryCount < row.maxRetries then .retrying (row.retryCount + 1).toNat else .failed

theorem TaskRow.verdict_ne (row : TaskRow) : row.verdict ≠ .requeued := by
  unfold verdict
  split <;> simp

namespace Queue

def history (queue : Queue) (id : Nat) : List QueueEvent :=
  queue.events.filter (fun event => event.task? == some id)

def calls (queue : Queue) (id : Nat) : Nat :=
  (queue.history id).countP QueueEvent.isStart

def outcomes (queue : Queue) (id : Nat) : List FailureOutcome :=
  (queue.history id).filterMap QueueEvent.outcome?

variable {queue : Queue} {task : Task} {id : Nat}

theorem history_of_announced {after : Queue} {news : List QueueEvent}
    (announced : after.announced = news ++ queue.announced) (id : Nat) :
    after.history id =
      queue.history id ++ news.reverse.filter (fun event => event.task? == some id) := by
  simp [history, events, announced]

def Fails (policy : EmptyOutputPolicy) : Except QueueError TaskOutput → Prop
  | .error _ => True
  | .ok output => output.chunks = 0 ∧ policy = .retry

theorem record_of_fails {result : Except QueueError TaskOutput}
    (fails : Fails queue.settings.emptyOutput result) :
    ∃ error, ∀ task, queue.record task result = queue.recordError task error := by
  cases result with
  | error error => exact ⟨_, fun _ => rfl⟩
  | ok output => exact ⟨noOutput, fun _ => by simp [record, fails.1, fails.2]⟩

theorem record_of_empty (policy : queue.settings.emptyOutput = .fail) {output : TaskOutput}
    (empty : output.chunks = 0) (task : Task) :
    queue.record task (.ok output) = queue.recordEmpty task noOutput := by
  simp [record, empty, policy]

def Announces (id : Nat) (before after : Queue) : Prop :=
  ∃ news, after.announced = news ++ before.announced ∧ ∀ event ∈ news, event.task? = some id

theorem Announces.refl (id : Nat) (queue : Queue) : Announces id queue queue :=
  ⟨[], rfl, by simp⟩

theorem announces_announceFailure (queue : Queue) (task : Task) (error : String)
    (outcome : FailureOutcome) :
    Announces task.id queue (queue.announceFailure task error outcome) := by
  cases outcome with
  | retrying attempt =>
      exact ⟨[.retrying task.id task.path attempt error], rfl, by simp [QueueEvent.task?]⟩
  | failed => exact ⟨[.failed task.id task.path error], rfl, by simp [QueueEvent.task?]⟩
  | requeued => exact .refl _ _

theorem announces_record (queue : Queue) (task : Task) (result : Except QueueError TaskOutput) :
    Announces task.id queue (queue.record task result) := by
  have failure (error : String) : Announces task.id queue (queue.recordError task error) := by
    unfold recordError
    split
    · exact announces_announceFailure { queue with table := _ } task error _
    · exact .refl _ _
  have empty (error : String) : Announces task.id queue (queue.recordEmpty task error) := by
    unfold recordEmpty
    split
    · exact announces_announceFailure { queue with table := _ } task error _
    · exact .refl _ _
  have success (output : TaskOutput) :
      Announces task.id queue (queue.recordOutput task output) := by
    unfold recordOutput
    split
    · exact .refl _ _
    · exact ⟨[.completed task.id task.path output], rfl, by simp [QueueEvent.task?]⟩
    · exact .refl _ _
  cases result with
  | error error => exact failure _
  | ok output =>
      simp only [record]
      split
      · cases queue.settings.emptyOutput with
        | succeed => exact success output
        | retry => exact failure _
        | fail => exact empty _
      · exact success output

theorem finish_frame (queue : Queue) (task : Task) (result : Except QueueError TaskOutput) :
    ∃ announced, queue.finish task result =
      { queue with
        table := queue.table.change task.id (queue.landed task.hash result)
        running := queue.running.eraseP (fun held => held.id == task.id), announced } := by
  cases found : queue.table.row? task.id with
  | none =>
      refine ⟨queue.announced, ?_⟩
      rw [finish, Scheduling.record_of_missing queue task result found,
        TaskTable.change_of_missing found]
  | some row =>
      obtain ⟨announced, recorded⟩ := record_eq queue task result row found
      exact ⟨announced, by rw [finish, recorded]⟩

theorem announces_finish (queue : Queue) (task : Task) (result : Except QueueError TaskOutput) :
    Announces task.id queue (queue.finish task result) :=
  announces_record queue task result

theorem Announces.history_eq {after : Queue} (announces : Announces task.id queue after)
    (differ : task.id ≠ id) : after.history id = queue.history id := by
  obtain ⟨news, announced, about⟩ := announces
  have none : news.reverse.filter (fun event => event.task? == some id) = [] := by
    simp only [List.filter_eq_nil_iff, List.mem_reverse]
    intro event member
    simp [about event member, differ]
  rw [history_of_announced announced, none, List.append_nil]

theorem recordError_current {row : TaskRow} (found : queue.table.row? task.id = some row)
    (sound : row.Sound) (current : row.hash = task.hash) (error : String) :
    queue.recordError task error =
      { queue with
        table := queue.table.change task.id
          (TaskRow.recordFailure task.hash error queue.retryAt) }.announceFailure
        task error row.verdict := by
  have counts := sound.retryCount
  have limit := sound.maxRetries
  by_cases left : row.retryCount < row.maxRetries
  · -- The number that is announced fits, as it is within the limit of the row.
    have fits : 0 ≤ row.retryCount + 1 ∧ row.retryCount + 1 ≤ maxCount := by omega
    simp [recordError, TaskTable.recordFailure, found, current, TaskRow.recordFailure,
      TaskRow.verdict, left, TaskRow.hasStatus, TaskRow.number_ok _ _ _ _ fits]
  · simp [recordError, TaskTable.recordFailure, found, current, TaskRow.recordFailure,
      TaskRow.verdict, left, TaskRow.hasStatus, TaskStatus.name]

theorem recordEmpty_current {row : TaskRow} (found : queue.table.row? task.id = some row)
    (current : row.hash = task.hash) (error : String) :
    queue.recordEmpty task error =
      { queue with
        table := queue.table.change task.id (TaskRow.failTerminal task.hash error) }.announceFailure
        task error .failed := by
  simp [recordEmpty, TaskTable.failTerminal, found, current]

@[simp] theorem running_announceFailure (queue : Queue) (task : Task) (error : String)
    (outcome : FailureOutcome) :
    (queue.announceFailure task error outcome).running = queue.running := by
  cases outcome <;> rfl

theorem outcomes_announceFailure (queue : Queue) (task : Task) (error : String)
    {outcome : FailureOutcome} (noted : outcome ≠ .requeued) :
    (queue.announceFailure task error outcome).outcomes task.id =
      queue.outcomes task.id ++ [outcome] := by
  cases outcome with
  | retrying attempt =>
      simp [outcomes, history, announceFailure, QueueEvent.task?, QueueEvent.outcome?]
  | failed => simp [outcomes, history, announceFailure, QueueEvent.task?, QueueEvent.outcome?]
  | requeued => exact absurd rfl noted

theorem calls_announceFailure (queue : Queue) (task : Task) (error : String)
    (outcome : FailureOutcome) :
    (queue.announceFailure task error outcome).calls task.id = queue.calls task.id := by
  cases outcome <;> simp [calls, history, announceFailure, QueueEvent.isStart, List.countP_append,
    List.filter_cons, apply_ite]

end Queue

end CodeGraph
