import CodeGraph.Proofs.TaskTable
import CodeGraph.Queue.Run

set_option autoImplicit false

namespace CodeGraph

namespace Queue

def outcome : Except QueueError TaskOutput → Option Nat
  | .ok output => some output.chunks
  | .error _ => none

def accepts (policy : EmptyOutputPolicy) : Option Nat → Bool
  | none => false
  | some 0 => policy == .succeed
  | some (_ + 1) => true

def landed (queue : Queue) (hash : String) : Except QueueError TaskOutput → TaskRow → TaskRow
  | .error error => TaskRow.recordFailure hash error.message queue.retryAt
  | .ok output =>
      if output.chunks = 0 then
        match queue.settings.emptyOutput with
        | .succeed => TaskRow.complete queue.now hash output
        | .retry => TaskRow.recordFailure hash noOutput queue.retryAt
        | .fail => TaskRow.failTerminal hash noOutput
      else TaskRow.complete queue.now hash output

theorem landed_cases (queue : Queue) (hash : String) (result : Except QueueError TaskOutput)
    {row : TaskRow} {P : TaskRow → Prop} (complete : ∀ now output, P (row.complete now hash output))
    (recordFailure : ∀ error retryAt, P (row.recordFailure hash error retryAt))
    (failTerminal : ∀ error, P (row.failTerminal hash error)) :
    P (queue.landed hash result row) := by
  cases result with
  | error error => exact recordFailure _ _
  | ok output =>
      simp only [landed]
      split
      · cases queue.settings.emptyOutput with
        | succeed => exact complete _ output
        | retry => exact recordFailure _ _
        | fail => exact failTerminal _
      · exact complete _ output

theorem recordError_eq (queue : Queue) (task : Task) (error : String) (row : TaskRow)
    (found : queue.table.row? task.id = some row) :
    ∃ announced, queue.recordError task error =
      { queue with
        table := queue.table.change task.id (TaskRow.recordFailure task.hash error queue.retryAt)
        announced } := by
  simp only [recordError, TaskTable.recordFailure, found]
  split
  next table outcome same =>
    cases (Prod.mk.inj same).1
    cases outcome <;> exact ⟨_, rfl⟩
  next table failure same =>
    cases (Prod.mk.inj same).1
    exact ⟨_, rfl⟩

theorem recordEmpty_eq (queue : Queue) (task : Task) (error : String) (row : TaskRow)
    (found : queue.table.row? task.id = some row) :
    ∃ announced, queue.recordEmpty task error =
      { queue with
        table := queue.table.change task.id (TaskRow.failTerminal task.hash error)
        announced } := by
  simp only [recordEmpty, TaskTable.failTerminal, found]
  split <;> exact ⟨_, rfl⟩

theorem recordOutput_eq (queue : Queue) (task : Task) (output : TaskOutput) (row : TaskRow)
    (found : queue.table.row? task.id = some row) :
    ∃ announced, queue.recordOutput task output =
      { queue with
        table := queue.table.change task.id (TaskRow.complete queue.now task.hash output)
        announced } := by
  by_cases current : row.hash = task.hash <;>
    simp only [recordOutput, TaskTable.complete, found, current, beq_self_eq_true,
      beq_eq_false_iff_ne.mpr, ne_eq, not_false_eq_true] <;>
    exact ⟨_, rfl⟩

theorem record_eq (queue : Queue) (task : Task) (result : Except QueueError TaskOutput)
    (row : TaskRow) (found : queue.table.row? task.id = some row) :
    ∃ announced, queue.record task result =
      { queue with
        table := queue.table.change task.id (queue.landed task.hash result), announced } := by
  cases result with
  | error error => exact recordError_eq queue task error.message row found
  | ok output =>
      by_cases empty : output.chunks = 0
      · simp only [record, landed, empty, if_true]
        cases queue.settings.emptyOutput with
        | succeed => exact recordOutput_eq queue task output row found
        | retry => exact recordError_eq queue task noOutput row found
        | fail => exact recordEmpty_eq queue task noOutput row found
      · simp only [record, landed, empty, if_false]
        exact recordOutput_eq queue task output row found

end Queue

namespace TaskRow

structure SameTask (before after : TaskRow) : Prop where
  id : after.id = before.id
  path : after.path = before.path
  hash : after.hash = before.hash
  content : after.content = before.content
  maxRetries : after.maxRetries = before.maxRetries

theorem SameTask.refl (row : TaskRow) : row.SameTask row :=
  ⟨rfl, rfl, rfl, rfl, rfl⟩

theorem SameTask.trans {a b c : TaskRow} (first : a.SameTask b) (second : b.SameTask c) :
    a.SameTask c :=
  ⟨second.id.trans first.id, second.path.trans first.path, second.hash.trans first.hash,
    second.content.trans first.content, second.maxRetries.trans first.maxRetries⟩

theorem sameTask_complete (row : TaskRow) (now : Int) (hash : String) (output : TaskOutput) :
    row.SameTask (row.complete now hash output) :=
  ⟨rfl, rfl, rfl, rfl, rfl⟩

theorem sameTask_recordFailure (row : TaskRow) (hash error : String) (retryAt : Int) :
    row.SameTask (row.recordFailure hash error retryAt) := by
  unfold recordFailure
  split <;> exact ⟨rfl, rfl, rfl, rfl, rfl⟩

theorem sameTask_failTerminal (row : TaskRow) (hash error : String) :
    row.SameTask (row.failTerminal hash error) := by
  unfold failTerminal
  split <;> exact ⟨rfl, rfl, rfl, rfl, rfl⟩

theorem sameTask_landed (row : TaskRow) (queue : Queue) (hash : String)
    (result : Except QueueError TaskOutput) : row.SameTask (queue.landed hash result row) := by
  refine queue.landed_cases hash result (P := row.SameTask) ?_ ?_ ?_
  · exact fun now output => sameTask_complete row now hash output
  · exact sameTask_recordFailure row hash
  · exact sameTask_failTerminal row hash

theorem Sound.landed {row : TaskRow} (sound : row.Sound) (queue : Queue) (hash : String)
    (result : Except QueueError TaskOutput) : (queue.landed hash result row).Sound := by
  refine queue.landed_cases hash result (P := TaskRow.Sound) ?_ ?_ ?_
  · exact fun now output => sound.complete now hash output
  · exact sound.recordFailure hash
  · exact sound.failTerminal hash

def remaining (row : TaskRow) : Nat :=
  if row.hasStatus .pending || row.hasStatus .processing then
    (row.maxRetries - row.retryCount).toNat + 1
  else 0

inductive Landing (policy : EmptyOutputPolicy) (outcome : Option Nat)
    (before after : TaskRow) : Prop
  | completed (count : Nat) (found : outcome = some count)
      (accepted : Queue.accepts policy outcome = true)
      (status : after.status = TaskStatus.completed.name) (chunks : after.chunks = saturated count)
  | failed (refused : Queue.accepts policy outcome = false)
      (status : after.status = TaskStatus.failed.name)
  | again (refused : Queue.accepts policy outcome = false)
      (status : after.status = TaskStatus.pending.name)
      (left : before.retryCount < before.maxRetries)
      (counted : after.retryCount = before.retryCount + 1)

theorem landing_recordFailure (row : TaskRow) (error : String) (retryAt : Int)
    (policy : EmptyOutputPolicy) (outcome : Option Nat)
    (refused : Queue.accepts policy outcome = false) :
    Landing policy outcome row (row.recordFailure row.hash error retryAt) := by
  by_cases left : row.retryCount < row.maxRetries
  · exact .again refused (by simp [recordFailure, left]) left (by simp [recordFailure, left])
  · exact .failed refused (by simp [recordFailure, left])

theorem landing_landed (row : TaskRow) (queue : Queue) (result : Except QueueError TaskOutput) :
    Landing queue.settings.emptyOutput (Queue.outcome result) row
      (queue.landed row.hash result row) := by
  -- The row still has the hash that the worker was given, so no outcome requeues it.
  cases result with
  | error error => exact landing_recordFailure row _ _ _ none rfl
  | ok output =>
      by_cases empty : output.chunks = 0
      · simp only [Queue.landed, Queue.outcome, empty, if_true]
        cases policy : queue.settings.emptyOutput with
        | succeed => exact .completed 0 rfl rfl (by simp [complete]) (by simp [complete, empty])
        | retry => exact landing_recordFailure row _ _ _ _ rfl
        | fail => exact .failed rfl (by simp [failTerminal])
      · simp only [Queue.landed, Queue.outcome, empty, if_false]
        refine .completed output.chunks rfl ?_ (by simp [complete]) rfl
        obtain ⟨less, same⟩ := Nat.exists_eq_succ_of_ne_zero empty
        rw [same]
        rfl

theorem remaining_landing {policy : EmptyOutputPolicy} {outcome : Option Nat}
    {before after : TaskRow} (landing : Landing policy outcome before after)
    (same : before.SameTask after) (held : before.hasStatus .processing = true) :
    after.remaining < before.remaining := by
  have positive : before.remaining = (before.maxRetries - before.retryCount).toNat + 1 := by
    simp [remaining, held]
  rw [positive]
  -- A task that is done has no attempts left; one that waits again has used one up.
  cases landing with
  | completed count found accepted status chunks =>
      simp [remaining, hasStatus, status, TaskStatus.name]
  | failed refused status => simp [remaining, hasStatus, status, TaskStatus.name]
  | again refused status left counted =>
      have waits : after.remaining = (after.maxRetries - after.retryCount).toNat + 1 := by
        simp [remaining, hasStatus, status]
      rw [waits, same.maxRetries, counted]
      omega

end TaskRow

end CodeGraph
