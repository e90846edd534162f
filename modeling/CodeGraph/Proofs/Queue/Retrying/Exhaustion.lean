import CodeGraph.Proofs.Queue.Retrying.Tracking
import CodeGraph.Proofs.TaskTable.Requeue

/-!
A task that failed for good: nothing brings it back to the workers but a fresh start or other
content. With that, a task whose worker always fails is tried once and then as often as it may be
retried, and never again.
-/

set_option autoImplicit false

namespace CodeGraph

namespace TaskTable.Operation

def Revives (first : TaskRow) : Operation → Prop
  | .reset id _ => id = first.id
  | .retryFailed => True
  | .updateContent id task => id = first.id ∧ task.hash ≠ first.hash
  -- Reports on content that the task never had; a worker reports on what it was given.
  | .complete _ id hash _ | .recordFailure id hash _ _ | .failTerminal id hash _ =>
      id = first.id ∧ hash ≠ first.hash
  | _ => False

end TaskTable.Operation

namespace Retrying

variable {settings : QueueSettings} {queue : Queue} {limit : Nat} {now : Int} {first row : TaskRow}
  {failures : Nat} {held : Bool} {due : Int}

def Action.Revives (first : TaskRow) : Action → Prop
  | .claim _ _ | .finish _ _ _ => False
  | .enqueue task => task.path = first.path ∧ task.hash ≠ first.hash
  | .change operation => operation.Revives first

/-- A row that has used all its retries and does not wait. -/
structure Spent (first row : TaskRow) : Prop where
  path : row.path = first.path
  hash : row.hash = first.hash
  spent : row.maxRetries ≤ row.retryCount
  idle : row.waits = false

theorem Spent.closed (spent : Spent first row) (sound : row.Sound) : row.Closed := by
  obtain ⟨status, named⟩ := sound.status
  have is := TaskRow.hasStatus_iff_of_name named
  have idle := spent.idle
  rw [TaskRow.waits_eq_of_name named] at idle
  cases status with
  | pending => cases idle
  | processing => cases idle
  | completed => exact .inl ((is _).mpr rfl)
  | failed => exact .inr ⟨(is _).mpr rfl, spent.spent⟩

theorem Spent.hasStatus_eq (spent : Spent first row) :
    row.hasStatus .pending = false ∧ row.hasStatus .processing = false := by
  simpa [TaskRow.waits] using spent.idle

theorem Spent.not_mem_due {table : TaskTable} (sound : table.Sound) (member : row ∈ table.rows)
    (spent : Spent first row) (limit : Nat) (now : Int) : row.id ∉ table.due limit now := by
  intro listed
  obtain ⟨other, present, same, pending, -⟩ := TaskTable.exists_of_mem_due listed
  obtain rfl := sound.eq_of_id present member same
  cases pending.symm.trans spent.hasStatus_eq.1

theorem Spent.complete (spent : Spent first row) (now : Int) (output : TaskOutput) :
    Spent first (row.complete now first.hash output) where
  path := spent.path
  hash := spent.hash
  spent := spent.spent
  idle := by
    simp [TaskRow.complete, spent.hash, TaskRow.waits, TaskRow.hasStatus, TaskStatus.name]

theorem Spent.recordFailure (spent : Spent first row) (error : String) (retryAt : Int) :
    Spent first (row.recordFailure first.hash error retryAt) := by
  have none : ¬row.retryCount < row.maxRetries := Int.not_lt.mpr spent.spent
  have same := row.sameTask_recordFailure first.hash error retryAt
  refine ⟨same.path.trans spent.path, same.hash.trans spent.hash, ?_, ?_⟩
  · simp [TaskRow.recordFailure, spent.hash, none, spent.spent]
  · simp [TaskRow.recordFailure, spent.hash, none, TaskRow.waits, TaskRow.hasStatus,
      TaskStatus.name]

theorem Spent.failTerminal (spent : Spent first row) (error : String) :
    Spent first (row.failTerminal first.hash error) := by
  have same := row.sameTask_failTerminal first.hash error
  refine ⟨same.path.trans spent.path, same.hash.trans spent.hash, ?_, ?_⟩
  · simp [TaskRow.failTerminal, spent.hash, spent.spent]
  · simp [TaskRow.failTerminal, spent.hash, TaskRow.waits, TaskRow.hasStatus, TaskStatus.name]

theorem Spent.effect {table : TaskTable} (sound : table.Sound) (member : row ∈ table.rows)
    (same : row.id = first.id) (spent : Spent first row) {operation : TaskTable.Operation}
    (calm : ¬operation.Revives first) {after : TaskRow}
    (left : operation.effect table row = some after) : Spent first after := by
  -- An operation that reaches the task and does not revive it is about the content that it has.
  have current {id : Nat} {hash : String} (calm : ¬(id = first.id ∧ hash ≠ first.hash))
      (hit : row.id = id) : hash = first.hash :=
    Classical.not_not.mp fun differ => calm ⟨hit.symm.trans same, differ⟩
  cases operation with
  | insert task maxRetries => cases left; exact spent
  | reset id task =>
      have other : row.id ≠ id := fun hit => calm (hit.symm.trans same)
      simp only [TaskTable.Operation.effect, if_neg other] at left
      cases left
      exact spent
  | updateContent id task =>
      cases left
      split
      next hit => exact ⟨spent.path, current calm hit, spent.spent, spent.idle⟩
      next => exact spent
  | claim limit now =>
      have missed := spent.not_mem_due sound member limit now
      simp only [TaskTable.Operation.effect, if_neg missed] at left
      cases left
      exact spent
  | report id step percent =>
      cases left
      split
      · exact ⟨spent.path, spent.hash, spent.spent, spent.idle⟩
      · exact spent
  | complete now id hash output =>
      cases left
      split
      next hit => exact current calm hit ▸ spent.complete now output
      next => exact spent
  | recordFailure id hash error retryAt =>
      cases left
      split
      next hit => exact current calm hit ▸ spent.recordFailure error retryAt
      next => exact spent
  | failTerminal id hash error =>
      cases left
      split
      next hit => exact current calm hit ▸ spent.failTerminal error
      next => exact spent
  | retryFailed => exact absurd trivial calm
  | recover =>
      simp only [TaskTable.Operation.effect, spent.hasStatus_eq.2, Bool.false_eq_true,
        if_false] at left
      cases left
      exact spent
  | deleteStatus status =>
      simp only [TaskTable.Operation.effect] at left
      split at left <;> cases left
      exact spent
  | deleteAll => cases left
  | removePath path =>
      simp only [TaskTable.Operation.effect] at left
      split at left <;> cases left
      exact spent

structure Ended (settings : QueueSettings) (first : TaskRow) (queue : Queue) : Prop where
  reached : Reached settings queue
  known : first.id < queue.table.nextId
  rows : ∀ row ∈ queue.table.rows, row.id = first.id → Spent first row
  free : first.id ∉ queue.running.map Task.id

theorem Ended.not_mem_due (ended : Ended settings first queue) (limit : Nat) (now : Int) :
    first.id ∉ queue.table.due limit now := by
  intro listed
  obtain ⟨row, member, same, -⟩ := TaskTable.exists_of_mem_due listed
  rw [← same] at listed
  exact (ended.rows row member same).not_mem_due ended.reached.sound member limit now listed

theorem Ended.claim (ended : Ended settings first queue) (limit : Nat) (now : Int) :
    Ended settings first (step queue (.claim limit now)) := by
  have reached := ended.reached.claim limit now
  have missed := ended.not_mem_due limit now
  rw [step_claim ended.reached.sound] at reached ⊢
  refine ⟨reached, ended.known, ?_, ?_⟩
  · intro row member same
    obtain ⟨before, present, rfl⟩ := List.mem_map.mp member
    split at same
    next listed => exact absurd (same ▸ listed) missed
    next out =>
      rw [if_neg out]
      exact ended.rows before present same
  · rw [List.map_append, map_id_taken, List.mem_append]
    rintro (old | new)
    · exact ended.free old
    · exact missed new

theorem Ended.finish (ended : Ended settings first queue) {task : Task}
    (member : task ∈ queue.running) (now : Int) (result : Except QueueError TaskOutput) :
    Ended settings first ({ queue with now }.finish task result) := by
  have reached := ended.reached.finish member now result
  have differ : task.id ≠ first.id :=
    fun same => ended.free (List.mem_map.mpr ⟨task, member, same⟩)
  obtain ⟨announced, finished⟩ := Queue.finish_frame { queue with now } task result
  rw [finished] at reached ⊢
  refine ⟨reached, ended.known, ?_, ?_⟩
  · intro row inside same
    obtain ⟨before, present, rfl⟩ := Table.mem_update.mp inside
    split at same
    next hit =>
      have kept := (before.sameTask_landed { queue with now } task.hash result).id
      exact absurd (hit.symm.trans (kept.symm.trans same)) differ
    next out =>
      rw [if_neg out]
      exact ended.rows before present same
  · intro held
    obtain ⟨other, inside, same⟩ := List.mem_map.mp held
    exact ended.free (List.mem_map.mpr ⟨other, List.mem_of_mem_eraseP inside, same⟩)

theorem Ended.enqueue (limited : settings.maxRetries ≤ maxCount)
    (ended : Ended settings first queue) {task : NewTask}
    (calm : ¬(task.path = first.path ∧ task.hash ≠ first.hash)) :
    Ended settings first (step queue (.enqueue task)) := by
  have sound := ended.reached.sound
  obtain ⟨after, row, accepted, asked⟩ :=
    step_enqueue sound (ended.reached.unchanged ▸ limited) task
  rw [asked]
  refine ⟨ended.reached.table accepted.sound accepted.nextId,
    Nat.lt_of_lt_of_le ended.known accepted.nextId, ?_, ended.free⟩
  intro other member same
  by_cases here : other.path = task.path
  · -- This is the row that the request leaves, so it was there before and is left as it was.
    have found := accepted.sound.at?_eq_some.mpr ⟨member, here⟩
    obtain rfl := Option.some.inj (found.symm.trans accepted.found)
    have id := accepted.id
    cases before : queue.table.at? task.path with
    | none =>
        rw [before] at id
        exact absurd (same.symm.trans id) (Nat.ne_of_lt ended.known)
    | some old =>
        rw [before] at id
        obtain ⟨present, path⟩ := sound.at?_eq_some.mp before
        have spent := ended.rows old present (id.symm.trans same)
        have asks : task.path = first.path := path.symm.trans spent.path
        have hash : task.hash = first.hash :=
          Classical.not_not.mp fun differ => calm ⟨asks, differ⟩
        have closed := spent.closed (sound.rows old present)
        rw [accepted.kept old before (spent.hash.trans hash.symm) closed]
        exact spent
  · have kept := Table.mem_erase.mpr ⟨member, here⟩
    rw [accepted.others] at kept
    exact ended.rows other (Table.mem_erase.mp kept).1 same

theorem Ended.step (limited : settings.maxRetries ≤ maxCount) (ended : Ended settings first queue)
    {action : Action} (calm : ¬action.Revives first) :
    Ended settings first (step queue action) := by
  cases action with
  | claim limit now => exact ended.claim limit now
  | finish id now result =>
      rcases step_finish queue id now result with ⟨-, same⟩ | ⟨task, member, rfl, same⟩
      · rwa [same]
      · rw [same]
        exact ended.finish member now result
  | enqueue task => exact ended.enqueue limited calm
  | change operation =>
      refine ⟨ended.reached.step limited (.change operation),
        Nat.lt_of_lt_of_le ended.known (ended.reached.sound.nextId_apply operation), ?_, ended.free⟩
      intro row member same
      rcases ended.reached.sound.of_mem_apply member with ⟨before, present, left⟩ | fresh
      · have id := (TaskTable.effect_id left).symm.trans same
        exact (ended.rows before present id).effect ended.reached.sound present id calm left
      · exact absurd (same.symm.trans fresh) (Nat.ne_of_lt ended.known)

theorem Ended.perform (limited : settings.maxRetries ≤ maxCount)
    (ended : Ended settings first queue) {actions : List Action}
    (calm : ∀ action ∈ actions, ¬action.Revives first) :
    Ended settings first (perform queue actions) := by
  induction actions generalizing queue with
  | nil => exact ended
  | cons action rest ih =>
      exact ih (ended.step limited (calm action (List.mem_cons_self ..))) fun other member =>
        calm other (List.mem_cons_of_mem _ member)

theorem Tracked.ended (tracked : Tracked settings first failures held due queue)
    (beyond : first.maxRetries.toNat < failures) : Ended settings first queue := by
  obtain rfl := tracked.held_of_lt beyond
  obtain ⟨row, member, tried⟩ := tracked.row
  have sound := tracked.reached.sound
  refine ⟨tracked.reached, tried.same.id ▸ sound.fresh row member, ?_,
    List.count_eq_zero.mp tracked.holders⟩
  intro other present same
  obtain rfl := sound.eq_of_id present member (same.trans tried.same.id.symm)
  have failed := (status_eq_failed_iff first.maxRetries.toNat failures false).mpr ⟨rfl, beyond⟩
  have left := tried.lt_iff (sound.rows other member)
  refine ⟨tried.same.path, tried.same.hash, by omega, ?_⟩
  rw [TaskRow.waits_eq_of_name tried.status, failed]
  rfl

/-- The task of a row failed for good: it has used all its retries, and no claim at any time returns
it until something revives it. -/
structure Exhausted (first : TaskRow) (maxRetries : Nat) (queue : Queue) : Prop where
  row : ∃ row, queue.table.row? first.id = some row ∧ row.hasStatus .failed = true ∧
    row.retryCount = maxRetries
  unclaimed : ∀ later, (∀ action ∈ later, ¬Action.Revives first action) → ∀ limit now,
    first.id ∉ (perform queue later).table.claimed limit now

theorem Tracked.exhausted (limited : settings.maxRetries ≤ maxCount)
    (tracked : Tracked settings first failures held due queue)
    (beyond : first.maxRetries.toNat < failures) :
    Exhausted first first.maxRetries.toNat queue := by
  have ended := tracked.ended beyond
  obtain rfl := tracked.held_of_lt beyond
  obtain ⟨row, -, found, -, tried⟩ := tracked.found
  refine ⟨⟨row, found, ?_, ?_⟩, ?_⟩
  · exact (tried.hasStatus_iff _).mpr ((status_eq_failed_iff _ _ _).mpr ⟨rfl, beyond⟩)
  · rw [tried.retryCount, Nat.min_eq_right (Nat.le_of_lt beyond)]
  · intro later calm limit now
    have last := ended.perform limited calm
    -- Nothing in between made the row pending, and only pending rows are claimed.
    rw [last.reached.sound.claimed_eq]
    exact last.not_mem_due limit now

structure Counted (first : TaskRow) (maxRetries : Nat) (queue : Queue) : Prop where
  outcomes : queue.outcomes first.id <+: verdicts maxRetries
  /-- Each attempt has failed or is under way. -/
  calls : queue.calls first.id =
    (queue.outcomes first.id).length + (queue.running.map Task.id).count first.id
  few : queue.calls first.id ≤ maxRetries + 1
  last : queue.outcomes first.id = verdicts maxRetries → Exhausted first maxRetries queue

theorem Tracked.counted (limited : settings.maxRetries ≤ maxCount)
    (tracked : Tracked settings first failures held due queue) :
    Counted first first.maxRetries.toNat queue := by
  have bound := tracked.bound
  have length : ((verdicts first.maxRetries.toNat).take failures).length = failures := by
    rw [List.length_take, length_verdicts]
    omega
  refine ⟨?_, ?_, ?_, ?_⟩
  · rw [tracked.outcomes]
    exact List.take_prefix _ _
  · rw [tracked.calls, tracked.outcomes, tracked.holders, length]
  · rw [tracked.calls]
    exact bound
  · intro all
    have whole := congrArg List.length all
    rw [tracked.outcomes, length, length_verdicts] at whole
    exact tracked.exhausted limited (by omega)

theorem Tracked.held_of_mem (tracked : Tracked settings first failures held due queue)
    (inside : first.id ∈ queue.running.map Task.id) : held = true := by
  have positive := List.count_pos_iff.mpr inside
  rw [tracked.holders] at positive
  cases held with
  | true => rfl
  | false => cases positive

theorem Tracked.claimed_after (limited : settings.maxRetries ≤ maxCount)
    (tracked : Tracked settings first failures true due queue)
    {result : Except QueueError TaskOutput} (fails : Queue.Fails settings.emptyOutput result)
    {later : List Action} (spares : ∀ action ∈ later, action.Spares first) {time : Int}
    (claimed : first.id ∈ (perform queue (.finish first.id now result :: later)).table.claimed
      limit time) :
    min (now + settings.retryDelay) maxInteger ≤ time := by
  obtain ⟨held, -, last⟩ := (tracked.fail limited now fails).spareAll limited spares
  have reached : perform queue (.finish first.id now result :: later) =
      perform (step queue (.finish first.id now result)) later := rfl
  rw [reached, last.reached.sound.claimed_eq] at claimed
  exact (last.mem_due claimed).2.2

theorem Tracked.ends_empty (tracked : Tracked settings first failures true due queue)
    (policy : settings.emptyOutput = .fail) (now : Int) {output : TaskOutput}
    (empty : output.chunks = 0) :
    ∃ before after, queue.table.row? first.id = some before ∧
      (step queue (.finish first.id now (.ok output))).table.row? first.id = some after ∧
      after.hasStatus .failed = true ∧ after.retryCount = before.retryCount ∧
      (step queue (.finish first.id now (.ok output))).outcomes first.id =
        queue.outcomes first.id ++ [.failed] := by
  have settled := tracked.settled_empty policy now empty
  obtain ⟨row, member, tried⟩ := tracked.row
  have found := tracked.reached.sound.row?_eq member
  have changed := TaskTable.row?_change found fun row =>
    (row.sameTask_failTerminal first.hash Queue.noOutput).id
  rw [tried.same.id] at found changed
  rw [← settled.table] at changed
  refine ⟨row, _, found, changed, ?_, ?_, settled.outcomes⟩ <;>
    simp [TaskRow.failTerminal, tried.same.hash, TaskRow.hasStatus]

def Inserted (settings : QueueSettings) (task : NewTask) (maxRetries : UInt32) (first : TaskRow)
    (start : Queue) : Prop :=
  ∃ earlier table,
    (run settings earlier).table.insert task maxRetries.toNat = .ok (table, first.id) ∧
    table.row? first.id = some first ∧ start = { run settings earlier with table }

theorem Inserted.tracked (limited : settings.maxRetries ≤ maxCount) {task : NewTask}
    {maxRetries : UInt32} {start : Queue}
    (inserted : Inserted settings task maxRetries first start) :
    Tracked settings first 0 false 0 start ∧ first.maxRetries = maxRetries.toNat := by
  obtain ⟨earlier, table, added, found, rfl⟩ := inserted
  have before := Reached.run limited earlier
  generalize Retrying.run settings earlier = queue at added before
  have bounded : maxRetries.toNat ≤ maxCount := Nat.le_of_lt_succ maxRetries.toNat_lt
  have sound := before.sound.insert bounded added
  have member := (Table.get?_some found).1
  unfold TaskTable.insert at added
  split at added
  · cases added
  · simp only [Except.ok.injEq, Prod.mk.injEq] at added
    obtain ⟨rfl, id⟩ := added
    -- Nothing was known about the new identifier.
    have unseen : queue.history first.id = [] := by
      simp only [Queue.history, Queue.events, List.filter_eq_nil_iff, List.mem_reverse, beq_iff_eq]
      intro event inside about
      exact Nat.lt_irrefl _ (id ▸ before.announced event inside _ about)
    have free : first.id ∉ queue.running.map Task.id := by
      intro held
      obtain ⟨worker, inside, same⟩ := List.mem_map.mp held
      exact Nat.ne_of_lt (before.running worker inside) (same.trans id.symm)
    have new : first = TaskTable.requestRow queue.table.nextId task maxRetries.toNat :=
      sound.eq_of_id member (List.mem_append_right _ (List.mem_singleton.mpr rfl)) id.symm
    have row : Tried first 0 false 0 first := by
      refine ⟨.refl first, ?_, ?_, ?_⟩ <;> rw [new] <;> simp [TaskTable.requestRow, Retrying.status]
    have reached := before.table sound (Nat.le_succ _)
    refine ⟨⟨reached, Nat.zero_le _, ⟨first, member, row⟩, ?_, ?_, ?_, ?_⟩, ?_⟩
    · exact List.count_eq_zero.mpr free
    · intro worker inside same
      exact absurd (List.mem_map.mpr ⟨worker, inside, same⟩) free
    · exact congrArg (List.countP QueueEvent.isStart) unseen
    · exact congrArg (List.filterMap QueueEvent.outcome?) unseen
    · rw [new]
      rfl

/-- A task is inserted with a number of retries, keeps its content, and its worker fails each time.
Attempts one after the other come to that many retries, counted from one, and then to one failure:
the worker is called once more than the task may be retried, and the task is exhausted. Whatever
else goes on, nothing more is announced and the worker is called no more often. A claim returns the
task no earlier than the time that was noted at its last failure; and where finding nothing is
final, it ends the task at once and its retries stay as they were. -/
theorem retries_are_exact (limited : settings.maxRetries ≤ maxCount) {task : NewTask}
    {maxRetries : UInt32} {start : Queue}
    (inserted : Inserted settings task maxRetries first start) :
    (∀ rounds : List Round, (∀ round ∈ rounds, round.Fails settings.emptyOutput first) →
      (rounds.foldl (play first.id) start).outcomes first.id =
        (verdicts maxRetries.toNat).take rounds.length ∧
      (rounds.foldl (play first.id) start).calls first.id =
        min rounds.length (maxRetries.toNat + 1) ∧
      (maxRetries.toNat < rounds.length →
        Exhausted first maxRetries.toNat (rounds.foldl (play first.id) start))) ∧
    ∀ actions, (∀ action ∈ actions, Action.Permitted settings.emptyOutput first action) →
      Counted first maxRetries.toNat (perform start actions) ∧
      (first.id ∈ (perform start actions).running.map Task.id →
        (∀ now result later limit time, Queue.Fails settings.emptyOutput result →
          (∀ action ∈ later, Action.Spares first action) →
          first.id ∈ (perform (perform start actions)
            (.finish first.id now result :: later)).table.claimed limit time →
          min (now + settings.retryDelay) maxInteger ≤ time) ∧
        (settings.emptyOutput = .fail → ∀ now output, output.chunks = 0 →
          ∃ before after, (perform start actions).table.row? first.id = some before ∧
            (step (perform start actions) (.finish first.id now (.ok output))).table.row?
              first.id = some after ∧
            after.hasStatus .failed = true ∧ after.retryCount = before.retryCount ∧
            (step (perform start actions) (.finish first.id now (.ok output))).outcomes first.id =
              (perform start actions).outcomes first.id ++ [.failed])) := by
  obtain ⟨tracked, limit⟩ := inserted.tracked limited
  have same : maxRetries.toNat = first.maxRetries.toNat := by rw [limit, Int.toNat_natCast]
  rw [same]
  -- `Tracked` is the invariant of both parts: rounds played one by one, and any permitted actions.
  refine ⟨?_, ?_⟩
  · intro rounds fails
    obtain ⟨due, played⟩ := tracked.playAll limited fails
    rw [Nat.zero_add] at played
    refine ⟨?_, ?_, ?_⟩
    · rw [played.outcomes, ← length_verdicts, ← List.take_eq_take_min]
    · rw [played.calls, Bool.toNat_false, Nat.add_zero]
    · intro enough
      exact played.exhausted limited (by omega)
  · intro actions permitted
    obtain ⟨failures, held, due, reached⟩ := tracked.performAll limited permitted
    refine ⟨reached.counted limited, fun inside => ?_⟩
    obtain rfl := reached.held_of_mem inside
    refine ⟨?_, ?_⟩
    · intro now result later limit time fails spares claimed
      exact reached.claimed_after limited fails spares claimed
    · intro policy now output empty
      exact reached.ends_empty policy now empty

def shortDelay (policy : EmptyOutputPolicy) : QueueSettings :=
  { retryDelay := 5, emptyOutput := policy }

def busy : List Action :=
  [.enqueue ⟨"b.js", 1, "h", none⟩, .claim 1 0]

def onceMore : TaskRow :=
  TaskTable.requestRow 1 ⟨"a.js", 1, "h1", none⟩ 1

def begun (policy : EmptyOutputPolicy) : Queue :=
  let queue := run (shortDelay policy) busy
  { queue with table := { rows := queue.table.rows ++ [onceMore], nextId := 2 } }

theorem inserted_begun (policy : EmptyOutputPolicy) :
    Inserted (shortDelay policy) ⟨"a.js", 1, "h1", none⟩ 1 onceMore (begun policy) :=
  ⟨busy, _, rfl, rfl, rfl⟩

def bothFail : List Round :=
  [{ before := [.enqueue ⟨"a.js", 1, "h1", none⟩], finishedAt := 10
     result := .error (.taskFailed "boom") },
   { before := [.claim 5 14], wait := 3, during := [.finish 0 19 (.ok ⟨1, 0⟩)], finishedAt := 20
     result := .ok {} }]

theorem fails_bothFail : ∀ round ∈ bothFail, round.Fails .retry onceMore := by
  simp only [bothFail, List.mem_cons, List.not_mem_nil, or_false]
  rintro round (rfl | rfl)
  · exact ⟨by simp [Action.Spares, onceMore, TaskTable.requestRow], by simp, trivial⟩
  · exact ⟨by simp [Action.Spares], by simp [Action.Spares, onceMore, TaskTable.requestRow],
      rfl, rfl⟩

/-- With one retry there are two attempts. A claim at the very time of the second has it, and a
worker that finds nothing is not asked again if that is the policy. -/
theorem one_retry_then_failed :
    (bothFail.foldl (play 1) (begun .retry)).outcomes 1 = [.retrying 1, .failed] ∧
    (bothFail.foldl (play 1) (begun .retry)).calls 1 = 2 ∧
    Exhausted onceMore 1 (bothFail.foldl (play 1) (begun .retry)) ∧
    1 ∈ (perform (perform (begun .fail) [.claim 1 0])
      [.finish 1 10 (.error (.taskFailed "boom"))]).table.claimed 1 15 ∧
    min ((10 : Int) + 5) maxInteger ≤ 15 ∧
    ∃ before after, (perform (begun .fail) [.claim 1 0]).table.row? 1 = some before ∧
      (step (perform (begun .fail) [.claim 1 0]) (.finish 1 10 (.ok {}))).table.row? 1 =
        some after ∧
      after.hasStatus .failed = true ∧ after.retryCount = before.retryCount ∧
      (step (perform (begun .fail) [.claim 1 0]) (.finish 1 10 (.ok {}))).outcomes 1 =
        (perform (begun .fail) [.claim 1 0]).outcomes 1 ++ [.failed] := by
  obtain ⟨outcomes, calls, exhausted⟩ :=
    (retries_are_exact (by decide) (inserted_begun .retry)).1 bothFail fails_bothFail
  have permitted : ∀ action ∈ [Action.claim 1 0], action.Permitted .fail onceMore :=
    fun action member => .inl (List.mem_singleton.mp member ▸ trivial)
  obtain ⟨-, handed⟩ :=
    (retries_are_exact (by decide) (inserted_begun .fail)).2 [.claim 1 0] permitted
  obtain ⟨time, empty⟩ := handed (by decide)
  have claimed : 1 ∈ (perform (perform (begun .fail) [.claim 1 0])
      [.finish 1 10 (.error (.taskFailed "boom"))]).table.claimed 1 15 := by decide
  exact ⟨outcomes, calls, exhausted (by decide), claimed,
    time 10 (.error (.taskFailed "boom")) [] 1 15 trivial (by simp) claimed, empty rfl 10 {} rfl⟩

end Retrying

end CodeGraph
