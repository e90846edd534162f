import CodeGraph.Proofs.Queue.Retrying.Actions
import CodeGraph.Proofs.Queue.Session

/-!
A task whose attempts all fail, followed through a queue in use. `Tracked` says how many attempts
have failed and whether a worker has the task; from these two follow its row, its holders and what
was announced about it. A claim may hand the task over, a failed attempt counts one more, and all
else that leaves the task alone changes nothing about it.
-/

set_option autoImplicit false

namespace CodeGraph

namespace TaskTable.Operation

/-- An operation on other tasks than the one of a row, or one that only says how far it is. -/
def Spares (first : TaskRow) : Operation → Prop
  | .insert _ _ | .report _ _ _ => True
  | .reset id _ | .updateContent id _ | .complete _ id _ _ | .recordFailure id _ _ _
  | .failTerminal id _ _ => id ≠ first.id
  | .deleteStatus status => status = .completed
  | .removePath path => path ≠ first.path
  -- These take the task away from its workers, or give it to a second one.
  | .claim _ _ | .retryFailed | .recover | .deleteAll => False

end TaskTable.Operation

namespace Retrying

variable {settings : QueueSettings} {queue : Queue} {limit : Nat} {now : Int}

def verdicts (maxRetries : Nat) : List FailureOutcome :=
  (List.range maxRetries).map (fun count => .retrying (count + 1)) ++ [.failed]

theorem take_verdicts_succ {maxRetries count : Nat} (inside : count ≤ maxRetries) :
    (verdicts maxRetries).take (count + 1) = (verdicts maxRetries).take count ++
      [if count < maxRetries then .retrying (count + 1) else .failed] := by
  rw [List.take_add_one]
  by_cases left : count < maxRetries
  · rw [verdicts, List.getElem?_append_left (by simpa using left)]
    simp [left]
  · have last : count = maxRetries := by omega
    simp [verdicts, last]

theorem length_verdicts (maxRetries : Nat) : (verdicts maxRetries).length = maxRetries + 1 := by
  simp [verdicts]

def status (maxRetries failures : Nat) (held : Bool) : TaskStatus :=
  if held then .processing else if failures ≤ maxRetries then .pending else .failed

theorem status_eq_pending_iff (maxRetries failures : Nat) (held : Bool) :
    status maxRetries failures held = .pending ↔ held = false ∧ failures ≤ maxRetries := by
  cases held <;> simp [status]

theorem status_eq_failed_iff (maxRetries failures : Nat) (held : Bool) :
    status maxRetries failures held = .failed ↔ held = false ∧ maxRetries < failures := by
  cases held <;> simp [status]

theorem status_ne_completed (maxRetries failures : Nat) (held : Bool) :
    status maxRetries failures held ≠ .completed := by
  unfold status
  split
  · decide
  · split <;> decide

structure Tried (first : TaskRow) (failures : Nat) (held : Bool) (due : Int) (row : TaskRow) :
    Prop where
  same : first.SameTask row
  status : row.status = (status first.maxRetries.toNat failures held).name
  retryCount : row.retryCount = (min failures first.maxRetries.toNat : Nat)
  availableAt : row.availableAt = due

variable {first row : TaskRow} {failures : Nat} {held : Bool} {due : Int}

theorem Tried.hasStatus_iff (tried : Tried first failures held due row) (other : TaskStatus) :
    row.hasStatus other = true ↔ Retrying.status first.maxRetries.toNat failures held = other :=
  TaskRow.hasStatus_iff_of_name tried.status other

theorem Tried.lt_iff (tried : Tried first failures held due row) (sound : row.Sound) :
    row.retryCount < row.maxRetries ↔ failures < first.maxRetries.toNat := by
  have counts := sound.retryCount
  rw [tried.retryCount, tried.same.maxRetries] at counts ⊢
  omega

theorem Tried.atRest (tried : Tried first failures held due row) (sound : row.Sound) :
    row.AtRest := by
  intro failed
  rw [tried.hasStatus_iff, status_eq_failed_iff] at failed
  have left := tried.lt_iff sound
  omega

theorem Tried.effect (tried : Tried first failures held due row) (table : TaskTable)
    {operation : TaskTable.Operation} (spares : operation.Spares first) :
    ∃ after, operation.effect table row = some after ∧ Tried first failures held due after := by
  have elsewhere {id : Nat} (differ : id ≠ first.id) (changed : TaskRow) :
      some (if row.id = id then changed else row) = some row := by
    rw [if_neg fun same => differ (same.symm.trans tried.same.id)]
  cases operation with
  | insert task maxRetries => exact ⟨row, rfl, tried⟩
  | reset id task => exact ⟨row, elsewhere spares _, tried⟩
  | updateContent id task => exact ⟨row, elsewhere spares _, tried⟩
  | complete now id hash output => exact ⟨row, elsewhere spares _, tried⟩
  | recordFailure id hash error retryAt => exact ⟨row, elsewhere spares _, tried⟩
  | failTerminal id hash error => exact ⟨row, elsewhere spares _, tried⟩
  | report id step percent =>
      refine ⟨_, rfl, ?_⟩
      split
      · exact ⟨⟨tried.same.id, tried.same.path, tried.same.hash, tried.same.content,
          tried.same.maxRetries⟩, tried.status, tried.retryCount, tried.availableAt⟩
      · exact tried
  | deleteStatus status =>
      -- Only completed tasks are cleared, and this one never was.
      obtain rfl : status = .completed := spares
      have unfinished : row.hasStatus .completed = false := by
        rw [Bool.eq_false_iff, ne_eq, tried.hasStatus_iff]
        exact status_ne_completed _ _ _
      exact ⟨row, by simp [TaskTable.Operation.effect, unfinished], tried⟩
  | removePath path =>
      have apart : row.path ≠ path := fun same => spares (same.symm.trans tried.same.path)
      exact ⟨row, by simp [TaskTable.Operation.effect, apart], tried⟩
  | claim limit now => exact spares.elim
  | retryFailed => exact spares.elim
  | recover => exact spares.elim
  | deleteAll => exact spares.elim

def Action.Spares (first : TaskRow) : Action → Prop
  | .claim _ _ => True
  | .finish id _ _ => id ≠ first.id
  | .enqueue task => task.path = first.path → task.hash = first.hash
  | .change operation => operation.Spares first

structure Tracked (settings : QueueSettings) (first : TaskRow) (failures : Nat) (held : Bool)
    (due : Int) (queue : Queue) : Prop where
  reached : Reached settings queue
  bound : failures + held.toNat ≤ first.maxRetries.toNat + 1
  row : ∃ row ∈ queue.table.rows, Tried first failures held due row
  holders : (queue.running.map Task.id).count first.id = held.toNat
  content : ∀ task ∈ queue.running, task.id = first.id → task.hash = first.hash
  calls : queue.calls first.id = failures + held.toNat
  outcomes : queue.outcomes first.id = (verdicts first.maxRetries.toNat).take failures

theorem Tracked.found (tracked : Tracked settings first failures held due queue) :
    ∃ row ∈ queue.table.rows, queue.table.row? first.id = some row ∧ row.Sound ∧
      Tried first failures held due row := by
  obtain ⟨row, member, tried⟩ := tracked.row
  have found := tracked.reached.sound.row?_eq member
  rw [tried.same.id] at found
  exact ⟨row, member, found, tracked.reached.sound.rows row member, tried⟩

theorem Tracked.mem_due (tracked : Tracked settings first failures held due queue)
    (listed : first.id ∈ queue.table.due limit now) :
    held = false ∧ failures ≤ first.maxRetries.toNat ∧ due ≤ now := by
  obtain ⟨row, member, tried⟩ := tracked.row
  obtain ⟨other, present, same, pending, waited⟩ := TaskTable.exists_of_mem_due listed
  obtain rfl := tracked.reached.sound.eq_of_id present member (same.trans tried.same.id.symm)
  rw [tried.hasStatus_iff, status_eq_pending_iff] at pending
  rw [tried.availableAt] at waited
  exact ⟨pending.1, pending.2, waited⟩

theorem Tracked.table (tracked : Tracked settings first failures held due queue)
    {after : TaskTable} (reached : Reached settings { queue with table := after })
    (row : ∃ row ∈ after.rows, Tried first failures held due row) :
    Tracked settings first failures held due { queue with table := after } :=
  { tracked with reached, row }

theorem Tried.started (tried : Tried first failures false due row) (now : Int) :
    Tried first failures true due (row.started now) where
  same := ⟨tried.same.id, tried.same.path, tried.same.hash, tried.same.content,
    tried.same.maxRetries⟩
  status := rfl
  retryCount := tried.retryCount
  availableAt := tried.availableAt

theorem Tracked.claim (tracked : Tracked settings first failures held due queue) (limit : Nat)
    (now : Int) :
    Tracked settings first failures (held || decide (first.id ∈ queue.table.due limit now)) due
      (step queue (.claim limit now)) := by
  have sound := tracked.reached.sound
  obtain ⟨row, member, tried⟩ := tracked.row
  have hands : ((queue.running ++ taken queue.table limit now).map Task.id).count first.id =
      held.toNat + (queue.table.due limit now).count first.id := by
    rw [List.map_append, List.count_append, map_id_taken, tracked.holders]
  have once := (sound.due_nodup limit now).count (a := first.id)
  have calls := calls_step_claim sound limit now first.id
  have outcomes := outcomes_step_claim sound limit now first.id
  have reached := tracked.reached.claim limit now
  rw [tracked.calls] at calls
  rw [tracked.outcomes] at outcomes
  rw [step_claim sound] at calls outcomes reached ⊢
  -- The row of a task that a claim hands over has the content that the task was inserted with.
  have content : ∀ task ∈ queue.running ++ taken queue.table limit now, task.id = first.id →
      task.hash = first.hash := by
    intro task inside same
    rcases List.mem_append.mp inside with old | new
    · exact tracked.content task old same
    · obtain ⟨other, listed, rfl⟩ := List.mem_map.mp new
      have whole : other.id = row.id := same.trans tried.same.id.symm
      obtain rfl := sound.eq_of_id (TaskTable.mem_dueRows listed).1 member whole
      exact tried.same.hash
  by_cases listed : first.id ∈ queue.table.due limit now
  · -- A task that is due waits, so that this worker is the only one to have it.
    obtain ⟨rfl, left, -⟩ := tracked.mem_due listed
    simp only [listed, if_true, decide_true, Bool.or_true] at once ⊢
    rw [once] at hands calls
    refine ⟨reached, by simpa using left, ⟨row.started now, ?_, tried.started now⟩, hands, content,
      calls, outcomes⟩
    exact List.mem_map.mpr ⟨row, member, by rw [tried.same.id, if_pos listed]⟩
  · simp only [listed, if_false, decide_false, Bool.or_false] at once ⊢
    rw [once] at hands calls
    refine ⟨reached, tracked.bound, ⟨row, ?_, tried⟩, hands, content, calls, outcomes⟩
    exact List.mem_map.mpr ⟨row, member, by rw [tried.same.id, if_neg listed]⟩

theorem Tracked.claim_due (tracked : Tracked settings first failures held due queue)
    (left : failures ≤ first.maxRetries.toNat) (waited : due ≤ now)
    (enough : queue.table.rows.length ≤ limit) :
    Tracked settings first failures true due (step queue (.claim limit now)) := by
  have claimed := tracked.claim limit now
  cases held with
  | true => exact claimed
  | false =>
      obtain ⟨row, member, tried⟩ := tracked.row
      have pending : row.hasStatus .pending = true :=
        (tried.hasStatus_iff _).mpr ((status_eq_pending_iff _ _ _).mpr ⟨rfl, left⟩)
      have listed := TaskTable.mem_due_of_le member pending (tried.availableAt ▸ waited) enough
      rw [tried.same.id] at listed
      simpa [listed] using claimed

theorem count_eraseP (tasks : List Task) {id other : Nat} (differ : other ≠ id) :
    ((tasks.eraseP (fun held => held.id == other)).map Task.id).count id =
      (tasks.map Task.id).count id := by
  rw [Queue.Session.map_id_eraseP, List.count_erase_of_ne (Ne.symm differ)]

theorem Tracked.finish_other (tracked : Tracked settings first failures held due queue)
    {task : Task} (member : task ∈ queue.running) (differ : task.id ≠ first.id) (now : Int)
    (result : Except QueueError TaskOutput) :
    Tracked settings first failures held due ({ queue with now }.finish task result) := by
  have reached := tracked.reached.finish member now result
  have history := (Queue.announces_finish { queue with now } task result).history_eq differ
  have calls := congrArg (List.countP QueueEvent.isStart) history
  have outcomes := congrArg (List.filterMap QueueEvent.outcome?) history
  obtain ⟨announced, finished⟩ := Queue.finish_frame { queue with now } task result
  obtain ⟨row, present, tried⟩ := tracked.row
  rw [finished] at reached calls outcomes ⊢
  refine ⟨reached, tracked.bound, ⟨row, ?_, tried⟩, ?_, ?_, calls.trans tracked.calls,
    outcomes.trans tracked.outcomes⟩
  · have untouched : row.id ≠ task.id := fun same => differ (same.symm.trans tried.same.id)
    exact Table.mem_update.mpr ⟨row, present, by rw [if_neg untouched]⟩
  · exact (count_eraseP queue.running differ).trans tracked.holders
  · intro other inside same
    exact tracked.content other (List.mem_of_mem_eraseP inside) same

theorem Tracked.enqueue (limited : settings.maxRetries ≤ maxCount)
    (tracked : Tracked settings first failures held due queue) {task : NewTask}
    (again : task.path = first.path → task.hash = first.hash) :
    Tracked settings first failures held due (step queue (.enqueue task)) := by
  have sound := tracked.reached.sound
  obtain ⟨row, member, tried⟩ := tracked.row
  by_cases same : task.path = first.path
  · -- The row has the content already and is at rest, so the request changes nothing.
    have found := sound.at?_eq_some.mpr ⟨member, tried.same.path.trans same.symm⟩
    have hash := tried.same.hash.trans (again same).symm
    have rest := tried.atRest (sound.rows row member)
    rw [step, Queue.enqueue_at_rest sound found hash rest]
    exact tracked
  · obtain ⟨after, other, accepted, asked⟩ :=
      step_enqueue sound (tracked.reached.unchanged ▸ limited) task
    rw [asked]
    refine tracked.table (tracked.reached.table accepted.sound accepted.nextId) ⟨row, ?_, tried⟩
    have kept : row ∈ Table.erase TaskRow.path task.path queue.table.rows :=
      Table.mem_erase.mpr ⟨member, fun path => same (path.symm.trans tried.same.path)⟩
    rw [← accepted.others] at kept
    exact (Table.mem_erase.mp kept).1

theorem Tracked.spare (limited : settings.maxRetries ≤ maxCount)
    (tracked : Tracked settings first failures held due queue) {action : Action}
    (spares : action.Spares first) :
    ∃ held', (held = true → held' = true) ∧
      Tracked settings first failures held' due (step queue action) := by
  cases action with
  | claim limit now => exact ⟨_, by simp +contextual, tracked.claim limit now⟩
  | finish id now result =>
      refine ⟨held, fun still => still, ?_⟩
      rcases step_finish queue id now result with ⟨-, same⟩ | ⟨task, member, rfl, same⟩
      · rwa [same]
      · rw [same]
        exact tracked.finish_other member spares now result
  | enqueue task => exact ⟨held, fun still => still, tracked.enqueue limited spares⟩
  | change operation =>
      obtain ⟨row, member, tried⟩ := tracked.row
      obtain ⟨after, left, kept⟩ := tried.effect queue.table spares
      refine ⟨held, fun still => still, tracked.table ?_ ⟨after, ?_, kept⟩⟩
      · exact tracked.reached.step limited (.change operation)
      · exact tracked.reached.sound.mem_apply member left

theorem Tracked.spareAll (limited : settings.maxRetries ≤ maxCount)
    (tracked : Tracked settings first failures held due queue) {actions : List Action}
    (spares : ∀ action ∈ actions, action.Spares first) :
    ∃ held', (held = true → held' = true) ∧
      Tracked settings first failures held' due (perform queue actions) := by
  induction actions generalizing queue held with
  | nil => exact ⟨held, fun still => still, tracked⟩
  | cons action rest ih =>
      obtain ⟨next, still, step⟩ := tracked.spare limited (spares action (List.mem_cons_self ..))
      obtain ⟨last, stays, all⟩ := ih step fun other member =>
        spares other (List.mem_cons_of_mem _ member)
      exact ⟨last, fun held => stays (still held), all⟩

structure Settled (first : TaskRow) (change : TaskRow → TaskRow) (outcome : FailureOutcome)
    (before after : Queue) : Prop where
  table : after.table = before.table.change first.id change
  running : after.running = before.running.eraseP (fun held => held.id == first.id)
  calls : after.calls first.id = before.calls first.id
  outcomes : after.outcomes first.id = before.outcomes first.id ++ [outcome]

theorem Tracked.settled (tracked : Tracked settings first failures true due queue) (now : Int)
    {result : Except QueueError TaskOutput} {change : TaskRow → TaskRow} (error : String)
    {outcome : FailureOutcome} (noted : outcome ≠ .requeued)
    (recorded : ∀ task : Task, task.id = first.id → task.hash = first.hash →
      { queue with now }.record task result =
        { queue with now, table := queue.table.change task.id change }.announceFailure task error
          outcome) :
    Settled first change outcome queue (step queue (.finish first.id now result)) := by
  rcases step_finish queue first.id now result with ⟨free, -⟩ | ⟨task, member, same, finished⟩
  · have holders := tracked.holders
    rw [List.count_eq_zero.mpr free] at holders
    cases holders
  · -- The worker was given the content that the row still has, so its report is announced.
    have calls := Queue.calls_announceFailure
      { queue with now, table := queue.table.change task.id change } task error outcome
    have outcomes := Queue.outcomes_announceFailure
      { queue with now, table := queue.table.change task.id change } task error noted
    rw [finished, Queue.finish, recorded task same (tracked.content task member same)]
    rw [same] at calls outcomes ⊢
    exact ⟨by simp, by simp, calls, outcomes⟩

theorem Settled.holders {change : TaskRow → TaskRow} {outcome : FailureOutcome} {after : Queue}
    (settled : Settled first change outcome queue after)
    (tracked : Tracked settings first failures true due queue) :
    (after.running.map Task.id).count first.id = 0 := by
  rw [settled.running, Queue.Session.map_id_eraseP, List.count_erase_self, tracked.holders]
  rfl

theorem Tried.verdict_eq (tried : Tried first failures held due row) (sound : row.Sound) :
    row.verdict = if failures < first.maxRetries.toNat then .retrying (failures + 1)
      else .failed := by
  simp only [TaskRow.verdict, tried.lt_iff sound]
  split
  next left =>
    rw [tried.retryCount]
    congr 1
    omega
  next => rfl

theorem Tried.failed (tried : Tried first failures true due row) (sound : row.Sound)
    (left : failures ≤ first.maxRetries.toNat) (error : String) (retryAt : Int) :
    Tried first (failures + 1) false retryAt (row.recordFailure first.hash error retryAt) := by
  have same := tried.same.trans (row.sameTask_recordFailure first.hash error retryAt)
  have current : (row.hash != first.hash) = false := by simp [tried.same.hash]
  refine ⟨same, ?_, ?_, ?_⟩
  · simp only [TaskRow.recordFailure, current, Bool.false_eq_true, if_false, tried.lt_iff sound,
      Retrying.status, decide_eq_true_eq]
    rfl
  · have again := tried.lt_iff sound
    rw [tried.retryCount] at again
    simp only [TaskRow.recordFailure, current, Bool.false_eq_true, if_false, tried.retryCount,
      again, decide_eq_true_eq]
    split <;> omega
  · simp only [TaskRow.recordFailure, current, Bool.false_eq_true, if_false]

theorem Tracked.fail (limited : settings.maxRetries ≤ maxCount)
    (tracked : Tracked settings first failures true due queue) (now : Int)
    {result : Except QueueError TaskOutput} (fails : Queue.Fails settings.emptyOutput result) :
    Tracked settings first (failures + 1) false (min (now + settings.retryDelay) maxInteger)
      (step queue (.finish first.id now result)) := by
  obtain ⟨row, member, found, sound, tried⟩ := tracked.found
  have left : failures ≤ first.maxRetries.toNat := Nat.le_of_succ_le_succ tracked.bound
  have policy : Queue.Fails ({ queue with now } : Queue).settings.emptyOutput result := by
    rwa [tracked.reached.unchanged]
  have retryAt : ({ queue with now } : Queue).retryAt =
      min (now + settings.retryDelay) maxInteger := by
    simp only [Queue.retryAt, tracked.reached.unchanged]
  obtain ⟨error, recorded⟩ := Queue.record_of_fails policy
  -- The content is still the one that the worker had, so the failure counts.
  have settled : Settled first
      (TaskRow.recordFailure first.hash error (min (now + settings.retryDelay) maxInteger))
      row.verdict queue (step queue (.finish first.id now result)) := by
    refine tracked.settled now error row.verdict_ne ?_
    intro task same hash
    have current := tried.same.hash.trans hash.symm
    have written := @Queue.recordError_current { queue with now } task row (same ▸ found) sound
      current error
    rw [hash, retryAt] at written
    rw [recorded task]
    exact written
  refine ⟨tracked.reached.step limited _, Nat.succ_le_succ left, ?_, settled.holders tracked, ?_,
    settled.calls.trans tracked.calls, ?_⟩
  · refine ⟨_, ?_, tried.failed sound left error _⟩
    rw [settled.table]
    exact Table.mem_update.mpr ⟨row, member, by rw [if_pos tried.same.id]⟩
  · intro task inside same
    rw [settled.running] at inside
    exact tracked.content task (List.mem_of_mem_eraseP inside) same
  · rw [settled.outcomes, tracked.outcomes, tried.verdict_eq sound, take_verdicts_succ left]

/-- The worker finds nothing, and that ends the task whatever retries it has left. -/
theorem Tracked.settled_empty (tracked : Tracked settings first failures true due queue)
    (policy : settings.emptyOutput = .fail) (now : Int) {output : TaskOutput}
    (empty : output.chunks = 0) :
    Settled first (TaskRow.failTerminal first.hash Queue.noOutput) .failed queue
      (step queue (.finish first.id now (.ok output))) := by
  obtain ⟨row, -, found, -, tried⟩ := tracked.found
  have ends : ({ queue with now } : Queue).settings.emptyOutput = .fail := by
    rwa [tracked.reached.unchanged]
  refine tracked.settled now Queue.noOutput (by decide) ?_
  intro task same hash
  have current := tried.same.hash.trans hash.symm
  have written := @Queue.recordEmpty_current { queue with now } task row (same ▸ found) current
    Queue.noOutput
  rw [hash] at written
  rw [Queue.record_of_empty ends empty]
  exact written

structure Round where
  before : List Action := []
  wait : Nat := 0
  spare : Nat := 0
  during : List Action := []
  finishedAt : Int
  result : Except QueueError TaskOutput

def dueAt (queue : Queue) (id : Nat) : Int :=
  ((queue.table.row? id).map TaskRow.availableAt).getD 0

def play (id : Nat) (queue : Queue) (round : Round) : Queue :=
  let waiting := perform queue round.before
  let handed := step waiting
    (.claim (waiting.table.rows.length + round.spare) (dueAt waiting id + round.wait))
  step (perform handed round.during) (.finish id round.finishedAt round.result)

structure Round.Fails (policy : EmptyOutputPolicy) (first : TaskRow) (round : Round) : Prop where
  before : ∀ action ∈ round.before, action.Spares first
  during : ∀ action ∈ round.during, action.Spares first
  result : Queue.Fails policy round.result

theorem Tracked.dueAt_eq (tracked : Tracked settings first failures held due queue) :
    dueAt queue first.id = due := by
  obtain ⟨row, -, found, -, tried⟩ := tracked.found
  rw [dueAt, found]
  exact tried.availableAt

theorem Tracked.held_of_lt (tracked : Tracked settings first failures held due queue)
    (beyond : first.maxRetries.toNat < failures) : held = false := by
  have bound := tracked.bound
  cases held with
  | false => rfl
  | true =>
      rw [Bool.toNat_true] at bound
      omega

theorem Tracked.finish_free (tracked : Tracked settings first failures false due queue) (now : Int)
    (result : Except QueueError TaskOutput) :
    step queue (.finish first.id now result) = queue := by
  rcases step_finish queue first.id now result with ⟨-, same⟩ | ⟨task, member, same, -⟩
  · exact same
  · have none := List.count_eq_zero.mp tracked.holders
    exact absurd (List.mem_map.mpr ⟨task, member, same⟩) none

theorem Tracked.play (limited : settings.maxRetries ≤ maxCount)
    (tracked : Tracked settings first failures false due queue) {round : Round}
    (fails : round.Fails settings.emptyOutput first) :
    ∃ due', Tracked settings first (min (failures + 1) (first.maxRetries.toNat + 1)) false due'
      (play first.id queue round) := by
  -- The task may be with a worker before its own claim comes; the claim then leaves it there.
  obtain ⟨early, -, waiting⟩ := tracked.spareAll limited fails.before
  have bound := tracked.bound
  by_cases left : failures ≤ first.maxRetries.toNat
  · have waited : due ≤ dueAt (perform queue round.before) first.id + round.wait := by
      rw [waiting.dueAt_eq]
      omega
    have claimed := waiting.claim_due left waited (Nat.le_add_right _ round.spare)
    obtain ⟨held, still, working⟩ := claimed.spareAll limited fails.during
    obtain rfl := still rfl
    have failed := working.fail limited round.finishedAt fails.result
    rw [Nat.min_eq_left (by omega)]
    exact ⟨_, failed⟩
  · -- All attempts are used up, so that nothing is claimed and nobody is there to finish.
    have claimed := waiting.claim
      ((perform queue round.before).table.rows.length + round.spare)
      (dueAt (perform queue round.before) first.id + round.wait)
    obtain ⟨held, -, idle⟩ := claimed.spareAll limited fails.during
    obtain rfl := idle.held_of_lt (Nat.lt_of_not_le left)
    have all : min (failures + 1) (first.maxRetries.toNat + 1) = failures := by
      rw [Bool.toNat_false] at bound
      omega
    refine ⟨due, ?_⟩
    rw [all, Retrying.play, idle.finish_free]
    exact idle

theorem Tracked.playAll (limited : settings.maxRetries ≤ maxCount)
    (tracked : Tracked settings first failures false due queue) {rounds : List Round}
    (fails : ∀ round ∈ rounds, round.Fails settings.emptyOutput first) :
    ∃ due', Tracked settings first
      (min (failures + rounds.length) (first.maxRetries.toNat + 1)) false due'
      (rounds.foldl (Retrying.play first.id) queue) := by
  -- Rounds beyond the last attempt count no more, hence the minimum in the statement.
  induction rounds generalizing queue failures due with
  | nil =>
      have bound := tracked.bound
      rw [Bool.toNat_false] at bound
      rw [Nat.min_eq_left (by simpa using bound)]
      exact ⟨due, tracked⟩
  | cons round rest ih =>
      obtain ⟨time, played⟩ := tracked.play limited (fails round (List.mem_cons_self ..))
      obtain ⟨last, all⟩ := ih played fun other member =>
        fails other (List.mem_cons_of_mem _ member)
      have count : min (min (failures + 1) (first.maxRetries.toNat + 1) + rest.length)
          (first.maxRetries.toNat + 1) =
          min (failures + (round :: rest).length) (first.maxRetries.toNat + 1) := by
        rw [List.length_cons]
        omega
      rw [count] at all
      exact ⟨last, all⟩

def Action.Permitted (policy : EmptyOutputPolicy) (first : TaskRow) (action : Action) : Prop :=
  action.Spares first ∨ ∃ now result, action = .finish first.id now result ∧
    Queue.Fails policy result

theorem Tracked.performAll (limited : settings.maxRetries ≤ maxCount)
    (tracked : Tracked settings first failures held due queue) {actions : List Action}
    (permitted : ∀ action ∈ actions, action.Permitted settings.emptyOutput first) :
    ∃ failures' held' due',
      Tracked settings first failures' held' due' (perform queue actions) := by
  induction actions generalizing queue failures held due with
  | nil => exact ⟨failures, held, due, tracked⟩
  | cons action rest ih =>
      have later : ∀ other ∈ rest, other.Permitted settings.emptyOutput first :=
        fun other member => permitted other (List.mem_cons_of_mem _ member)
      rcases permitted action (List.mem_cons_self ..) with spares | ⟨now, result, rfl, fails⟩
      · obtain ⟨next, -, spared⟩ := tracked.spare limited spares
        exact ih spared later
      · cases held with
        | true => exact ih (tracked.fail limited now fails) later
        | false =>
            -- Nobody has the task, so there is nothing to finish.
            rw [← tracked.finish_free now result] at tracked
            exact ih tracked later

end Retrying

end CodeGraph
