import CodeGraph.Proofs.Queue.Session
import CodeGraph.Workspace
import Mathlib.Algebra.GroupWithZero.Nat
import Mathlib.Algebra.Order.BigOperators.Group.List
import Mathlib.Algebra.Order.Group.Nat

/-!
A queue comes to rest, whatever its worker makes of the tasks. Every task that a worker gives back
has one attempt less, so a run needs at most two rounds for each attempt: one that waits until a
task is due, and one that finishes it.

When the queue is at rest, every task that waited has been given to the worker and has ended as one
of its attempts has it; the other tasks are as they were.
-/

set_option autoImplicit false

namespace CodeGraph.Queue.Session

variable {σ : Type} {worker : Worker σ} {initial session : Session σ} {log : Log}

def remaining (session : Session σ) : Nat :=
  (session.queue.table.rows.map TaskRow.remaining).sum

theorem Noted.remaining {before after : TaskRow} (noted : Noted before after) :
    after.remaining = before.remaining := by
  have status (status : TaskStatus) : after.hasStatus status = before.hasStatus status := by
    simp only [TaskRow.hasStatus, noted.status]
  unfold TaskRow.remaining
  rw [status, status, noted.retryCount, noted.same.maxRetries]

theorem remaining_reported {queue : Queue} (reported : Reported session.queue queue) :
    ({ session with queue } : Session σ).remaining = session.remaining := by
  obtain ⟨note, rows, noted⟩ := reported.rows
  simp only [Session.remaining, rows, List.map_map]
  congr 1
  apply List.map_congr_left
  intro row _
  exact (noted row).remaining

theorem remaining_start (reports : Reports worker) (session : Session σ)
    (task : Task) : (session.start worker task).remaining = session.remaining :=
  remaining_reported (reported_start reports session task)

theorem remaining_startAll (reports : Reports worker) (tasks : List Task)
    (session : Session σ) :
    (tasks.foldl (Session.start worker) session).remaining = session.remaining := by
  induction tasks generalizing session with
  | nil => rfl
  | cons task others ih => exact (ih _).trans (remaining_start reports session task)

theorem flights_startAll (tasks : List Task) (session : Session σ) :
    (tasks.foldl (Session.start worker) session).flights.length =
      session.flights.length + tasks.length := by
  induction tasks generalizing session with
  | nil => rfl
  | cons task others ih =>
      rw [List.foldl_cons, ih]
      simp only [Session.start, List.length_append, List.length_cons, List.length_nil]
      omega

theorem sum_remaining_startAll {table : TaskTable} (sound : table.Sound) (limit : Nat) (now : Int) :
    ((table.startAll now (table.due limit now)).rows.map TaskRow.remaining).sum =
      (table.rows.map TaskRow.remaining).sum := by
  simp only [TaskTable.startAll, List.map_map]
  congr 1
  apply List.map_congr_left
  intro row member
  simp only [Function.comp_apply]
  split
  next listed =>
    have pending := TaskTable.pending_of_mem_dueRows (sound.mem_dueRows_of_mem_due member listed)
    have processing : (row.started now).hasStatus .processing = true := by
      simp [TaskRow.started, TaskRow.hasStatus]
    simp only [TaskRow.remaining, processing, pending, Bool.or_true, Bool.true_or, if_true]
    rfl
  next => rfl

theorem remaining_pull (inv : Running worker initial [] log session) :
    ({ session with queue := session.queue.pull.1 } : Session σ).remaining = session.remaining := by
  unfold Queue.pull
  split
  · rfl
  · rw [inv.sound.claim_eq]
    have kept := sum_remaining_startAll inv.sound
      (session.queue.cap - session.queue.running.length) session.queue.now
    cases (session.queue.table.dueRows
        (session.queue.cap - session.queue.running.length) session.queue.now).map
        (fun row => (row.started session.queue.now).asTask .processing) with
    | nil =>
        dsimp only
        split
        · unfold Queue.drained
          split <;> exact kept
        · exact kept
    | cons first others => exact kept

theorem remaining_land (inv : Running worker initial [] log session) {flight : Flight}
    {others : List Flight} (found : first? session.flights = some (flight, others)) :
    (session.land flight others).remaining < session.remaining := by
  obtain ⟨row, step, landed⟩ := inv.landed found
  obtain ⟨announced, result⟩ := landed.result
  have less : (step row).remaining < row.remaining :=
    TaskRow.remaining_landing landed.landing (landed.same row) landed.held
  rw [result]
  simp only [Session.remaining, TaskTable.change, Table.update, List.map_map]
  -- No task gains an attempt, and the one that lands loses one.
  apply List.sum_lt_sum
  · intro other inside
    simp only [Function.comp_apply]
    split
    next hit =>
      obtain rfl := landed.only inv.sound inside hit
      exact less.le
    next => exact le_rfl
  · refine ⟨row, landed.member, ?_⟩
    simp only [Function.comp_apply, landed.id, if_true]
    exact less

/-- Whether the next round finishes a task: one is with a worker already, or one is due. -/
def Prompt (session : Session σ) : Prop :=
  session.flights ≠ [] ∨ ∃ row ∈ session.queue.table.rows, row.isDue session.queue.now = true

theorem Running.running_nil (inv : Running worker initial [] log session)
    (none : session.flights = []) : session.queue.running = [] := by
  have empty := inv.running
  simp only [flightIds, none, List.map_nil, List.append_nil] at empty
  exact List.map_eq_nil_iff.mp empty.eq_nil

theorem Running.pull_ne_nil (inv : Running worker initial [] log session)
    (none : session.flights = [])
    (due : ∃ row ∈ session.queue.table.rows, row.isDue session.queue.now = true) :
    session.queue.pull.2 ≠ [] := by
  have idle := inv.running_nil none
  have room : 0 < session.queue.cap := by
    unfold Queue.cap
    omega
  obtain ⟨row, member, isDue⟩ := due
  have tasks : session.queue.table.dueRows session.queue.cap session.queue.now ≠ [] := by
    intro empty
    rcases List.take_eq_nil_iff.mp empty with zero | missing
    · omega
    · exact List.ne_nil_of_mem (List.mem_filter.mpr ⟨member, isDue⟩) missing
  unfold Queue.pull
  simp only [idle, List.length_nil, inv.calm.1, Nat.sub_zero, Bool.false_or, ge_iff_le,
    decide_eq_true_eq, Nat.not_le_of_lt room, if_false, inv.sound.claim_eq]
  cases claimed : session.queue.table.dueRows session.queue.cap session.queue.now with
  | nil => exact absurd claimed tasks
  | cons first others => simp

def pulled (worker : Worker σ) (session : Session σ) : Session σ :=
  session.queue.pull.2.foldl (Session.start worker) { session with queue := session.queue.pull.1 }

theorem Running.pulled (reports : Reports worker) (rest : initial.AtRest)
    (inv : Running worker initial [] log session) :
    ∃ more, Running worker initial [] (log ++ more) (session.pulled worker) :=
  (inv.pull rest).startAll reports rest _

theorem remaining_pulled (reports : Reports worker)
    (inv : Running worker initial [] log session) :
    (session.pulled worker).remaining = session.remaining :=
  (remaining_startAll reports _ _).trans (remaining_pull inv)

theorem Running.flights_pulled (inv : Running worker initial [] log session)
    (prompt : session.Prompt) : (session.pulled worker).flights ≠ [] := by
  have count := @flights_startAll σ worker session.queue.pull.2
    { session with queue := session.queue.pull.1 }
  intro empty
  rw [← Session.pulled, empty] at count
  simp only [List.length_nil] at count
  have none : session.flights = [] := List.eq_nil_of_length_eq_zero (by omega)
  rcases prompt with flying | due
  · exact flying none
  · have idle := List.eq_nil_of_length_eq_zero (l := session.queue.pull.2) (by omega)
    exact inv.pull_ne_nil none due idle

theorem Running.exists_pending (inv : Running worker initial [] log session)
    (none : session.flights = []) (busy : session.queue.isIdle = false) :
    ∃ row ∈ session.queue.table.rows, row.hasStatus .pending = true := by
  have unheld (row : TaskRow) (member : row ∈ session.queue.table.rows) :
      row.hasStatus .processing = false := by
    have held := inv.held row member
    simp only [flightIds, none, List.map_nil, List.append_nil, List.not_mem_nil, iff_false] at held
    simpa using held
  by_contra missing
  push Not at missing
  have pending : session.queue.table.count .pending = 0 :=
    List.countP_eq_zero.mpr missing
  have processing : session.queue.table.count .processing = 0 :=
    List.countP_eq_zero.mpr fun row member => by simp [unheld row member]
  simp [Queue.isIdle, inv.running_nil none, TaskTable.isIdle, pending, processing] at busy

theorem exists_due {queue : Queue}
    (pending : ∃ row ∈ queue.table.rows, row.hasStatus .pending = true) :
    ∃ time, queue.nextDue? = some time ∧
      ∃ row ∈ queue.table.rows, row.isDue (max queue.now time) = true := by
  obtain ⟨row, member, waits⟩ := pending
  have listed : row.availableAt ∈
      (queue.table.rows.filter (TaskRow.hasStatus .pending)).map TaskRow.availableAt :=
    List.mem_map_of_mem (List.mem_filter.mpr ⟨member, waits⟩)
  cases due : queue.nextDue? with
  | none =>
      rw [Queue.nextDue?, List.min?_eq_none_iff] at due
      rw [due] at listed
      cases listed
  | some time =>
      refine ⟨time, rfl, ?_⟩
      obtain ⟨first, present, rfl⟩ := List.mem_map.mp (List.min?_mem due)
      obtain ⟨inside, pending⟩ := List.mem_filter.mp present
      refine ⟨first, inside, ?_⟩
      simp [TaskRow.isDue, pending]

theorem Running.run_idle (reports : Reports worker) (rest : initial.AtRest)
    (rounds : Nat) (inv : Running worker initial [] log session)
    (enough : 2 * session.remaining + 2 ≤ rounds ∨
      session.Prompt ∧ 2 * session.remaining + 1 ≤ rounds) :
    ∃ final log, run worker rounds session = (final, .idle) ∧
      Running worker initial [] log final ∧ final.queue.isIdle = true := by
  -- A round that lands a task uses up an attempt, and pays for itself and for a round of waiting.
  -- A round of waiting leaves a prompt session, so that two of them never follow each other.
  induction rounds generalizing session log with
  | zero => omega
  | succ rounds ih =>
      obtain ⟨more, next⟩ := inv.pulled reports rest
      have left := remaining_pulled reports inv
      simp only [run, inv.calm.2, Bool.false_eq_true, if_false]
      rw [← Session.pulled]
      cases found : first? (session.pulled worker).flights with
      | some pair =>
          obtain ⟨flight, others⟩ := pair
          have less := remaining_land next found
          exact ih (next.land rest found) (.inl (by omega))
      | none =>
          have none := first?_eq_none found
          dsimp only
          cases idle : (session.pulled worker).queue.isIdle with
          | true => exact ⟨session.pulled worker, _, by simp, next, idle⟩
          | false =>
              -- Nothing was due, so this round only lets time pass.
              have slow : ¬session.Prompt := fun prompt => inv.flights_pulled prompt none
              obtain ⟨time, due, prompt⟩ := exists_due (next.exists_pending none idle)
              have room : 2 * session.remaining + 2 ≤ rounds + 1 :=
                enough.resolve_right fun both => slow both.1
              rw [if_neg Bool.false_ne_true, if_neg (by simp [next.calm.1]), due]
              refine ih (next.now _) (.inr ⟨.inr prompt, ?_⟩)
              rw [← left] at room
              exact Nat.le_of_succ_le_succ room

/-- What a queue looks like that has come to rest. -/
structure Drained (worker : Worker σ) (initial : Session σ) (log : Log) (final : Session σ) :
    Prop where
  sound : final.queue.table.Sound
  settings : final.queue.settings = initial.queue.settings
  calm : final.queue.paused = false ∧ final.queue.stopped = false
  running : final.queue.running = []
  plain : ∀ row ∈ final.queue.table.rows, row.content = none
  rows : List.Forall₂ (Follows initial.queue.settings.emptyOutput log)
    initial.queue.table.rows final.queue.table.rows
  done : ∀ row ∈ final.queue.table.rows,
    row.hasStatus .completed = true ∨ row.hasStatus .failed = true
  worked : Worked worker initial.state log final.state
  /-- The worker was given exactly the tasks that waited. -/
  exact : ∀ path, path ∈ log.map Prod.fst ↔
    ∃ row ∈ initial.queue.table.rows, row.hasStatus .pending = true ∧ row.path = path

theorem Running.drained_of_idle (rest : initial.AtRest)
    (inv : Running worker initial [] log session)
    (idle : session.queue.isIdle = true) :
    Drained worker initial log session := by
  simp only [Queue.isIdle, TaskTable.isIdle, TaskTable.count, Bool.and_eq_true, beq_iff_eq,
    List.isEmpty_iff, List.countP_eq_zero] at idle
  obtain ⟨running, pending, processing⟩ := idle
  refine ⟨inv.sound, inv.settings, inv.calm, running, inv.plain, inv.rows, ?_, inv.worked,
    fun path => ⟨inv.inside path, ?_⟩⟩
  · intro row member
    obtain ⟨status, named⟩ := (inv.sound.rows row member).status
    have known := TaskRow.hasStatus_iff_of_name named
    cases status with
    | pending => exact absurd ((known .pending).mpr rfl) (pending row member)
    | processing => exact absurd ((known .processing).mpr rfl) (processing row member)
    | completed => exact .inl ((known .completed).mpr rfl)
    | failed => exact .inr ((known .failed).mpr rfl)
  · -- A task that waited is done, so its row has changed and is no row of the start.
    rintro ⟨before, earlier, waits, rfl⟩
    obtain ⟨index, bound, rfl⟩ := List.mem_iff_getElem.mp earlier
    have later : index < session.queue.table.rows.length := inv.rows.length_eq ▸ bound
    have follows := inv.rows.get bound later
    have member := List.getElem_mem later
    rw [List.get_eq_getElem, List.get_eq_getElem] at follows
    have finished := pending _ member
    rcases inv.outside _ member (by simpa using finished) (by simp) with first | done
    · rw [rest.sound.eq_of_id first earlier follows.same.id] at finished
      exact absurd waits finished
    · rwa [follows.same.path] at done

theorem run_drained (reports : Reports worker) (rest : initial.AtRest) (rounds : Nat)
    (enough : 2 * initial.remaining + 2 ≤ rounds) :
    ∃ final log, run worker rounds initial = (final, .idle) ∧ Drained worker initial log final := by
  obtain ⟨final, log, finished, inv, idle⟩ :=
    (Running.of_atRest rest).run_idle reports rest rounds (.inl enough)
  exact ⟨final, log, finished, inv.drained_of_idle rest idle⟩

theorem remaining_le {row : TaskRow} (sound : row.Sound) :
    row.remaining ≤ row.maxRetries.toNat + 2 := by
  have start := sound.retryCount.1
  unfold TaskRow.remaining
  split <;> omega

theorem remaining_le_rounds (rest : initial.AtRest) :
    2 * initial.remaining + 2 ≤ Workspace.rounds initial.queue.table := by
  have each : initial.remaining ≤
      (initial.queue.table.rows.map fun row => row.maxRetries.toNat + 2).sum := by
    apply List.sum_le_sum
    exact fun row member => remaining_le (rest.sound.rows row member)
  have total (rows : List TaskRow) (start : Nat) :
      rows.foldl (fun sum row => sum + (row.maxRetries.toNat + 2)) start =
        start + (rows.map fun row => row.maxRetries.toNat + 2).sum := by
    induction rows generalizing start with
    | nil => rfl
    | cons row rest ih =>
        rw [List.foldl_cons, ih, List.map_cons, List.sum_cons]
        omega
  unfold Workspace.rounds
  rw [total]
  omega

end CodeGraph.Queue.Session
