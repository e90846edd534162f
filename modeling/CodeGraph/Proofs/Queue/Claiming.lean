import CodeGraph.Proofs.TaskTable.Readable
import Mathlib.Data.List.Perm.Basic
import Mathlib.Logic.Function.Iterate

/-!
Several claims of tasks at one time, one read or write of the table after the other, while workers
report on the tasks that they hold and give them back.

A claim chooses its tasks from what it once read, and by the time it comes to one of them the task
may have been taken, given back and taken again. A task is taken by a write that does nothing unless
the task is pending, so whatever is in processing is in the hands of exactly one.
-/

set_option autoImplicit false

namespace CodeGraph.Claiming

inductive Phase where
  | choosing (left : List Nat)
  | reading (id : Nat) (left : List Nat)
  | failed (error : QueueError)
deriving DecidableEq

namespace Phase

/-- The tasks that may still become tasks of the call. -/
def ahead : Phase → List Nat
  | .choosing left => left
  | .reading id left => id :: left
  | .failed _ => []

def held? : Phase → Option Nat
  | .reading id _ => some id
  | .choosing _ | .failed _ => none

def steps : Phase → Nat
  | .choosing left => 2 * left.length
  | .reading _ left => 2 * left.length + 1
  | .failed _ => 0

end Phase

/-- A claim; it has returned its tasks when nothing is left to choose. -/
structure Call where
  limit : Nat
  now : Int
  phase : Phase
  tasks : List Task := []
deriving DecidableEq

structure State where
  table : TaskTable
  calls : List Call := []
  workers : List Task := []
deriving DecidableEq

namespace State

/-- Who holds which task: one entry for each worker, and one for each call that has a task. -/
def held (state : State) : List Nat :=
  state.workers.map Task.id ++ state.calls.filterMap (fun call => call.phase.held?)

/-- The next step of a call. A task goes to its worker as soon as it is read, also if the call goes
on for others. -/
def advance (state : State) (index : Nat) : State :=
  match state.calls[index]? with
  | none => state
  | some call =>
      match call.phase with
      | .choosing [] | .failed _ => state
      | .choosing (id :: left) =>
          if state.table.isPending id then
            { state with
              table := state.table.take call.now id
              calls := state.calls.set index { call with phase := .reading id left } }
          else { state with calls := state.calls.set index { call with phase := .choosing left } }
      | .reading id left =>
          match state.table.get id with
          | .error error =>
              { state with calls := state.calls.set index { call with phase := .failed error } }
          | .ok none =>
              { state with calls := state.calls.set index { call with phase := .choosing left } }
          | .ok (some task) =>
              { state with
                calls := state.calls.set index
                  { call with phase := .choosing left, tasks := call.tasks ++ [task] }
                workers := state.workers ++ [task] }

def release (state : State) (worker : Nat) (table : TaskTable) : State :=
  { state with table, workers := state.workers.eraseIdx worker }

end State

inductive Action where
  | claim (limit : Nat) (now : Int)
  | advance (call : Nat)
  | report (worker : Nat) (step : String) (percent : UInt8)
  | complete (worker : Nat) (now : Int) (hash : String) (output : TaskOutput)
  | recordFailure (worker : Nat) (hash error : String) (retryAt : Int)
  | failTerminal (worker : Nat) (hash error : String)
deriving DecidableEq

def step (state : State) : Action → State
  | .claim limit now =>
      let call : Call := { limit, now, phase := .choosing (state.table.due limit now) }
      { state with calls := state.calls ++ [call] }
  | .advance call => state.advance call
  | .report worker step percent =>
      match state.workers[worker]? with
      | none => state
      | some task => { state with table := state.table.report task.id step percent.toNat }
  | .complete worker now hash output =>
      match state.workers[worker]? with
      | none => state
      | some task =>
          match state.table.complete now task.id hash output with
          | .ok (table, _) => state.release worker table
          | .error _ => state.release worker state.table
  | .recordFailure worker hash error retryAt =>
      match state.workers[worker]? with
      | none => state
      | some task =>
          state.release worker (state.table.recordFailure task.id hash error retryAt).1
  | .failTerminal worker hash error =>
      match state.workers[worker]? with
      | none => state
      | some task =>
          match state.table.failTerminal task.id hash error with
          | .ok (table, _) => state.release worker table
          | .error _ => state.release worker state.table

def run (table : TaskTable) (actions : List Action) : State :=
  actions.foldl step { table }

/-- The tasks of a call, and those that may become its tasks, are different and not too many. -/
structure Call.Fair (call : Call) : Prop where
  once : (call.tasks.map Task.id ++ call.phase.ahead).Nodup
  few : call.tasks.length + call.phase.ahead.length ≤ call.limit
  sound : ∀ error, call.phase ≠ .failed error

structure Exclusive (state : State) : Prop where
  readable : state.table.Readable
  once : state.held.Nodup
  holders : ∀ id, id ∈ state.table.processing ↔ id ∈ state.held
  calls : ∀ call ∈ state.calls, call.Fair

variable {state : State} {index worker : Nat} {call : Call} {task : Task}

theorem Exclusive.start {table : TaskTable} (readable : table.Readable)
    (idle : table.processing = []) : Exclusive { table } where
  readable := readable
  once := List.nodup_nil
  holders := by simp [idle, State.held]
  calls := by simp

theorem held_set (there : state.calls[index]? = some call) (after : Call) (table : TaskTable)
    (workers : List Task) :
    ({ table, calls := state.calls.set index after, workers } : State).held.Perm
      (after.phase.held?.toList ++ (workers.map Task.id ++
        (state.calls.eraseIdx index).filterMap (fun call => call.phase.held?))) := by
  obtain ⟨inside, -⟩ := List.getElem?_eq_some_iff.mp there
  have calls := (List.set_perm_cons_eraseIdx inside after).filterMap (fun call => call.phase.held?)
  have cons : (after :: state.calls.eraseIdx index).filterMap (fun call => call.phase.held?) =
      after.phase.held?.toList ++
        (state.calls.eraseIdx index).filterMap (fun call => call.phase.held?) := by
    cases held : after.phase.held? <;> simp [held]
  rw [cons] at calls
  exact (calls.append_left _).trans (List.perm_append_comm_assoc _ _ _)

theorem held_perm (there : state.calls[index]? = some call) :
    state.held.Perm (call.phase.held?.toList ++ (state.workers.map Task.id ++
      (state.calls.eraseIdx index).filterMap (fun call => call.phase.held?))) := by
  have same : state.calls.set index call = state.calls := by
    obtain ⟨inside, found⟩ := List.getElem?_eq_some_iff.mp there
    rw [← found, List.set_getElem_self]
  have split := held_set there call state.table state.workers
  rwa [same] at split

theorem Exclusive.set (exclusive : Exclusive state) (there : state.calls[index]? = some call)
    {after : Call} {workers : List Task} (fair : after.Fair)
    (same : (after.phase.held?.toList ++ workers.map Task.id).Perm
      (call.phase.held?.toList ++ state.workers.map Task.id)) :
    Exclusive { state with calls := state.calls.set index after, workers } := by
  have hands : ({ state with calls := state.calls.set index after, workers } : State).held.Perm
      state.held := by
    refine (held_set there after state.table workers).trans (.trans ?_ (held_perm there).symm)
    simpa only [List.append_assoc] using same.append_right _
  refine ⟨exclusive.readable, hands.nodup_iff.mpr exclusive.once, fun id => ?_, ?_⟩
  · rw [hands.mem_iff]
    exact exclusive.holders id
  · intro other member
    rcases List.mem_or_eq_of_mem_set member with old | rfl
    · exact exclusive.calls other old
    · exact fair

theorem Exclusive.take (exclusive : Exclusive state) (there : state.calls[index]? = some call)
    {id : Nat} {left : List Nat} (choosing : call.phase = .choosing (id :: left))
    (pending : state.table.isPending id = true) :
    Exclusive
      { state with
        table := state.table.take call.now id
        calls := state.calls.set index { call with phase := .reading id left } } := by
  -- The write found the task pending, so nobody had it; now the call has it.
  have free : id ∉ state.held := by
    rw [← exclusive.holders]
    exact exclusive.readable.not_mem_processing pending
  have hands := held_set there { call with phase := .reading id left }
    (state.table.take call.now id) state.workers
  have before := held_perm there
  simp only [choosing, Phase.held?, Option.toList_none, List.nil_append] at before
  have joined := hands.trans (before.symm.append_left [id])
  refine ⟨(TaskTable.leads_take call.now id).readable exclusive.readable, ?_, fun other => ?_, ?_⟩
  · rw [joined.nodup_iff]
    exact List.nodup_cons.mpr ⟨free, exclusive.once⟩
  · rw [TaskTable.mem_processing_take call.now pending, exclusive.holders, joined.mem_iff,
      List.singleton_append, List.mem_cons, or_comm]
  · intro other member
    rcases List.mem_or_eq_of_mem_set member with old | rfl
    · exact exclusive.calls other old
    · have fair := exclusive.calls call (List.mem_of_getElem? there)
      have ids := fair.once
      have few := fair.few
      rw [choosing] at ids few
      exact ⟨ids, few, nofun⟩

theorem Exclusive.advance (exclusive : Exclusive state) (index : Nat) :
    Exclusive (state.advance index) := by
  unfold State.advance
  split
  · exact exclusive
  next call there =>
    have fair := exclusive.calls call (List.mem_of_getElem? there)
    have ids := fair.once
    have few := fair.few
    split
    next => exact exclusive
    next => exact exclusive
    next id left choosing =>
      rw [choosing] at ids few
      split
      next pending => exact exclusive.take there choosing pending
      next =>
        -- Someone else has the task; the call goes on without it.
        refine exclusive.set there ⟨?_, ?_, nofun⟩ (by rw [choosing]; rfl)
        · exact ids.sublist (List.Sublist.append_left (List.sublist_cons_self id left) _)
        · simp only [Phase.ahead, List.length_cons] at few ⊢
          omega
    next id left reading =>
      rw [reading] at ids few
      -- The task is in processing, so its row is there and reads back.
      have processing : id ∈ state.table.processing := by
        rw [exclusive.holders, (held_perm there).mem_iff, reading]
        simp [Phase.held?]
      rcases exclusive.readable.get_cases id with ⟨-, absent⟩ | ⟨task, found, same⟩
      · exact absurd processing absent
      · rw [found]
        refine exclusive.set there ⟨?_, ?_, nofun⟩ ?_
        · simpa [Phase.ahead, same] using ids
        · simp only [Phase.ahead, List.length_append, List.length_cons, List.length_nil] at few ⊢
          omega
        · simp [Phase.held?, reading, same]

theorem Exclusive.report (exclusive : Exclusive state) (id : Nat) (step : String)
    (percent : UInt8) :
    Exclusive { state with table := state.table.report id step percent.toNat } where
  readable := (TaskTable.leads_report id step _
    (Nat.le_of_lt_succ percent.toNat_lt)).readable exclusive.readable
  once := exclusive.once
  holders other := by
    rw [TaskTable.processing_report]
    exact exclusive.holders other
  calls := exclusive.calls

theorem Exclusive.release (exclusive : Exclusive state)
    (there : state.workers[worker]? = some task) {f : TaskRow → TaskRow}
    (ids : ∀ row, (f row).id = row.id) (fits : ∀ row, row.Fits → (f row).Fits)
    (free : ∀ row, (f row).hasStatus .processing = false) :
    Exclusive (state.release worker (state.table.change task.id f)) := by
  obtain ⟨inside, rfl⟩ := List.getElem?_eq_some_iff.mp there
  have hands : state.held.Perm (state.workers[worker].id ::
      (state.release worker (state.table.change state.workers[worker].id f)).held) :=
    ((List.getElem_cons_eraseIdx_perm inside).map Task.id).symm.append_right _
  have once := hands.nodup_iff.mp exclusive.once
  rw [List.nodup_cons] at once
  refine ⟨(TaskTable.leads_release _ ids fits free).readable exclusive.readable, once.2, ?_,
    exclusive.calls⟩
  -- The worker was the only one who had the task, so now nobody has it.
  intro other
  rw [State.release, TaskTable.mem_processing_release free, exclusive.holders, hands.mem_iff,
    List.mem_cons]
  constructor
  · rintro ⟨same | later, differ⟩
    · exact absurd same differ
    · exact later
  · intro later
    exact ⟨.inr later, fun same => once.1 (same ▸ later)⟩

theorem Exclusive.row? (exclusive : Exclusive state) (there : state.workers[worker]? = some task) :
    ∃ row, state.table.row? task.id = some row := by
  have held : task.id ∈ state.table.processing := by
    rw [exclusive.holders]
    exact List.mem_append_left _ (List.mem_map_of_mem (List.mem_of_getElem? there))
  obtain ⟨row, inside, -, same⟩ := TaskTable.mem_processing.mp held
  exact ⟨row, same ▸ Table.get?_of_mem exclusive.readable.ids inside⟩

theorem Exclusive.step (exclusive : Exclusive state) (action : Action) :
    Exclusive (step state action) := by
  cases action with
  | claim limit now =>
      -- A claim has chosen tasks, but holds none yet.
      refine ⟨exclusive.readable, ?_, ?_, ?_⟩
      · simpa [Claiming.step, State.held, Phase.held?] using exclusive.once
      · simpa [Claiming.step, State.held, Phase.held?] using exclusive.holders
      · intro call member
        rcases List.mem_append.mp member with old | new
        · exact exclusive.calls call old
        · rw [List.mem_singleton.mp new]
          refine ⟨?_, ?_, nofun⟩
          · exact (exclusive.readable.ids.filter _).sublist ((List.take_sublist _ _).map _)
          · simp only [Phase.ahead, TaskTable.due, List.length_nil, List.length_map,
              List.length_take]
            omega
  | advance call => exact exclusive.advance call
  | report worker step percent =>
      simp only [Claiming.step]
      split
      · exact exclusive
      next task _ => exact exclusive.report task.id step percent
  | complete worker now hash output =>
      simp only [Claiming.step]
      split
      · exact exclusive
      next task there =>
        obtain ⟨row, found⟩ := exclusive.row? there
        simp only [TaskTable.complete, found]
        exact exclusive.release there (fun _ => rfl) (fun row old => old.complete now hash output)
          (fun row => row.not_processing_complete now hash output)
  | recordFailure worker hash error retryAt =>
      simp only [Claiming.step]
      split
      · exact exclusive
      next task there =>
        obtain ⟨row, found⟩ := exclusive.row? there
        simp only [TaskTable.recordFailure, found]
        exact exclusive.release there
          (fun row => (row.sameTask_recordFailure hash error retryAt).id)
          (fun row old => old.recordFailure hash error retryAt)
          (fun row => row.not_processing_recordFailure hash error retryAt)
  | failTerminal worker hash error =>
      simp only [Claiming.step]
      split
      · exact exclusive
      next task there =>
        obtain ⟨row, found⟩ := exclusive.row? there
        simp only [TaskTable.failTerminal, found]
        exact exclusive.release there (fun row => (row.sameTask_failTerminal hash error).id)
          (fun row old => old.failTerminal hash error)
          (fun row => row.not_processing_failTerminal hash error)

theorem Exclusive.run {table : TaskTable} (readable : table.Readable)
    (idle : table.processing = []) (actions : List Action) : Exclusive (run table actions) := by
  suffices kept : ∀ state, Exclusive state → Exclusive (actions.foldl Claiming.step state) from
    kept _ (.start readable idle)
  induction actions with
  | nil => exact fun _ exclusive => exclusive
  | cons action rest ih => exact fun state exclusive => ih _ (exclusive.step action)

theorem steps_advance (there : state.calls[index]? = some call) :
    ∃ after, (state.advance index).calls[index]? = some after ∧ after.limit = call.limit ∧
      after.phase.steps ≤ call.phase.steps - 1 := by
  have written : ∀ after, (state.calls.set index after)[index]? = some after := fun after =>
    List.getElem?_set_self (List.getElem?_eq_some_iff.mp there).1
  simp only [State.advance, there]
  split
  next phase => exact ⟨call, there, rfl, by simp [phase, Phase.steps]⟩
  next phase => exact ⟨call, there, rfl, by simp [phase, Phase.steps]⟩
  next id left phase =>
    rw [phase]
    split
    all_goals
      refine ⟨_, written _, rfl, ?_⟩
      simp only [Phase.steps, List.length_cons]
      omega
  next id left phase =>
    rw [phase]
    split
    all_goals
      refine ⟨_, written _, rfl, ?_⟩
      simp [Phase.steps]

theorem calls_advance_of_ne {other : Nat} (differ : other ≠ index) :
    (state.advance other).calls[index]? = state.calls[index]? := by
  unfold State.advance
  split
  · rfl
  · split
    · rfl
    · rfl
    · split <;> exact List.getElem?_set_ne differ
    · split <;> exact List.getElem?_set_ne differ

theorem steps_step (there : state.calls[index]? = some call) (action : Action) :
    ∃ after, (step state action).calls[index]? = some after ∧ after.limit = call.limit ∧
      after.phase.steps ≤ call.phase.steps - [action].count (.advance index) := by
  -- Only its own steps bring a call forward.
  have others (untouched : (step state action).calls[index]? = state.calls[index]?)
      (differ : action ≠ .advance index) :
      ∃ after, (step state action).calls[index]? = some after ∧ after.limit = call.limit ∧
        after.phase.steps ≤ call.phase.steps - [action].count (.advance index) :=
    ⟨call, untouched.trans there, rfl, by simp [differ]⟩
  cases action with
  | claim limit now =>
      refine others (List.getElem?_append_left ?_) nofun
      exact (List.getElem?_eq_some_iff.mp there).1
  | advance other =>
      by_cases same : other = index
      · subst same
        simpa [Claiming.step] using steps_advance there
      · exact others (calls_advance_of_ne same) (by simpa using same)
  | report worker step percent =>
      refine others ?_ nofun
      simp only [Claiming.step]
      split <;> rfl
  | complete worker now hash output =>
      refine others ?_ nofun
      simp only [Claiming.step]
      split
      · rfl
      · split <;> rfl
  | recordFailure worker hash error retryAt =>
      refine others ?_ nofun
      simp only [Claiming.step]
      split <;> rfl
  | failTerminal worker hash error =>
      refine others ?_ nofun
      simp only [Claiming.step]
      split
      · rfl
      · split <;> rfl

theorem steps_foldl (there : state.calls[index]? = some call) (actions : List Action) :
    ∃ after, (actions.foldl step state).calls[index]? = some after ∧ after.limit = call.limit ∧
      after.phase.steps ≤ call.phase.steps - actions.count (.advance index) := by
  induction actions generalizing state call with
  | nil => exact ⟨call, there, rfl, by simp⟩
  | cons action rest ih =>
      obtain ⟨next, found, limit, fewer⟩ := steps_step there action
      obtain ⟨after, last, kept, least⟩ := ih found
      refine ⟨after, last, kept.trans limit, ?_⟩
      rw [← List.singleton_append, List.count_append]
      omega

theorem Call.Fair.steps_le (fair : call.Fair) : call.phase.steps ≤ 2 * call.limit := by
  have few := fair.few
  cases phase : call.phase with
  | choosing left =>
      simp only [phase, Phase.ahead] at few
      simp only [Phase.steps]
      omega
  | reading id left =>
      simp only [phase, Phase.ahead, List.length_cons] at few
      simp only [Phase.steps]
      omega
  | failed error => exact Nat.zero_le _

theorem Call.Fair.returned (fair : call.Fair) (ended : call.phase.steps = 0) :
    call.phase = .choosing [] := by
  cases phase : call.phase with
  | choosing left =>
      rw [phase, Phase.steps] at ended
      have empty : left.length = 0 := by omega
      rw [List.length_eq_zero_iff.mp empty]
  | reading id left => simp [phase, Phase.steps] at ended
  | failed error => exact absurd phase (fair.sound error)

theorem advances_chosen (calls : List Call) (limit : Nat) (now : Int) (ids : List Nat)
    (table : TaskTable) (workers claimed tasks : List Task)
    (all : (TaskTable.takeAll now ids table).2 = .ok tasks) :
    ∃ steps, (State.advance · calls.length)^[steps]
        { table, workers, calls := calls ++ [⟨limit, now, .choosing ids, claimed⟩] } =
      { table := (TaskTable.takeAll now ids table).1, workers := workers ++ tasks
        calls := calls ++ [⟨limit, now, .choosing [], claimed ++ tasks⟩] } := by
  induction ids generalizing table workers claimed tasks with
  | nil =>
      obtain rfl : [] = tasks := Except.ok.inj all
      exact ⟨0, by simp [TaskTable.takeAll]⟩
  | cons id rest ih =>
      by_cases pending : table.isPending id = true
      · simp only [TaskTable.takeAll, pending, if_true] at all ⊢
        cases read : (table.take now id).get id with
        | error error => simp [read] at all
        | ok task? =>
            simp only [read] at all ⊢
            cases more : (TaskTable.takeAll now rest (table.take now id)).2 with
            | error error => simp [more] at all
            | ok later =>
                rw [more] at all
                obtain rfl : task?.toList ++ later = tasks := Except.ok.inj all
                obtain ⟨steps, reached⟩ := ih (table.take now id) (workers ++ task?.toList)
                  (claimed ++ task?.toList) later more
                -- One step moves the task to processing, the next one reads it back.
                refine ⟨steps + 2, ?_⟩
                rw [Function.iterate_succ_apply, Function.iterate_succ_apply]
                cases task? with
                | none =>
                    simpa [State.advance, pending, read] using reached
                | some task =>
                    simpa [State.advance, pending, read] using reached
      · simp only [TaskTable.takeAll, pending] at all ⊢
        obtain ⟨steps, reached⟩ := ih table workers claimed tasks all
        refine ⟨steps + 1, ?_⟩
        rw [Function.iterate_succ_apply]
        simpa [State.advance, pending] using reached

theorem advances_claim (state : State) (limit : Nat) (now : Int) (tasks : List Task)
    (claimed : (state.table.claim limit now).2 = .ok tasks) :
    ∃ steps, (State.advance · state.calls.length)^[steps]
        (step state (.claim limit now)) =
      { table := (state.table.claim limit now).1, workers := state.workers ++ tasks
        calls := state.calls ++ [⟨limit, now, .choosing [], tasks⟩] } :=
  advances_chosen state.calls limit now _ state.table state.workers [] tasks claimed

/-- Whatever comes between the steps of the calls, no task is in two hands, those in someone's hands
are those in processing, and a call that has had its steps has returned different tasks and no more
than it was asked for. -/
theorem run_keeps_claims_exclusive (table : TaskTable) (readable : table.Readable)
    (idle : ∀ row ∈ table.rows, row.hasStatus .processing = false) (actions : List Action) :
    (run table actions).held.Nodup ∧
    (∀ row ∈ (run table actions).table.rows,
      row.hasStatus .processing = true ↔ row.id ∈ (run table actions).held) ∧
    (∀ id ∈ (run table actions).held, ∃ row ∈ (run table actions).table.rows, row.id = id) ∧
    (∀ call ∈ (run table actions).calls,
      call.tasks.length ≤ call.limit ∧ (call.tasks.map Task.id).Nodup) ∧
    ∀ index call, (run table actions).calls[index]? = some call →
      ∀ later : List Action, 2 * call.limit ≤ later.count (.advance index) →
        ∃ returned, (run table (actions ++ later)).calls[index]? = some returned ∧
          returned.limit = call.limit ∧ returned.phase = .choosing [] := by
  have none : table.processing = [] := by
    rw [TaskTable.processing, List.map_eq_nil_iff, List.filter_eq_nil_iff]
    simpa using idle
  have exclusive := Exclusive.run readable none
  have now := exclusive actions
  refine ⟨now.once, fun row member => ?_, fun id held => ?_, fun call member => ?_, ?_⟩
  · rw [← now.holders, TaskTable.mem_processing]
    constructor
    · intro processing
      exact ⟨row, member, processing, rfl⟩
    · rintro ⟨other, inside, processing, same⟩
      rwa [← List.inj_on_of_nodup_map now.readable.ids inside member same]
  · obtain ⟨row, member, -, same⟩ := TaskTable.mem_processing.mp ((now.holders id).mpr held)
    exact ⟨row, member, same⟩
  · have fair := now.calls call member
    have few := fair.few
    exact ⟨by omega, (List.nodup_append.mp fair.once).1⟩
  · intro index call there later enough
    -- Each step of the call takes one from what it has left, and that is two for a task at most.
    obtain ⟨returned, found, limit, fewer⟩ := steps_foldl there later
    rw [run, ← List.foldl_append] at found
    have most := (now.calls call (List.mem_of_getElem? there)).steps_le
    have fair := (exclusive (actions ++ later)).calls returned (List.mem_of_getElem? found)
    exact ⟨returned, found, limit, fair.returned (by omega)⟩

def waiting : TaskTable :=
  { rows :=
      [{ id := 0, path := "a.js", name := "a.js", size := 1, hash := "h", maxRetries := 3 },
       { id := 1, path := "b.js", name := "b.js", size := 1, hash := "h", maxRetries := 3 }]
    nextId := 2 }

def overtaken : List Action :=
  [.claim 2 0, .claim 2 0, .advance 0, .advance 0, .recordFailure 0 "h" "timeout" 5,
    .advance 1, .advance 0, .advance 0, .advance 1, .advance 1]

theorem claims_exclusive_when_overtaken :
    waiting.Readable ∧ (run waiting overtaken).held = [1, 0] ∧
    (run waiting overtaken).calls.map (fun call => call.tasks.map Task.id) = [[0, 1], [0]] ∧
    ((run waiting overtaken).held.Nodup ∧
    (∀ row ∈ (run waiting overtaken).table.rows,
      row.hasStatus .processing = true ↔ row.id ∈ (run waiting overtaken).held) ∧
    (∀ id ∈ (run waiting overtaken).held,
      ∃ row ∈ (run waiting overtaken).table.rows, row.id = id) ∧
    (∀ call ∈ (run waiting overtaken).calls,
      call.tasks.length ≤ call.limit ∧ (call.tasks.map Task.id).Nodup) ∧
    ∀ index call, (run waiting overtaken).calls[index]? = some call →
      ∀ later : List Action, 2 * call.limit ≤ later.count (.advance index) →
        ∃ returned, (run waiting (overtaken ++ later)).calls[index]? = some returned ∧
          returned.limit = call.limit ∧ returned.phase = .choosing []) := by
  have readable : waiting.Readable := by
    refine ⟨?_, by simp [Table.Unique, waiting], by decide⟩
    intro row member
    simp only [waiting, List.mem_cons, List.not_mem_nil, or_false] at member
    rcases member with rfl | rfl <;> exact ⟨_, rfl⟩
  exact ⟨readable, by decide, by decide,
    run_keeps_claims_exclusive waiting readable (by decide) overtaken⟩

end CodeGraph.Claiming
