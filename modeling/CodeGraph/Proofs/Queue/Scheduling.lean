import CodeGraph.Proofs.Queue.Enqueue
import CodeGraph.Proofs.Queue.Soundness
import CodeGraph.Proofs.TaskTable.Readable
import Mathlib.Data.List.Perm.Subperm
import Mathlib.Logic.Function.Iterate

/-!
The loop that hands tasks to workers, one read or write at a time, so that requests, workers and
commands come in between any two of its steps.

The loop counts the workers once and sets that many places aside; from then on each place goes from
a chosen identifier to a task in processing to a worker. So the workers and the places set aside
never exceed the limit, and a task in processing is always in someone's hands.
-/

set_option autoImplicit false

namespace CodeGraph

namespace Queue

@[simp] theorem settings_drained (queue : Queue) : queue.drained.settings = queue.settings := by
  unfold drained
  split <;> rfl

@[simp] theorem running_drained (queue : Queue) : queue.drained.running = queue.running := by
  unfold drained
  split <;> rfl

end Queue

namespace Scheduling

inductive Phase where
  | idle
  | awake
  | counted (free : Nat)
  | choosing (left : List Nat) (claimed : List Task)
  | reading (id : Nat) (left : List Nat) (claimed : List Task)
  | handing (claimed : List Task)
deriving DecidableEq

namespace Phase

/-- The places set aside for tasks that no worker has yet. -/
def room : Phase → Nat
  | .idle | .awake => 0
  | .counted free => free
  | .choosing left claimed => left.length + claimed.length
  | .reading _ left claimed => left.length + claimed.length + 1
  | .handing claimed => claimed.length

def held : Phase → List Nat
  | .idle | .awake | .counted _ => []
  | .choosing _ claimed | .handing claimed => claimed.map Task.id
  | .reading id _ claimed => id :: claimed.map Task.id

theorem length_held_le (phase : Phase) : phase.held.length ≤ phase.room := by
  cases phase <;> simp [held, room]

end Phase

structure State where
  queue : Queue
  requests : List TaskTable.Request := []
  /-- The workers that have written their result down and are still counted. -/
  ending : Nat := 0
  phase : Phase := .idle

namespace State

def active (state : State) : Nat :=
  state.queue.running.length + state.ending

def isIdle (state : State) : Bool :=
  state.active == 0 && state.queue.table.isIdle

def advance (state : State) : State :=
  match state.phase with
  | .idle => if state.queue.paused then state else { state with phase := .awake }
  | .awake =>
      if state.active ≥ state.queue.cap then { state with phase := .idle }
      else { state with phase := .counted (state.queue.cap - state.active) }
  | .counted free =>
      { state with phase := .choosing (state.queue.table.due free state.queue.now) [] }
  | .choosing [] [] =>
      { state with
        queue := if state.isIdle then state.queue.drained else state.queue, phase := .idle }
  | .choosing [] claimed =>
      { state with queue := { state.queue with busy := true }, phase := .handing claimed }
  | .choosing (id :: left) claimed =>
      if state.queue.table.isPending id then
        { state with
          queue := { state.queue with table := state.queue.table.take state.queue.now id }
          phase := .reading id left claimed }
      else { state with phase := .choosing left claimed }
  | .reading id left claimed =>
      match state.queue.table.get id with
      | .error _ => { state with phase := .idle }
      | .ok task? => { state with phase := .choosing left (claimed ++ task?.toList) }
  | .handing [] => { state with phase := .idle }
  | .handing (task :: rest) =>
      { state with
        queue := { state.queue with running := state.queue.running ++ [task] }
        phase := .handing rest }

end State

inductive Action where
  | advance
  | wait (now : Int)
  | lookUp (task : NewTask)
  | write (request : Nat)
  | report (worker : Nat) (step : String) (percent : Nat)
  | record (worker : Nat) (result : Except QueueError TaskOutput)
  | leave
  | pause
  | resume
  | retryFailed
  | recover
  | clearCompleted
  | clearAll
  | removePath (path : String)

def step (state : State) : Action → State
  | .advance => state.advance
  | .wait now => { state with queue := { state.queue with now } }
  | .lookUp task => { state with requests := state.requests ++ state.queue.table.lookUp task }
  | .write index =>
      match state.requests[index]? with
      | none => state
      | some request =>
          let table := state.queue.table.writeDown state.queue.settings.maxRetries request
          { state with
            queue := { state.queue with table }, requests := state.requests.eraseIdx index }
  | .report worker step percent =>
      match state.queue.running[worker]? with
      | none => state
      | some task => { state with queue := state.queue.report task step percent }
  | .record worker result =>
      match state.queue.running[worker]? with
      | none => state
      | some task =>
          let queue := state.queue.record task result
          { state with
            queue := { queue with running := queue.running.eraseIdx worker }
            ending := state.ending + 1 }
  | .leave => { state with ending := state.ending - 1 }
  | .pause => { state with queue := state.queue.pause }
  | .resume => { state with queue := state.queue.resume }
  | .retryFailed => { state with queue := state.queue.retryFailed }
  | .recover => { state with queue := state.queue.recover }
  | .clearCompleted => { state with queue := state.queue.clearCompleted }
  | .clearAll => { state with queue := state.queue.clearAll }
  | .removePath path => { state with queue := state.queue.removePath path }

def start (settings : QueueSettings) (table : TaskTable) : State :=
  { queue := ({ settings, table } : Queue).recover }

def run (settings : QueueSettings) (table : TaskTable) (actions : List Action) : State :=
  actions.foldl step (start settings table)

/-- The workers and the places set aside keep to the limit, and whatever is in processing is with a
worker or with the loop. -/
structure Bounded (settings : QueueSettings) (state : State) : Prop where
  unchanged : state.queue.settings = settings
  readable : state.queue.table.Readable
  room : state.active + state.phase.room ≤ max settings.concurrency 1
  held : ∀ id ∈ state.queue.table.processing,
    id ∈ state.queue.running.map Task.id ∨ id ∈ state.phase.held

variable {settings : QueueSettings} {state : State}

theorem Bounded.start {table : TaskTable} (readable : table.Readable) :
    Bounded settings (start settings table) where
  unchanged := rfl
  readable := TaskTable.leads_recover.readable readable
  room := Nat.zero_le _
  held := by simp [Scheduling.start, Queue.recover, TaskTable.processing_recover]

theorem Bounded.cap (bounded : Bounded settings state) :
    state.queue.cap = max settings.concurrency 1 := by
  rw [Queue.cap, bounded.unchanged]

theorem Bounded.quiet (bounded : Bounded settings state) {queue : Queue}
    {requests : List TaskTable.Request}
    (same : queue.settings = state.queue.settings) (running : queue.running = state.queue.running)
    (leads : TaskTable.Leads [] state.queue.table queue.table) :
    Bounded settings { state with queue, requests } where
  unchanged := same.trans bounded.unchanged
  readable := leads.readable bounded.readable
  room := by
    have room := bounded.room
    simp only [State.active, running] at room ⊢
    exact room
  held id member := by
    rcases leads.processing id member with old | new
    · simp only [running]
      exact bounded.held id old
    · cases new

theorem Bounded.move (bounded : Bounded settings state) {phase : Phase}
    (room : phase.room ≤ state.phase.room)
    (held : ∀ id ∈ state.queue.table.processing, id ∈ state.phase.held → id ∈ phase.held) :
    Bounded settings { state with phase } where
  unchanged := bounded.unchanged
  readable := bounded.readable
  room := Nat.le_trans (Nat.add_le_add_left room _) bounded.room
  held id member := (bounded.held id member).imp_right (held id member)

theorem Bounded.count (bounded : Bounded settings state) (awake : state.phase = .awake) :
    Bounded settings { state with phase := .counted (state.queue.cap - state.active) } := by
  refine { bounded with room := ?_, held := by simpa only [awake, Phase.held] using bounded.held }
  -- The places set aside are exactly those that the workers leave.
  have room := bounded.room
  have cap := bounded.cap
  simp only [State.active, Phase.room] at room ⊢
  omega

theorem Bounded.take (bounded : Bounded settings state) {id : Nat} {left : List Nat}
    {claimed : List Task} (choosing : state.phase = .choosing (id :: left) claimed) :
    Bounded settings
      { state with
        queue := { state.queue with table := state.queue.table.take state.queue.now id }
        phase := .reading id left claimed } := by
  have leads : TaskTable.Leads [id] state.queue.table _ :=
    TaskTable.leads_take state.queue.now id
  refine ⟨bounded.unchanged, leads.readable bounded.readable, ?_, ?_⟩
  · have room := bounded.room
    simp only [choosing, State.active, Phase.room, List.length_cons] at room ⊢
    omega
  · intro other member
    simp only [Phase.held, List.mem_cons]
    rcases leads.processing other member with old | new
    · have held := bounded.held other old
      rw [choosing] at held
      exact held.imp_right .inr
    · exact .inr (.inl (List.mem_singleton.mp new))

theorem Bounded.read (bounded : Bounded settings state) {id : Nat} {left : List Nat}
    {claimed : List Task} (reading : state.phase = .reading id left claimed) :
    ∃ task?, state.queue.table.get id = .ok task? ∧
      Bounded settings { state with phase := .choosing left (claimed ++ task?.toList) } := by
  -- A readable table never stops the loop here; otherwise the task would be left with nobody.
  rcases bounded.readable.get_cases id with ⟨missing, absent⟩ | ⟨task, found, same⟩
  · refine ⟨none, missing, bounded.move ?_ ?_⟩
    · simp [reading, Phase.room]
    · intro other member inside
      simp only [reading, Phase.held, List.mem_cons] at inside
      simp only [Phase.held, Option.toList_none, List.append_nil]
      rcases inside with rfl | later
      · exact absurd member absent
      · exact later
  · refine ⟨some task, found, bounded.move ?_ ?_⟩
    · simp only [reading, Phase.room, Option.toList_some, List.length_append,
        List.length_singleton]
      omega
    · intro other _ inside
      simp only [reading, Phase.held, List.mem_cons] at inside
      simp only [Phase.held, Option.toList_some, List.map_append, List.mem_append, List.map_cons,
        List.map_nil, List.mem_singleton, same]
      exact inside.symm

theorem Bounded.hand (bounded : Bounded settings state) {task : Task} {rest : List Task}
    (handing : state.phase = .handing (task :: rest)) :
    Bounded settings
      { state with
        queue := { state.queue with running := state.queue.running ++ [task] }
        phase := .handing rest } := by
  refine { bounded with room := ?_, held := ?_ }
  · have room := bounded.room
    simp only [handing, State.active, Phase.room, List.length_append, List.length_cons,
      List.length_nil] at room ⊢
    omega
  · intro id member
    have held := bounded.held id member
    simp only [handing, Phase.held, List.map_cons, List.mem_cons] at held
    simp only [Phase.held, List.map_append, List.mem_append, List.map_cons, List.map_nil,
      List.mem_singleton]
    rcases held with worker | rfl | later
    · exact .inl (.inl worker)
    · exact .inl (.inr rfl)
    · exact .inr later

theorem Bounded.advance (bounded : Bounded settings state) : Bounded settings state.advance := by
  unfold State.advance
  split
  next phase =>
    split
    · exact bounded
    · exact bounded.move (by simp [phase, Phase.room]) (by simp [phase, Phase.held])
  next phase =>
    split
    · exact bounded.move (by simp [phase, Phase.room]) (by simp [phase, Phase.held])
    · exact bounded.count phase
  -- As many identifiers are chosen as there are places, or fewer.
  next free phase =>
    refine bounded.move ?_ (by simp [phase, Phase.held])
    simp only [phase, Phase.room, TaskTable.due, List.length_map, List.length_take,
      List.length_nil]
    omega
  next phase =>
    have settled : Bounded settings { state with phase := .idle } :=
      bounded.move (by simp [phase, Phase.room]) (by simp [phase, Phase.held])
    split
    · refine settled.quiet (Queue.settings_drained _) (Queue.running_drained _) ?_
      rw [Queue.table_drained]
      exact .refl _
    · exact settled
  next claimed _ phase =>
    have moved : Bounded settings { state with phase := .handing claimed } :=
      bounded.move (by simp [phase, Phase.room]) (by simp [phase, Phase.held])
    exact moved.quiet rfl rfl (.refl _)
  next id left claimed phase =>
    split
    · exact bounded.take phase
    · exact bounded.move (by simp [phase, Phase.room]) (by simp [phase, Phase.held])
  next id left claimed phase =>
    obtain ⟨task?, read, after⟩ := bounded.read phase
    simpa only [read] using after
  next phase => exact bounded.move (by simp [phase, Phase.room]) (by simp [phase, Phase.held])
  next task rest phase => exact bounded.hand phase

theorem record_of_missing (queue : Queue) (task : Task) (result : Except QueueError TaskOutput)
    (missing : queue.table.row? task.id = none) : queue.record task result = queue := by
  have failure : ∀ error, queue.recordError task error = queue := by
    simp [Queue.recordError, TaskTable.recordFailure, missing]
  have empty : ∀ error, queue.recordEmpty task error = queue := by
    simp [Queue.recordEmpty, TaskTable.failTerminal, missing]
  have success : ∀ output, queue.recordOutput task output = queue := by
    simp [Queue.recordOutput, TaskTable.complete, missing]
  cases result with
  | error error => exact failure _
  | ok output =>
      simp only [Queue.record]
      cases queue.settings.emptyOutput <;> simp [failure, empty, success]

theorem leads_record (queue : Queue) (task : Task) (result : Except QueueError TaskOutput) :
    (queue.record task result).settings = queue.settings ∧
    (queue.record task result).running = queue.running ∧
    TaskTable.Leads [] queue.table (queue.record task result).table ∧
    task.id ∉ (queue.record task result).table.processing := by
  cases found : queue.table.row? task.id with
  | none =>
      rw [record_of_missing queue task result found]
      refine ⟨rfl, rfl, .refl _, fun member => ?_⟩
      obtain ⟨row, inside, -, same⟩ := TaskTable.mem_processing.mp member
      exact Table.get?_eq_none_iff.mp found row inside same
  | some row =>
      obtain ⟨announced, written⟩ := queue.record_eq task result row found
      rw [written]
      exact ⟨rfl, rfl, TaskTable.leads_landed queue task.id task.hash result,
        TaskTable.not_mem_processing_landed queue task.id task.hash result⟩

theorem Bounded.record (bounded : Bounded settings state) {worker : Nat} {task : Task}
    (there : state.queue.running[worker]? = some task) (result : Except QueueError TaskOutput) :
    Bounded settings
      { state with
        queue :=
          { state.queue.record task result with
            running := (state.queue.record task result).running.eraseIdx worker }
        ending := state.ending + 1 } := by
  obtain ⟨same, running, leads, gone⟩ := leads_record state.queue task result
  obtain ⟨inside, found⟩ := List.getElem?_eq_some_iff.mp there
  refine ⟨same.trans bounded.unchanged, leads.readable bounded.readable, ?_, ?_⟩
  · have room := bounded.room
    have shorter := List.length_eraseIdx_add_one inside
    simp only [State.active, running] at room ⊢
    omega
  · intro id member
    rcases leads.processing id member with old | new
    · refine (bounded.held id old).imp_left fun held => ?_
      obtain ⟨other, present, rfl⟩ := List.mem_map.mp held
      simp only [running]
      -- The task of the worker that leaves is the only one that may go with it.
      refine List.mem_map_of_mem (List.mem_eraseIdx_iff_getElem?.mpr ?_)
      obtain ⟨index, within, at?⟩ := List.getElem_of_mem present
      refine ⟨index, ?_, by rw [List.getElem?_eq_getElem within, at?]⟩
      rintro rfl
      obtain rfl : task = other := found.symm.trans at?
      exact gone member
    · cases new

theorem Bounded.step (limited : settings.maxRetries ≤ maxCount) (bounded : Bounded settings state)
    (action : Action) : Bounded settings (step state action) := by
  cases action with
  | advance => exact bounded.advance
  | wait now => exact bounded.quiet rfl rfl (.refl _)
  | lookUp task => exact bounded.quiet rfl rfl (.refl _)
  | write index =>
      simp only [Scheduling.step]
      split
      · exact bounded
      next request _ =>
        refine bounded.quiet rfl rfl ?_
        unfold TaskTable.writeDown
        split
        next responded =>
          refine TaskTable.leads_respond ?_ responded
          rw [bounded.unchanged]
          exact limited
        next => exact .refl _
  | report worker step percent =>
      simp only [Scheduling.step]
      split
      · exact bounded
      next task _ =>
        exact bounded.quiet rfl rfl (TaskTable.leads_report task.id step _ (by omega))
  | record worker result =>
      simp only [Scheduling.step]
      split
      · exact bounded
      next there => exact bounded.record there result
  | leave =>
      -- The worker has written its result down before, so only the count changes.
      refine { bounded with room := ?_ }
      have room := bounded.room
      simp only [Scheduling.step, State.active] at room ⊢
      omega
  | pause =>
      simp only [Scheduling.step, Queue.pause]
      split
      · exact bounded
      · exact bounded.quiet rfl rfl (.refl _)
  | resume =>
      simp only [Scheduling.step, Queue.resume]
      split
      · exact bounded.quiet rfl rfl (.refl _)
      · exact bounded
  | retryFailed => exact bounded.quiet rfl rfl TaskTable.leads_retryFailed
  | recover => exact bounded.quiet rfl rfl TaskTable.leads_recover
  | clearCompleted => exact bounded.quiet rfl rfl (TaskTable.leads_keep _)
  | clearAll =>
      refine bounded.quiet rfl rfl ?_
      have none : state.queue.table.deleteAll = state.queue.table.keep (fun _ => false) := by
        simp [TaskTable.keep, TaskTable.deleteAll]
      simp only [Queue.clearAll, none]
      exact TaskTable.leads_keep _
  | removePath path => exact bounded.quiet rfl rfl (TaskTable.leads_keep _)

theorem Bounded.run {table : TaskTable} (limited : settings.maxRetries ≤ maxCount)
    (readable : table.Readable) (actions : List Action) :
    Bounded settings (run settings table actions) := by
  suffices kept : ∀ state, Bounded settings state →
      Bounded settings (actions.foldl Scheduling.step state) from
    kept _ (.start readable)
  induction actions with
  | nil => exact fun _ bounded => bounded
  | cons action rest ih => exact fun state bounded => ih _ (bounded.step limited action)

/-- Tasks in processing have different identifiers, so there are no more of them than hands. -/
theorem Bounded.processing_le (bounded : Bounded settings state) :
    state.queue.table.count .processing ≤
      state.queue.running.length + state.phase.held.length := by
  have hands : state.queue.table.processing ⊆
      state.queue.running.map Task.id ++ state.phase.held := by
    intro id member
    exact List.mem_append.mpr (bounded.held id member)
  have fewer := (List.subperm_of_subset bounded.readable.nodup_processing hands).length_le
  rwa [TaskTable.length_processing, List.length_append, List.length_map] at fewer

def Reaches (before after : State) : Prop :=
  ∃ steps, State.advance^[steps] before = after

theorem Reaches.refl (state : State) : Reaches state state :=
  ⟨0, rfl⟩

theorem Reaches.head {before next after : State} (first : before.advance = next)
    (rest : Reaches next after) : Reaches before after := by
  obtain ⟨steps, reached⟩ := rest
  exact ⟨steps + 1, by rw [Function.iterate_succ_apply, first, reached]⟩

theorem Reaches.trans {before next after : State} (first : Reaches before next)
    (rest : Reaches next after) : Reaches before after := by
  obtain ⟨early, reached⟩ := first
  obtain ⟨late, reached'⟩ := rest
  exact ⟨late + early, by rw [Function.iterate_add_apply, reached, reached']⟩

theorem reaches_handed (queue : Queue) (requests : List TaskTable.Request) (claimed : List Task) :
    Reaches { queue, requests, phase := .handing claimed }
      { queue := { queue with running := queue.running ++ claimed }, requests } := by
  induction claimed generalizing queue with
  | nil =>
      rw [List.append_nil]
      exact .head rfl (.refl _)
  | cons task rest ih =>
      have handed := ih { queue with running := queue.running ++ [task] }
      rw [List.append_assoc, List.singleton_append] at handed
      exact .head rfl handed

theorem reaches_chosen (queue : Queue) (requests : List TaskTable.Request) (ids : List Nat)
    (claimed : List Task) :
    Reaches { queue, requests, phase := .choosing ids claimed }
      { queue := { queue with table := (TaskTable.takeAll queue.now ids queue.table).1 }, requests
        phase :=
          match (TaskTable.takeAll queue.now ids queue.table).2 with
          | .ok tasks => .choosing [] (claimed ++ tasks)
          | .error _ => .idle } := by
  induction ids generalizing queue claimed with
  | nil => simpa [TaskTable.takeAll] using Reaches.refl _
  | cons id rest ih =>
      by_cases pending : queue.table.isPending id = true
      · refine .head (by simp only [State.advance, pending, if_true]; rfl) ?_
        simp only [TaskTable.takeAll, pending, if_true]
        cases read : (queue.table.take queue.now id).get id with
        | error error =>
            refine .head ?_ (.refl _)
            simp only [State.advance, read]
        | ok task? =>
            refine .head (by simp only [State.advance, read]; rfl) ?_
            refine (ih { queue with table := queue.table.take queue.now id } _).trans ?_
            cases more : (TaskTable.takeAll queue.now rest (queue.table.take queue.now id)).2 with
            | error error => simpa [more] using Reaches.refl _
            | ok tasks => simpa [more] using Reaches.refl _
      · refine .head (by simp only [State.advance, pending]; rfl) ?_
        simpa [TaskTable.takeAll, pending] using ih queue claimed

theorem reaches_pull (queue : Queue) (requests : List TaskTable.Request) :
    Reaches { queue, requests } { queue := queue.pull.1, requests } := by
  unfold Queue.pull
  by_cases paused : queue.paused = true
  · simpa [paused] using Reaches.refl _
  have woken : State.advance { queue, requests } = { queue, requests, phase := .awake } := by
    simp [State.advance, paused]
  refine .head woken ?_
  by_cases full : queue.running.length ≥ queue.cap
  · have back : State.advance { queue, requests, phase := .awake } = { queue, requests } := by
      simp [State.advance, State.active, full]
    simpa [paused, full] using Reaches.head back (.refl _)
  have counted : State.advance { queue, requests, phase := .awake } =
      { queue, requests, phase := .counted (queue.cap - queue.running.length) } := by
    simp [State.advance, State.active, full]
  refine .head counted ?_
  refine .head rfl ((reaches_chosen queue requests _ []).trans ?_)
  rw [if_neg (by simp [paused, full]), TaskTable.claim]
  cases claimed : TaskTable.takeAll queue.now
      (queue.table.due (queue.cap - queue.running.length) queue.now) queue.table with
  | mk table result =>
      cases result with
      | error error => exact .refl _
      | ok tasks =>
          cases tasks with
          | nil =>
              refine .head ?_ (.refl _)
              simp [State.advance, State.isIdle, State.active, Queue.isIdle]
          | cons task rest =>
              exact .head rfl (reaches_handed { queue with table, busy := true } requests _)

/-- Whatever comes between the steps of the loop, there are never more workers than the limit, nor
more tasks in processing; and between two rounds of the loop each of those is with a worker. -/
theorem run_keeps_limit (settings : QueueSettings) (limited : settings.maxRetries ≤ maxCount)
    (table : TaskTable) (readable : table.Readable) (actions : List Action) :
    (run settings table actions).active ≤ max settings.concurrency 1 ∧
    (run settings table actions).queue.table.count .processing ≤ max settings.concurrency 1 ∧
    ((run settings table actions).phase = .idle →
      (run settings table actions).queue.table.count .processing ≤
        (run settings table actions).active) := by
  have bounded := Bounded.run limited readable actions
  have room := bounded.room
  have processing := bounded.processing_le
  have held := (run settings table actions).phase.length_held_le
  simp only [State.active] at room ⊢
  refine ⟨by omega, by omega, fun idle => ?_⟩
  simp only [idle, Phase.held, List.length_nil] at processing
  omega

def leftover : TaskTable :=
  { rows :=
      [{ id := 0, path := "a.js", name := "a.js", size := 1, hash := "h"
         status := TaskStatus.processing.name, maxRetries := 3 },
       { id := 1, path := "b.js", name := "b.js", size := 1, hash := "h", retryCount := 5
         maxRetries := 3 }]
    nextId := 2 }

def recovered : List Action :=
  List.replicate 4 .advance ++ [.recover] ++ List.replicate 6 .advance

theorem limit_kept_after_recovered :
    leftover.Readable ∧ (run { concurrency := 1 } leftover recovered).active = 1 ∧
    (run { concurrency := 1 } leftover recovered).queue.table.count .pending = 2 ∧
    (run { concurrency := 1 } leftover recovered).active ≤ max 1 1 ∧
    (run { concurrency := 1 } leftover recovered).queue.table.count .processing ≤ max 1 1 ∧
    ((run { concurrency := 1 } leftover recovered).phase = .idle →
      (run { concurrency := 1 } leftover recovered).queue.table.count .processing ≤
        (run { concurrency := 1 } leftover recovered).active) := by
  have readable : leftover.Readable := by
    refine ⟨?_, by simp [Table.Unique, leftover], by decide⟩
    intro row member
    simp only [leftover, List.mem_cons, List.not_mem_nil, or_false] at member
    rcases member with rfl | rfl <;> exact ⟨_, rfl⟩
  exact ⟨readable, by decide, by decide,
    run_keeps_limit { concurrency := 1 } (by decide) leftover readable recovered⟩

end Scheduling

end CodeGraph
