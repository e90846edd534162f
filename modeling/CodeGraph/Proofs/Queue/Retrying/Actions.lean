import CodeGraph.Proofs.Queue.History
import CodeGraph.Proofs.Queue.Idempotence
import CodeGraph.Proofs.Queue.Soundness

set_option autoImplicit false

namespace CodeGraph

namespace TaskTable

variable {table : TaskTable} {limit : Nat} {now : Int}

def claimed (table : TaskTable) (limit : Nat) (now : Int) : List Nat :=
  match (table.claim limit now).2 with
  | .ok tasks => tasks.map Task.id
  | .error _ => []

theorem Sound.claimed_eq (sound : table.Sound) (limit : Nat) (now : Int) :
    table.claimed limit now = table.due limit now := by
  simp [claimed, sound.claim_eq, due, dueRows, Function.comp_def, TaskRow.asTask, TaskRow.started]

theorem exists_of_mem_due {id : Nat} (listed : id ∈ table.due limit now) :
    ∃ row ∈ table.rows, row.id = id ∧ row.hasStatus .pending = true ∧ row.availableAt ≤ now := by
  obtain ⟨row, member, same⟩ := List.mem_map.mp listed
  obtain ⟨present, isDue⟩ := mem_dueRows member
  simp only [TaskRow.isDue, Bool.and_eq_true, decide_eq_true_eq] at isDue
  exact ⟨row, present, same, isDue⟩

theorem mem_due_of_le {row : TaskRow} (member : row ∈ table.rows)
    (pending : row.hasStatus .pending = true) (waited : row.availableAt ≤ now)
    (enough : table.rows.length ≤ limit) : row.id ∈ table.due limit now := by
  have short : (table.rows.filter (TaskRow.isDue now)).length ≤ limit :=
    Nat.le_trans (List.length_filter_le _ _) enough
  refine List.mem_map_of_mem ?_
  rw [List.take_of_length_le short]
  exact List.mem_filter.mpr ⟨member, by simp [TaskRow.isDue, pending, waited]⟩

end TaskTable

namespace Retrying

inductive Action where
  | claim (limit : Nat) (now : Int)
  | finish (id : Nat) (now : Int) (result : Except QueueError TaskOutput)
  | enqueue (task : NewTask)
  | change (operation : TaskTable.Operation)

def hand (queue : Queue) (task : Task) : Queue :=
  { queue.publish (.started task.id task.path) with running := queue.running ++ [task] }

def step (queue : Queue) : Action → Queue
  | .claim limit now =>
      match queue.table.claim limit now with
      | (table, .ok tasks) => tasks.foldl hand { queue with table }
      | (table, .error _) => { queue with table }
  | .finish id now result =>
      match queue.running.find? (fun task => task.id == id) with
      | some task => { queue with now }.finish task result
      -- No worker has the task.
      | none => queue
  | .enqueue task =>
      match queue.enqueue task with
      | .ok (after, _) => after
      | .error _ => queue
  | .change operation => { queue with table := queue.table.apply operation }

def perform (queue : Queue) (actions : List Action) : Queue :=
  actions.foldl step queue

def run (settings : QueueSettings) (actions : List Action) : Queue :=
  perform { settings } actions

theorem perform_append (queue : Queue) (first second : List Action) :
    perform queue (first ++ second) = perform (perform queue first) second :=
  List.foldl_append

variable {settings : QueueSettings} {queue : Queue} {limit : Nat} {now : Int}

theorem foldl_hand (tasks : List Task) (queue : Queue) :
    tasks.foldl hand queue =
      { queue with
        running := queue.running ++ tasks
        announced := (tasks.map fun task => .started task.id task.path).reverse ++
          queue.announced } := by
  induction tasks generalizing queue with
  | nil => simp
  | cons task rest ih => simp [ih, hand, Queue.publish]

def taken (table : TaskTable) (limit : Nat) (now : Int) : List Task :=
  (table.dueRows limit now).map fun row => (row.started now).asTask .processing

theorem map_id_taken (table : TaskTable) (limit : Nat) (now : Int) :
    (taken table limit now).map Task.id = table.due limit now := by
  simp [taken, TaskTable.due, TaskTable.dueRows, Function.comp_def, TaskRow.asTask,
    TaskRow.started]

theorem step_claim (sound : queue.table.Sound) (limit : Nat) (now : Int) :
    step queue (.claim limit now) =
      { queue with
        table := queue.table.startAll now (queue.table.due limit now)
        running := queue.running ++ taken queue.table limit now
        announced := ((taken queue.table limit now).map fun task =>
          .started task.id task.path).reverse ++ queue.announced } := by
  simp only [step, sound.claim_eq, foldl_hand, taken]

theorem calls_step_claim (sound : queue.table.Sound) (limit : Nat) (now : Int) (id : Nat) :
    (step queue (.claim limit now)).calls id =
      queue.calls id + (queue.table.due limit now).count id := by
  have listed : (taken queue.table limit now).countP (fun task => task.id == id) =
      (queue.table.due limit now).count id := by
    rw [← map_id_taken, List.count, List.countP_map]
    rfl
  rw [step_claim sound, ← listed]
  simp [Queue.calls, Queue.history, Queue.events, List.countP_append, List.countP_filter,
    List.countP_map, Function.comp_def, QueueEvent.isStart, QueueEvent.task?]

theorem outcomes_step_claim (sound : queue.table.Sound) (limit : Nat) (now : Int) (id : Nat) :
    (step queue (.claim limit now)).outcomes id = queue.outcomes id := by
  rw [step_claim sound]
  simp [Queue.outcomes, Queue.history, Queue.events, List.filterMap_append, QueueEvent.outcome?]

theorem step_finish (queue : Queue) (id : Nat) (now : Int)
    (result : Except QueueError TaskOutput) :
    id ∉ queue.running.map Task.id ∧ step queue (.finish id now result) = queue ∨
    ∃ task ∈ queue.running, task.id = id ∧
      step queue (.finish id now result) = { queue with now }.finish task result := by
  cases found : queue.running.find? (fun task => task.id == id) with
  | none =>
      refine .inl ⟨?_, by simp [step, found]⟩
      simpa [List.find?_eq_none] using found
  | some task =>
      refine .inr ⟨task, List.mem_of_find?_eq_some found, ?_, by simp [step, found]⟩
      simpa using List.find?_some found

theorem step_enqueue (sound : queue.table.Sound) (limited : queue.settings.maxRetries ≤ maxCount)
    (task : NewTask) :
    ∃ after row, TaskTable.Accepted queue.table task after row ∧
      step queue (.enqueue task) = { queue with table := after } := by
  obtain ⟨after, row, accepted, asked⟩ := Queue.enqueue_accepted sound limited task
  exact ⟨after, row, accepted, by simp [step, asked]⟩

structure Reached (settings : QueueSettings) (queue : Queue) : Prop where
  unchanged : queue.settings = settings
  sound : queue.table.Sound
  running : ∀ task ∈ queue.running, task.id < queue.table.nextId
  announced : ∀ event ∈ queue.announced, ∀ id, event.task? = some id → id < queue.table.nextId

theorem Reached.table (reached : Reached settings queue) {after : TaskTable} (sound : after.Sound)
    (later : queue.table.nextId ≤ after.nextId) :
    Reached settings { queue with table := after } where
  unchanged := reached.unchanged
  sound := sound
  running task member := Nat.lt_of_lt_of_le (reached.running task member) later
  announced event member id about :=
    Nat.lt_of_lt_of_le (reached.announced event member id about) later

theorem Reached.claim (reached : Reached settings queue) (limit : Nat) (now : Int) :
    Reached settings (step queue (.claim limit now)) := by
  -- What a claim hands over, and announces, are tasks of the table.
  have fresh : ∀ task ∈ taken queue.table limit now, task.id < queue.table.nextId := by
    intro task member
    obtain ⟨row, due, rfl⟩ := List.mem_map.mp member
    exact reached.sound.fresh row (TaskTable.mem_dueRows due).1
  rw [step_claim reached.sound]
  refine ⟨reached.unchanged, reached.sound.startAll _ _, ?_, ?_⟩
  · intro task member
    rcases List.mem_append.mp member with old | new
    · exact reached.running task old
    · exact fresh task new
  · intro event member id about
    rcases List.mem_append.mp member with new | old
    · obtain ⟨task, inside, rfl⟩ := List.mem_map.mp (List.mem_reverse.mp new)
      cases about
      exact fresh task inside
    · exact reached.announced event old id about

theorem Reached.finish (reached : Reached settings queue) {task : Task}
    (member : task ∈ queue.running) (now : Int) (result : Except QueueError TaskOutput) :
    Reached settings ({ queue with now }.finish task result) := by
  have sound := @Queue.sound_finish { queue with now } reached.sound task result
  obtain ⟨news, announced, about⟩ := Queue.announces_finish { queue with now } task result
  obtain ⟨all, finished⟩ := Queue.finish_frame { queue with now } task result
  rw [finished] at sound announced ⊢
  refine ⟨reached.unchanged, sound, ?_, ?_⟩
  · intro other inside
    exact reached.running other (List.mem_of_mem_eraseP inside)
  · intro event inside id named
    simp only at announced inside
    rw [announced] at inside
    rcases List.mem_append.mp inside with new | old
    · rw [about event new] at named
      cases named
      exact reached.running task member
    · exact reached.announced event old id named

theorem Reached.step (limited : settings.maxRetries ≤ maxCount) (reached : Reached settings queue)
    (action : Action) : Reached settings (step queue action) := by
  cases action with
  | claim limit now => exact reached.claim limit now
  | finish id now result =>
      rcases step_finish queue id now result with ⟨-, same⟩ | ⟨task, member, rfl, same⟩
      · rwa [same]
      · rw [same]
        exact reached.finish member now result
  | enqueue task =>
      obtain ⟨after, row, accepted, same⟩ :=
        step_enqueue reached.sound (reached.unchanged ▸ limited) task
      rw [same]
      exact reached.table accepted.sound accepted.nextId
  | change operation =>
      exact reached.table (reached.sound.apply operation) (reached.sound.nextId_apply operation)

theorem Reached.run (limited : settings.maxRetries ≤ maxCount) (actions : List Action) :
    Reached settings (run settings actions) := by
  induction actions using List.reverseRecOn with
  | nil => exact ⟨rfl, TaskTable.empty_sound 0, by simp [Retrying.run, perform],
      by simp [Retrying.run, perform]⟩
  | append_singleton actions action ih =>
      rw [Retrying.run, perform_append]
      exact ih.step limited action

end Retrying

end CodeGraph
