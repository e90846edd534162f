import CodeGraph.Proofs.Queue.Enqueue

/-!
Requests and workers on one task table, step by step. A request looks its path up in one step and is
written down in a later one; between the two, workers claim tasks and record what became of them.

A completed task was processed at the hash it has, up to the point where a request that saw the task
in processing is written down after the task was completed. Such a late request is the only way in
which a run comes to a completed task that nobody processed.
-/

set_option autoImplicit false

namespace CodeGraph.Interleaving

structure State where
  table : TaskTable := {}
  requests : List TaskTable.Request := []
  held : List Task := []
  done : List (Nat × String) := []
deriving DecidableEq

inductive Action where
  | lookUp (task : NewTask)
  | write (request : Nat)
  | claim (limit : Nat) (now : Int)
  | complete (worker : Nat) (now : Int) (output : TaskOutput)
  | recordFailure (worker : Nat) (error : String) (retryAt : Int)
  | failTerminal (worker : Nat) (error : String)
deriving DecidableEq

def State.release (state : State) (worker : Nat) (table : TaskTable) : State :=
  { state with table, held := state.held.eraseIdx worker }

def step (maxRetries : Nat) (state : State) : Action → State
  | .lookUp task => { state with requests := state.requests ++ state.table.lookUp task }
  | .write index =>
      match state.requests[index]? with
      | none => state
      | some request =>
          { state with
            table := state.table.writeDown maxRetries request
            requests := state.requests.eraseIdx index }
  | .claim limit now =>
      match state.table.claim limit now with
      | (table, .ok tasks) => { state with table, held := state.held ++ tasks }
      | (table, .error _) => { state with table }
  | .complete worker now output =>
      match state.held[worker]? with
      | none => state
      | some task =>
          match state.table.complete now task.id task.hash output with
          | .ok (table, _) =>
              { state.release worker table with done := (task.id, task.hash) :: state.done }
          | .error _ => state.release worker state.table
  | .recordFailure worker error retryAt =>
      match state.held[worker]? with
      | none => state
      | some task =>
          state.release worker (state.table.recordFailure task.id task.hash error retryAt).1
  | .failTerminal worker error =>
      match state.held[worker]? with
      | none => state
      | some task =>
          match state.table.failTerminal task.id task.hash error with
          | .ok (table, _) => state.release worker table
          | .error _ => state.release worker state.table

def run (maxRetries : Nat) (actions : List Action) : State :=
  actions.foldl (step maxRetries) {}

/-- A row that is completed was completed by a worker that was claimed with its hash. -/
def Processed (done : List (Nat × String)) (row : TaskRow) : Prop :=
  row.hasStatus .completed = true → (row.id, row.hash) ∈ done

def Honest (state : State) : Prop :=
  ∀ row ∈ state.table.rows, Processed state.done row

/-- A request saw its task in processing with other content, but the task is completed by now, and
nobody has processed the content of the request. -/
def Late (state : State) : Action → Prop
  | .write index =>
      ∃ request ∈ state.requests[index]?, ∃ seen ∈ request.seen,
        seen.status = .processing ∧ seen.hash ≠ request.task.hash ∧
          ∃ row ∈ state.table.rows, row.id = seen.id ∧ row.hasStatus .completed = true ∧
            (row.id, request.task.hash) ∉ state.done
  | _ => False

instance (done : List (Nat × String)) (row : TaskRow) : Decidable (Processed done row) :=
  inferInstanceAs (Decidable (row.hasStatus .completed = true → (row.id, row.hash) ∈ done))

instance (state : State) : Decidable (Honest state) :=
  inferInstanceAs (Decidable (∀ row ∈ state.table.rows, Processed state.done row))

theorem processed_of_status (done : List (Nat × String)) (row : TaskRow) (status : TaskStatus)
    (other : status ≠ .completed) (named : row.status = status.name) : Processed done row := by
  intro completed
  simp only [TaskRow.hasStatus, named, beq_iff_eq] at completed
  cases status <;> simp_all [TaskStatus.name]

theorem processed_cons (done : List (Nat × String)) (row : TaskRow) (entry : Nat × String)
    (processed : Processed done row) : Processed (entry :: done) row :=
  fun completed => List.mem_cons_of_mem _ (processed completed)

theorem change_processed (done : List (Nat × String)) (table : TaskTable) (id : Nat)
    (f : TaskRow → TaskRow) (old : ∀ row ∈ table.rows, Processed done row)
    (changed : ∀ row ∈ table.rows, row.id = id → Processed done (f row)) :
    ∀ row ∈ (table.change id f).rows, Processed done row := by
  intro row member
  simp only [TaskTable.change, Table.update, List.mem_map] at member
  obtain ⟨before, present, rfl⟩ := member
  by_cases same : before.id = id
  · simpa only [same, if_true] using changed before present same
  · simpa only [same, if_false] using old before present

theorem take_processed (done : List (Nat × String)) (table : TaskTable) (now : Int) (id : Nat)
    (old : ∀ row ∈ table.rows, Processed done row) :
    ∀ row ∈ (table.take now id).rows, Processed done row := by
  intro row member
  simp only [TaskTable.take, List.mem_map] at member
  obtain ⟨before, present, rfl⟩ := member
  split
  · exact processed_of_status done _ .processing (by decide) rfl
  · exact old before present

theorem takeAll_processed (done : List (Nat × String)) (now : Int) (ids : List Nat)
    (table : TaskTable) (old : ∀ row ∈ table.rows, Processed done row) :
    ∀ row ∈ (TaskTable.takeAll now ids table).1.rows, Processed done row := by
  induction ids generalizing table with
  | nil => exact old
  | cons id rest ih =>
      simp only [TaskTable.takeAll]
      split
      · have taken := take_processed done table now id old
        split
        · exact taken
        · exact ih _ taken
      · exact ih table old

theorem insert_processed (done : List (Nat × String)) (table table' : TaskTable) (task : NewTask)
    (maxRetries id : Nat) (inserted : table.insert task maxRetries = .ok (table', id))
    (old : ∀ row ∈ table.rows, Processed done row) : ∀ row ∈ table'.rows, Processed done row := by
  unfold TaskTable.insert at inserted
  split at inserted
  · cases inserted
  · cases inserted
    intro row member
    rcases List.mem_append.mp member with present | added
    · exact old row present
    · rw [List.mem_singleton.mp added]
      exact processed_of_status done _ .pending (by decide) rfl

theorem reset_processed (done : List (Nat × String)) (table : TaskTable) (id : Nat)
    (task : NewTask) (old : ∀ row ∈ table.rows, Processed done row) :
    ∀ row ∈ (table.reset id task).rows, Processed done row := by
  apply change_processed done table id _ old
  intro row _ _
  exact processed_of_status done _ .pending (by decide) rfl

theorem updateContent_processed_iff (done : List (Nat × String)) (table : TaskTable) (id : Nat)
    (task : NewTask) (old : ∀ row ∈ table.rows, Processed done row) :
    (∀ row ∈ (table.updateContent id task).rows, Processed done row) ↔
      ∀ row ∈ table.rows, row.id = id → row.hasStatus .completed = true →
        (row.id, task.hash) ∈ done := by
  constructor
  · intro after row member same completed
    refine after
      { row with hash := task.hash, size := saturated task.size, content := task.content }
      ?_ completed
    simp only [TaskTable.updateContent, TaskTable.change, Table.update, List.mem_map]
    exact ⟨row, member, by simp only [same, if_true]⟩
  · intro known
    apply change_processed done table id _ old
    intro row member same completed
    exact known row member same completed

theorem respond_seen (table : TaskTable) (task : NewTask) (maxRetries : Nat) (seen : Task) :
    ∃ result, table.respond task maxRetries (some seen) = .ok result := by
  simp only [TaskTable.respond]
  split
  · split
    · exact ⟨_, rfl⟩
    · exact ⟨_, rfl⟩
    · exact ⟨_, rfl⟩
    · split <;> exact ⟨_, rfl⟩
  · exact ⟨_, rfl⟩

theorem respond_processed_iff (done : List (Nat × String)) (table table' : TaskTable)
    (task : NewTask) (maxRetries : Nat) (seen : Option Task) (answer : Enqueued)
    (responded : table.respond task maxRetries seen = .ok (table', answer))
    (old : ∀ row ∈ table.rows, Processed done row) :
    (∀ row ∈ table'.rows, Processed done row) ↔
      ¬ ∃ before ∈ seen, before.status = .processing ∧ before.hash ≠ task.hash ∧
        ∃ row ∈ table.rows, row.id = before.id ∧ row.hasStatus .completed = true ∧
          (row.id, task.hash) ∉ done := by
  cases seen with
  | none =>
      simp only [TaskTable.respond] at responded
      cases inserted : table.insert task maxRetries with
      | error error => simp [inserted, bind, Except.bind] at responded
      | ok result =>
          simp only [inserted, bind, Except.bind, pure, Except.pure, Except.ok.injEq,
            Prod.mk.injEq] at responded
          obtain ⟨rfl, -⟩ := responded
          simpa using insert_processed done table result.1 task maxRetries result.2 inserted old
  | some before =>
      simp only [TaskTable.respond] at responded
      split at responded
      next same =>
        -- The request asks for what is there, and no branch writes the content.
        have kept : ∀ row ∈ table'.rows, Processed done row := by
          split at responded
          · cases responded; exact old
          · cases responded; exact old
          · cases responded; exact old
          · split at responded
            · cases responded; exact reset_processed done table before.id task old
            · cases responded; exact old
        refine iff_of_true kept ?_
        rintro ⟨found, ⟨rfl⟩, -, other, -⟩
        exact other same
      next other =>
        cases responded
        -- Only the update of a task in processing keeps the status, whatever it is by now.
        by_cases processing : before.status = .processing
        · rw [if_pos processing, updateContent_processed_iff done table before.id task old]
          simp [processing, other]
        · rw [if_neg processing]
          refine iff_of_true (reset_processed done table before.id task old) ?_
          rintro ⟨found, ⟨rfl⟩, held, -⟩
          exact processing held

theorem complete_honest (state : State) (honest : Honest state) (table : TaskTable) (now : Int)
    (id : Nat) (hash : String) (output : TaskOutput) (status : TaskStatus)
    (completed : state.table.complete now id hash output = .ok (table, status)) :
    ∀ row ∈ table.rows, Processed ((id, hash) :: state.done) row := by
  unfold TaskTable.complete at completed
  split at completed
  · cases completed
  · cases completed
    apply change_processed
    · exact fun row member => processed_cons _ row _ (honest row member)
    · intro row _ same
      -- A row whose content was replaced meanwhile is pending again.
      by_cases current : row.hash = hash
      · exact fun _ => by simp [TaskRow.complete, same, current]
      · exact processed_of_status _ _ .pending (by decide) (by simp [TaskRow.complete, current])

theorem recordFailure_honest (state : State) (honest : Honest state) (id : Nat)
    (hash error : String) (retryAt : Int) :
    ∀ row ∈ (state.table.recordFailure id hash error retryAt).1.rows, Processed state.done row := by
  unfold TaskTable.recordFailure
  split
  · exact honest
  · apply change_processed _ _ _ _ honest
    intro row _ _
    unfold TaskRow.recordFailure
    split
    · exact processed_of_status _ _ .pending (by decide) rfl
    · by_cases again : row.retryCount < row.maxRetries
      · exact processed_of_status _ _ .pending (by decide) (by simp [again])
      · exact processed_of_status _ _ .failed (by decide) (by simp [again])

theorem failTerminal_honest (state : State) (honest : Honest state) (table : TaskTable) (id : Nat)
    (hash error : String) (outcome : FailureOutcome)
    (failed : state.table.failTerminal id hash error = .ok (table, outcome)) :
    ∀ row ∈ table.rows, Processed state.done row := by
  unfold TaskTable.failTerminal at failed
  split at failed
  · cases failed
  · cases failed
    apply change_processed _ _ _ _ honest
    intro row _ _
    unfold TaskRow.failTerminal
    split
    · exact processed_of_status _ _ .failed (by decide) rfl
    · exact processed_of_status _ _ .pending (by decide) rfl

theorem step_honest_iff (maxRetries : Nat) (state : State) (honest : Honest state)
    (action : Action) : Honest (step maxRetries state action) ↔ ¬ Late state action := by
  -- Only the writing of a request can be late; all other steps keep the table honest.
  cases action with
  | lookUp task => exact iff_of_true honest (fun late => late)
  | write index =>
      simp only [step, Late]
      cases found : state.requests[index]? with
      | none => simpa using honest
      | some request =>
          simp only [Option.mem_some_iff, exists_eq_left', TaskTable.writeDown]
          cases responded : state.table.respond request.task maxRetries request.seen with
          | ok result =>
              exact respond_processed_iff state.done state.table result.1 request.task maxRetries
                request.seen result.2 responded honest
          | error error =>
              -- A request fails only as an insertion, so it saw no task.
              refine iff_of_true honest ?_
              rintro ⟨seen, present, -⟩
              rw [Option.mem_def] at present
              obtain ⟨result, ok⟩ := respond_seen state.table request.task maxRetries seen
              rw [present, ok] at responded
              cases responded
  | claim limit now =>
      refine iff_of_true ?_ (fun late => late)
      have claimed :=
        takeAll_processed state.done now (state.table.due limit now) state.table honest
      simp only [step, TaskTable.claim]
      split
      next table tasks taken => rw [taken] at claimed; exact claimed
      next table error taken => rw [taken] at claimed; exact claimed
  | complete worker now output =>
      refine iff_of_true ?_ (fun late => late)
      simp only [step]
      split
      · exact honest
      · split
        next table status completed =>
          exact complete_honest state honest table now _ _ output status completed
        · exact honest
  | recordFailure worker error retryAt =>
      refine iff_of_true ?_ (fun late => late)
      simp only [step]
      split
      · exact honest
      · exact recordFailure_honest state honest _ _ error retryAt
  | failTerminal worker error =>
      refine iff_of_true ?_ (fun late => late)
      simp only [step]
      split
      · exact honest
      · split
        next table outcome failed =>
          exact failTerminal_honest state honest table _ _ error outcome failed
        · exact honest

theorem run_take_succ (maxRetries : Nat) (actions : List Action) (count : Nat) (action : Action)
    (next : actions[count]? = some action) :
    run maxRetries (actions.take (count + 1)) =
      step maxRetries (run maxRetries (actions.take count)) action := by
  rw [run, List.take_add_one, next]
  simp [run]

/-- Every completed task of a run was processed at its hash, at all times, exactly if no request is
written down late. -/
theorem completed_tasks_processed_iff (maxRetries : Nat) (actions : List Action) :
    (∀ count, Honest (run maxRetries (actions.take count))) ↔
      ∀ count action, actions[count]? = some action →
        ¬ Late (run maxRetries (actions.take count)) action := by
  constructor
  · intro honest count action next
    rw [← step_honest_iff maxRetries _ (honest count) action, ← run_take_succ _ _ _ _ next]
    exact honest (count + 1)
  · -- The invariant is `Honest` itself, and the induction is on the length of the run.
    intro punctual count
    induction count with
    | zero => simp [run, Honest]
    | succ count ih =>
        cases next : actions[count]? with
        | none =>
            rw [List.take_add_one, next]
            simpa using ih
        | some action =>
            rw [run_take_succ _ _ _ _ next, step_honest_iff maxRetries _ ih]
            exact punctual count action next

-- The second request sees the task in processing, and its worker is done before it is written.
example :
    ¬ Honest (run 3 [.lookUp ⟨"a.ts", 1, "h1", none⟩, .write 0, .claim 1 0,
      .lookUp ⟨"a.ts", 2, "h2", none⟩, .complete 0 1 ⟨1, 0⟩, .write 0]) := by
  decide

end CodeGraph.Interleaving
