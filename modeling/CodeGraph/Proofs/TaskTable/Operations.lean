import CodeGraph.Proofs.TaskTable
import Mathlib.Data.List.Induction

/-!
Task tables that operations lead to, in any order and with any arguments of the right width.

`Applied` says once what an operation can do to a table: it adds a row, revises rows in their place
or drops rows. From that follow the invariants of every table that grew from the empty one: it is
sound, and its rows hold no numbers but those that some operation gave, cut to the largest that the
table holds.
-/

set_option autoImplicit false

namespace CodeGraph.TaskTable

inductive Operation where
  | insert (task : NewTask) (maxRetries : UInt32)
  | reset (id : Nat) (task : NewTask)
  | updateContent (id : Nat) (task : NewTask)
  | claim (limit : Nat) (now : Int)
  | report (id : Nat) (step : String) (percent : UInt8)
  | complete (now : Int) (id : Nat) (hash : String) (output : TaskOutput)
  | recordFailure (id : Nat) (hash error : String) (retryAt : Int)
  | failTerminal (id : Nat) (hash error : String)
  | retryFailed
  | recover
  | deleteStatus (status : TaskStatus)
  | deleteAll
  | removePath (path : String)

namespace Operation

def request? : Operation → Option NewTask
  | .insert task _ => some task
  | .reset _ task => some task
  | .updateContent _ task => some task
  | _ => none

def output? : Operation → Option TaskOutput
  | .complete _ _ _ output => some output
  | _ => none

end Operation

def apply (table : TaskTable) : Operation → TaskTable
  | .insert task maxRetries =>
      match table.insert task maxRetries.toNat with
      | .ok (after, _) => after
      | .error _ => table
  | .reset id task => table.reset id task
  | .updateContent id task => table.updateContent id task
  | .claim limit now => (table.claim limit now).1
  | .report id step percent => table.report id step percent.toNat
  | .complete now id hash output =>
      match table.complete now id hash output with
      | .ok (after, _) => after
      | .error _ => table
  | .recordFailure id hash error retryAt => (table.recordFailure id hash error retryAt).1
  | .failTerminal id hash error =>
      match table.failTerminal id hash error with
      | .ok (after, _) => after
      | .error _ => table
  | .retryFailed => table.retryFailed
  | .recover => table.recover
  | .deleteStatus status => table.deleteStatus status
  | .deleteAll => table.deleteAll
  | .removePath path => table.removePath path

def run (operations : List Operation) : TaskTable :=
  operations.foldl apply {}

theorem run_concat (operations : List Operation) (operation : Operation) :
    run (operations ++ [operation]) = (run operations).apply operation := by
  simp [run]

structure Revised (operation : Operation) (before after : TaskRow) : Prop where
  id : after.id = before.id
  path : after.path = before.path
  sound : before.Sound → after.Sound
  size : after.size = before.size ∨
    ∃ task, operation.request? = some task ∧ after.size = saturated task.size
  counts : after.chunks = before.chunks ∧ after.edges = before.edges ∨
    ∃ output, operation.output? = some output ∧ after.chunks = saturated output.chunks ∧
      after.edges = saturated output.edges

inductive Applied (table : TaskTable) (operation : Operation) : TaskTable → Prop
  | inserted {task : NewTask} {maxRetries : UInt32} {after : TaskTable} {id : Nat}
      (asked : operation = .insert task maxRetries)
      (inserted : table.insert task maxRetries.toNat = .ok (after, id)) :
      Applied table operation after
  | revised {f : TaskRow → TaskRow} (rows : ∀ row, Revised operation row (f row)) :
      Applied table operation { table with rows := table.rows.map f }
  | kept (p : TaskRow → Bool) : Applied table operation (table.keep p)

variable {table : TaskTable} {operation : Operation}

theorem Revised.refl (row : TaskRow) : Revised operation row row :=
  ⟨rfl, rfl, fun sound => sound, .inl rfl, .inl ⟨rfl, rfl⟩⟩

theorem Applied.same : Applied table operation table := by
  have applied : Applied table operation { table with rows := table.rows.map id } :=
    .revised .refl
  rwa [List.map_id] at applied

theorem Applied.revisedWhere {f : TaskRow → TaskRow} (p : TaskRow → Prop) [DecidablePred p]
    (rows : ∀ row, Revised operation row (f row)) :
    Applied table operation
      { table with rows := table.rows.map (fun row => if p row then f row else row) } := by
  apply Applied.revised
  intro row
  split
  · exact rows row
  · exact .refl row

theorem Revised.recordFailure (hash error : String) (retryAt : Int) (row : TaskRow) :
    Revised operation row (row.recordFailure hash error retryAt) := by
  refine ⟨?_, ?_, fun sound => sound.recordFailure hash error retryAt, .inl ?_, .inl ⟨?_, ?_⟩⟩ <;>
  · unfold TaskRow.recordFailure
    split <;> rfl

theorem Revised.failTerminal (hash error : String) (row : TaskRow) :
    Revised operation row (row.failTerminal hash error) := by
  refine ⟨?_, ?_, fun sound => sound.failTerminal hash error, .inl ?_, .inl ⟨?_, ?_⟩⟩ <;>
  · unfold TaskRow.failTerminal
    split <;> rfl

theorem Sound.applied (sound : table.Sound) (operation : Operation) :
    Applied table operation (table.apply operation) := by
  cases operation with
  | insert task maxRetries =>
      simp only [apply]
      split
      next after id inserted => exact .inserted rfl inserted
      next => exact .same
  | reset id task =>
      refine .revisedWhere (·.id = id) fun row => ⟨rfl, rfl, fun old => ?_, .inr ⟨task, rfl, rfl⟩,
        .inl ⟨rfl, rfl⟩⟩
      exact { old with
        status := ⟨.pending, rfl⟩, size := TaskRow.saturated_fits _, progress := by simp
        retryCount := ⟨Int.le_refl 0, Int.le_trans old.retryCount.1 old.retryCount.2⟩ }
  | updateContent id task =>
      exact .revisedWhere (·.id = id) fun row => ⟨rfl, rfl,
        fun old => { old with size := TaskRow.saturated_fits _ }, .inr ⟨task, rfl, rfl⟩,
        .inl ⟨rfl, rfl⟩⟩
  | claim limit now =>
      simp only [apply, sound.claim_eq]
      exact .revisedWhere (·.id ∈ table.due limit now) fun row => ⟨rfl, rfl,
        fun old => old.started now, .inl rfl, .inl ⟨rfl, rfl⟩⟩
  | report id step percent =>
      refine .revisedWhere (fun row => row.id = id ∧ row.hasStatus .processing = true)
        fun row => ⟨rfl, rfl, fun old => { old with progress := ?_ }, .inl rfl, .inl ⟨rfl, rfl⟩⟩
      have narrow := percent.toNat_lt
      simp only
      omega
  | complete now id hash output =>
      simp only [apply, TaskTable.complete]
      cases table.row? id with
      | none => exact .same
      | some row =>
          exact .revisedWhere (·.id = id) fun row => ⟨rfl, rfl,
            fun old => old.complete now hash output, .inl rfl, .inr ⟨output, rfl, rfl, rfl⟩⟩
  | recordFailure id hash error retryAt =>
      simp only [apply, TaskTable.recordFailure]
      cases table.row? id with
      | none => exact .same
      | some row => exact .revisedWhere (·.id = id) (.recordFailure hash error retryAt)
  | failTerminal id hash error =>
      simp only [apply, TaskTable.failTerminal]
      cases table.row? id with
      | none => exact .same
      | some row => exact .revisedWhere (·.id = id) (.failTerminal hash error)
  | retryFailed =>
      refine .revisedWhere (·.hasStatus .failed = true) fun row => ⟨rfl, rfl, fun old => ?_,
        .inl rfl, .inl ⟨rfl, rfl⟩⟩
      exact { old with
        status := ⟨.pending, rfl⟩, progress := by simp
        retryCount := ⟨Int.le_refl 0, Int.le_trans old.retryCount.1 old.retryCount.2⟩ }
  | recover =>
      exact .revisedWhere (·.hasStatus .processing = true) fun row => ⟨rfl, rfl,
        fun old => { old with status := ⟨.pending, rfl⟩, progress := by simp }, .inl rfl,
        .inl ⟨rfl, rfl⟩⟩
  | deleteStatus status => exact .kept _
  | deleteAll =>
      -- Dropping all rows is keeping none of them.
      have none : table.apply .deleteAll = table.keep (fun _ => false) := by
        simp [apply, TaskTable.keep, TaskTable.deleteAll]
      rw [none]
      exact .kept _
  | removePath path => exact .kept _

theorem Applied.sound {after : TaskTable} (applied : Applied table operation after)
    (sound : table.Sound) : after.Sound := by
  cases applied with
  | @inserted task maxRetries _ id asked inserted =>
      have bounded : maxRetries.toNat ≤ maxCount := by
        have narrow := maxRetries.toNat_lt
        unfold maxCount
        omega
      exact sound.insert bounded inserted
  | revised rows =>
      exact sound.map _ (fun row => (rows row).id) (fun row => (rows row).path)
        fun row member => (rows row).sound (sound.rows row member)
  | kept p => exact sound.keep p

theorem sound_run (operations : List Operation) : (run operations).Sound := by
  induction operations using List.reverseRecOn with
  | nil => exact empty_sound 0
  | append_singleton operations operation ih =>
      rw [run_concat]
      exact (ih.applied operation).sound ih

/-- The size of a row is that of some request, and its counts those of some output if there was
one; both are cut to what the table holds. -/
structure Written (operations : List Operation) (row : TaskRow) : Prop where
  size : ∃ task ∈ operations.filterMap Operation.request?, row.size = saturated task.size
  counts : row.chunks = 0 ∧ row.edges = 0 ∨
    ∃ output ∈ operations.filterMap Operation.output?,
      row.chunks = saturated output.chunks ∧ row.edges = saturated output.edges

theorem Written.concat {operations : List Operation} {row : TaskRow}
    (written : Written operations row) (operation : Operation) :
    Written (operations ++ [operation]) row where
  size := by
    obtain ⟨task, member, size⟩ := written.size
    exact ⟨task, by rw [List.filterMap_append]; exact List.mem_append_left _ member, size⟩
  counts := by
    refine written.counts.imp_right ?_
    rintro ⟨output, member, counts⟩
    exact ⟨output, by rw [List.filterMap_append]; exact List.mem_append_left _ member, counts⟩

theorem Written.revised {operations : List Operation} {before after : TaskRow}
    (written : Written operations before) (revised : Revised operation before after) :
    Written (operations ++ [operation]) after where
  size := by
    rcases revised.size with same | ⟨task, asked, size⟩
    · rw [same]
      exact (written.concat operation).size
    · exact ⟨task, by simp [asked], size⟩
  counts := by
    rcases revised.counts with same | ⟨output, given, counts⟩
    · rw [same.1, same.2]
      exact (written.concat operation).counts
    · exact .inr ⟨output, by simp [given], counts⟩

theorem Applied.written {after : TaskTable} (applied : Applied table operation after)
    {operations : List Operation} (written : ∀ row ∈ table.rows, Written operations row) :
    ∀ row ∈ after.rows, Written (operations ++ [operation]) row := by
  intro row member
  cases applied with
  | @inserted task maxRetries _ id asked inserted =>
      unfold TaskTable.insert at inserted
      split at inserted
      · cases inserted
      · cases inserted
        rcases List.mem_append.mp member with old | new
        · exact (written row old).concat operation
        · rw [List.mem_singleton.mp new]
          exact ⟨⟨task, by simp [asked, Operation.request?], rfl⟩, .inl ⟨rfl, rfl⟩⟩
  | revised rows =>
      obtain ⟨before, old, rfl⟩ := List.mem_map.mp member
      exact (written before old).revised (rows before)
  | kept p => exact (written row (List.mem_of_mem_filter member)).concat operation

theorem written_run (operations : List Operation) :
    ∀ row ∈ (run operations).rows, Written operations row := by
  induction operations using List.reverseRecOn with
  | nil => simp [run]
  | append_singleton operations operation ih =>
      rw [run_concat]
      exact ((sound_run operations).applied operation).written ih

theorem countP_hasStatus (rows : List TaskRow)
    (named : ∀ row ∈ rows, ∃ status : TaskStatus, row.status = status.name) :
    rows.countP (TaskRow.hasStatus .pending) + rows.countP (TaskRow.hasStatus .processing) +
      rows.countP (TaskRow.hasStatus .completed) + rows.countP (TaskRow.hasStatus .failed) =
        rows.length := by
  induction rows with
  | nil => rfl
  | cons row rest ih =>
      have others := ih fun row inside => named row (List.mem_cons_of_mem _ inside)
      obtain ⟨status, name⟩ := named row (List.mem_cons_self ..)
      -- The first row counts in its own status and in no other.
      simp only [List.countP_cons, List.length_cons, TaskRow.hasStatus_iff_of_name name]
      cases status <;> simp <;> omega

theorem Sound.stats_total (sound : table.Sound) :
    table.stats.pending + table.stats.processing + table.stats.completed + table.stats.failed =
      table.stats.total :=
  countP_hasStatus table.rows fun row member => (sound.rows row member).status

/-- Whatever operations led to a table: no two rows share a path or an identifier, no row counts
more retries than it may have, every row reads back, with its numbers cut to what the table holds,
and each row counts in one status. -/
theorem run_keeps_table_sound (operations : List Operation) :
    Table.Unique TaskRow.path (run operations).rows ∧
    Table.Unique TaskRow.id (run operations).rows ∧
    (∀ row ∈ (run operations).rows, row.retryCount ≤ row.maxRetries) ∧
    (∀ row ∈ (run operations).rows, ∃ task, row.task = .ok task ∧
      (∃ given ∈ operations.filterMap Operation.request?,
        task.size = min given.size maxInteger) ∧
      (task.output = {} ∨ ∃ given ∈ operations.filterMap Operation.output?,
        task.output = ⟨min given.chunks maxInteger, min given.edges maxInteger⟩)) ∧
    (run operations).stats.pending + (run operations).stats.processing +
      (run operations).stats.completed + (run operations).stats.failed =
        (run operations).stats.total ∧
    (run operations).stats.total = (run operations).rows.length := by
  have sound := sound_run operations
  refine ⟨sound.paths, sound.ids, ?_, ?_, sound.stats_total, rfl⟩
  · intro row member
    exact (sound.rows row member).retryCount.2
  · intro row member
    obtain ⟨status, named⟩ := (sound.rows row member).status
    obtain ⟨⟨given, asked, size⟩, counts⟩ := written_run operations row member
    refine ⟨row.asTask status, (sound.rows row member).task_eq named, ⟨given, asked, ?_⟩, ?_⟩
    · simp only [TaskRow.asTask, size, TaskRow.toNat_saturated]
    · rcases counts with ⟨chunks, edges⟩ | ⟨output, made, chunks, edges⟩
      · exact .inl (by simp [TaskRow.asTask, chunks, edges])
      · exact .inr ⟨output, made, by
          simp only [TaskRow.asTask, chunks, edges, TaskRow.toNat_saturated]⟩

end CodeGraph.TaskTable
