import CodeGraph.Proofs.Queue.Enqueue
import CodeGraph.Proofs.Queue.Landing
import CodeGraph.Proofs.TaskTable.Operations

set_option autoImplicit false

namespace CodeGraph.TaskTable

def Operation.effect (table : TaskTable) (row : TaskRow) : Operation → Option TaskRow
  | .insert _ _ => some row
  | .reset id task => some (if row.id = id then renewed task row else row)
  | .updateContent id task => some (if row.id = id then replaced task row else row)
  | .claim limit now => some (if row.id ∈ table.due limit now then row.started now else row)
  | .report id step percent =>
      some (if row.id = id ∧ row.hasStatus .processing then
        { row with step := some step, progress := percent.toNat } else row)
  | .complete now id hash output =>
      some (if row.id = id then row.complete now hash output else row)
  | .recordFailure id hash error retryAt =>
      some (if row.id = id then row.recordFailure hash error retryAt else row)
  | .failTerminal id hash error => some (if row.id = id then row.failTerminal hash error else row)
  | .retryFailed =>
      some (if row.hasStatus .failed then
        { row with
          status := TaskStatus.pending.name, retryCount := 0, errorMessage := none
          availableAt := 0, progress := 0 } else row)
  | .recover =>
      some (if row.hasStatus .processing then
        { row with status := TaskStatus.pending.name, progress := 0, step := none } else row)
  | .deleteStatus status => if row.hasStatus status then none else some row
  | .deleteAll => none
  | .removePath path => if row.path = path then none else some row

variable {table : TaskTable}

theorem change_of_missing {id : Nat} (missing : table.row? id = none) (f : TaskRow → TaskRow) :
    table.change id f = table := by
  have others : ∀ row ∈ table.rows, row.id ≠ id := Table.get?_eq_none_iff.mp missing
  have same : Table.update TaskRow.id id f table.rows = table.rows.map fun row => row := by
    apply List.map_congr_left
    intro row member
    rw [if_neg (others row member)]
  rw [TaskTable.change, same, List.map_id']

theorem complete_eq (now : Int) (id : Nat) (hash : String) (output : TaskOutput) :
    table.apply (.complete now id hash output) =
      table.change id (TaskRow.complete now hash output) := by
  simp only [TaskTable.apply, TaskTable.complete]
  cases found : table.row? id with
  | none => rw [change_of_missing found]
  | some row => rfl

theorem recordFailure_eq (id : Nat) (hash error : String) (retryAt : Int) :
    table.apply (.recordFailure id hash error retryAt) =
      table.change id (TaskRow.recordFailure hash error retryAt) := by
  simp only [TaskTable.apply, TaskTable.recordFailure]
  cases found : table.row? id with
  | none => rw [change_of_missing found]
  | some row => rfl

theorem failTerminal_eq (id : Nat) (hash error : String) :
    table.apply (.failTerminal id hash error) =
      table.change id (TaskRow.failTerminal hash error) := by
  simp only [TaskTable.apply, TaskTable.failTerminal]
  cases found : table.row? id with
  | none => rw [change_of_missing found]
  | some row => rfl

theorem Sound.rows_apply (sound : table.Sound) (operation : Operation) :
    ∃ added, (table.apply operation).rows =
        table.rows.filterMap (operation.effect table) ++ added ∧
      ∀ row ∈ added, row.id = table.nextId := by
  -- All but an insertion leave rows in their place, changed or not, or drop them.
  have settled (same : (table.apply operation).rows =
      table.rows.filterMap (operation.effect table)) :
      ∃ added, (table.apply operation).rows =
          table.rows.filterMap (operation.effect table) ++ added ∧
        ∀ row ∈ added, row.id = table.nextId :=
    ⟨[], by rw [same, List.append_nil], by simp⟩
  have revised (f : TaskRow → TaskRow) :
      table.rows.map f = table.rows.filterMap fun row => some (f row) := by
    rw [List.filterMap_eq_map']
  cases operation with
  | insert task maxRetries =>
      have all : table.rows.filterMap ((Operation.insert task maxRetries).effect table) =
          table.rows := by
        simp [Operation.effect]
      cases found : table.at? task.path with
      | none =>
          refine ⟨[requestRow table.nextId task maxRetries.toNat], ?_, by simp [requestRow]⟩
          rw [all, TaskTable.apply, insert_eq found]
      | some row =>
          obtain ⟨member, same⟩ := sound.at?_eq_some.mp found
          have taken : Table.has TaskRow.path table.rows task.path = true :=
            Table.has_iff.mpr ⟨row, member, same⟩
          exact settled (by simp [all, TaskTable.apply, TaskTable.insert, taken])
  | reset id task => exact settled (revised _)
  | updateContent id task => exact settled (revised _)
  | claim limit now =>
      apply settled
      rw [TaskTable.apply, sound.claim_eq]
      exact revised _
  | report id step percent => exact settled (revised _)
  | complete now id hash output =>
      apply settled
      rw [complete_eq]
      exact revised _
  | recordFailure id hash error retryAt =>
      apply settled
      rw [recordFailure_eq]
      exact revised _
  | failTerminal id hash error =>
      apply settled
      rw [failTerminal_eq]
      exact revised _
  | retryFailed => exact settled (revised _)
  | recover => exact settled (revised _)
  | deleteStatus status =>
      apply settled
      simp only [TaskTable.apply, TaskTable.deleteStatus, TaskTable.keep,
        ← List.filterMap_eq_filter]
      congr 1
      funext row
      cases has : row.hasStatus status <;> simp [Operation.effect, has, Option.guard]
  | deleteAll => exact settled (by simp [TaskTable.apply, TaskTable.deleteAll, Operation.effect])
  | removePath path =>
      apply settled
      simp only [TaskTable.apply, TaskTable.removePath, Table.erase, ← List.filterMap_eq_filter]
      congr 1
      funext row
      by_cases same : row.path = path <;> simp [Operation.effect, same, Option.guard]

theorem Sound.mem_apply (sound : table.Sound) {operation : Operation} {row after : TaskRow}
    (member : row ∈ table.rows) (left : operation.effect table row = some after) :
    after ∈ (table.apply operation).rows := by
  obtain ⟨added, rows, -⟩ := sound.rows_apply operation
  rw [rows]
  exact List.mem_append_left _ (List.mem_filterMap.mpr ⟨row, member, left⟩)

theorem Sound.of_mem_apply (sound : table.Sound) {operation : Operation} {after : TaskRow}
    (member : after ∈ (table.apply operation).rows) :
    (∃ row ∈ table.rows, operation.effect table row = some after) ∨ after.id = table.nextId := by
  obtain ⟨added, rows, fresh⟩ := sound.rows_apply operation
  rw [rows] at member
  rcases List.mem_append.mp member with old | new
  · exact .inl (List.mem_filterMap.mp old)
  · exact .inr (fresh after new)

theorem effect_id {operation : Operation} {row after : TaskRow}
    (left : operation.effect table row = some after) : after.id = row.id := by
  have kept {p : Prop} [Decidable p] {changed : TaskRow}
      (left : some (if p then changed else row) = some after) (same : changed.id = row.id) :
      after.id = row.id := by
    cases left
    split
    · exact same
    · rfl
  cases operation with
  | insert => cases left; rfl
  | reset | updateContent | claim | report | complete | retryFailed | recover =>
      exact kept left rfl
  | recordFailure id hash error retryAt =>
      exact kept left (row.sameTask_recordFailure hash error retryAt).id
  | failTerminal id hash error => exact kept left (row.sameTask_failTerminal hash error).id
  | deleteStatus status =>
      simp only [Operation.effect] at left
      split at left <;> cases left
      rfl
  | deleteAll => cases left
  | removePath path =>
      simp only [Operation.effect] at left
      split at left <;> cases left
      rfl

theorem nextId_insert {after : TaskTable} {task : NewTask} {maxRetries id : Nat}
    (inserted : table.insert task maxRetries = .ok (after, id)) :
    after.nextId = table.nextId + 1 := by
  unfold TaskTable.insert at inserted
  split at inserted
  · cases inserted
  · cases inserted
    rfl

theorem Sound.nextId_apply (sound : table.Sound) (operation : Operation) :
    table.nextId ≤ (table.apply operation).nextId := by
  have applied := sound.applied operation
  generalize table.apply operation = after at applied
  cases applied with
  | inserted _ inserted => exact nextId_insert inserted ▸ Nat.le_succ _
  | revised _ => exact Nat.le_refl _
  | kept _ => exact Nat.le_refl _

end CodeGraph.TaskTable
