import CodeGraph.Proofs.Queue.Landing
import CodeGraph.Proofs.TaskTable.Operations

/-!
Tasks whose content was replaced while a worker had them. Whatever the worker reports is about the
old content, so the task waits again for the new one.

A report of a failure gives the new content a fresh start. A report of success does not: the task
keeps the retries that the old content used up, and the time before which it was not to be tried.
-/

set_option autoImplicit false

namespace CodeGraph

namespace TaskRow

/-- A task that waits again as if it were new, with the content and the limit that it has. -/
structure Restarted (before after : TaskRow) : Prop where
  same : before.SameTask after
  pending : after.hasStatus .pending = true
  retryCount : after.retryCount = 0
  availableAt : after.availableAt = 0
  errorMessage : after.errorMessage = none

/-- A task that waits again with what was counted against it before. -/
structure Resumed (before after : TaskRow) : Prop where
  same : before.SameTask after
  pending : after.hasStatus .pending = true
  retryCount : after.retryCount = before.retryCount
  availableAt : after.availableAt = before.availableAt
  errorMessage : after.errorMessage = none

variable {row after : TaskRow} {hash : String}

theorem remaining_of_pending (pending : row.hasStatus .pending = true) :
    row.remaining = (row.maxRetries - row.retryCount).toNat + 1 := by
  simp [remaining, pending]

theorem Restarted.remaining_eq (restarted : row.Restarted after) :
    after.remaining = row.maxRetries.toNat + 1 := by
  rw [remaining_of_pending restarted.pending, restarted.same.maxRetries, restarted.retryCount,
    Int.sub_zero]

theorem Resumed.remaining_eq (resumed : row.Resumed after) :
    after.remaining = (row.maxRetries - row.retryCount).toNat + 1 := by
  rw [remaining_of_pending resumed.pending, resumed.same.maxRetries, resumed.retryCount]

theorem Resumed.restarted_iff (resumed : row.Resumed after) :
    row.Restarted after ↔ row.retryCount = 0 ∧ row.availableAt = 0 := by
  constructor
  · intro restarted
    exact ⟨resumed.retryCount.symm.trans restarted.retryCount,
      resumed.availableAt.symm.trans restarted.availableAt⟩
  · intro untried
    exact ⟨resumed.same, resumed.pending, resumed.retryCount.trans untried.1,
      resumed.availableAt.trans untried.2, resumed.errorMessage⟩

theorem restarted_recordFailure (changed : row.hash ≠ hash) (error : String) (retryAt : Int) :
    row.Restarted (row.recordFailure hash error retryAt) := by
  have same := row.sameTask_recordFailure hash error retryAt
  simp only [recordFailure, bne_iff_ne.mpr changed, if_true] at same ⊢
  exact ⟨same, by simp [hasStatus], rfl, rfl, rfl⟩

theorem restarted_failTerminal (changed : row.hash ≠ hash) (error : String) :
    row.Restarted (row.failTerminal hash error) := by
  have same := row.sameTask_failTerminal hash error
  simp only [failTerminal, beq_eq_false_iff_ne.mpr changed, Bool.false_eq_true, if_false] at same ⊢
  exact ⟨same, by simp [hasStatus], rfl, rfl, rfl⟩

theorem resumed_complete (changed : row.hash ≠ hash) (now : Int) (output : TaskOutput) :
    row.Resumed (row.complete now hash output) :=
  ⟨row.sameTask_complete now hash output, by simp [complete, hasStatus, changed], rfl, rfl, rfl⟩

end TaskRow

namespace TaskTable

variable {table : TaskTable}

theorem row?_change {row : TaskRow} (found : table.row? row.id = some row) {f : TaskRow → TaskRow}
    (keeps : ∀ row, (f row).id = row.id) : (table.change row.id f).row? row.id = some (f row) := by
  have updated := Table.get?_update_self row.id keeps table.rows
  rw [row?] at found ⊢
  rw [TaskTable.change, updated, found]
  rfl

/-- A worker reports on content that its task no longer has. The task waits again in any case, with
all its retries if the worker failed; if it was successful, then just in the case that nothing was
counted against the old content. -/
theorem requeue_is_fresh_iff (operations : List Operation) {row : TaskRow}
    (member : row ∈ (run operations).rows) {hash : String} (changed : row.hash ≠ hash) :
    (∀ error retryAt, ∃ table after,
      (run operations).recordFailure row.id hash error retryAt = (table, .ok .requeued) ∧
      table.row? row.id = some after ∧ row.Restarted after ∧
      after.remaining = row.maxRetries.toNat + 1) ∧
    (∀ error, ∃ table after,
      (run operations).failTerminal row.id hash error = .ok (table, .requeued) ∧
      table.row? row.id = some after ∧ row.Restarted after ∧
      after.remaining = row.maxRetries.toNat + 1) ∧
    ∀ now output, ∃ table after,
      (run operations).complete now row.id hash output = .ok (table, .pending) ∧
      table.row? row.id = some after ∧ row.Resumed after ∧
      after.remaining = (row.maxRetries - row.retryCount).toNat + 1 ∧
      (row.Restarted after ↔ row.retryCount = 0 ∧ row.availableAt = 0) := by
  have found := (sound_run operations).row?_eq member
  refine ⟨fun error retryAt => ?_, fun error => ?_, fun now output => ?_⟩
  · have restarted := TaskRow.restarted_recordFailure changed error retryAt
    refine ⟨_, _, ?_,
      row?_change found fun row => (row.sameTask_recordFailure hash error retryAt).id, restarted,
      restarted.remaining_eq⟩
    simp [TaskTable.recordFailure, found, changed]
  · have restarted := TaskRow.restarted_failTerminal changed error
    refine ⟨_, _, ?_, row?_change found fun row => (row.sameTask_failTerminal hash error).id,
      restarted, restarted.remaining_eq⟩
    simp [TaskTable.failTerminal, found, changed]
  · have resumed := TaskRow.resumed_complete changed now output
    refine ⟨_, _, ?_, row?_change found fun row => (row.sameTask_complete now hash output).id,
      resumed, resumed.remaining_eq, resumed.restarted_iff⟩
    simp [TaskTable.complete, found, changed]

def replacedInSecondAttempt : List Operation :=
  [.insert ⟨"a.js", 1, "h1", none⟩ 1, .claim 1 0, .recordFailure 0 "h1" "failed" 5, .claim 1 5,
    .updateContent 0 ⟨"a.js", 2, "h2", none⟩]

def secondAttempt : TaskRow :=
  { id := 0, path := "a.js", name := "a.js", size := 2, hash := "h2", status := "processing"
    retryCount := 1, maxRetries := 1, startedAt := some 5, availableAt := 5
    errorMessage := some "failed" }

/-- The new content has no retry left, though it was never tried, and is to wait for the time that
the old content was given. -/
theorem success_keeps_used_retries :
    secondAttempt ∈ (run replacedInSecondAttempt).rows ∧
    secondAttempt.hasStatus .processing = true ∧ secondAttempt.hash ≠ "h1" ∧
    ∃ table after,
      (run replacedInSecondAttempt).complete 6 0 "h1" ⟨1, 0⟩ = .ok (table, .pending) ∧
      table.row? 0 = some after ∧ secondAttempt.Resumed after ∧ after.remaining = 1 ∧
      ¬secondAttempt.Restarted after := by
  have member : secondAttempt ∈ (run replacedInSecondAttempt).rows := by decide
  have changed : secondAttempt.hash ≠ "h1" := by decide
  obtain ⟨-, -, completed⟩ := requeue_is_fresh_iff replacedInSecondAttempt member changed
  obtain ⟨table, after, written, found, resumed, remaining, restarted⟩ := completed 6 ⟨1, 0⟩
  refine ⟨member, by decide, changed, table, after, written, found, resumed, remaining, ?_⟩
  rw [restarted]
  decide

end TaskTable

end CodeGraph
