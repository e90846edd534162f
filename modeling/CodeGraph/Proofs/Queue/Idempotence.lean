import CodeGraph.Proofs.Queue.Enqueue
import CodeGraph.Proofs.TaskTable.Operations

/-!
Requests that are made twice. A request leaves one row for its path, with its content, and no other
row changes. That row is at rest: a further request for the same content finds it as it should be,
answers as the first one did and leaves the table alone.
-/

set_option autoImplicit false

namespace CodeGraph

namespace TaskRow

def waits (row : TaskRow) : Bool :=
  row.hasStatus .pending || row.hasStatus .processing

/-- The row asks for nothing more: it did not fail, or it has no retries left. -/
def AtRest (row : TaskRow) : Prop :=
  row.hasStatus .failed = true → row.maxRetries ≤ row.retryCount

/-- The content of the row is dealt with, successfully or for good. -/
def Closed (row : TaskRow) : Prop :=
  row.hasStatus .completed = true ∨ row.hasStatus .failed = true ∧ row.maxRetries ≤ row.retryCount

variable {row : TaskRow}

theorem waits_eq_of_name {status : TaskStatus} (named : row.status = status.name) :
    row.waits = (status == .pending || status == .processing) := by
  cases status <;> simp [waits, hasStatus, named, TaskStatus.name]

theorem waits_iff : row.waits = true ↔
    row.hasStatus .pending = true ∨ row.hasStatus .processing = true := by
  simp [waits]

theorem atRest_of_waits (waits : row.waits = true) : row.AtRest := by
  intro failed
  rcases waits_iff.mp waits with pending | held
  · cases status_unique pending failed
  · cases status_unique held failed

theorem Closed.atRest (closed : row.Closed) : row.AtRest := by
  intro failed
  rcases closed with completed | spent
  · cases status_unique completed failed
  · exact spent.2

theorem Closed.waits_eq (closed : row.Closed) : row.waits = false := by
  rw [Bool.eq_false_iff, ne_eq, waits_iff]
  rintro (pending | held) <;> rcases closed with completed | ⟨failed, -⟩
  · cases status_unique pending completed
  · cases status_unique pending failed
  · cases status_unique held completed
  · cases status_unique held failed

end TaskRow

namespace TaskTable

variable {table after : TaskTable} {task : NewTask} {maxRetries : Nat}

theorem respond_id {seen : Option Task} {answer : Enqueued}
    (responded : table.respond task maxRetries seen = .ok (after, answer)) :
    answer.id = (seen.map Task.id).getD table.nextId := by
  cases seen with
  | none =>
      obtain ⟨⟨grown, id⟩, inserted, answered⟩ := Table.of_bind_eq_ok responded
      cases answered
      unfold TaskTable.insert at inserted
      split at inserted
      · cases inserted
      · cases inserted
        rfl
  | some old =>
      simp only [TaskTable.respond] at responded
      split at responded
      · split at responded
        · cases responded; rfl
        · cases responded; rfl
        · cases responded; rfl
        · split at responded <;> cases responded <;> rfl
      · cases responded; rfl

theorem Sound.getByPath_id (sound : table.Sound) {path : String} {seen : Option Task}
    (read : table.getByPath path = .ok seen) :
    seen.map Task.id = (table.at? path).map TaskRow.id := by
  cases found : table.at? path with
  | none =>
      cases (Sound.getByPath_none found).symm.trans read
      rfl
  | some row =>
      obtain ⟨status, named⟩ := (sound.rows row (sound.at?_eq_some.mp found).1).status
      cases (sound.getByPath_some found named).symm.trans read
      rfl

theorem Sound.erase_change (sound : table.Sound) {row : TaskRow} (member : row ∈ table.rows)
    {f : TaskRow → TaskRow} (keeps : ∀ row, (f row).path = row.path) :
    Table.erase TaskRow.path row.path (table.change row.id f).rows =
      Table.erase TaskRow.path row.path table.rows := by
  rw [sound.change_eq member]
  exact Table.erase_update row.path keeps table.rows

structure Accepted (table : TaskTable) (task : NewTask) (after : TaskTable) (row : TaskRow) :
    Prop where
  sound : after.Sound
  found : after.at? task.path = some row
  hash : row.hash = task.hash
  id : row.id = ((table.at? task.path).map TaskRow.id).getD table.nextId
  rest : row.AtRest
  others : Table.erase TaskRow.path task.path after.rows =
    Table.erase TaskRow.path task.path table.rows
  kept : ∀ old, table.at? task.path = some old → old.hash = task.hash → old.Closed → row = old
  nextId : table.nextId ≤ after.nextId

theorem Accepted.same {row : TaskRow} (sound : table.Sound)
    (found : table.at? task.path = some row) (hash : row.hash = task.hash) (rest : row.AtRest) :
    Accepted table task table row := by
  refine ⟨sound, found, hash, by rw [found]; rfl, rest, rfl, ?_, Nat.le_refl _⟩
  intro old present _ _
  exact Option.some.inj (found.symm.trans present)

theorem Accepted.inserted (sound : table.Sound) (bounded : maxRetries ≤ maxCount)
    (missing : table.at? task.path = none) :
    Accepted table task
      { rows := table.rows ++ [requestRow table.nextId task maxRetries]
        nextId := table.nextId + 1 }
      (requestRow table.nextId task maxRetries) := by
  refine ⟨sound.insert bounded (insert_eq missing maxRetries), ?_, rfl, by rw [missing]; rfl, ?_,
    ?_, ?_, Nat.le_succ _⟩
  · rw [at?_insert missing, if_pos rfl]
  · exact TaskRow.atRest_of_waits (by simp [TaskRow.waits, TaskRow.hasStatus, requestRow])
  · simp [Table.erase, requestRow]
  · intro old present
    cases missing.symm.trans present

theorem Accepted.changed {old row : TaskRow} {f : TaskRow → TaskRow} (sound : table.Sound)
    (found : table.at? task.path = some old) (unsettled : old.hash = task.hash → ¬old.Closed)
    (keeps : ∀ row, (f row).path = row.path) (made : f old = row) (sameId : row.id = old.id)
    (hash : row.hash = task.hash) (waits : row.waits = true)
    (sound' : (table.change old.id f).Sound) :
    Accepted table task (table.change old.id f) row := by
  obtain ⟨member, same⟩ := sound.at?_eq_some.mp found
  refine ⟨sound', ?_, hash, by rw [found]; exact sameId, TaskRow.atRest_of_waits waits, ?_, ?_,
    Nat.le_refl _⟩
  · rw [sound.at?_change member keeps, if_pos same.symm, made]
  · rw [← same]
    exact sound.erase_change member keeps
  · intro other present again closed
    obtain rfl := Option.some.inj (found.symm.trans present)
    exact absurd closed (unsettled again)

theorem Responded.accepted {scheduled : Bool} (sound : table.Sound)
    (bounded : maxRetries ≤ maxCount)
    (responded : Responded table task maxRetries after scheduled) :
    ∃ row, Accepted table task after row ∧ row.waits = scheduled := by
  cases responded with
  | inserted missing =>
      exact ⟨_, .inserted sound bounded missing, by
        simp [TaskRow.waits, TaskRow.hasStatus, requestRow]⟩
  | @waiting row found hash waits =>
      have waiting := TaskRow.waits_iff.mpr waits
      exact ⟨row, .same sound found hash (TaskRow.atRest_of_waits waiting), waiting⟩
  | @renewed row found idle stale =>
      have waiting : (TaskTable.renewed task row).waits = true := by
        simp [TaskTable.renewed, TaskRow.waits, TaskRow.hasStatus]
      refine ⟨TaskTable.renewed task row, ?_, waiting⟩
      refine .changed sound found ?_ (fun _ => rfl) rfl rfl rfl waiting (sound.reset row.id task)
      -- The row failed with retries left, so it is neither completed nor failed for good.
      intro same closed
      rcases stale with differ | ⟨failed, left⟩
      · exact differ same
      · have spent := closed.atRest failed
        omega
  | @replaced row found differ held =>
      have waiting : (TaskTable.replaced task row).waits = true :=
        TaskRow.waits_iff.mpr (.inr held)
      refine ⟨TaskTable.replaced task row, ?_, waiting⟩
      exact .changed sound found (fun same => absurd same differ) (fun _ => rfl) rfl rfl rfl waiting
        (sound.updateContent row.id task)
  | @completed row found hash done =>
      have closed : row.Closed := .inl done
      exact ⟨row, .same sound found hash closed.atRest, closed.waits_eq⟩
  | @exhausted row found hash failed spent =>
      have closed : row.Closed := .inr ⟨failed, spent⟩
      exact ⟨row, .same sound found hash closed.atRest, closed.waits_eq⟩

end TaskTable

namespace Queue

variable {queue : Queue} {task : NewTask}

theorem enqueue_at_rest (sound : queue.table.Sound) {row : TaskRow}
    (found : queue.table.at? task.path = some row) (hash : row.hash = task.hash)
    (rest : row.AtRest) :
    queue.enqueue task = .ok (queue, { id := row.id, scheduled := row.waits }) := by
  obtain ⟨member, -⟩ := sound.at?_eq_some.mp found
  have fits := (sound.rows row member).retryCount
  obtain ⟨status, named⟩ := (sound.rows row member).status
  have known := sound.getByPath_some found named
  simp only [Queue.enqueue, known, bind, Except.bind, TaskTable.respond, TaskRow.asTask, hash,
    if_true, TaskRow.waits_eq_of_name named]
  cases status with
  | pending => rfl
  | processing => rfl
  | completed => rfl
  | failed =>
      have spent := rest ((TaskRow.hasStatus_iff_of_name named _).mpr rfl)
      have none : ¬row.retryCount.toNat < row.maxRetries.toNat := by omega
      simp only [none, if_false]
      rfl

theorem enqueue_accepted (sound : queue.table.Sound)
    (limited : queue.settings.maxRetries ≤ maxCount) (task : NewTask) :
    ∃ after row, TaskTable.Accepted queue.table task after row ∧
      queue.enqueue task =
        .ok ({ queue with table := after }, { id := row.id, scheduled := row.waits }) := by
  obtain ⟨seen, after, answer, read, responded, how⟩ :=
    sound.respond task queue.settings.maxRetries
  obtain ⟨row, accepted, scheduled⟩ := how.accepted sound limited
  refine ⟨after, row, accepted, ?_⟩
  have id : answer.id = row.id := by
    rw [TaskTable.respond_id responded, sound.getByPath_id read, accepted.id]
  simp only [Queue.enqueue, read, responded, bind, Except.bind, pure, Except.pure, scheduled, ← id]

/-- A request to a table that operations led to: it succeeds and leaves one row for its path, with
its content and under the identifier that it answers with, which waits or is with a worker just if
the answer says so. Rows of other paths stay, as does a row that is closed with the same content;
and the same request again changes nothing and has the same answer. -/
theorem enqueue_is_idempotent_and_local (operations : List TaskTable.Operation) (queue : Queue)
    (reached : queue.table = TaskTable.run operations)
    (limited : queue.settings.maxRetries ≤ maxCount) (task : NewTask) :
    ∃ after answer row, queue.enqueue task = .ok ({ queue with table := after }, answer) ∧
      after.rows.filter (fun row => decide (row.path = task.path)) = [row] ∧
      row.hash = task.hash ∧ row.id = answer.id ∧
      (answer.scheduled = true ↔
        row.hasStatus .pending = true ∨ row.hasStatus .processing = true) ∧
      after.rows.filter (fun row => decide (row.path ≠ task.path)) =
        queue.table.rows.filter (fun row => decide (row.path ≠ task.path)) ∧
      (∀ old ∈ queue.table.rows, old.path = task.path → answer.id = old.id ∧
        (old.hash = task.hash → old.hasStatus .completed = true ∨
          old.hasStatus .failed = true ∧ old.maxRetries ≤ old.retryCount → row = old)) ∧
      { queue with table := after }.enqueue task = .ok ({ queue with table := after }, answer) := by
  have sound : queue.table.Sound := reached ▸ TaskTable.sound_run operations
  obtain ⟨after, row, accepted, asked⟩ := enqueue_accepted sound limited task
  refine ⟨after, _, row, asked, ?_, accepted.hash, rfl, TaskRow.waits_iff, accepted.others, ?_, ?_⟩
  · have only := accepted.sound.paths.filter_key task.path
    rw [← TaskTable.at?, accepted.found] at only
    exact only
  · intro old member same
    have found := sound.at?_eq_some.mpr ⟨member, same⟩
    refine ⟨?_, accepted.kept old found⟩
    have id := accepted.id
    rwa [found] at id
  · exact enqueue_at_rest accepted.sound accepted.found accepted.hash accepted.rest

def firstHeld : List TaskTable.Operation :=
  [.insert ⟨"a.js", 1, "h1", none⟩ 3, .insert ⟨"b.js", 1, "h1", none⟩ 3, .claim 1 0]

theorem enqueue_for_held_content_twice :
    ∃ after answer row,
      enqueue { table := TaskTable.run firstHeld } ⟨"a.js", 2, "h2", none⟩ =
        .ok ({ table := after }, answer) ∧
      after.rows.filter (fun row => decide (row.path = "a.js")) = [row] ∧
      row.hash = "h2" ∧ row.id = answer.id ∧ answer.id = 0 ∧
      (answer.scheduled = true ↔
        row.hasStatus .pending = true ∨ row.hasStatus .processing = true) ∧
      after.rows.filter (fun row => decide (row.path ≠ "a.js")) =
        (TaskTable.run firstHeld).rows.filter (fun row => decide (row.path ≠ "a.js")) ∧
      enqueue { table := after } ⟨"a.js", 2, "h2", none⟩ = .ok ({ table := after }, answer) := by
  obtain ⟨after, answer, row, asked, only, hash, id, scheduled, others, known, again⟩ :=
    enqueue_is_idempotent_and_local firstHeld { table := TaskTable.run firstHeld } rfl (by decide)
      ⟨"a.js", 2, "h2", none⟩
  let held : TaskRow :=
    { id := 0, path := "a.js", name := "a.js", size := 1, hash := "h1", status := "processing"
      maxRetries := 3, startedAt := some 0 }
  have member : held ∈ (TaskTable.run firstHeld).rows := by decide
  exact ⟨after, answer, row, asked, only, hash, id, (known held member rfl).1, scheduled, others,
    again⟩

end Queue

end CodeGraph
