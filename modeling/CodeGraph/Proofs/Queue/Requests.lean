import CodeGraph.Proofs.Queue.Enqueue

set_option autoImplicit false

namespace CodeGraph

namespace TaskTable

def Shows (table : TaskTable) (property : TaskRow → Prop) (path hash : String) : Prop :=
  ∃ row ∈ table.rows, row.path = path ∧ row.hash = hash ∧ property row

def Exhausted (table : TaskTable) : String → String → Prop :=
  table.Shows fun row => row.hasStatus .failed = true ∧ row.maxRetries ≤ row.retryCount

def Scheduled (table : TaskTable) : String → String → Prop :=
  table.Shows fun row => row.hasStatus .pending = true ∨ row.hasStatus .processing = true

instance (table : TaskTable) (path hash : String) : Decidable (table.Exhausted path hash) :=
  inferInstanceAs (Decidable (∃ row ∈ table.rows, row.path = path ∧ row.hash = hash ∧
    row.hasStatus .failed = true ∧ row.maxRetries ≤ row.retryCount))

variable {table after : TaskTable} {path hash : String} {property : TaskRow → Prop}

theorem Sound.shows_iff (sound : table.Sound) :
    table.Shows property path hash ↔
      ∃ row, table.at? path = some row ∧ row.hash = hash ∧ property row := by
  simp only [Shows, sound.at?_eq_some, and_assoc]

theorem Sound.shows_congr (sound : table.Sound) (sound' : after.Sound)
    (same : after.at? path = table.at? path) :
    after.Shows property path hash ↔ table.Shows property path hash := by
  rw [sound.shows_iff, sound'.shows_iff, same]

theorem Sound.not_exhausted (sound : table.Sound) (scheduled : table.Scheduled path hash) :
    ¬table.Exhausted path hash := by
  intro exhausted
  obtain ⟨row, found, -, waits⟩ := sound.shows_iff.mp scheduled
  obtain ⟨other, again, -, failed, -⟩ := sound.shows_iff.mp exhausted
  obtain rfl := Option.some.inj (found.symm.trans again)
  rcases waits with pending | held
  · exact absurd (TaskRow.status_unique pending failed) (by decide)
  · exact absurd (TaskRow.status_unique held failed) (by decide)

structure Answered (table : TaskTable) (path hash : String) (after : TaskTable)
    (scheduled : Bool) : Prop where
  sound : after.Sound
  others : ∀ other, other ≠ path → after.at? other = table.at? other
  verdict : scheduled = true ∧ ¬table.Exhausted path hash ∧ after.Scheduled path hash ∨
    scheduled = false ∧ table.Exhausted path hash ∧ after = table

theorem Responded.answered {task : NewTask} {maxRetries : Nat} {scheduled : Bool}
    (responded : Responded table task maxRetries after scheduled) (sound : table.Sound)
    (bounded : maxRetries ≤ maxCount)
    (fresh : ∀ row, table.at? task.path = some row →
      ¬(row.hasStatus .completed = true ∧ row.hash = task.hash)) :
    table.Answered task.path task.hash after scheduled := by
  cases responded with
  | inserted missing =>
      have sound' := sound.insert bounded (insert_eq missing maxRetries)
      refine ⟨sound', ?_, .inl ⟨rfl, ?_, ?_⟩⟩
      · intro other differ
        rw [at?_insert missing, if_neg differ]
      · intro exhausted
        obtain ⟨row, found, -⟩ := sound.shows_iff.mp exhausted
        cases missing.symm.trans found
      · refine sound'.shows_iff.mpr ⟨requestRow table.nextId task maxRetries, ?_, rfl, .inl ?_⟩
        · rw [at?_insert missing, if_pos rfl]
        · simp [TaskRow.hasStatus, requestRow]
  | @waiting row found hash waits =>
      have scheduled : table.Scheduled task.path task.hash :=
        sound.shows_iff.mpr ⟨row, found, hash, waits⟩
      exact ⟨sound, fun _ _ => rfl, .inl ⟨rfl, sound.not_exhausted scheduled, scheduled⟩⟩
  | @renewed row found idle stale =>
      obtain ⟨member, same⟩ := sound.at?_eq_some.mp found
      have reset := sound.at?_reset member task
      have sound' := sound.reset row.id task
      refine ⟨sound', ?_, .inl ⟨rfl, ?_, ?_⟩⟩
      · intro other differ
        rw [reset, if_neg (same ▸ differ)]
      · intro exhausted
        obtain ⟨other, again, hash, -, spent⟩ := sound.shows_iff.mp exhausted
        obtain rfl := Option.some.inj (found.symm.trans again)
        rcases stale with differ | ⟨-, left⟩
        · exact differ hash
        · omega
      · refine sound'.shows_iff.mpr ⟨TaskTable.renewed task row, ?_, rfl, .inl ?_⟩
        · rw [reset, if_pos same.symm]
        · simp [TaskTable.renewed, TaskRow.hasStatus]
  | @replaced row found differ held =>
      -- The worker keeps the row, which now asks for the new content.
      obtain ⟨member, same⟩ := sound.at?_eq_some.mp found
      have update := sound.at?_updateContent member task
      have sound' := sound.updateContent row.id task
      refine ⟨sound', ?_, .inl ⟨rfl, ?_, ?_⟩⟩
      · intro other differ
        rw [update, if_neg (same ▸ differ)]
      · intro exhausted
        obtain ⟨other, again, hash, -⟩ := sound.shows_iff.mp exhausted
        obtain rfl := Option.some.inj (found.symm.trans again)
        exact differ hash
      · refine sound'.shows_iff.mpr ⟨TaskTable.replaced task row, ?_, rfl, .inr held⟩
        rw [update, if_pos same.symm]
  | @completed row found hash done => exact absurd ⟨done, hash⟩ (fresh row found)
  | @exhausted row found hash failed spent =>
      refine ⟨sound, fun _ _ => rfl, .inr ⟨rfl, ?_, rfl⟩⟩
      exact sound.shows_iff.mpr ⟨row, found, hash, failed, spent⟩

theorem Answered.exhausted_iff {scheduled : Bool}
    (answered : table.Answered path hash after scheduled) (sound : table.Sound)
    {other hash' : String} (consistent : other = path → hash' = hash) :
    after.Exhausted other hash' ↔ table.Exhausted other hash' := by
  by_cases same : other = path
  · rw [same, consistent same]
    rcases answered.verdict with ⟨-, free, waits⟩ | ⟨-, -, kept⟩
    · exact iff_of_false (answered.sound.not_exhausted waits) free
    · rw [kept]
  · exact sound.shows_congr answered.sound (answered.others other same)

theorem Answered.scheduled_iff {scheduled : Bool}
    (answered : table.Answered path hash after scheduled) :
    after.Scheduled path hash ↔ ¬table.Exhausted path hash := by
  rcases answered.verdict with ⟨-, free, waits⟩ | ⟨-, spent, rfl⟩
  · exact iff_of_true waits free
  · exact iff_of_false (fun waits => answered.sound.not_exhausted waits spent) (not_not.mpr spent)

end TaskTable

namespace Workspace

variable {workspace : Workspace}

theorem enqueue_answered (sound : workspace.queue.table.Sound)
    (bounded : workspace.queue.settings.maxRetries ≤ maxCount) (entry : FileEntry) :
    ∃ table scheduled, workspace.enqueue entry =
        .ok ({ workspace with queue := { workspace.queue with table } }, scheduled) ∧
      workspace.queue.table.Answered entry.path entry.hash table scheduled := by
  obtain ⟨cleared, after, scheduled, enqueued, responded, how⟩ := enqueue_cases sound entry
  refine ⟨after, scheduled, enqueued, ?_⟩
  rcases how with ⟨rfl, fresh⟩ | ⟨rfl, row, found, done, hash⟩
  · exact responded.answered sound bounded fun row found both => fresh ⟨row, found, both⟩
  · -- The completed task is forgotten, so that the request meets no task.
    have missing : (workspace.queue.table.removePath entry.path).at? entry.path = none := by
      rw [TaskTable.at?_removePath, if_pos rfl]
    have sound' := sound.removePath entry.path
    have answered := responded.answered sound' bounded
      fun row found => by cases missing.symm.trans found
    refine ⟨answered.sound, ?_, ?_⟩
    · intro other differ
      rw [answered.others other differ, TaskTable.at?_removePath, if_neg differ]
    · rcases answered.verdict with ⟨scheduled, -, waits⟩ | ⟨-, spent, -⟩
      · refine .inl ⟨scheduled, ?_, waits⟩
        intro exhausted
        obtain ⟨other, again, -, failed, -⟩ := sound.shows_iff.mp exhausted
        obtain rfl := Option.some.inj (found.symm.trans again)
        exact absurd (TaskRow.status_unique done failed) (by decide)
      · obtain ⟨other, present, -⟩ := sound'.shows_iff.mp spent
        cases missing.symm.trans present

theorem enqueueAll_answered (entries : List FileEntry) (report : ScanReport)
    (sound : workspace.queue.table.Sound)
    (bounded : workspace.queue.settings.maxRetries ≤ maxCount)
    (consistent : ∀ a ∈ entries, ∀ b ∈ entries, a.path = b.path → a.hash = b.hash) :
    ∃ table report', enqueueAll entries (workspace, report) =
        .ok ({ workspace with queue := { workspace.queue with table } }, report') ∧
      report'.enqueued = report.enqueued + entries.countP
        (fun entry => !decide (workspace.queue.table.Exhausted entry.path entry.hash)) ∧
      table.Sound ∧
      (∀ entry ∈ entries, table.Scheduled entry.path entry.hash ↔
        ¬workspace.queue.table.Exhausted entry.path entry.hash) ∧
      ∀ path, path ∉ entries.map FileEntry.path →
        table.at? path = workspace.queue.table.at? path := by
  induction entries generalizing workspace report with
  | nil => exact ⟨workspace.queue.table, report, rfl, rfl, sound, by simp, fun _ _ => rfl⟩
  | cons entry rest ih =>
      obtain ⟨table, scheduled, enqueued, answered⟩ := enqueue_answered sound bounded entry
      let count := if scheduled then report.enqueued + 1 else report.enqueued
      obtain ⟨final, report', others, total, sound', waits, kept⟩ :=
        @ih { workspace with queue := { workspace.queue with table } }
          { report with enqueued := count } answered.sound bounded fun a first b second =>
            consistent a (List.mem_cons_of_mem _ first) b (List.mem_cons_of_mem _ second)
      have spent {other : FileEntry} (member : other ∈ entry :: rest) :
          table.Exhausted other.path other.hash ↔
            workspace.queue.table.Exhausted other.path other.hash :=
        answered.exhausted_iff sound
          (consistent other member entry (List.mem_cons_self ..))
      refine ⟨final, report', ?_, ?_, sound', ?_, ?_⟩
      · simp only [enqueueAll, enqueued]
        exact others
      · -- The first request counts if it is scheduled, and leaves the budgets of the others alone.
        have later : rest.countP (fun entry => !decide (table.Exhausted entry.path entry.hash)) =
            rest.countP
              (fun entry => !decide (workspace.queue.table.Exhausted entry.path entry.hash)) := by
          apply List.countP_congr
          intro other inside
          simp [spent (List.mem_cons_of_mem _ inside)]
        rw [total, later, List.countP_cons]
        rcases answered.verdict with ⟨yes, free, -⟩ | ⟨no, spent, -⟩
        · simp only [count, yes, free, if_true, decide_false, Bool.not_false]
          omega
        · simp [count, no, spent]
      · intro other member
        by_cases again : other.path ∈ rest.map FileEntry.path
        · -- A later entry for the same path asks for the same content.
          obtain ⟨twin, inside, same⟩ := List.mem_map.mp again
          have listed := List.mem_cons_of_mem entry inside
          rw [← same, ← consistent twin listed other member same, waits twin inside, spent listed]
        · rcases List.mem_cons.mp member with rfl | later
          · rw [← answered.scheduled_iff]
            exact answered.sound.shows_congr sound' (kept other.path again)
          · exact absurd (List.mem_map_of_mem later) again
      · intro path missing
        rw [List.map_cons, List.mem_cons, not_or] at missing
        rw [kept path missing.2]
        exact answered.others path missing.1

end Workspace

end CodeGraph
