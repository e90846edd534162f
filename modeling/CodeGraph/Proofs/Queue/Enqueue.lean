import CodeGraph.Proofs.TaskTable
import CodeGraph.Workspace

/-!
Requests to process files. `Responded` says once how a request is answered. In a table that no
worker uses, a request leaves a row for its content that waits, unless the same content failed
before and has no attempts left; other rows stay.
-/

set_option autoImplicit false

namespace CodeGraph

namespace TaskTable

structure Unused (table : TaskTable) : Prop where
  sound : table.Sound
  plain : ∀ row ∈ table.rows, row.content = none
  unheld : ∀ row ∈ table.rows, row.hasStatus .processing = false

structure Request where
  task : NewTask
  seen : Option Task
deriving DecidableEq

def lookUp (table : TaskTable) (task : NewTask) : List Request :=
  match table.getByPath task.path with
  | .ok seen => [⟨task, seen⟩]
  | .error _ => []

def writeDown (table : TaskTable) (maxRetries : Nat) (request : Request) : TaskTable :=
  match table.respond request.task maxRetries request.seen with
  | .ok (table, _) => table
  | .error _ => table

def at? (table : TaskTable) (path : String) : Option TaskRow :=
  Table.get? TaskRow.path table.rows path

variable {table : TaskTable}

theorem Sound.at?_eq_some (sound : table.Sound) {path : String} {row : TaskRow} :
    table.at? path = some row ↔ row ∈ table.rows ∧ row.path = path :=
  Table.get?_eq_some_iff sound.paths

theorem Sound.change_eq (sound : table.Sound) {row : TaskRow} (member : row ∈ table.rows)
    (f : TaskRow → TaskRow) :
    table.change row.id f =
      { table with rows := Table.update TaskRow.path row.path f table.rows } := by
  simp only [TaskTable.change, Table.update, mk.injEq, and_true]
  apply List.map_congr_left
  intro other inside
  -- In a sound table the identifier and the path single out the same row.
  have same : other.id = row.id ↔ other.path = row.path := by
    constructor
    · intro id
      rw [sound.eq_of_id inside member id]
    · intro path
      have first := sound.at?_eq_some.mpr ⟨inside, path⟩
      rw [sound.at?_eq_some.mpr ⟨member, rfl⟩] at first
      rw [Option.some.inj first]
  simp only [same]

theorem Sound.at?_change (sound : table.Sound) {row : TaskRow} (member : row ∈ table.rows)
    {f : TaskRow → TaskRow} (keeps : ∀ row, (f row).path = row.path) (path : String) :
    (table.change row.id f).at? path =
      if path = row.path then some (f row) else table.at? path := by
  rw [sound.change_eq member]
  split
  next same =>
    subst same
    have found := sound.at?_eq_some.mpr ⟨member, rfl⟩
    rw [at?, Table.get?_update_self row.path keeps table.rows, ← at?, found]
    rfl
  next differ => exact Table.get?_update_of_ne row.path path differ keeps table.rows

theorem at?_removePath (table : TaskTable) (path other : String) :
    (table.removePath path).at? other = if other = path then none else table.at? other := by
  split
  next same => exact same ▸ Table.get?_erase_self TaskRow.path path table.rows
  next differ => exact Table.get?_erase_of_ne path other differ table.rows

theorem Unused.removePath (unused : table.Unused) (path : String) :
    (table.removePath path).Unused where
  sound := unused.sound.removePath path
  plain row member := unused.plain row (Table.mem_erase.mp member).1
  unheld row member := unused.unheld row (Table.mem_erase.mp member).1

theorem Unused.reset (unused : table.Unused) (id : Nat) {task : NewTask}
    (plain : task.content = none) : (table.reset id task).Unused where
  sound := unused.sound.reset id task
  plain row member := by
    obtain ⟨before, present, rfl⟩ := Table.mem_update.mp member
    split
    · exact plain
    · exact unused.plain before present
  unheld row member := by
    obtain ⟨before, present, rfl⟩ := Table.mem_update.mp member
    split
    · simp [TaskRow.hasStatus, TaskStatus.name]
    · exact unused.unheld before present

def requestRow (id : Nat) (task : NewTask) (maxRetries : Nat) : TaskRow :=
  { id, path := task.path, name := task.displayName, size := saturated task.size, hash := task.hash
    content := task.content, maxRetries := maxRetries }

theorem insert_eq {task : NewTask} (missing : table.at? task.path = none) (maxRetries : Nat) :
    table.insert task maxRetries =
      .ok ({ rows := table.rows ++ [requestRow table.nextId task maxRetries]
             nextId := table.nextId + 1 }, table.nextId) := by
  have new : Table.has TaskRow.path table.rows task.path = false := by
    rw [Bool.eq_false_iff, ne_eq, Table.has_iff]
    rintro ⟨row, member, same⟩
    exact Table.get?_eq_none_iff.mp missing row member same
  simp only [TaskTable.insert, new, Bool.false_eq_true, if_false, requestRow]

theorem at?_insert {task : NewTask} (missing : table.at? task.path = none) (maxRetries nextId : Nat)
    (path : String) :
    ({ rows := table.rows ++ [requestRow table.nextId task maxRetries], nextId } : TaskTable).at?
        path =
      if path = task.path then some (requestRow table.nextId task maxRetries)
      else table.at? path := by
  unfold TaskTable.at? Table.get? at missing ⊢
  rw [List.find?_append]
  split
  next same =>
    subst same
    simp [missing, requestRow]
  next differ => simp [requestRow, Ne.symm differ]

def renewed (task : NewTask) (row : TaskRow) : TaskRow :=
  { row with
    status := TaskStatus.pending.name, hash := task.hash, size := saturated task.size
    content := task.content, progress := 0, retryCount := 0, step := none
    errorMessage := none, availableAt := 0, startedAt := none, completedAt := none }

theorem Sound.at?_reset (sound : table.Sound) {row : TaskRow} (member : row ∈ table.rows)
    (task : NewTask) (path : String) :
    (table.reset row.id task).at? path =
      if path = row.path then some (renewed task row) else table.at? path :=
  @Sound.at?_change table sound row member (renewed task) (fun _ => rfl) path

def replaced (task : NewTask) (row : TaskRow) : TaskRow :=
  { row with hash := task.hash, size := saturated task.size, content := task.content }

theorem Sound.at?_updateContent (sound : table.Sound) {row : TaskRow} (member : row ∈ table.rows)
    (task : NewTask) (path : String) :
    (table.updateContent row.id task).at? path =
      if path = row.path then some (replaced task row) else table.at? path :=
  @Sound.at?_change table sound row member (replaced task) (fun _ => rfl) path

inductive Responded (table : TaskTable) (task : NewTask) (maxRetries : Nat) :
    TaskTable → Bool → Prop
  | inserted (missing : table.at? task.path = none) :
      Responded table task maxRetries
        { rows := table.rows ++ [requestRow table.nextId task maxRetries]
          nextId := table.nextId + 1 } true
  | waiting {row : TaskRow} (found : table.at? task.path = some row) (hash : row.hash = task.hash)
      (waits : row.hasStatus .pending = true ∨ row.hasStatus .processing = true) :
      Responded table task maxRetries table true
  | renewed {row : TaskRow} (found : table.at? task.path = some row)
      (idle : row.hasStatus .processing = false)
      (stale : row.hash ≠ task.hash ∨
        row.hasStatus .failed = true ∧ row.retryCount < row.maxRetries) :
      Responded table task maxRetries (table.reset row.id task) true
  | replaced {row : TaskRow} (found : table.at? task.path = some row)
      (hash : row.hash ≠ task.hash) (held : row.hasStatus .processing = true) :
      Responded table task maxRetries (table.updateContent row.id task) true
  | completed {row : TaskRow} (found : table.at? task.path = some row)
      (hash : row.hash = task.hash) (done : row.hasStatus .completed = true) :
      Responded table task maxRetries table false
  | exhausted {row : TaskRow} (found : table.at? task.path = some row)
      (hash : row.hash = task.hash) (failed : row.hasStatus .failed = true)
      (spent : row.maxRetries ≤ row.retryCount) :
      Responded table task maxRetries table false

theorem Sound.respond (sound : table.Sound) (task : NewTask) (maxRetries : Nat) :
    ∃ old after answer, table.getByPath task.path = .ok old ∧
      table.respond task maxRetries old = .ok (after, answer) ∧
      Responded table task maxRetries after answer.scheduled := by
  cases found : table.at? task.path with
  | none =>
      refine ⟨none, _, { id := table.nextId, scheduled := true }, Sound.getByPath_none found, ?_,
        .inserted found⟩
      simp only [TaskTable.respond, insert_eq found]
      rfl
  | some row =>
      obtain ⟨member, -⟩ := sound.at?_eq_some.mp found
      have rowSound := sound.rows row member
      obtain ⟨status, named⟩ := rowSound.status
      have is := TaskRow.hasStatus_iff_of_name named
      suffices answered : ∃ after answer,
          table.respond task maxRetries (some (row.asTask status)) = .ok (after, answer) ∧
            Responded table task maxRetries after answer.scheduled by
        obtain ⟨after, answer, responded⟩ := answered
        exact ⟨_, after, answer, sound.getByPath_some found named, responded⟩
      -- The same content is answered by status; other content waits if a worker holds the task.
      by_cases hash : row.hash = task.hash
      · simp only [TaskTable.respond, TaskRow.asTask, hash, if_true]
        cases status with
        | pending => exact ⟨_, _, rfl, .waiting found hash (.inl ((is _).mpr rfl))⟩
        | processing => exact ⟨_, _, rfl, .waiting found hash (.inr ((is _).mpr rfl))⟩
        | completed => exact ⟨_, _, rfl, .completed found hash ((is _).mpr rfl)⟩
        | failed =>
            have failed : row.hasStatus .failed = true := (is _).mpr rfl
            have idle : row.hasStatus .processing = false :=
              TaskRow.hasStatus_of_ne failed (by decide)
            have counts := rowSound.retryCount
            dsimp only
            split
            next left => exact ⟨_, _, rfl, .renewed found idle (.inr ⟨failed, by omega⟩)⟩
            next none => exact ⟨_, _, rfl, .exhausted found hash failed (by omega)⟩
      · have differ : (row.asTask status).hash ≠ task.hash := hash
        simp only [TaskTable.respond, if_neg differ]
        by_cases held : status = .processing
        · refine ⟨_, _, rfl, ?_⟩
          rw [if_pos (show (row.asTask status).status = .processing from held)]
          exact .replaced found hash ((is _).mpr held)
        · refine ⟨_, _, rfl, ?_⟩
          rw [if_neg (show ¬(row.asTask status).status = .processing from held)]
          refine .renewed found ?_ (.inl hash)
          rw [Bool.eq_false_iff, ne_eq, is]
          exact held

/-- What a request leaves at its path: a row for the content that waits, or one that failed before
for good. -/
def Queued (before : Option TaskRow) (hash : String) (after : Option TaskRow) : Prop :=
  ∃ row, after = some row ∧ row.hash = hash ∧
    (row.hasStatus .pending = true ∨ row.hasStatus .failed = true ∧ before = some row)

structure Requested (table : TaskTable) (path hash : String) (after : TaskTable) : Prop where
  unused : after.Unused
  queued : Queued (table.at? path) hash (after.at? path)
  others : ∀ other, other ≠ path → after.at? other = table.at? other

theorem Unused.insert (unused : table.Unused) {task : NewTask} (plain : task.content = none)
    {maxRetries : Nat} (bounded : maxRetries ≤ maxCount) (missing : table.at? task.path = none) :
    table.Requested task.path task.hash
      { rows := table.rows ++ [requestRow table.nextId task maxRetries]
        nextId := table.nextId + 1 } := by
  refine ⟨⟨unused.sound.insert bounded (insert_eq missing maxRetries), ?_, ?_⟩, ?_, ?_⟩
  · intro other member
    rcases List.mem_append.mp member with old | last
    · exact unused.plain other old
    · exact List.mem_singleton.mp last ▸ plain
  · intro other member
    rcases List.mem_append.mp member with old | last
    · exact unused.unheld other old
    · rw [List.mem_singleton.mp last]
      simp [TaskRow.hasStatus, TaskStatus.name, requestRow]
  · refine ⟨requestRow table.nextId task maxRetries, ?_, rfl, .inl ?_⟩
    · rw [at?_insert missing, if_pos rfl]
    · simp [TaskRow.hasStatus, requestRow]
  · intro other differ
    rw [at?_insert missing, if_neg differ]

theorem Unused.requested_reset (unused : table.Unused) {row : TaskRow} (member : row ∈ table.rows)
    {task : NewTask} (plain : task.content = none) (same : row.path = task.path) :
    table.Requested task.path task.hash (table.reset row.id task) := by
  have reset := unused.sound.at?_reset member task
  refine ⟨unused.reset row.id plain, ⟨TaskTable.renewed task row, ?_, rfl, .inl ?_⟩, ?_⟩
  · rw [reset, if_pos same.symm]
  · simp [TaskTable.renewed, TaskRow.hasStatus]
  · intro other differ
    rw [reset, if_neg (same ▸ differ)]

theorem Unused.responded (unused : table.Unused) {task : NewTask} (plain : task.content = none)
    {maxRetries : Nat} (bounded : maxRetries ≤ maxCount) {after : TaskTable} {scheduled : Bool}
    (responded : Responded table task maxRetries after scheduled)
    (fresh : ∀ row, table.at? task.path = some row →
      ¬(row.hasStatus .completed = true ∧ row.hash = task.hash)) :
    table.Requested task.path task.hash after := by
  have unheld {row : TaskRow} (found : table.at? task.path = some row) :
      row.hasStatus .processing = false :=
    unused.unheld row (unused.sound.at?_eq_some.mp found).1
  -- A row that already has the content and waits or failed for good is left as it is.
  have stays {row : TaskRow} (found : table.at? task.path = some row) (hash : row.hash = task.hash)
      (waits : row.hasStatus .pending = true ∨ row.hasStatus .failed = true) :
      table.Requested task.path task.hash table :=
    ⟨unused, ⟨row, found, hash, waits.imp_right fun failed => ⟨failed, found⟩⟩, fun _ _ => rfl⟩
  cases responded with
  | inserted missing => exact unused.insert plain bounded missing
  | waiting found hash waits =>
      rcases waits with pending | held
      · exact stays found hash (.inl pending)
      · exact absurd (held.symm.trans (unheld found)) (by decide)
  | renewed found =>
      obtain ⟨member, same⟩ := unused.sound.at?_eq_some.mp found
      exact unused.requested_reset member plain same
  | replaced found _ held => exact absurd (held.symm.trans (unheld found)) (by decide)
  | completed found hash done => exact absurd ⟨done, hash⟩ (fresh _ found)
  | exhausted found hash failed => exact stays found hash (.inr failed)

theorem Requested.queued_trans {table after : TaskTable} {path hash : String}
    (requested : table.Requested path hash after) {last : Option TaskRow} {hash' : String}
    (queued : Queued (after.at? path) hash' last) :
    Queued (table.at? path) hash' last := by
  obtain ⟨row, found, same, waits⟩ := queued
  refine ⟨row, found, same, waits.imp_right ?_⟩
  rintro ⟨failed, before⟩
  obtain ⟨first, present, -, earlier⟩ := requested.queued
  rw [before] at present
  obtain rfl := Option.some.inj present
  rcases earlier with pending | old
  · exact absurd (TaskRow.status_unique pending failed) (by decide)
  · exact old

end TaskTable

namespace Workspace

def request (entry : FileEntry) : NewTask :=
  { path := entry.path, hash := entry.hash, size := entry.size }

def Done (table : TaskTable) (entry : FileEntry) : Prop :=
  ∃ row, table.at? entry.path = some row ∧ row.hasStatus .completed = true ∧ row.hash = entry.hash

theorem enqueue_cases {workspace : Workspace} (sound : workspace.queue.table.Sound)
    (entry : FileEntry) :
    ∃ cleared table scheduled, workspace.enqueue entry =
        .ok ({ workspace with queue := { workspace.queue with table } }, scheduled) ∧
      TaskTable.Responded cleared (request entry) workspace.queue.settings.maxRetries table
        scheduled ∧
      (cleared = workspace.queue.table ∧ ¬Done workspace.queue.table entry ∨
        cleared = workspace.queue.table.removePath entry.path ∧
          Done workspace.queue.table entry) := by
  have asks (queue : Queue) (sound : queue.table.Sound) : ∃ after answer,
      queue.enqueue (request entry) = .ok ({ queue with table := after }, answer) ∧
        TaskTable.Responded queue.table (request entry) queue.settings.maxRetries after
          answer.scheduled := by
    obtain ⟨old, after, answer, known, responded, how⟩ :=
      sound.respond (request entry) queue.settings.maxRetries
    refine ⟨after, answer, ?_, how⟩
    simp only [Queue.enqueue, known, responded, bind, Except.bind]
    rfl
  cases found : workspace.queue.table.at? entry.path with
  | none =>
      obtain ⟨after, answer, asked, how⟩ := asks workspace.queue sound
      refine ⟨_, after, answer.scheduled, ?_, how, .inl ⟨rfl, ?_⟩⟩
      · simp only [request] at asked
        simp only [Workspace.enqueue, TaskTable.Sound.getByPath_none found, bind, Except.bind,
          Except.mapError, asked]
        rfl
      · rintro ⟨row, present, -⟩
        rw [found] at present
        cases present
  | some row =>
      obtain ⟨member, -⟩ := sound.at?_eq_some.mp found
      obtain ⟨status, named⟩ := (sound.rows row member).status
      have is := TaskRow.hasStatus_iff_of_name named
      have known := sound.getByPath_some found named
      have done : Done workspace.queue.table entry ↔
          status = .completed ∧ row.hash = entry.hash := by
        constructor
        · rintro ⟨other, present, completed, hash⟩
          rw [found] at present
          obtain rfl := Option.some.inj present
          exact ⟨(is _).mp completed, hash⟩
        · rintro ⟨completed, hash⟩
          exact ⟨row, found, (is _).mpr completed, hash⟩
      -- A task that is done with the same content would turn the request down, so it goes first.
      by_cases both : status = .completed ∧ row.hash = entry.hash
      · obtain ⟨after, answer, asked, how⟩ :=
          asks (workspace.queue.removePath entry.path) (sound.removePath entry.path)
        refine ⟨_, after, answer.scheduled, ?_, how, .inr ⟨rfl, done.mpr both⟩⟩
        simp only [request] at asked
        simp only [Workspace.enqueue, known, bind, Except.bind, Except.mapError, TaskRow.asTask,
          if_pos both, asked]
        rfl
      · obtain ⟨after, answer, asked, how⟩ := asks workspace.queue sound
        refine ⟨_, after, answer.scheduled, ?_, how, .inl ⟨rfl, done.not.mpr both⟩⟩
        simp only [request] at asked
        simp only [Workspace.enqueue, known, bind, Except.bind, Except.mapError, TaskRow.asTask,
          if_neg both, asked]
        rfl

theorem enqueue_ok {workspace : Workspace} (unused : workspace.queue.table.Unused)
    (bounded : workspace.queue.settings.maxRetries ≤ maxCount) (entry : FileEntry) :
    ∃ table scheduled, workspace.enqueue entry =
        .ok ({ workspace with queue := { workspace.queue with table } }, scheduled) ∧
      workspace.queue.table.Requested entry.path entry.hash table := by
  obtain ⟨cleared, after, scheduled, enqueued, responded, how⟩ := enqueue_cases unused.sound entry
  refine ⟨after, scheduled, enqueued, ?_⟩
  rcases how with ⟨rfl, fresh⟩ | ⟨rfl, -⟩
  · exact unused.responded rfl bounded responded fun row found both => fresh ⟨row, found, both⟩
  · -- The completed task is forgotten, so that the request meets no task.
    have missing : (workspace.queue.table.removePath entry.path).at? entry.path = none := by
      rw [TaskTable.at?_removePath, if_pos rfl]
    have requested := (unused.removePath entry.path).responded rfl bounded responded
      fun row found => by cases missing.symm.trans found
    refine ⟨requested.unused, ?_, ?_⟩
    · obtain ⟨row, found, hash, waits⟩ := requested.queued
      refine ⟨row, found, hash, .inl ?_⟩
      rcases waits with pending | ⟨-, before⟩
      · exact pending
      · cases missing.symm.trans before
    · intro other differ
      rw [requested.others other differ, TaskTable.at?_removePath, if_neg differ]

theorem enqueueAll_ok (entries : List FileEntry) {workspace : Workspace} (report : ScanReport)
    (unused : workspace.queue.table.Unused)
    (bounded : workspace.queue.settings.maxRetries ≤ maxCount)
    (consistent : ∀ a ∈ entries, ∀ b ∈ entries, a.path = b.path → a.hash = b.hash) :
    ∃ table report', enqueueAll entries (workspace, report) =
        .ok ({ workspace with queue := { workspace.queue with table } }, report') ∧
      table.Unused ∧
      (∀ entry ∈ entries, TaskTable.Queued (workspace.queue.table.at? entry.path) entry.hash
        (table.at? entry.path)) ∧
      ∀ path, path ∉ entries.map FileEntry.path →
        table.at? path = workspace.queue.table.at? path := by
  induction entries generalizing workspace report with
  | nil => exact ⟨workspace.queue.table, report, rfl, unused, by simp, fun _ _ => rfl⟩
  | cons entry rest ih =>
      obtain ⟨table, scheduled, enqueued, requested⟩ := enqueue_ok unused bounded entry
      let report' : ScanReport :=
        { report with enqueued := if scheduled then report.enqueued + 1 else report.enqueued }
      obtain ⟨final, report'', others, unused', queued, kept⟩ :=
        @ih { workspace with queue := { workspace.queue with table } } report'
          requested.unused bounded fun a first b second =>
            consistent a (List.mem_cons_of_mem _ first) b (List.mem_cons_of_mem _ second)
      refine ⟨final, report'', ?_, unused', ?_, ?_⟩
      · simp only [enqueueAll, enqueued]
        exact others
      · intro other member
        rcases List.mem_cons.mp member with rfl | later
        · -- A later entry for the same path asks for the same content.
          by_cases again : other.path ∈ rest.map FileEntry.path
          · obtain ⟨twin, inside, same⟩ := List.mem_map.mp again
            have hash := consistent twin (List.mem_cons_of_mem _ inside) other member same
            have last := queued twin inside
            rw [same, hash] at last
            exact requested.queued_trans last
          · rw [kept other.path again]
            exact requested.queued
        · have last := queued other later
          by_cases same : other.path = entry.path
          · rw [same] at last ⊢
            exact requested.queued_trans last
          · rwa [requested.others other.path same] at last
      · intro path missing
        rw [List.map_cons, List.mem_cons, not_or] at missing
        rw [kept path missing.2]
        exact requested.others path missing.1

end Workspace

end CodeGraph
