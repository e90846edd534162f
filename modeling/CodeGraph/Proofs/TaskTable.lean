import CodeGraph.Proofs.Table
import CodeGraph.TaskTable

set_option autoImplicit false

namespace CodeGraph

theorem TaskStatus.name_injective {a b : TaskStatus} (same : a.name = b.name) : a = b := by
  have read := congrArg TaskStatus.ofName? same
  simpa using read

namespace TaskRow

theorem hasStatus_iff (row : TaskRow) (status : TaskStatus) :
    row.hasStatus status = true ↔ row.status = status.name := by
  simp [hasStatus]

theorem hasStatus_iff_of_name {row : TaskRow} {status : TaskStatus}
    (named : row.status = status.name) (other : TaskStatus) :
    row.hasStatus other = true ↔ status = other := by
  rw [hasStatus_iff, named]
  exact ⟨TaskStatus.name_injective, congrArg TaskStatus.name⟩

theorem status_unique {row : TaskRow} {status other : TaskStatus}
    (has : row.hasStatus status = true) (has' : row.hasStatus other = true) : status = other :=
  (hasStatus_iff_of_name ((row.hasStatus_iff status).mp has) other).mp has'

theorem hasStatus_of_ne {row : TaskRow} {status other : TaskStatus}
    (has : row.hasStatus status = true) (differ : status ≠ other) :
    row.hasStatus other = false := by
  rw [Bool.eq_false_iff]
  exact fun has' => differ (status_unique has has')

structure Sound (row : TaskRow) : Prop where
  status : ∃ status : TaskStatus, row.status = status.name
  size : 0 ≤ row.size ∧ row.size ≤ maxInteger
  progress : 0 ≤ row.progress ∧ row.progress ≤ (255 : Nat)
  retryCount : 0 ≤ row.retryCount ∧ row.retryCount ≤ row.maxRetries
  maxRetries : row.maxRetries ≤ maxCount
  chunks : 0 ≤ row.chunks ∧ row.chunks ≤ maxInteger
  edges : 0 ≤ row.edges ∧ row.edges ≤ maxInteger

def asTask (row : TaskRow) (status : TaskStatus) : Task :=
  { id := row.id, path := row.path, name := row.name, size := row.size.toNat, hash := row.hash
    content := row.content, status, progress := row.progress.toNat
    retryCount := row.retryCount.toNat, maxRetries := row.maxRetries.toNat, step := row.step
    startedAt := row.startedAt, completedAt := row.completedAt, availableAt := row.availableAt
    errorMessage := row.errorMessage
    output := { chunks := row.chunks.toNat, edges := row.edges.toNat } }

theorem number_ok (row : TaskRow) (field : String) (limit : Nat) (value : Int)
    (fits : 0 ≤ value ∧ value ≤ limit) : row.number field limit value = .ok value.toNat := by
  rw [number, if_pos fits]

theorem Sound.task_eq {row : TaskRow} (sound : row.Sound) {status : TaskStatus}
    (named : row.status = status.name) : row.task = .ok (row.asTask status) := by
  have small : 0 ≤ row.retryCount ∧ row.retryCount ≤ maxCount :=
    ⟨sound.retryCount.1, Int.le_trans sound.retryCount.2 sound.maxRetries⟩
  have large : 0 ≤ row.maxRetries ∧ row.maxRetries ≤ maxCount :=
    ⟨Int.le_trans sound.retryCount.1 sound.retryCount.2, sound.maxRetries⟩
  simp only [task, named, TaskStatus.ofName?_name,
    number_ok row "size" maxInteger row.size sound.size,
    number_ok row "progress" 255 row.progress sound.progress,
    number_ok row "retry_count" maxCount row.retryCount small,
    number_ok row "max_retries" maxCount row.maxRetries large,
    number_ok row "chunks" maxInteger row.chunks sound.chunks,
    number_ok row "relationships" maxInteger row.edges sound.edges, bind, Except.bind, pure,
    Except.pure, asTask]

theorem saturated_fits (value : Nat) : 0 ≤ saturated value ∧ saturated value ≤ maxInteger := by
  unfold saturated
  omega

theorem toNat_saturated (value : Nat) : (saturated value).toNat = min value maxInteger :=
  Int.toNat_natCast _

def started (now : Int) (row : TaskRow) : TaskRow :=
  { row with
    status := TaskStatus.processing.name, progress := 0, step := none, startedAt := some now }

theorem Sound.started {row : TaskRow} (sound : row.Sound) (now : Int) : (row.started now).Sound :=
  { sound with status := ⟨.processing, rfl⟩, progress := by simp [TaskRow.started] }

theorem Sound.complete {row : TaskRow} (sound : row.Sound) (now : Int) (hash : String)
    (output : TaskOutput) : (row.complete now hash output).Sound where
  status := ⟨_, rfl⟩
  size := sound.size
  progress := by
    simp only [TaskRow.complete]
    split <;> simp
  retryCount := sound.retryCount
  maxRetries := sound.maxRetries
  chunks := saturated_fits _
  edges := saturated_fits _

theorem Sound.requeued {row : TaskRow} (sound : row.Sound) :
    ({ row with
        status := TaskStatus.pending.name, retryCount := 0, availableAt := 0
        errorMessage := none, step := none } : TaskRow).Sound :=
  { sound with
    status := ⟨.pending, rfl⟩
    retryCount := ⟨Int.le_refl 0, Int.le_trans sound.retryCount.1 sound.retryCount.2⟩ }

theorem Sound.recordFailure {row : TaskRow} (sound : row.Sound) (hash error : String)
    (retryAt : Int) : (row.recordFailure hash error retryAt).Sound := by
  unfold TaskRow.recordFailure
  split
  · exact sound.requeued
  · refine { sound with status := ⟨_, rfl⟩, retryCount := ?_ }
    have bounds := sound.retryCount
    by_cases again : row.retryCount < row.maxRetries
    · simp only [again, decide_true, if_true]
      omega
    · simpa only [again, decide_false, Bool.false_eq_true, if_false] using bounds

theorem Sound.failTerminal {row : TaskRow} (sound : row.Sound) (hash error : String) :
    (row.failTerminal hash error).Sound := by
  unfold TaskRow.failTerminal
  split
  · exact { sound with status := ⟨.failed, rfl⟩ }
  · exact sound.requeued

end TaskRow

namespace TaskTable

structure Sound (table : TaskTable) : Prop where
  rows : ∀ row ∈ table.rows, row.Sound
  ids : Table.Unique TaskRow.id table.rows
  paths : Table.Unique TaskRow.path table.rows
  /-- Identifiers are given out in order. -/
  fresh : ∀ row ∈ table.rows, row.id < table.nextId

theorem empty_sound (nextId : Nat) : ({ rows := [], nextId } : TaskTable).Sound where
  rows := by simp
  ids := List.nodup_nil
  paths := List.nodup_nil
  fresh := by simp

theorem Sound.map {table : TaskTable} (sound : table.Sound) (f : TaskRow → TaskRow)
    (id : ∀ row, (f row).id = row.id) (path : ∀ row, (f row).path = row.path)
    (rows : ∀ row ∈ table.rows, (f row).Sound) :
    ({ table with rows := table.rows.map f } : TaskTable).Sound where
  rows := by
    intro row member
    obtain ⟨before, present, rfl⟩ := List.mem_map.mp member
    exact rows before present
  ids := by
    have same : (table.rows.map f).map TaskRow.id = table.rows.map TaskRow.id := by
      simp [Function.comp_def, id]
    rw [Table.Unique, same]
    exact sound.ids
  paths := by
    have same : (table.rows.map f).map TaskRow.path = table.rows.map TaskRow.path := by
      simp [Function.comp_def, path]
    rw [Table.Unique, same]
    exact sound.paths
  fresh := by
    intro row member
    obtain ⟨before, present, rfl⟩ := List.mem_map.mp member
    exact id before ▸ sound.fresh before present

theorem Sound.change {table : TaskTable} (sound : table.Sound) (id : Nat) (f : TaskRow → TaskRow)
    (keepsId : ∀ row, (f row).id = row.id) (keepsPath : ∀ row, (f row).path = row.path)
    (keepsSound : ∀ row, row.Sound → (f row).Sound) : (table.change id f).Sound := by
  refine sound.map _ ?_ ?_ ?_
  · intro row
    split <;> simp [keepsId]
  · intro row
    split <;> simp [keepsPath]
  · intro row member
    split
    · exact keepsSound row (sound.rows row member)
    · exact sound.rows row member

theorem Sound.keep {table : TaskTable} (sound : table.Sound) (p : TaskRow → Bool) :
    (table.keep p).Sound where
  rows row member := sound.rows row (List.mem_of_mem_filter member)
  ids := sound.ids.filter p
  paths := sound.paths.filter p
  fresh row member := sound.fresh row (List.mem_of_mem_filter member)

theorem Sound.removePath {table : TaskTable} (sound : table.Sound) (path : String) :
    (table.removePath path).Sound :=
  sound.keep _

theorem Sound.insert {table table' : TaskTable} (sound : table.Sound) {task : NewTask}
    {maxRetries id : Nat} (bounded : maxRetries ≤ maxCount)
    (inserted : table.insert task maxRetries = .ok (table', id)) : table'.Sound := by
  unfold TaskTable.insert at inserted
  split at inserted
  · cases inserted
  next free =>
    cases inserted
    rw [Table.has_iff] at free
    refine ⟨?_, ?_, ?_, ?_⟩
    · intro row member
      rcases List.mem_append.mp member with present | added
      · exact sound.rows row present
      · rw [List.mem_singleton.mp added]
        exact ⟨⟨.pending, rfl⟩, TaskRow.saturated_fits _, by simp, by simp,
          Int.ofNat_le.mpr bounded, by simp, by simp⟩
    · simp only [Table.Unique, List.map_append, List.map_cons, List.map_nil]
      refine List.nodup_append.mpr ⟨sound.ids, List.nodup_singleton _, ?_⟩
      rintro id present other last rfl
      obtain ⟨row, member, rfl⟩ := List.mem_map.mp present
      exact absurd (List.mem_singleton.mp last) (Nat.ne_of_lt (sound.fresh row member))
    · simp only [Table.Unique, List.map_append, List.map_cons, List.map_nil]
      refine List.nodup_append.mpr ⟨sound.paths, List.nodup_singleton _, ?_⟩
      rintro path present other last rfl
      obtain ⟨row, member, rfl⟩ := List.mem_map.mp present
      exact free ⟨row, member, List.mem_singleton.mp last⟩
    · intro row member
      rcases List.mem_append.mp member with present | added
      · exact Nat.lt_succ_of_lt (sound.fresh row present)
      · rw [List.mem_singleton.mp added]
        exact Nat.lt_succ_self _

theorem Sound.reset {table : TaskTable} (sound : table.Sound) (id : Nat) (task : NewTask) :
    (table.reset id task).Sound := by
  refine sound.change id _ ?_ ?_ ?_
  · exact fun _ => rfl
  · exact fun _ => rfl
  intro row old
  exact { old with
    status := ⟨.pending, rfl⟩, size := TaskRow.saturated_fits _, progress := by simp
    retryCount := ⟨Int.le_refl 0, Int.le_trans old.retryCount.1 old.retryCount.2⟩ }

theorem Sound.updateContent {table : TaskTable} (sound : table.Sound) (id : Nat) (task : NewTask) :
    (table.updateContent id task).Sound := by
  refine sound.change id _ ?_ ?_ ?_
  · exact fun _ => rfl
  · exact fun _ => rfl
  · exact fun row old => { old with size := TaskRow.saturated_fits _ }

theorem Sound.report {table : TaskTable} (sound : table.Sound) (id : Nat) (step : String)
    (percent : Nat) (bounded : percent ≤ 255) : (table.report id step percent).Sound := by
  refine sound.map _ ?_ ?_ ?_
  · intro row
    split <;> rfl
  · intro row
    split <;> rfl
  · intro row member
    split
    · exact { sound.rows row member with progress := by simp only; omega }
    · exact sound.rows row member

theorem Sound.getByPath_none {table : TaskTable} {path : String}
    (missing : Table.get? TaskRow.path table.rows path = none) :
    table.getByPath path = .ok none := by
  simp [getByPath, missing, taskOf]

theorem Sound.getByPath_some {table : TaskTable} (sound : table.Sound) {path : String}
    {row : TaskRow} (found : Table.get? TaskRow.path table.rows path = some row)
    {status : TaskStatus} (named : row.status = status.name) :
    table.getByPath path = .ok (some (row.asTask status)) := by
  have member := (Table.get?_some found).1
  simp [getByPath, found, taskOf, (sound.rows row member).task_eq named]

def startAll (table : TaskTable) (now : Int) (ids : List Nat) : TaskTable :=
  { table with rows := table.rows.map fun row => if row.id ∈ ids then row.started now else row }

theorem Sound.startAll {table : TaskTable} (sound : table.Sound) (now : Int) (ids : List Nat) :
    (table.startAll now ids).Sound := by
  refine sound.map _ ?_ ?_ ?_
  · intro row
    split <;> rfl
  · intro row
    split <;> rfl
  · intro row member
    split
    · exact (sound.rows row member).started now
    · exact sound.rows row member

theorem Sound.row?_eq {table : TaskTable} (sound : table.Sound) {row : TaskRow}
    (member : row ∈ table.rows) : table.row? row.id = some row :=
  Table.get?_of_mem sound.ids member

theorem Sound.eq_of_id {table : TaskTable} (sound : table.Sound) {a b : TaskRow}
    (first : a ∈ table.rows) (second : b ∈ table.rows) (same : a.id = b.id) : a = b := by
  have left := sound.row?_eq first
  rw [same, sound.row?_eq second] at left
  exact (Option.some.inj left).symm

theorem Sound.take_eq {table : TaskTable} (sound : table.Sound) (now : Int) {row : TaskRow}
    (member : row ∈ table.rows) (pending : row.hasStatus .pending = true) :
    table.take now row.id = table.startAll now [row.id] := by
  simp only [take, TaskTable.startAll, mk.injEq, and_true]
  apply List.map_congr_left
  intro other present
  by_cases same : other.id = row.id
  · rw [sound.eq_of_id present member same]
    simp [pending, TaskRow.started]
  · simp [same]

theorem startAll_cons (table : TaskTable) (now : Int) (id : Nat) (rest : List Nat)
    (apart : id ∉ rest) :
    (table.startAll now [id]).startAll now rest = table.startAll now (id :: rest) := by
  simp only [startAll, List.map_map, mk.injEq, and_true]
  apply List.map_congr_left
  intro row _
  by_cases same : row.id = id
  · simp [same, apart, TaskRow.started]
  · simp [same]

theorem Sound.row?_startAll {table : TaskTable} (sound : table.Sound) (now : Int) (ids : List Nat)
    {row : TaskRow} (member : row ∈ table.rows) :
    (table.startAll now ids).row? row.id =
      some (if row.id ∈ ids then row.started now else row) := by
  have present : (if row.id ∈ ids then row.started now else row) ∈
      (table.startAll now ids).rows :=
    List.mem_map.mpr ⟨row, member, rfl⟩
  have found := (sound.startAll now ids).row?_eq present
  split at found <;> split <;> simp_all [TaskRow.started]

theorem Sound.takeAll_eq {table : TaskTable} (sound : table.Sound) (now : Int)
    (rows : List TaskRow) (present : ∀ row ∈ rows, row ∈ table.rows)
    (pending : ∀ row ∈ rows, row.hasStatus .pending = true)
    (distinct : (rows.map TaskRow.id).Nodup) :
    takeAll now (rows.map TaskRow.id) table =
      (table.startAll now (rows.map TaskRow.id),
        .ok (rows.map fun row => (row.started now).asTask .processing)) := by
  induction rows generalizing table with
  | nil => simp [takeAll, TaskTable.startAll]
  | cons row rest ih =>
      have member := present row (by simp)
      have waits := pending row (by simp)
      simp only [List.map_cons, List.nodup_cons] at distinct
      have isPending : table.isPending row.id = true := by
        simp only [TaskTable.isPending, List.any_eq_true, Bool.and_eq_true, beq_iff_eq]
        exact ⟨row, member, rfl, waits⟩
      have taken : table.take now row.id = table.startAll now [row.id] :=
        sound.take_eq now member waits
      have read : (table.startAll now [row.id]).get row.id =
          .ok (some ((row.started now).asTask .processing)) := by
        have named : (row.started now).status = TaskStatus.processing.name := rfl
        rw [TaskTable.get, sound.row?_startAll now [row.id] member, if_pos (by simp)]
        simp [taskOf, ((sound.rows row member).started now).task_eq named]
      -- The tasks behind this one still wait, as they are other tasks.
      have later : ∀ other ∈ rest, other ∈ (table.startAll now [row.id]).rows := by
        intro other laterMember
        refine List.mem_map.mpr ⟨other, present other (List.mem_cons_of_mem _ laterMember), ?_⟩
        rw [if_neg]
        intro same
        exact distinct.1 (List.mem_singleton.mp same ▸ List.mem_map_of_mem laterMember)
      have tail := ih (sound.startAll now [row.id]) later
        (fun other inside => pending other (List.mem_cons_of_mem _ inside)) distinct.2
      simp only [List.map_cons, takeAll, isPending, if_true, taken, read, tail,
        startAll_cons _ now row.id _ distinct.1, Option.toList_some, List.singleton_append]
      rfl

def dueRows (table : TaskTable) (limit : Nat) (now : Int) : List TaskRow :=
  (table.rows.filter (TaskRow.isDue now)).take limit

theorem mem_dueRows {table : TaskTable} {limit : Nat} {now : Int} {row : TaskRow}
    (member : row ∈ table.dueRows limit now) : row ∈ table.rows ∧ row.isDue now = true :=
  List.mem_filter.mp (List.mem_of_mem_take member)

theorem pending_of_mem_dueRows {table : TaskTable} {limit : Nat} {now : Int} {row : TaskRow}
    (member : row ∈ table.dueRows limit now) : row.hasStatus .pending = true := by
  have due := (mem_dueRows member).2
  simp only [TaskRow.isDue, Bool.and_eq_true] at due
  exact due.1

theorem Sound.mem_dueRows_of_mem_due {table : TaskTable} (sound : table.Sound) {limit : Nat}
    {now : Int} {row : TaskRow} (member : row ∈ table.rows)
    (listed : row.id ∈ table.due limit now) : row ∈ table.dueRows limit now := by
  obtain ⟨other, present, same⟩ := List.mem_map.mp listed
  exact sound.eq_of_id (mem_dueRows present).1 member same ▸ present

theorem Sound.due_nodup {table : TaskTable} (sound : table.Sound) (limit : Nat) (now : Int) :
    (table.due limit now).Nodup :=
  (sound.ids.filter (TaskRow.isDue now)).sublist ((List.take_sublist _ _).map _)

theorem Sound.claim_eq {table : TaskTable} (sound : table.Sound) (limit : Nat) (now : Int) :
    table.claim limit now =
      (table.startAll now (table.due limit now),
        .ok ((table.dueRows limit now).map fun row => (row.started now).asTask .processing)) := by
  apply sound.takeAll_eq now (table.dueRows limit now)
  · exact fun row member => (mem_dueRows member).1
  · exact fun row member => pending_of_mem_dueRows member
  · exact sound.due_nodup limit now

end TaskTable

end CodeGraph
