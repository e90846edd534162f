import CodeGraph.Proofs.Queue.Landing

/-!
Tables whose rows read back, whatever numbers they hold, and the tasks in processing.

`Leads` says once what an operation can do to such a table: its rows still read back, and nothing is
in processing but what was and what the operation started.
-/

set_option autoImplicit false

namespace CodeGraph

namespace TaskRow

/-- The columns of a row that reads back. The task may have been tried more often than allowed. -/
structure Fits (row : TaskRow) : Prop where
  status : ∃ status : TaskStatus, row.status = status.name
  size : 0 ≤ row.size ∧ row.size ≤ maxInteger
  progress : 0 ≤ row.progress ∧ row.progress ≤ (255 : Nat)
  retryCount : 0 ≤ row.retryCount ∧ row.retryCount ≤ maxCount
  maxRetries : 0 ≤ row.maxRetries ∧ row.maxRetries ≤ maxCount
  chunks : 0 ≤ row.chunks ∧ row.chunks ≤ maxInteger
  edges : 0 ≤ row.edges ∧ row.edges ≤ maxInteger

theorem of_number_eq_ok {row : TaskRow} {field : String} {limit : Nat} {value : Int} {read : Nat}
    (number : row.number field limit value = .ok read) : 0 ≤ value ∧ value ≤ limit := by
  unfold TaskRow.number at number
  split at number
  · assumption
  · cases number

theorem Fits.of_task {row : TaskRow} {task : Task} (read : row.task = .ok task) : row.Fits := by
  unfold TaskRow.task at read
  cases named : TaskStatus.ofName? row.status with
  | none => simp only [named] at read; cases read
  | some status =>
      simp only [named] at read
      obtain ⟨_, size, read⟩ := Table.of_bind_eq_ok read
      obtain ⟨_, progress, read⟩ := Table.of_bind_eq_ok read
      obtain ⟨_, retryCount, read⟩ := Table.of_bind_eq_ok read
      obtain ⟨_, maxRetries, read⟩ := Table.of_bind_eq_ok read
      obtain ⟨_, chunks, read⟩ := Table.of_bind_eq_ok read
      obtain ⟨_, edges, -⟩ := Table.of_bind_eq_ok read
      have known : row.status = status.name := by
        have same := List.find?_some named
        exact (beq_iff_eq.mp same).symm
      exact ⟨⟨status, known⟩, of_number_eq_ok size, of_number_eq_ok progress,
        of_number_eq_ok retryCount, of_number_eq_ok maxRetries, of_number_eq_ok chunks,
        of_number_eq_ok edges⟩

theorem Fits.task_eq {row : TaskRow} (fits : row.Fits) {status : TaskStatus}
    (named : row.status = status.name) : row.task = .ok (row.asTask status) := by
  simp only [task, named, TaskStatus.ofName?_name,
    number_ok row "size" maxInteger row.size fits.size,
    number_ok row "progress" 255 row.progress fits.progress,
    number_ok row "retry_count" maxCount row.retryCount fits.retryCount,
    number_ok row "max_retries" maxCount row.maxRetries fits.maxRetries,
    number_ok row "chunks" maxInteger row.chunks fits.chunks,
    number_ok row "relationships" maxInteger row.edges fits.edges, bind, Except.bind, pure,
    Except.pure, asTask]

theorem Fits.complete {row : TaskRow} (fits : row.Fits) (now : Int) (hash : String)
    (output : TaskOutput) : (row.complete now hash output).Fits where
  status := ⟨_, rfl⟩
  size := fits.size
  progress := by
    simp only [TaskRow.complete]
    split <;> simp
  retryCount := fits.retryCount
  maxRetries := fits.maxRetries
  chunks := saturated_fits _
  edges := saturated_fits _

theorem Fits.requeued {row : TaskRow} (fits : row.Fits) :
    ({ row with
        status := TaskStatus.pending.name, retryCount := 0, availableAt := 0
        errorMessage := none, step := none } : TaskRow).Fits :=
  { fits with status := ⟨.pending, rfl⟩, retryCount := by simp }

theorem Fits.recordFailure {row : TaskRow} (fits : row.Fits) (hash error : String)
    (retryAt : Int) : (row.recordFailure hash error retryAt).Fits := by
  unfold TaskRow.recordFailure
  split
  · exact fits.requeued
  · refine { fits with status := ⟨_, rfl⟩, retryCount := ?_ }
    have count := fits.retryCount
    have most := fits.maxRetries
    -- A retry is counted only below the limit of the row, which fits itself.
    by_cases again : row.retryCount < row.maxRetries
    · simp only [again, decide_true, if_true]
      omega
    · simpa only [again, decide_false, Bool.false_eq_true, if_false] using count

theorem Fits.failTerminal {row : TaskRow} (fits : row.Fits) (hash error : String) :
    (row.failTerminal hash error).Fits := by
  unfold TaskRow.failTerminal
  split
  · exact { fits with status := ⟨.failed, rfl⟩ }
  · exact fits.requeued

theorem Fits.landed {row : TaskRow} (fits : row.Fits) (queue : Queue) (hash : String)
    (result : Except QueueError TaskOutput) : (queue.landed hash result row).Fits := by
  refine queue.landed_cases hash result (P := TaskRow.Fits) ?_ ?_ ?_
  · exact fun now output => fits.complete now hash output
  · exact fits.recordFailure hash
  · exact fits.failTerminal hash

theorem not_processing_complete (row : TaskRow) (now : Int) (hash : String) (output : TaskOutput) :
    (row.complete now hash output).hasStatus .processing = false := by
  by_cases same : row.hash = hash <;> simp [TaskRow.complete, hasStatus, TaskStatus.name, same]

theorem not_processing_recordFailure (row : TaskRow) (hash error : String) (retryAt : Int) :
    (row.recordFailure hash error retryAt).hasStatus .processing = false := by
  by_cases same : row.hash = hash <;> by_cases again : row.retryCount < row.maxRetries <;>
    simp [TaskRow.recordFailure, hasStatus, TaskStatus.name, same, again]

theorem not_processing_failTerminal (row : TaskRow) (hash error : String) :
    (row.failTerminal hash error).hasStatus .processing = false := by
  by_cases same : row.hash = hash <;> simp [TaskRow.failTerminal, hasStatus, TaskStatus.name, same]

theorem not_processing_landed (row : TaskRow) (queue : Queue) (hash : String)
    (result : Except QueueError TaskOutput) :
    (queue.landed hash result row).hasStatus .processing = false := by
  refine queue.landed_cases hash result (P := fun after => after.hasStatus .processing = false)
    ?_ ?_ ?_
  · exact fun now output => row.not_processing_complete now hash output
  · exact row.not_processing_recordFailure hash
  · exact row.not_processing_failTerminal hash

end TaskRow

namespace TaskTable

structure Readable (table : TaskTable) : Prop where
  rows : ∀ row ∈ table.rows, ∃ task, row.task = .ok task
  ids : Table.Unique TaskRow.id table.rows
  fresh : ∀ row ∈ table.rows, row.id < table.nextId

theorem Readable.fits {table : TaskTable} (readable : table.Readable) {row : TaskRow}
    (member : row ∈ table.rows) : row.Fits := by
  obtain ⟨task, read⟩ := readable.rows row member
  exact .of_task read

def processing (table : TaskTable) : List Nat :=
  (table.rows.filter (TaskRow.hasStatus .processing)).map TaskRow.id

theorem mem_processing {table : TaskTable} {id : Nat} :
    id ∈ table.processing ↔
      ∃ row ∈ table.rows, row.hasStatus .processing = true ∧ row.id = id := by
  simp [processing, and_assoc]

theorem length_processing (table : TaskTable) :
    table.processing.length = table.count .processing := by
  rw [processing, List.length_map, count, List.countP_eq_length_filter]

theorem Readable.nodup_processing {table : TaskTable} (readable : table.Readable) :
    table.processing.Nodup :=
  readable.ids.filter _

structure Leads (started : List Nat) (before after : TaskTable) : Prop where
  readable : before.Readable → after.Readable
  processing : ∀ id ∈ after.processing, id ∈ before.processing ∨ id ∈ started

variable {table : TaskTable} {started : List Nat}

theorem Leads.refl (table : TaskTable) : Leads started table table :=
  ⟨fun readable => readable, fun _ => .inl⟩

theorem Leads.map {f : TaskRow → TaskRow} (ids : ∀ row, (f row).id = row.id)
    (fits : ∀ row, row.Fits → (f row).Fits)
    (starts : ∀ row, (f row).hasStatus .processing = true →
      row.hasStatus .processing = true ∨ row.id ∈ started) :
    Leads started table { table with rows := table.rows.map f } where
  readable readable := by
    refine ⟨?_, ?_, ?_⟩
    · intro row member
      obtain ⟨before, present, rfl⟩ := List.mem_map.mp member
      have fitting := fits before (readable.fits present)
      obtain ⟨status, named⟩ := fitting.status
      exact ⟨_, fitting.task_eq named⟩
    · have same : (table.rows.map f).map TaskRow.id = table.rows.map TaskRow.id := by
        simp [Function.comp_def, ids]
      rw [Table.Unique, same]
      exact readable.ids
    · intro row member
      obtain ⟨before, present, rfl⟩ := List.mem_map.mp member
      exact ids before ▸ readable.fresh before present
  processing id member := by
    obtain ⟨row, inside, held, rfl⟩ := mem_processing.mp member
    obtain ⟨before, present, rfl⟩ := List.mem_map.mp inside
    rw [ids]
    rcases starts before held with old | new
    · exact .inl (mem_processing.mpr ⟨before, present, old, rfl⟩)
    · exact .inr new

theorem Leads.mapWhere {f : TaskRow → TaskRow} (p : TaskRow → Prop) [DecidablePred p]
    (ids : ∀ row, (f row).id = row.id) (fits : ∀ row, row.Fits → (f row).Fits)
    (starts : ∀ row, p row → (f row).hasStatus .processing = true →
      row.hasStatus .processing = true ∨ row.id ∈ started) :
    Leads started table
      { table with rows := table.rows.map (fun row => if p row then f row else row) } := by
  refine .map ?_ ?_ ?_
  · intro row
    split
    · exact ids row
    · rfl
  · intro row old
    split
    · exact fits row old
    · exact old
  · intro row held
    split at held
    next chosen => exact starts row chosen held
    next => exact .inl held

theorem leads_reset (id : Nat) (task : NewTask) : Leads [] table (table.reset id task) := by
  refine .mapWhere (·.id = id) (fun _ => rfl) (fun row old => ?_) (fun row _ held => ?_)
  · exact { old with
      status := ⟨.pending, rfl⟩, size := TaskRow.saturated_fits _, progress := by simp
      retryCount := by simp }
  · simp [TaskRow.hasStatus, TaskStatus.name] at held

theorem leads_updateContent (id : Nat) (task : NewTask) :
    Leads [] table (table.updateContent id task) := by
  refine .mapWhere (·.id = id) (fun _ => rfl) (fun row old => ?_) (fun row _ held => .inl held)
  exact { old with size := TaskRow.saturated_fits _ }

theorem leads_take (now : Int) (id : Nat) : Leads [id] table (table.take now id) := by
  refine .mapWhere (fun row => row.id = id ∧ row.hasStatus .pending = true) (fun _ => rfl)
    (fun row old => ?_) (fun row chosen _ => .inr ?_)
  · exact { old with status := ⟨.processing, rfl⟩, progress := by simp }
  · exact List.mem_singleton.mpr chosen.1

theorem mem_processing_take {id other : Nat} (now : Int) (pending : table.isPending id = true) :
    other ∈ (table.take now id).processing ↔ other ∈ table.processing ∨ other = id := by
  constructor
  · intro member
    exact ((leads_take now id).processing other member).imp_right List.mem_singleton.mp
  · simp only [mem_processing, take, List.mem_map]
    rintro (⟨row, inside, held, rfl⟩ | rfl)
    · -- A row in processing is not pending, so the write passes it over.
      have busy : row.hasStatus .pending = false := TaskRow.hasStatus_of_ne held (by decide)
      exact ⟨row, ⟨row, inside, by simp [busy]⟩, held, rfl⟩
    · simp only [isPending, List.any_eq_true, Bool.and_eq_true, beq_iff_eq] at pending
      obtain ⟨row, inside, same, waits⟩ := pending
      refine ⟨row.started now, ⟨row, inside, by rw [if_pos ⟨same, waits⟩]; rfl⟩, ?_, same⟩
      simp [TaskRow.started, TaskRow.hasStatus]

theorem Readable.not_mem_processing (readable : table.Readable) {id : Nat}
    (pending : table.isPending id = true) : id ∉ table.processing := by
  intro member
  simp only [isPending, List.any_eq_true, Bool.and_eq_true, beq_iff_eq] at pending
  obtain ⟨row, inside, same, waits⟩ := pending
  obtain ⟨other, present, held, same'⟩ := mem_processing.mp member
  obtain rfl : row = other :=
    List.inj_on_of_nodup_map readable.ids inside present (same.trans same'.symm)
  cases TaskRow.status_unique waits held

theorem leads_report (id : Nat) (step : String) (percent : Nat) (bounded : percent ≤ 255) :
    Leads [] table (table.report id step percent) := by
  refine .mapWhere (fun row => row.id = id ∧ row.hasStatus .processing = true) (fun _ => rfl)
    (fun row old => { old with progress := ?_ }) (fun row chosen _ => .inl chosen.2)
  simp only
  omega

theorem processing_report (id : Nat) (step : String) (percent : Nat) :
    (table.report id step percent).processing = table.processing := by
  simp only [processing, report, List.filter_map, List.map_map]
  congr 1
  · funext row
    simp only [Function.comp_apply]
    split <;> rfl
  · apply List.filter_congr
    intro row _
    simp only [Function.comp_apply]
    split <;> rfl

theorem leads_release (id : Nat) {f : TaskRow → TaskRow} (ids : ∀ row, (f row).id = row.id)
    (fits : ∀ row, row.Fits → (f row).Fits)
    (free : ∀ row, (f row).hasStatus .processing = false) :
    Leads [] table (table.change id f) := by
  refine .mapWhere (·.id = id) ids fits (fun row _ held => ?_)
  rw [free] at held
  cases held

theorem mem_processing_release {id other : Nat} {f : TaskRow → TaskRow}
    (free : ∀ row, (f row).hasStatus .processing = false) :
    other ∈ (table.change id f).processing ↔ other ∈ table.processing ∧ other ≠ id := by
  simp only [mem_processing]
  constructor
  · rintro ⟨row, inside, held, same⟩
    obtain ⟨before, present, rfl⟩ := Table.mem_update.mp inside
    by_cases chosen : before.id = id
    · simp [chosen, free] at held
    · rw [if_neg chosen] at held same
      exact ⟨⟨before, present, held, same⟩, fun again => chosen (same.trans again)⟩
  · rintro ⟨⟨row, inside, held, same⟩, differ⟩
    refine ⟨row, Table.mem_update.mpr ⟨row, inside, if_neg fun again => ?_⟩, held, same⟩
    exact differ (same.symm.trans again)

theorem leads_landed (queue : Queue) (id : Nat) (hash : String)
    (result : Except QueueError TaskOutput) :
    Leads [] table (table.change id (queue.landed hash result)) :=
  leads_release id (fun row => (row.sameTask_landed queue hash result).id)
    (fun _ old => old.landed queue hash result)
    (fun row => row.not_processing_landed queue hash result)

theorem not_mem_processing_landed (queue : Queue) (id : Nat) (hash : String)
    (result : Except QueueError TaskOutput) :
    id ∉ (table.change id (queue.landed hash result)).processing := by
  rw [mem_processing_release fun row => row.not_processing_landed queue hash result]
  exact fun inside => inside.2 rfl

theorem leads_retryFailed : Leads [] table table.retryFailed := by
  refine .mapWhere (·.hasStatus .failed = true) (fun _ => rfl) (fun row old => ?_)
    (fun row _ held => ?_)
  · exact { old with status := ⟨.pending, rfl⟩, progress := by simp, retryCount := by simp }
  · simp [TaskRow.hasStatus, TaskStatus.name] at held

theorem leads_recover : Leads [] table table.recover := by
  refine .mapWhere (·.hasStatus .processing = true) (fun _ => rfl) (fun row old => ?_)
    (fun row _ held => ?_)
  · exact { old with status := ⟨.pending, rfl⟩, progress := by simp }
  · simp [TaskRow.hasStatus, TaskStatus.name] at held

theorem processing_recover (table : TaskTable) : table.recover.processing = [] := by
  rw [List.eq_nil_iff_forall_not_mem]
  intro id member
  obtain ⟨row, inside, held, -⟩ := mem_processing.mp member
  simp only [recover, changeStatus, List.mem_map] at inside
  obtain ⟨before, -, rfl⟩ := inside
  split at held
  next => simp [TaskRow.hasStatus, TaskStatus.name] at held
  next free => exact free held

theorem leads_keep (p : TaskRow → Bool) : Leads [] table (table.keep p) where
  readable readable :=
    { rows := fun row member => readable.rows row (List.mem_of_mem_filter member)
      ids := readable.ids.filter p
      fresh := fun row member => readable.fresh row (List.mem_of_mem_filter member) }
  processing id member := by
    obtain ⟨row, inside, held, same⟩ := mem_processing.mp member
    exact .inl (mem_processing.mpr ⟨row, List.mem_of_mem_filter inside, held, same⟩)

theorem leads_insert {after : TaskTable} {task : NewTask} {maxRetries id : Nat}
    (bounded : maxRetries ≤ maxCount) (inserted : table.insert task maxRetries = .ok (after, id)) :
    Leads [] table after := by
  unfold TaskTable.insert at inserted
  split at inserted
  · cases inserted
  · cases inserted
    refine ⟨fun readable => ⟨?_, ?_, ?_⟩, ?_⟩
    · intro row member
      rcases List.mem_append.mp member with present | added
      · exact readable.rows row present
      · have fits : row.Fits := by
          rw [List.mem_singleton.mp added]
          exact ⟨⟨.pending, rfl⟩, TaskRow.saturated_fits _, by simp, by simp,
            ⟨Int.natCast_nonneg _, Int.ofNat_le.mpr bounded⟩, by simp, by simp⟩
        obtain ⟨status, named⟩ := fits.status
        exact ⟨_, fits.task_eq named⟩
    · simp only [Table.Unique, List.map_append, List.map_cons, List.map_nil]
      refine List.nodup_append.mpr ⟨readable.ids, List.nodup_singleton _, ?_⟩
      rintro id present other last rfl
      obtain ⟨row, member, rfl⟩ := List.mem_map.mp present
      exact absurd (List.mem_singleton.mp last) (Nat.ne_of_lt (readable.fresh row member))
    · intro row member
      rcases List.mem_append.mp member with present | added
      · exact Nat.lt_succ_of_lt (readable.fresh row present)
      · rw [List.mem_singleton.mp added]
        exact Nat.lt_succ_self _
    · intro id member
      obtain ⟨row, inside, held, same⟩ := mem_processing.mp member
      rcases List.mem_append.mp inside with present | added
      · exact .inl (mem_processing.mpr ⟨row, present, held, same⟩)
      · rw [List.mem_singleton.mp added] at held
        simp [TaskRow.hasStatus, TaskStatus.name] at held

/-- A request starts nothing, whatever task it saw when it came in. -/
theorem leads_respond {after : TaskTable} {task : NewTask} {maxRetries : Nat}
    (bounded : maxRetries ≤ maxCount) {seen : Option Task} {answer : Enqueued}
    (responded : table.respond task maxRetries seen = .ok (after, answer)) :
    Leads [] table after := by
  cases seen with
  | none =>
      obtain ⟨result, inserted, written⟩ := Table.of_bind_eq_ok responded
      cases written
      exact leads_insert bounded inserted
  | some old =>
      simp only [respond] at responded
      split at responded
      · split at responded
        · cases responded; exact .refl table
        · cases responded; exact .refl table
        · cases responded; exact .refl table
        · split at responded
          · cases responded; exact leads_reset old.id task
          · cases responded; exact .refl table
      · cases responded
        split
        · exact leads_updateContent old.id task
        · exact leads_reset old.id task

theorem Readable.get_cases (readable : table.Readable) (id : Nat) :
    table.get id = .ok none ∧ id ∉ table.processing ∨
      ∃ task : Task, table.get id = .ok (some task) ∧ task.id = id := by
  rw [get, row?]
  cases found : Table.get? TaskRow.id table.rows id with
  | none =>
      refine .inl ⟨rfl, fun member => ?_⟩
      obtain ⟨row, inside, -, same⟩ := mem_processing.mp member
      exact Table.get?_eq_none_iff.mp found row inside same
  | some row =>
      obtain ⟨inside, same⟩ := Table.get?_some found
      have fits := readable.fits inside
      obtain ⟨status, named⟩ := fits.status
      refine .inr ⟨row.asTask status, ?_, same⟩
      simp [taskOf, fits.task_eq named]

end TaskTable

end CodeGraph
