import CodeGraph.Proofs.Queue.Landing
import Mathlib.Data.List.Forall2

/-!
Sessions of a queue whose worker uses it only to report on its task. What came of each attempt is
kept in a log.

The invariant `Running` says how the rows of a session come from those it started with: tasks that
did not wait are as they were, tasks in processing are in the hands of a worker, and a task that is
done ended as an attempt in the log has it. Pulling, starting and finishing tasks keep it.
-/

set_option autoImplicit false

namespace CodeGraph.Queue

/-- The attempts of a session, each with the path of its task and what came of it. -/
abbrev Log : Type := List (String × Option Nat)

structure Follows (policy : EmptyOutputPolicy) (log : Log) (before after : TaskRow) : Prop where
  same : before.SameTask after
  unheld : before.hasStatus .processing = false
  idle : before.hasStatus .pending = false → after = before
  completed : before.hasStatus .pending = true → after.hasStatus .completed = true →
    ∃ count, (before.path, some count) ∈ log ∧ accepts policy (some count) = true ∧
      after.chunks = saturated count
  failed : before.hasStatus .pending = true → after.hasStatus .failed = true →
    ∃ outcome, (before.path, outcome) ∈ log ∧ accepts policy outcome = false

theorem Follows.append {policy : EmptyOutputPolicy} {log : Log} {before after : TaskRow}
    (follows : Follows policy log before after) (more : Log) :
    Follows policy (log ++ more) before after where
  same := follows.same
  unheld := follows.unheld
  idle := follows.idle
  completed := by
    intro pending completed
    obtain ⟨count, listed, rest⟩ := follows.completed pending completed
    exact ⟨count, List.mem_append_left _ listed, rest⟩
  failed := by
    intro pending failed
    obtain ⟨outcome, listed, refused⟩ := follows.failed pending failed
    exact ⟨outcome, List.mem_append_left _ listed, refused⟩

theorem Follows.started {policy : EmptyOutputPolicy} {log : Log} {before after : TaskRow}
    (follows : Follows policy log before after) (pending : after.hasStatus .pending = true)
    (now : Int) : Follows policy log before (after.started now) where
  same := follows.same.trans ⟨rfl, rfl, rfl, rfl, rfl⟩
  unheld := follows.unheld
  idle := by
    intro idle
    rw [follows.idle idle, idle] at pending
    cases pending
  completed := by
    intro _ completed
    simp [TaskRow.started, TaskRow.hasStatus, TaskStatus.name] at completed
  failed := by
    intro _ failed
    simp [TaskRow.started, TaskRow.hasStatus, TaskStatus.name] at failed

namespace Session

variable {σ : Type}

inductive Worked (worker : Worker σ) (start : σ) : Log → σ → Prop
  | nil : Worked worker start [] start
  | snoc {log : Log} {state : σ} (earlier : Worked worker start log state) (task : Task)
      (queue : Queue) (plain : task.content = none) :
      Worked worker start (log ++ [(task.path, outcome (worker task queue state).result)])
        (worker task queue state).state

/-- A worker that uses the queue only to report on its own task. -/
def Reports (worker : Worker σ) : Prop :=
  ∀ task queue state, ∃ notes : List (String × Nat),
    (worker task queue state).queue =
      notes.foldl (fun queue note => queue.report task note.1 note.2) queue

def flightIds (session : Session σ) : List Nat :=
  session.flights.map (fun flight => flight.task.id)

structure AtRest (session : Session σ) : Prop where
  sound : session.queue.table.Sound
  calm : session.queue.paused = false ∧ session.queue.stopped = false
  plain : ∀ row ∈ session.queue.table.rows, row.content = none
  unheld : ∀ row ∈ session.queue.table.rows, row.hasStatus .processing = false
  flights : session.flights = []
  running : session.queue.running = []

structure Running (worker : Worker σ) (initial : Session σ) (claimed : List Task) (log : Log)
    (session : Session σ) : Prop where
  sound : session.queue.table.Sound
  settings : session.queue.settings = initial.queue.settings
  calm : session.queue.paused = false ∧ session.queue.stopped = false
  rows : List.Forall₂ (Follows initial.queue.settings.emptyOutput log)
    initial.queue.table.rows session.queue.table.rows
  plain : ∀ row ∈ session.queue.table.rows, row.content = none
  held : ∀ row ∈ session.queue.table.rows,
    row.hasStatus .processing = true ↔ row.id ∈ session.flightIds ++ claimed.map Task.id
  flights : ∀ flight ∈ session.flights, ∃ row ∈ session.queue.table.rows,
    row.id = flight.task.id ∧ row.hash = flight.task.hash ∧
      (row.path, outcome flight.result) ∈ log
  unstarted : ∀ task ∈ claimed, ∃ row ∈ session.queue.table.rows,
    row.id = task.id ∧ row.hash = task.hash ∧ row.path = task.path ∧ task.content = none
  distinct : (session.flightIds ++ claimed.map Task.id).Nodup
  running : (session.queue.running.map Task.id).Perm (session.flightIds ++ claimed.map Task.id)
  worked : Worked worker initial.state log session.state
  inside : ∀ path ∈ log.map Prod.fst, ∃ row ∈ initial.queue.table.rows,
    row.hasStatus .pending = true ∧ row.path = path
  outside : ∀ row ∈ session.queue.table.rows, row.hasStatus .pending = false →
    row.id ∉ claimed.map Task.id →
    row ∈ initial.queue.table.rows ∨ row.path ∈ log.map Prod.fst

variable {worker : Worker σ} {initial session : Session σ} {claimed : List Task} {log : Log}

theorem Running.of_atRest (rest : initial.AtRest) :
    Running worker initial [] [] initial where
  sound := rest.sound
  settings := rfl
  calm := rest.calm
  rows := by
    apply List.forall₂_same.mpr
    intro row member
    refine ⟨.refl row, rest.unheld row member, fun _ => rfl, ?_, ?_⟩
    · intro pending completed
      exact absurd (TaskRow.status_unique pending completed) (by decide)
    · intro pending failed
      exact absurd (TaskRow.status_unique pending failed) (by decide)
  plain := rest.plain
  held := by
    intro row member
    simp [flightIds, rest.flights, rest.unheld row member]
  flights := by simp [rest.flights]
  unstarted := by simp
  distinct := by simp [flightIds, rest.flights]
  running := by simp [flightIds, rest.flights, rest.running]
  worked := .nil
  inside := by simp
  outside := fun row member _ _ => .inl member

structure Noted (before after : TaskRow) : Prop where
  same : before.SameTask after
  status : after.status = before.status
  retryCount : after.retryCount = before.retryCount
  chunks : after.chunks = before.chunks
  idle : before.hasStatus .processing = false → after = before

theorem Noted.refl (row : TaskRow) : Noted row row :=
  ⟨.refl row, rfl, rfl, rfl, fun _ => rfl⟩

theorem Noted.trans {a b c : TaskRow} (first : Noted a b) (second : Noted b c) : Noted a c where
  same := first.same.trans second.same
  status := second.status.trans first.status
  retryCount := second.retryCount.trans first.retryCount
  chunks := second.chunks.trans first.chunks
  idle := by
    intro idle
    obtain rfl := first.idle idle
    exact second.idle idle

structure Reported (before after : Queue) : Prop where
  settings : after.settings = before.settings
  calm : after.paused = before.paused ∧ after.stopped = before.stopped
  running : after.running = before.running
  sound : before.table.Sound → after.table.Sound
  rows : ∃ note : TaskRow → TaskRow,
    after.table.rows = before.table.rows.map note ∧ ∀ row, Noted row (note row)

theorem Reported.refl (queue : Queue) : Reported queue queue :=
  ⟨rfl, ⟨rfl, rfl⟩, rfl, id, id, by simp, Noted.refl⟩

theorem Reported.trans {a b c : Queue} (first : Reported a b) (second : Reported b c) :
    Reported a c where
  settings := second.settings.trans first.settings
  calm := ⟨second.calm.1.trans first.calm.1, second.calm.2.trans first.calm.2⟩
  running := second.running.trans first.running
  sound := second.sound ∘ first.sound
  rows := by
    obtain ⟨early, firstRows, firstNoted⟩ := first.rows
    obtain ⟨late, secondRows, secondNoted⟩ := second.rows
    refine ⟨late ∘ early, by rw [secondRows, firstRows, List.map_map], ?_⟩
    exact fun row => (firstNoted row).trans (secondNoted (early row))

theorem reported_report (queue : Queue) (task : Task) (step : String) (percent : Nat) :
    Reported queue (queue.report task step percent) where
  settings := rfl
  calm := ⟨rfl, rfl⟩
  running := rfl
  sound := fun sound => sound.report task.id step (min percent 100) (by omega)
  rows := by
    refine ⟨_, rfl, ?_⟩
    intro row
    split
    next hit =>
      refine ⟨⟨rfl, rfl, rfl, rfl, rfl⟩, rfl, rfl, rfl, ?_⟩
      intro idle
      simp [hit.2] at idle
    next => exact .refl row

theorem reported_foldl (task : Task) (notes : List (String × Nat)) (queue : Queue) :
    Reported queue
      (notes.foldl (fun queue note => queue.report task note.1 note.2) queue) := by
  induction notes generalizing queue with
  | nil => exact .refl queue
  | cons note rest ih => exact (reported_report queue task note.1 note.2).trans (ih _)

theorem Running.reported (rest : initial.AtRest)
    (inv : Running worker initial claimed log session) {queue : Queue}
    (reported : Reported session.queue queue) :
    Running worker initial claimed log { session with queue } := by
  -- The rows are those of before under `note`, which every part of the invariant is blind to.
  obtain ⟨note, rows, noted⟩ := reported.rows
  have member (row : TaskRow) (present : row ∈ session.queue.table.rows) :
      note row ∈ queue.table.rows := by
    rw [rows]
    exact List.mem_map_of_mem present
  have origin (row : TaskRow) (present : row ∈ queue.table.rows) :
      ∃ before ∈ session.queue.table.rows, note before = row := by
    rw [rows] at present
    exact List.mem_map.mp present
  have status (row : TaskRow) (status : TaskStatus) :
      (note row).hasStatus status = row.hasStatus status := by
    simp only [TaskRow.hasStatus, (noted row).status]
  refine
    { sound := reported.sound inv.sound
      settings := reported.settings.trans inv.settings
      calm := ⟨reported.calm.1.trans inv.calm.1, reported.calm.2.trans inv.calm.2⟩
      rows := ?_, plain := ?_, held := ?_, flights := ?_, unstarted := ?_
      distinct := inv.distinct
      running := by rw [reported.running]; exact inv.running
      worked := inv.worked, inside := inv.inside, outside := ?_ }
  · rw [rows]
    apply List.forall₂_map_right_iff.mpr
    apply inv.rows.imp
    intro before after follows
    refine ⟨follows.same.trans (noted after).same, follows.unheld, ?_, ?_, ?_⟩
    · intro idle
      obtain rfl := follows.idle idle
      exact (noted after).idle follows.unheld
    · intro pending completed
      rw [(noted after).chunks]
      exact follows.completed pending (status after .completed ▸ completed)
    · intro pending failed
      exact follows.failed pending (status after .failed ▸ failed)
  · intro row present
    obtain ⟨before, earlier, rfl⟩ := origin row present
    exact (noted before).same.content.trans (inv.plain before earlier)
  · intro row present
    obtain ⟨before, earlier, rfl⟩ := origin row present
    rw [status, (noted before).same.id]
    exact inv.held before earlier
  · intro flight present
    obtain ⟨row, earlier, id, hash, logged⟩ := inv.flights flight present
    refine ⟨note row, member row earlier, ?_, ?_, ?_⟩
    · exact (noted row).same.id.trans id
    · exact (noted row).same.hash.trans hash
    · rw [(noted row).same.path]
      exact logged
  · intro task present
    obtain ⟨row, earlier, id, hash, path, plain⟩ := inv.unstarted task present
    exact ⟨note row, member row earlier, (noted row).same.id.trans id,
      (noted row).same.hash.trans hash, (noted row).same.path.trans path, plain⟩
  · intro row present idle apart
    obtain ⟨before, earlier, rfl⟩ := origin row present
    rw [status] at idle
    rw [(noted before).same.id] at apart
    rcases inv.outside before earlier idle apart with first | done
    · -- A row of the start is in no worker's hands, so that no report can be about it.
      rw [(noted before).idle (rest.unheld before first)]
      exact .inl first
    · rw [(noted before).same.path]
      exact .inr done

theorem Running.origin (inv : Running worker initial claimed log session) {row : TaskRow}
    (member : row ∈ session.queue.table.rows) :
    ∃ before ∈ initial.queue.table.rows,
      Follows initial.queue.settings.emptyOutput log before row := by
  obtain ⟨index, bound, rfl⟩ := List.mem_iff_getElem.mp member
  have earlier : index < initial.queue.table.rows.length := inv.rows.length_eq ▸ bound
  exact ⟨_, List.getElem_mem earlier, inv.rows.get earlier bound⟩

theorem Running.waited (inv : Running worker initial claimed log session) {row : TaskRow}
    (member : row ∈ session.queue.table.rows) (held : row.hasStatus .processing = true) :
    ∃ before ∈ initial.queue.table.rows,
      before.hasStatus .pending = true ∧ before.path = row.path := by
  obtain ⟨before, earlier, follows⟩ := inv.origin member
  refine ⟨before, earlier, ?_, follows.same.path.symm⟩
  -- Otherwise the row is the one of the start, which no worker held.
  by_contra idle
  rw [follows.idle (by simpa using idle), follows.unheld] at held
  cases held

theorem reported_publish (queue : Queue) (event : QueueEvent) :
    Reported queue (queue.publish event) :=
  ⟨rfl, ⟨rfl, rfl⟩, rfl, id, id, by simp [publish], Noted.refl⟩

theorem reported_start (reports : Reports worker) (session : Session σ) (task : Task) :
    Reported session.queue (session.start worker task).queue := by
  obtain ⟨notes, same⟩ := reports task
    (session.queue.publish (.started task.id task.path)) session.state
  simp only [Session.start, same]
  exact (reported_publish _ _).trans (reported_foldl task notes _)

theorem Running.start (reports : Reports worker) (rest : initial.AtRest) {task : Task}
    {others : List Task} (inv : Running worker initial (task :: others) log session) :
    ∃ outcome, Running worker initial others (log ++ [(task.path, outcome)])
      (session.start worker task) := by
  let queue := session.queue.publish (.started task.id task.path)
  have noted := inv.reported rest (reported_start reports session task)
  obtain ⟨row, member, id, hash, path, plain⟩ := noted.unstarted task (by simp)
  -- The task moves from those that are claimed to those in flight.
  have ids : (session.start worker task).flightIds ++ others.map Task.id =
      session.flightIds ++ (task :: others).map Task.id := by
    simp [flightIds, Session.start]
  have held : row.hasStatus .processing = true := by
    rw [noted.held row member, id]
    simp
  refine ⟨Queue.outcome (worker task queue session.state).result,
    { sound := noted.sound, settings := noted.settings, calm := noted.calm
      rows := noted.rows.imp fun _ _ follows => follows.append _
      plain := noted.plain
      held := by rw [ids]; exact noted.held
      flights := ?_
      unstarted := fun later present => noted.unstarted later (List.mem_cons_of_mem _ present)
      distinct := by rw [ids]; exact noted.distinct
      running := by rw [ids]; exact noted.running
      worked := .snoc noted.worked task queue plain
      inside := ?_, outside := ?_ }⟩
  · intro flight present
    rcases List.mem_append.mp present with earlier | last
    · obtain ⟨row, member, id, hash, logged⟩ := noted.flights flight earlier
      exact ⟨row, member, id, hash, List.mem_append_left _ logged⟩
    · rw [List.mem_singleton.mp last]
      exact ⟨row, member, id, hash, by rw [path]; exact List.mem_append_right _ (by simp [queue])⟩
  · intro known present
    rw [List.map_append, List.mem_append] at present
    rcases present with earlier | last
    · exact noted.inside known earlier
    · rw [List.mem_singleton.mp last, ← path]
      exact noted.waited member held
  · -- All rows but that of the task were accounted for before.
    intro other present idle apart
    rw [List.map_append]
    by_cases same : other.id = task.id
    · rw [noted.sound.eq_of_id present member (same.trans id.symm), path]
      exact .inr (by simp)
    · refine (noted.outside other present idle ?_).imp_right (List.mem_append_left _)
      simpa [same] using apart

theorem Running.startAll (reports : Reports worker) (rest : initial.AtRest) (tasks : List Task)
    (inv : Running worker initial tasks log session) :
    ∃ more, Running worker initial [] (log ++ more) (tasks.foldl (Session.start worker) session) := by
  induction tasks generalizing session log with
  | nil => exact ⟨[], by simpa using inv⟩
  | cons task others ih =>
      obtain ⟨outcome, next⟩ := inv.start reports rest
      obtain ⟨more, last⟩ := ih next
      exact ⟨(task.path, outcome) :: more, by simpa using last⟩

theorem Running.now (inv : Running worker initial claimed log session) (now : Int) :
    Running worker initial claimed log
      { session with queue := { session.queue with now } } :=
  { inv with }

theorem Running.drained (rest : initial.AtRest)
    (inv : Running worker initial claimed log session) :
    Running worker initial claimed log
      { session with queue := session.queue.drained } := by
  apply inv.reported rest
  unfold Queue.drained
  split
  · exact ⟨rfl, ⟨rfl, rfl⟩, rfl, id, id, by simp [publish], Noted.refl⟩
  · exact .refl _

theorem forall₂_imp_mem {α β : Type} {R S : α → β → Prop} {as : List α} {bs : List β}
    (related : List.Forall₂ R as bs) (imp : ∀ a b, b ∈ bs → R a b → S a b) :
    List.Forall₂ S as bs := by
  induction related with
  | nil => exact .nil
  | cons head tail ih =>
      exact .cons (imp _ _ (by simp) head)
        (ih fun a b member => imp a b (List.mem_cons_of_mem _ member))

theorem Running.claim (inv : Running worker initial [] log session) (limit : Nat)
    (now : Int) (busy : Bool) :
    let tasks := (session.queue.table.dueRows limit now).map
      fun row => (row.started now).asTask .processing
    Running worker initial tasks log
      { session with queue := { session.queue with
          table := session.queue.table.startAll now (session.queue.table.due limit now), busy
          running := session.queue.running ++ tasks } } := by
  intro tasks
  let table := session.queue.table
  let ids := table.due limit now
  have taskIds : tasks.map Task.id = ids := by
    simp [tasks, ids, TaskTable.due, TaskTable.dueRows, table, Function.comp_def, TaskRow.asTask,
      TaskRow.started]
  have pending {row : TaskRow} (member : row ∈ table.rows) (listed : row.id ∈ ids) :
      row.hasStatus .pending = true :=
    TaskTable.pending_of_mem_dueRows (inv.sound.mem_dueRows_of_mem_due member listed)
  refine
    { sound := inv.sound.startAll now ids, settings := inv.settings, calm := inv.calm, rows := ?_
      plain := ?_, held := ?_, flights := ?_, unstarted := ?_, distinct := ?_, running := ?_
      worked := inv.worked, inside := inv.inside, outside := ?_ }
  · apply List.forall₂_map_right_iff.mpr
    apply forall₂_imp_mem inv.rows
    intro before after member follows
    split
    next listed => exact follows.started (pending member listed) now
    next => exact follows
  · intro row member
    obtain ⟨before, present, rfl⟩ := List.mem_map.mp member
    split <;> exact inv.plain before present
  · intro row member
    obtain ⟨before, present, rfl⟩ := List.mem_map.mp member
    rw [taskIds]
    have old := inv.held before present
    simp only [List.map_nil, List.append_nil] at old
    split
    next listed => simp [TaskRow.started, TaskRow.hasStatus, List.mem_append, ids, table, listed]
    next missing =>
      rw [old, List.mem_append]
      exact ⟨.inl, fun either => either.resolve_right missing⟩
  · intro flight member
    obtain ⟨row, present, id, hash, logged⟩ := inv.flights flight member
    refine ⟨_, List.mem_map_of_mem present, ?_⟩
    split <;> exact ⟨id, hash, logged⟩
  · intro task member
    obtain ⟨row, present, rfl⟩ := List.mem_map.mp member
    have earlier := (TaskTable.mem_dueRows present).1
    refine ⟨row.started now, List.mem_map.mpr ⟨row, earlier, ?_⟩, rfl, rfl, rfl,
      inv.plain row earlier⟩
    rw [if_pos]
    exact List.mem_map_of_mem present
  · rw [taskIds]
    have old := inv.distinct
    simp only [List.map_nil, List.append_nil] at old
    refine List.nodup_append.mpr ⟨old, ?_, ?_⟩
    · exact inv.sound.due_nodup limit now
    · -- What is in flight is in processing, and what is claimed was pending.
      rintro id flying other listed rfl
      obtain ⟨row, present, rfl⟩ := List.mem_map.mp listed
      have held := (inv.held row (TaskTable.mem_dueRows present).1).mpr
        (List.mem_append_left _ flying)
      rw [TaskRow.hasStatus_of_ne (TaskTable.pending_of_mem_dueRows present) (by decide)] at held
      cases held
  · have old := inv.running
    simp only [List.map_nil, List.append_nil] at old
    rw [List.map_append]
    exact old.append_right _
  · intro row member idle apart
    obtain ⟨before, present, rfl⟩ := List.mem_map.mp member
    rw [taskIds] at apart
    split at apart
    next listed => exact absurd listed apart
    next missing =>
      simp only [missing, if_false] at idle ⊢
      exact inv.outside before present idle (by simp)

theorem Running.pull (rest : initial.AtRest)
    (inv : Running worker initial [] log session) :
    Running worker initial session.queue.pull.2 log
      { session with queue := session.queue.pull.1 } := by
  unfold Queue.pull
  split
  · exact inv
  · rw [inv.sound.claim_eq]
    have claimed := inv.claim (session.queue.cap - session.queue.running.length)
      session.queue.now
    dsimp only at claimed ⊢
    cases tasks : (session.queue.table.dueRows
        (session.queue.cap - session.queue.running.length) session.queue.now).map
        (fun row => (row.started session.queue.now).asTask .processing) with
    | nil =>
        rw [tasks, List.append_nil] at claimed
        dsimp only
        split
        · exact (claimed session.queue.busy).drained rest
        · exact claimed session.queue.busy
    | cons first others =>
        rw [tasks] at claimed
        exact claimed true

theorem first?_eq_none {flights : List Flight} (none : first? flights = none) : flights = [] := by
  cases flights with
  | nil => rfl
  | cons flight rest =>
      simp only [first?] at none
      split at none
      · cases none
      · split at none <;> cases none

theorem first?_perm {flights others : List Flight} {flight : Flight}
    (found : first? flights = some (flight, others)) : flights.Perm (flight :: others) := by
  -- The head lands first, or it is swapped with what lands first of the rest.
  induction flights generalizing flight others with
  | nil => cases found
  | cons head rest ih =>
      simp only [first?] at found
      split at found
      next none =>
        cases found
        rw [first?_eq_none none]
      next other later sooner =>
        split at found
        · cases found
          exact .refl _
        · cases found
          exact ((ih sooner).cons head).trans (.swap _ _ _)

theorem map_id_eraseP (tasks : List Task) (id : Nat) :
    (tasks.eraseP (fun held => held.id == id)).map Task.id = (tasks.map Task.id).erase id := by
  induction tasks with
  | nil => rfl
  | cons task rest ih =>
      by_cases same : task.id = id
      · simp [same]
      · simp [same, ih]

structure Landed (policy : EmptyOutputPolicy) (log : Log) (session : Session σ) (flight : Flight)
    (others : List Flight) (row : TaskRow) (step : TaskRow → TaskRow) : Prop where
  member : row ∈ session.queue.table.rows
  id : row.id = flight.task.id
  held : row.hasStatus .processing = true
  same : ∀ row : TaskRow, row.SameTask (step row)
  sound : ∀ row : TaskRow, row.Sound → (step row).Sound
  logged : (row.path, outcome flight.result) ∈ log
  landing : TaskRow.Landing policy (outcome flight.result) row (step row)
  result : ∃ announced, session.land flight others =
    { session with
      queue := { session.queue with
        now := max session.queue.now flight.landsAt
        table := session.queue.table.change flight.task.id step, announced
        running := session.queue.running.eraseP (fun held => held.id == flight.task.id) }
      flights := others }

theorem flightIds_perm {flight : Flight} {others : List Flight}
    (found : first? session.flights = some (flight, others)) :
    session.flightIds.Perm (flight.task.id :: others.map (fun flight => flight.task.id)) :=
  (first?_perm found).map (fun flight : Flight => flight.task.id)

theorem Running.landed (inv : Running worker initial [] log session) {flight : Flight}
    {others : List Flight} (found : first? session.flights = some (flight, others)) :
    ∃ row step,
      Landed initial.queue.settings.emptyOutput log session flight others row step := by
  let queue : Queue := { session.queue with now := max session.queue.now flight.landsAt }
  obtain ⟨row, member, id, hash, logged⟩ :=
    inv.flights flight ((first?_perm found).mem_iff.mpr (List.mem_cons_self ..))
  have present : queue.table.row? flight.task.id = some row := id ▸ inv.sound.row?_eq member
  obtain ⟨announced, recorded⟩ := record_eq queue flight.task flight.result row present
  refine ⟨row, queue.landed flight.task.hash flight.result, member, id, ?_, ?_, ?_, logged, ?_,
    announced, ?_⟩
  · rw [inv.held row member, id]
    exact List.mem_append_left _ ((flightIds_perm found).mem_iff.mpr (List.mem_cons_self ..))
  · exact fun row => row.sameTask_landed queue flight.task.hash flight.result
  · exact fun row sound => sound.landed queue _ _
  · have settled := TaskRow.landing_landed row queue flight.result
    rw [hash] at settled
    exact inv.settings ▸ settled
  · simp only [Session.land, Queue.finish, queue, recorded]

theorem Landed.only {flight : Flight} {others : List Flight} {row : TaskRow}
    {step : TaskRow → TaskRow} {policy : EmptyOutputPolicy}
    (landed : Landed policy log session flight others row step)
    (sound : session.queue.table.Sound) {other : TaskRow}
    (inside : other ∈ session.queue.table.rows) (hit : other.id = flight.task.id) : other = row :=
  sound.eq_of_id inside landed.member (hit.trans landed.id.symm)

theorem Landed.free {flight : Flight} {others : List Flight} {row : TaskRow}
    {step : TaskRow → TaskRow} {policy : EmptyOutputPolicy}
    (landed : Landed policy log session flight others row step) :
    (step row).hasStatus .processing = false := by
  cases landed.landing with
  | completed count found accepted status chunks =>
      simp [TaskRow.hasStatus, status, TaskStatus.name]
  | failed refused status => simp [TaskRow.hasStatus, status, TaskStatus.name]
  | again refused status left counted => simp [TaskRow.hasStatus, status, TaskStatus.name]

theorem Landed.follows {flight : Flight} {others : List Flight} {row before : TaskRow}
    {step : TaskRow → TaskRow} {policy : EmptyOutputPolicy}
    (landed : Landed policy log session flight others row step)
    (follows : Follows policy log before row) : Follows policy log before (step row) := by
  have held := landed.held
  have landing := landed.landing
  have logged := landed.logged
  rw [follows.same.path] at logged
  refine ⟨follows.same.trans (landed.same row), follows.unheld, ?_, ?_, ?_⟩
  · intro idle
    rw [follows.idle idle, follows.unheld] at held
    cases held
  · intro _ completed
    cases landing with
    | completed count known accepted status chunks =>
        rw [known] at logged accepted
        exact ⟨count, logged, accepted, chunks⟩
    | failed refused status =>
        exact absurd ((TaskRow.hasStatus_iff_of_name status _).mp completed) (by decide)
    | again refused status left counted =>
        exact absurd ((TaskRow.hasStatus_iff_of_name status _).mp completed) (by decide)
  · intro _ failed
    cases landing with
    | completed count known accepted status chunks =>
        exact absurd ((TaskRow.hasStatus_iff_of_name status _).mp failed) (by decide)
    | failed refused status => exact ⟨_, logged, refused⟩
    | again refused status left counted => exact ⟨_, logged, refused⟩

theorem Running.land (rest : initial.AtRest)
    (inv : Running worker initial [] log session) {flight : Flight}
    {others : List Flight} (found : first? session.flights = some (flight, others)) :
    Running worker initial [] log (session.land flight others) := by
  have perm := first?_perm found
  have idPerm := flightIds_perm found
  -- No other flight is about the task, so that its row is the only one to change.
  have distinct : flight.task.id ∉ others.map (fun flight => flight.task.id) ∧
      (others.map (fun flight => flight.task.id)).Nodup := by
    have all := inv.distinct
    simp only [List.map_nil, List.append_nil] at all
    exact List.nodup_cons.mp (idPerm.nodup_iff.mp all)
  obtain ⟨row, step, landed⟩ := inv.landed found
  obtain ⟨announced, result⟩ := landed.result
  rw [result]
  refine
    { sound := inv.sound.change flight.task.id step (fun row => (landed.same row).id)
        (fun row => (landed.same row).path) landed.sound
      settings := inv.settings, calm := inv.calm, rows := ?_, plain := ?_, held := ?_, flights := ?_
      unstarted := by simp
      distinct := by simpa [flightIds] using distinct.2
      running := ?_, worked := inv.worked, inside := inv.inside, outside := ?_ }
  · apply List.forall₂_map_right_iff.mpr
    apply forall₂_imp_mem inv.rows
    intro before after inside follows
    split
    next hit =>
      obtain rfl := landed.only inv.sound inside hit
      exact landed.follows follows
    next => exact follows
  · intro other inside
    obtain ⟨before, earlier, rfl⟩ := Table.mem_update.mp inside
    split
    · exact (landed.same before).content.trans (inv.plain before earlier)
    · exact inv.plain before earlier
  · intro other inside
    obtain ⟨before, earlier, rfl⟩ := Table.mem_update.mp inside
    split
    next hit =>
      obtain rfl := landed.only inv.sound earlier hit
      rw [landed.free, (landed.same before).id, landed.id]
      simpa [flightIds] using distinct.1
    next miss =>
      rw [inv.held before earlier]
      simp only [List.map_nil, List.append_nil]
      rw [idPerm.mem_iff, List.mem_cons]
      exact ⟨fun either => either.resolve_left miss, .inr⟩
  · intro other flying
    obtain ⟨before, earlier, otherId, otherHash, logged⟩ :=
      inv.flights other (perm.mem_iff.mpr (List.mem_cons_of_mem _ flying))
    refine ⟨before, Table.mem_update.mpr ⟨before, earlier, ?_⟩, otherId, otherHash, logged⟩
    rw [if_neg]
    intro hit
    exact distinct.1 (hit ▸ otherId ▸ List.mem_map_of_mem flying)
  · have old := inv.running
    simp only [List.map_nil, List.append_nil] at old ⊢
    rw [map_id_eraseP]
    have erased := (old.trans idPerm).erase flight.task.id
    simpa [flightIds] using erased
  · intro other later idle _
    obtain ⟨before, earlier, rfl⟩ := Table.mem_update.mp later
    split at idle
    next hit =>
      obtain rfl := landed.only inv.sound earlier hit
      simp only [hit, if_true, (landed.same before).path]
      have held := landed.held
      have busy : before.hasStatus .pending = false :=
        TaskRow.hasStatus_of_ne held (by decide)
      -- A row in processing is no row of the start, so the worker was given its path.
      rcases inv.outside before earlier busy (by simp) with first | done
      · rw [rest.unheld before first] at held
        cases held
      · exact .inr done
    next miss =>
      simp only [miss, if_false]
      exact inv.outside before earlier idle (by simp)

end Session

end CodeGraph.Queue
