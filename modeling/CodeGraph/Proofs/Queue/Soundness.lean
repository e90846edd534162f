import CodeGraph.Proofs.FileIndex
import CodeGraph.Proofs.Processing
import CodeGraph.Proofs.TaskTable.Operations

set_option autoImplicit false

namespace CodeGraph

theorem TaskTable.Sound.apply {table : TaskTable} (sound : table.Sound)
    (operation : TaskTable.Operation) : (table.apply operation).Sound :=
  (sound.applied operation).sound sound

namespace Queue

variable {queue : Queue}

@[simp] theorem table_publish (queue : Queue) (event : QueueEvent) :
    (queue.publish event).table = queue.table :=
  rfl

@[simp] theorem table_drained (queue : Queue) : queue.drained.table = queue.table := by
  unfold drained
  split <;> rfl

@[simp] theorem table_announceFailure (queue : Queue) (task : Task) (error : String)
    (outcome : FailureOutcome) :
    (queue.announceFailure task error outcome).table = queue.table := by
  cases outcome <;> rfl

theorem sound_pull (sound : queue.table.Sound) : queue.pull.1.table.Sound := by
  have claimed := sound.apply (.claim (queue.cap - queue.running.length) queue.now)
  simp only [TaskTable.apply] at claimed
  unfold pull
  split
  · exact sound
  · split
    next read => rwa [read] at claimed
    next read =>
      rw [read] at claimed
      dsimp only
      split
      · simpa using claimed
      · exact claimed
    next read => rwa [read] at claimed

theorem sound_report (sound : queue.table.Sound) (task : Task) (step : String) (percent : Nat) :
    (queue.report task step percent).table.Sound :=
  TaskTable.Sound.report sound task.id step (min percent 100) (by omega)

theorem sound_recordError (sound : queue.table.Sound) (task : Task) (error : String) :
    (queue.recordError task error).table.Sound := by
  have failed := sound.apply (.recordFailure task.id task.hash error queue.retryAt)
  simp only [TaskTable.apply] at failed
  unfold recordError
  split
  next written =>
    rw [written] at failed
    simpa using failed
  next written => rwa [written] at failed

theorem sound_recordEmpty (sound : queue.table.Sound) (task : Task) (error : String) :
    (queue.recordEmpty task error).table.Sound := by
  have failed := sound.apply (.failTerminal task.id task.hash error)
  simp only [TaskTable.apply] at failed
  unfold recordEmpty
  split
  next written =>
    rw [written] at failed
    simpa using failed
  · exact sound

theorem sound_recordOutput (sound : queue.table.Sound) (task : Task) (output : TaskOutput) :
    (queue.recordOutput task output).table.Sound := by
  have completed := sound.apply (.complete queue.now task.id task.hash output)
  simp only [TaskTable.apply] at completed
  unfold recordOutput
  split
  next written => rwa [written] at completed
  next written =>
    rw [written] at completed
    simpa using completed
  · exact sound

theorem sound_finish (sound : queue.table.Sound) (task : Task)
    (result : Except QueueError TaskOutput) : (queue.finish task result).table.Sound := by
  simp only [finish]
  cases result with
  | error error => exact sound_recordError sound task _
  | ok output =>
      simp only [record]
      split
      · split
        · exact sound_recordOutput sound task output
        · exact sound_recordError sound task _
        · exact sound_recordEmpty sound task _
      · exact sound_recordOutput sound task output

namespace Session

variable {σ : Type} {worker : Worker σ} {holds : σ → Prop}

structure Keeps (holds : σ → Prop) (session : Session σ) : Prop where
  table : session.queue.table.Sound
  state : holds session.state

theorem Keeps.land {session : Session σ} (keeps : session.Keeps holds) (flight : Flight)
    (others : List Flight) : (session.land flight others).Keeps holds where
  table := @sound_finish { session.queue with now := max session.queue.now flight.landsAt }
    keeps.table flight.task flight.result
  state := keeps.state

variable (careful : ∀ task queue state, queue.table.Sound → holds state →
  (worker task queue state).queue.table.Sound ∧ holds (worker task queue state).state)

include careful

theorem Keeps.startAll (tasks : List Task) {session : Session σ} (keeps : session.Keeps holds) :
    (tasks.foldl (start worker) session).Keeps holds := by
  induction tasks generalizing session with
  | nil => exact keeps
  | cons task rest ih =>
      obtain ⟨table, state⟩ := careful task (session.queue.publish (.started task.id task.path))
        session.state keeps.table keeps.state
      exact ih ⟨table, state⟩

theorem Keeps.run (rounds : Nat) {session : Session σ} (keeps : session.Keeps holds) :
    (run worker rounds session).1.Keeps holds := by
  induction rounds generalizing session with
  | zero => exact keeps
  | succ rounds ih =>
      unfold Session.run
      split
      · exact keeps
      · have pulled : Keeps holds { session with queue := session.queue.pull.1 } :=
          ⟨sound_pull keeps.table, keeps.state⟩
        have started := Keeps.startAll careful session.queue.pull.2 pulled
        dsimp only
        split
        · exact ih (started.land _ _)
        · split
          · exact started
          · split
            · exact started
            · split
              · exact ih ⟨started.table, started.state⟩
              · exact started

end Session

end Queue

namespace Processing

variable {disk : Disk} {maxFileSize : Nat}

theorem sound_worker_table {queue : Queue} (sound : queue.table.Sound) (task : Task)
    (state : Stores) : (worker disk maxFileSize task queue state).queue.table.Sound := by
  obtain ⟨notes, reports⟩ := @worker_reports disk maxFileSize task queue state
  rw [reports]
  clear reports
  induction notes generalizing queue with
  | nil => exact sound
  | cons note rest ih => exact ih (Queue.sound_report sound task note.1 note.2)

theorem sound_store_files {state : Stores} (sound : state.files.Sound) (task : Task)
    (bytes : List UInt8) (content : String) (found : List Chunk) (queue : Queue) :
    (store disk task bytes content found queue state).state.files.Sound := by
  simp only [store]
  split
  · exact sound
  · dsimp only
    split
    · exact sound.markIndexed _ _ _
    · exact sound

theorem sound_worker_files {state : Stores} (sound : state.files.Sound) (task : Task)
    (queue : Queue) : (worker disk maxFileSize task queue state).state.files.Sound := by
  simp only [worker]
  split
  · exact sound
  · split
    · exact sound
    · split
      · exact sound
      · split
        · exact sound
        · exact sound_store_files sound task _ _ _ _

end Processing

end CodeGraph
