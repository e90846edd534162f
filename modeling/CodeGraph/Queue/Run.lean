import CodeGraph.Queue

/-!
Runs of a queue: tasks are pulled, given to a worker and finished until nothing is left to do.

A worker works on a state of its own and may use the queue. What it takes to do so is a time, after
which its result is written down; until then other tasks run.
-/

set_option autoImplicit false

namespace CodeGraph

structure Attempt (σ : Type) where
  queue : Queue
  state : σ
  result : Except QueueError TaskOutput
  duration : Nat := 0

abbrev Worker (σ : Type) : Type := Task → Queue → σ → Attempt σ

namespace Queue

/-- A task in the hands of a worker, with the result that comes when its time is up. -/
structure Flight where
  task : Task
  result : Except QueueError TaskOutput
  landsAt : Int

structure Session (σ : Type) where
  queue : Queue
  state : σ
  flights : List Flight := []
  peak : Nat := 0

inductive Ending where
  | idle
  | paused
  | stopped
  /-- Tasks are left that no worker will get. -/
  | waiting
deriving DecidableEq, Repr, Inhabited

def Ending.name : Ending → String
  | .idle => "idle"
  | .paused => "paused"
  | .stopped => "stopped"
  | .waiting => "waiting"

namespace Session

variable {σ : Type}

def start (worker : Worker σ) (session : Session σ) (task : Task) : Session σ :=
  let queue := session.queue.publish (.started task.id task.path)
  let attempt := worker task queue session.state
  let active := session.flights.countP (fun flight => decide (queue.now < flight.landsAt))
  let flight : Flight :=
    { task, result := attempt.result, landsAt := attempt.queue.now + attempt.duration }
  { queue := attempt.queue, state := attempt.state, flights := session.flights ++ [flight]
    peak := max session.peak (active + 1) }

def first? : List Flight → Option (Flight × List Flight)
  | [] => none
  | flight :: rest =>
      match first? rest with
      | none => some (flight, [])
      | some (other, others) =>
          if flight.landsAt ≤ other.landsAt then some (flight, rest)
          else some (other, flight :: others)

def land (session : Session σ) (flight : Flight) (others : List Flight) : Session σ :=
  let queue := { session.queue with now := max session.queue.now flight.landsAt }
  { session with queue := queue.finish flight.task flight.result, flights := others }

/-- Pulls, runs and finishes tasks until none is left, the queue is paused or it was stopped. The
number bounds the rounds. -/
def run (worker : Worker σ) : Nat → Session σ → Session σ × Ending
  | 0, session => (session, .waiting)
  | rounds + 1, session =>
      if session.queue.stopped then
        (session, if session.queue.isIdle then .idle else .stopped)
      else
        let (queue, tasks) := session.queue.pull
        let session := tasks.foldl (start worker) { session with queue }
        match first? session.flights with
        | some (flight, others) => run worker rounds (session.land flight others)
        | none =>
            if session.queue.isIdle then (session, .idle)
            else if session.queue.paused then (session, .paused)
            else
              match session.queue.nextDue? with
              | some time =>
                  let queue := { session.queue with now := max session.queue.now time }
                  run worker rounds { session with queue }
              | none => (session, .waiting)

end Session

end Queue

end CodeGraph
