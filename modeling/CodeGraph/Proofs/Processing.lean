import CodeGraph.Proofs.CodeIndex
import CodeGraph.Proofs.Discovery
import CodeGraph.Proofs.Queue.Session
import CodeGraph.Workspace.Processing

/-!
The worker of a workspace, as a function of what is on disk. What it makes of a path is decided
before it touches a store, up to numbers that do not fit; so its answer for a path is always the
same while the disk is.
-/

set_option autoImplicit false

namespace CodeGraph

structure Parsed where
  bytes : List UInt8
  content : String
  chunks : List Chunk
  facts : Facts

namespace Parsed

def hash (parsed : Parsed) : String :=
  Digest.hex (Digest.blake3 parsed.bytes)

structure Of (grammars : Grammars) (path : String) (parsed : Parsed) : Prop where
  supported : isSupported path = true
  text : Text.ofBytes? parsed.bytes = some parsed.content
  chunks : Processing.chunks grammars path parsed.content = .ok parsed.chunks
  facts : parsed.facts = Extraction.factsOf grammars path parsed.content

variable {grammars : Grammars} {path : String}

theorem Of.eq_of_bytes {a b : Parsed} (first : a.Of grammars path) (second : b.Of grammars path)
    (same : a.bytes = b.bytes) : a = b := by
  have text := first.text
  rw [same, second.text] at text
  have content := (Option.some.inj text).symm
  have chunks := first.chunks
  rw [content, second.chunks] at chunks
  have cut : a.chunks = b.chunks := by simpa using chunks.symm
  have facts : a.facts = b.facts := by rw [first.facts, second.facts, content]
  cases a
  cases b
  simp_all

theorem Of.belong {parsed : Parsed} (isOf : parsed.Of grammars path) :
    Chunking.AllBelong path parsed.chunks := by
  have cut := isOf.chunks
  unfold Processing.chunks at cut
  split at cut
  next chunks found =>
    cases cut
    exact Chunking.belongs_of_ofFile? found
  next => cases cut

def graph (path : String) (parsed : Parsed) : FileGraph :=
  CodeIndex.localGraph path parsed.content parsed.chunks parsed.facts

def Stored (path : String) (parsed : Parsed) : Prop :=
  CodeIndex.Takes path parsed.content parsed.chunks

instance (path : String) (parsed : Parsed) : Decidable (parsed.Stored path) :=
  inferInstanceAs (Decidable (CodeIndex.Takes ..))

end Parsed

namespace Processing

def attempt (grammars : Grammars) (disk : Disk) (root : List String) (maxFileSize : Nat)
    (path : String) : Except IndexError Parsed := do
  let bytes ← (disk.contentAt root path).mapError (fun error => .unreadable error.message)
  check maxFileSize path bytes
  let content ← text path bytes
  let chunks ← chunks grammars path content
  return { bytes, content, chunks, facts := Extraction.factsOf grammars path content }

def verdict (grammars : Grammars) (disk : Disk) (root : List String) (maxFileSize : Nat)
    (path : String) : Option Nat :=
  match attempt grammars disk root maxFileSize path with
  | .error _ => none
  | .ok parsed => if parsed.Stored path then some parsed.chunks.length else none

def stored? (grammars : Grammars) (disk : Disk) (root : List String) (maxFileSize : Nat)
    (path : String) : Option Parsed :=
  (attempt grammars disk root maxFileSize path).toOption.filter
    (fun parsed => decide (parsed.Stored path))

variable {grammars : Grammars} {disk : Disk} {root : List String} {maxFileSize : Nat}

theorem attempt_eq_ok {path : String} {parsed : Parsed}
    (made : attempt grammars disk root maxFileSize path = .ok parsed) :
    disk.contentAt root path = .ok parsed.bytes ∧ parsed.Of grammars path := by
  unfold attempt at made
  obtain ⟨bytes, read, made⟩ := Table.of_bind_eq_ok made
  obtain ⟨_, checked, made⟩ := Table.of_bind_eq_ok made
  obtain ⟨content, decoded, made⟩ := Table.of_bind_eq_ok made
  obtain ⟨chunks, cut, made⟩ := Table.of_bind_eq_ok made
  cases made
  refine ⟨?_, ?_, ?_, cut, rfl⟩
  · cases there : disk.contentAt root path with
    | error error =>
        rw [there] at read
        cases read
    | ok found =>
        rw [there] at read
        cases read
        rfl
  · unfold check at checked
    split at checked
    · cases checked
    · split at checked
      · cases checked
      · split at checked
        · assumption
        · cases checked
  · unfold text at decoded
    split at decoded
    · cases decoded
      assumption
    · cases decoded

theorem stored?_eq_some {path : String} {parsed : Parsed} :
    stored? grammars disk root maxFileSize path = some parsed ↔
      attempt grammars disk root maxFileSize path = .ok parsed ∧ parsed.Stored path := by
  unfold stored?
  cases attempt grammars disk root maxFileSize path with
  | error error => simp [Except.toOption]
  | ok found =>
      simp only [Except.toOption, Option.filter_eq_some_iff, Option.some.injEq, Except.ok.injEq,
        decide_eq_true_eq]

theorem verdict_eq (path : String) :
    verdict grammars disk root maxFileSize path =
      (stored? grammars disk root maxFileSize path).map (fun parsed => parsed.chunks.length) := by
  unfold verdict stored?
  cases attempt grammars disk root maxFileSize path with
  | error error => rfl
  | ok parsed =>
      by_cases takes : parsed.Stored path <;>
        simp [Except.toOption, takes, Option.filter]

def stores (disk : Disk) (maxFileSize : Nat) (now path : String) (state : Stores) : Stores :=
  match attempt state.index.grammars disk state.index.root maxFileSize path with
  | .error _ => state
  | .ok parsed =>
      let put := state.index.putFile disk path parsed.content parsed.hash parsed.chunks
      match put.2 with
      | .error _ => { state with index := put.1 }
      | .ok outcome =>
          { index := put.1
            files := if 0 < outcome.chunks then state.files.markIndexed now path parsed.hash
              else state.files }

theorem store_reports (task : Task) (bytes : List UInt8) (content : String) (found : List Chunk)
    (queue : Queue) (state : Stores) :
    ∃ notes : List (String × Nat), (store disk task bytes content found queue state).queue =
      notes.foldl (fun queue note => queue.report task note.1 note.2) queue := by
  unfold store
  dsimp only
  split
  · exact ⟨[], rfl⟩
  · exact ⟨[("done", 100)], rfl⟩

theorem worker_reports (disk : Disk) (maxFileSize : Nat) :
    Queue.Session.Reports (worker disk maxFileSize) := by
  intro task queue state
  unfold worker
  dsimp only
  split
  · exact ⟨[("reading", 5)], rfl⟩
  · split
    · exact ⟨[("reading", 5), ("validating", 15)], rfl⟩
    · split
      · exact ⟨[("reading", 5), ("validating", 15), ("hashing", 25)], rfl⟩
      · split
        · exact ⟨[("reading", 5), ("validating", 15), ("hashing", 25), ("parsing", 40)], rfl⟩
        · obtain ⟨notes, reports⟩ := @store_reports disk task _ _ _ _ state
          exact ⟨[("reading", 5), ("validating", 15), ("hashing", 25), ("parsing", 40),
            ("summarizing", 55), ("indexing", 70)] ++ notes, reports⟩

theorem worker_eq (task : Task) (queue : Queue) (state : Stores) (plain : task.content = none) :
    match attempt state.index.grammars disk state.index.root maxFileSize task.path with
    | .error _ => (worker disk maxFileSize task queue state).state = state ∧
        ∃ error, (worker disk maxFileSize task queue state).result = .error error
    | .ok parsed => ∃ later : Queue, later.now = queue.now ∧
        worker disk maxFileSize task queue state =
          store disk task parsed.bytes parsed.content parsed.chunks later state := by
  -- A task without content of its own is read from disk, as `attempt` does it.
  have read : read disk state.index.root task =
      (disk.contentAt state.index.root task.path).mapError
        (fun error => .unreadable error.message) := by
    simp only [Processing.read, plain]
    rfl
  unfold attempt worker
  rw [read]
  cases (disk.contentAt state.index.root task.path).mapError
      (fun error => IndexError.unreadable error.message) with
  | error error => exact ⟨rfl, _, rfl⟩
  | ok bytes =>
      dsimp only [bind, Except.bind]
      cases check maxFileSize task.path bytes with
      | error error => exact ⟨rfl, _, rfl⟩
      | ok done =>
          dsimp only
          cases text task.path bytes with
          | error error => exact ⟨rfl, _, rfl⟩
          | ok content =>
              dsimp only
              cases chunks state.index.grammars task.path content with
              | error error => exact ⟨rfl, _, rfl⟩
              | ok found =>
                  refine ⟨_, ?_, rfl⟩
                  rfl

theorem worker_state (task : Task) (queue : Queue) (state : Stores) (plain : task.content = none) :
    (worker disk maxFileSize task queue state).state =
      stores disk maxFileSize (toString queue.now) task.path state := by
  have made := @worker_eq disk maxFileSize task queue state plain
  unfold stores
  cases parse : attempt state.index.grammars disk state.index.root maxFileSize task.path with
  | error error =>
      rw [parse] at made
      exact made.1
  | ok parsed =>
      rw [parse] at made
      obtain ⟨later, now, same⟩ := made
      rw [same, store]
      dsimp only [Parsed.hash]
      have file : task.isVirtual = false := by simp [Task.isVirtual, plain]
      cases state.index.putFile disk task.path parsed.content
          (Digest.hex (Digest.blake3 parsed.bytes)) parsed.chunks with
      | mk index outcome =>
          cases outcome with
          | error error => rfl
          | ok outcome => simp [file, now]

structure ReadyAt (grammars : Grammars) (root : List String) (state : Stores) : Prop where
  ready : state.index.Ready
  root : state.index.root = root
  grammars : state.index.grammars = grammars

theorem ReadyAt.stores {state : Stores} (ready : ReadyAt grammars root state)
    (now path : String) : ReadyAt grammars root (stores disk maxFileSize now path state) := by
  obtain ⟨stored, same, parser⟩ := ready
  unfold Processing.stores
  cases attempt state.index.grammars disk state.index.root maxFileSize path with
  | error error => exact ⟨stored, same, parser⟩
  | ok parsed =>
      dsimp only
      by_cases takes : CodeIndex.Takes path parsed.content parsed.chunks
      · obtain ⟨after, outcome, written, -, put⟩ :=
          CodeIndex.putFile_taken stored disk path parsed.content parsed.hash takes
        rw [written]
        exact ⟨put.ready, put.root.trans same, put.grammars.trans parser⟩
      · obtain ⟨packages, error, written⟩ :=
          CodeIndex.putFile_refused stored disk path parsed.content parsed.hash takes
        rw [written]
        exact ⟨stored.packages packages, same, parser⟩

/-- What comes of a task depends on what is on disk alone. -/
theorem ReadyAt.outcome {state : Stores} (ready : ReadyAt grammars root state) (task : Task)
    (queue : Queue) (plain : task.content = none) :
    Queue.outcome (worker disk maxFileSize task queue state).result =
      verdict grammars disk root maxFileSize task.path := by
  have made := @worker_eq disk maxFileSize task queue state plain
  unfold verdict
  rw [ready.root, ready.grammars] at made
  cases parse : attempt grammars disk root maxFileSize task.path with
  | error error =>
      rw [parse] at made
      obtain ⟨-, error, result⟩ := made
      rw [result]
      rfl
  | ok parsed =>
      rw [parse] at made
      obtain ⟨later, -, same⟩ := made
      rw [same, store]
      dsimp only
      by_cases takes : parsed.Stored task.path
      · obtain ⟨after, outcome, written, count, -⟩ := CodeIndex.putFile_taken ready.ready disk
          task.path parsed.content (Digest.hex (Digest.blake3 parsed.bytes)) takes
        rw [if_pos takes, written, ← count]
        rfl
      · obtain ⟨packages, error, written⟩ := CodeIndex.putFile_refused ready.ready disk task.path
          parsed.content (Digest.hex (Digest.blake3 parsed.bytes)) takes
        rw [if_neg takes, written]
        rfl

theorem ReadyAt.worked {start state : Stores} (ready : ReadyAt grammars root start)
    {log : Queue.Log}
    (worked : Queue.Session.Worked (worker disk maxFileSize) start log state) :
    ReadyAt grammars root state ∧
      ∀ entry ∈ log, entry.2 = verdict grammars disk root maxFileSize entry.1 := by
  induction worked with
  | nil => exact ⟨ready, by simp⟩
  | snoc earlier task queue plain ih =>
      obtain ⟨ready', outcomes⟩ := ih
      refine ⟨worker_state task queue _ plain ▸ ready'.stores _ _, ?_⟩
      intro entry listed
      rcases List.mem_append.mp listed with before | last
      · exact outcomes entry before
      · rw [List.mem_singleton.mp last]
        exact ready'.outcome task queue plain

end Processing

end CodeGraph
