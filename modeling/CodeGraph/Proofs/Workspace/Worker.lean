import CodeGraph.Proofs.FileIndex
import CodeGraph.Proofs.Processing
import CodeGraph.Workspace

/-!
Workers in general. How the attempts of a worker end and what it does to the stores is left open; it
is only asked to mark just those files that it stored chunks of, with the hash of what it read.
-/

set_option autoImplicit false

namespace CodeGraph

namespace Disk

/-- The hash of what is at a path, or any other one if nothing can be read there. -/
def Hashes (disk : Disk) (root : List String) (path hash : String) : Prop :=
  ∀ bytes, disk.contentAt root path = .ok bytes → hash = Digest.hex (Digest.blake3 bytes)

def Marks (disk : Disk) (root : List String) (path : String) (files after : FileIndex) :
    Option Nat → Prop
  | some (_ + 1) =>
      ∃ now hash, disk.Hashes root path hash ∧ after = files.markIndexed now path hash
  | _ => after = files

end Disk

/-- A worker that uses the queue to report only, keeps the index of the workspace, and marks just
the files that it stored chunks of. -/
structure Honest (worker : Worker Stores) (disk : Disk) (root : List String) : Prop where
  reports : Queue.Session.Reports worker
  sameRoot : ∀ (task : Task) (queue : Queue) (state : Stores), task.content = none →
    (worker task queue state).state.index.root = state.index.root
  marks : ∀ (task : Task) (queue : Queue) (state : Stores), task.content = none →
    state.index.root = root →
    disk.Marks root task.path state.files (worker task queue state).state.files
      (Queue.outcome (worker task queue state).result)

theorem Processing.root_stores (disk : Disk) (maxFileSize : Nat) (now path : String)
    (state : Stores) : (stores disk maxFileSize now path state).index.root = state.index.root := by
  unfold stores
  split
  · rfl
  next parsed _ =>
    have root := (state.index.putFile_settings disk path parsed.content parsed.hash
      parsed.chunks).1
    dsimp only
    split <;> exact root

theorem Processing.honest (disk : Disk) (root : List String) (maxFileSize : Nat) :
    Honest (worker disk maxFileSize) disk root where
  reports := worker_reports disk maxFileSize
  sameRoot task queue state plain := by
    rw [worker_state task queue state plain, root_stores]
  marks := by
    rintro task queue state plain rfl
    have made := @worker_eq disk maxFileSize task queue state plain
    cases parse : attempt state.index.grammars disk state.index.root maxFileSize task.path with
    | error error =>
        rw [parse] at made
        obtain ⟨same, error, result⟩ := made
        rw [same, result]
        rfl
    | ok parsed =>
        rw [parse] at made
        obtain ⟨later, -, same⟩ := made
        have hashes : disk.Hashes state.index.root task.path
            (Digest.hex (Digest.blake3 parsed.bytes)) := by
          intro bytes read
          rw [(attempt_eq_ok parse).1] at read
          rw [Except.ok.inj read]
        have file : task.isVirtual = false := by simp [Task.isVirtual, plain]
        rw [same, store]
        dsimp only
        split
        · rfl
        next outcome _ =>
          -- A file without chunks is not marked here; that is left to the end of the scan.
          cases count : outcome.chunks with
          | zero => simp [Queue.outcome, Disk.Marks]
          | succ more => simpa [Queue.outcome, Disk.Marks, count, file] using ⟨_, _, hashes, rfl⟩

structure Marked (disk : Disk) (root : List String) (log : Queue.Log) (files after : FileIndex) :
    Prop where
  sound : files.Sound → after.Sound
  marked : ∀ path count, (path, some (count + 1)) ∈ log → ∃ now hash, disk.Hashes root path hash ∧
    after.row? path = (files.row? path).map (FileRow.indexed now hash)
  kept : ∀ path, (∀ count, (path, some (count + 1)) ∉ log) → after.row? path = files.row? path

variable {disk : Disk} {root : List String} {log : Queue.Log} {files middle after : FileIndex}

theorem Marked.snoc (earlier : Marked disk root log files middle) {path : String}
    {outcome : Option Nat} (marks : disk.Marks root path middle after outcome) :
    Marked disk root (log ++ [(path, outcome)]) files after := by
  cases outcome with
  | none =>
      obtain rfl : after = middle := marks
      exact ⟨earlier.sound, by simpa using earlier.marked, by simpa using earlier.kept⟩
  | some count =>
      cases count with
      | zero =>
          obtain rfl : after = middle := marks
          exact ⟨earlier.sound, by simpa using earlier.marked, by simpa using earlier.kept⟩
      | succ count =>
          obtain ⟨now, hash, hashes, rfl⟩ := marks
          refine ⟨fun sound => (earlier.sound sound).markIndexed now path hash, ?_, ?_⟩
          · intro other number listed
            rw [FileIndex.row?_markIndexed]
            split
            next same =>
              subst same
              -- A path that was marked before is marked anew, which leaves the later mark.
              by_cases before : ∃ number, (other, some (number + 1)) ∈ log
              · obtain ⟨number, inside⟩ := before
                obtain ⟨_, _, -, row⟩ := earlier.marked other number inside
                exact ⟨now, hash, hashes, by rw [row, Option.map_map]; rfl⟩
              · rw [earlier.kept other (not_exists.mp before)]
                exact ⟨now, hash, hashes, rfl⟩
            next differ => exact earlier.marked other number (by simpa [differ] using listed)
          · intro other unmarked
            have differ : other ≠ path := by
              rintro rfl
              exact unmarked count (by simp)
            rw [FileIndex.row?_markIndexed, if_neg differ]
            exact earlier.kept other fun number inside =>
              unmarked number (List.mem_append_left _ inside)

theorem Honest.marked {worker : Worker Stores} (honest : Honest worker disk root)
    {start state : Stores} (place : start.index.root = root)
    (worked : Queue.Session.Worked worker start log state) :
    state.index.root = root ∧ Marked disk root log start.files state.files := by
  induction worked with
  | nil => exact ⟨place, id, by simp, fun _ _ => rfl⟩
  | @snoc log state earlier task queue plain ih =>
      obtain ⟨place', marked⟩ := ih
      exact ⟨(honest.sameRoot task queue state plain).trans place',
        marked.snoc (honest.marks task queue state plain place')⟩

end CodeGraph
