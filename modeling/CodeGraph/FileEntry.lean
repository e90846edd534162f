import CodeGraph.Error
import CodeGraph.Table

/-!
Entries of the file index: what the workspace last looked like for a path, and which content of it
was indexed. `diff` compares a walk over the workspace with the entries that are known.
-/

set_option autoImplicit false

namespace CodeGraph

inductive HashStatus where
  | computed
  | failed
  /-- The file is not indexed: it is blank or too large. -/
  | skipped
deriving DecidableEq, Repr, Inhabited

namespace HashStatus

def all : List HashStatus :=
  [.computed, .failed, .skipped]

def name : HashStatus → String
  | .computed => "computed"
  | .failed => "failed"
  | .skipped => "skipped"

def ofName? (text : String) : Option HashStatus :=
  all.find? (fun status => status.name == text)

@[simp] theorem ofName?_name (status : HashStatus) : ofName? status.name = some status := by
  cases status <;> rfl

end HashStatus

structure FileEntry where
  path : String
  /-- False for a file that exists but is not indexed. -/
  available : Bool := true
  deleted : Bool := false
  size : Nat := 0
  /-- Milliseconds since the epoch. -/
  modified : Int := 0
  hashAlgorithm : String := "blake3"
  hash : String
  hashStatus : HashStatus := .computed
  language : Option String := none
  lastIndexedAt : Option String := none
  /-- The hash of the content that was last indexed. -/
  lastIndexedHash : Option String := none
  /-- The hash of content that is not tried again. -/
  lastFailedHash : Option String := none
deriving DecidableEq, Repr, Inhabited

namespace FileEntry

def wasIndexed (entry : FileEntry) : Bool :=
  entry.lastIndexedAt.isSome

def isDirty (entry : FileEntry) : Bool :=
  entry.available && (!entry.wasIndexed || entry.lastIndexedHash != some entry.hash) &&
    entry.lastFailedHash != some entry.hash

/-- Whether the graph holds exactly the current content. -/
def isCurrent (entry : FileEntry) : Bool :=
  entry.available && entry.wasIndexed && entry.lastIndexedHash == some entry.hash

def hasFailed (entry : FileEntry) : Bool :=
  entry.available && entry.lastFailedHash == some entry.hash

def withHistory (entry previous : FileEntry) : FileEntry :=
  { entry with
    lastIndexedAt := previous.lastIndexedAt
    lastIndexedHash := previous.lastIndexedHash
    lastFailedHash := previous.lastFailedHash }

end FileEntry

structure ChangeSet where
  new : List FileEntry := []
  modified : List FileEntry := []
  unchanged : List String := []
  deleted : List String := []
  withdrawn : List String := []
deriving Repr, Inhabited

namespace ChangeSet

def dirty (changes : ChangeSet) : List FileEntry :=
  changes.new ++ changes.modified

def hasChanges (changes : ChangeSet) : Bool :=
  !(changes.new.isEmpty && changes.modified.isEmpty && changes.deleted.isEmpty &&
    changes.withdrawn.isEmpty)

def record (known : List FileEntry) (changes : ChangeSet) (entry : FileEntry) : ChangeSet :=
  let previous := Table.get? FileEntry.path known entry.path
  if !entry.available then
    if entry.hashStatus == .skipped && previous.any FileEntry.wasIndexed then
      { changes with withdrawn := changes.withdrawn ++ [entry.path] }
    else changes
  else
    match previous with
    | none => { changes with new := changes.new ++ [entry] }
    | some previous =>
        let merged := entry.withHistory previous
        if !merged.isDirty then { changes with unchanged := changes.unchanged ++ [entry.path] }
        else if !merged.wasIndexed then { changes with new := changes.new ++ [merged] }
        else { changes with modified := changes.modified ++ [merged] }

def gone (current known : List FileEntry) : List String :=
  let seen := current.map FileEntry.path
  ((known.map FileEntry.path).filter (fun path => !seen.contains path)).mergeSort
    (fun a b => decide (a ≤ b))

end ChangeSet

/-- Compares a walk with the known entries, at most one for each path. -/
def diff (current known : List FileEntry) : ChangeSet :=
  { current.foldl (ChangeSet.record known) {} with deleted := ChangeSet.gone current known }

end CodeGraph
