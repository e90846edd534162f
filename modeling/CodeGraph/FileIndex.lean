import CodeGraph.FileEntry

set_option autoImplicit false

namespace CodeGraph

structure FileRow where
  path : String
  available : Bool
  deleted : Bool
  size : Int
  modified : Int
  hashAlgorithm : String
  hash : String
  hashStatus : String
  language : Option String
  lastIndexedAt : Option String := none
  lastIndexedHash : Option String := none
  lastFailedHash : Option String := none
deriving DecidableEq, Repr, Inhabited

namespace FileRow

def entry (row : FileRow) : Except IndexError FileEntry := do
  let some status := HashStatus.ofName? row.hashStatus | throw (.badHashStatus row.path)
  let size ← (ofTableInteger row.size).mapError .range
  return { path := row.path, available := row.available, deleted := row.deleted, size
           modified := row.modified, hashAlgorithm := row.hashAlgorithm, hash := row.hash
           hashStatus := status, language := row.language, lastIndexedAt := row.lastIndexedAt
           lastIndexedHash := row.lastIndexedHash, lastFailedHash := row.lastFailedHash }

end FileRow

structure FileIndex where
  rows : List FileRow := []
deriving DecidableEq, Repr, Inhabited

namespace FileIndex

def row? (index : FileIndex) (path : String) : Option FileRow :=
  Table.get? FileRow.path index.rows path

def change (index : FileIndex) (path : String) (f : FileRow → FileRow) : FileIndex :=
  { index with rows := Table.update FileRow.path path f index.rows }

/-- Records what a walk found. The history of the row stays. -/
def upsert (index : FileIndex) (entry : FileEntry) : Except IndexError FileIndex := do
  let size ← (tableInteger entry.size).mapError .range
  let old := index.row? entry.path
  let row : FileRow :=
    { path := entry.path, available := entry.available, deleted := entry.deleted, size
      modified := entry.modified, hashAlgorithm := entry.hashAlgorithm, hash := entry.hash
      hashStatus := entry.hashStatus.name, language := entry.language
      lastIndexedAt := old.bind FileRow.lastIndexedAt
      lastIndexedHash := old.bind FileRow.lastIndexedHash
      lastFailedHash := old.bind FileRow.lastFailedHash }
  return { index with rows := Table.put FileRow.path row index.rows }

def get (index : FileIndex) (path : String) : Except IndexError (Option FileEntry) :=
  match index.row? path with
  | some row => some <$> row.entry
  | none => .ok none

def list (index : FileIndex) : Except IndexError (List FileEntry) :=
  (index.rows.mergeSort (fun a b => decide (a.path ≤ b.path))).mapM FileRow.entry

def has (index : FileIndex) (path : String) : Bool :=
  Table.has FileRow.path index.rows path

def markIndexed (index : FileIndex) (now path hash : String) : FileIndex :=
  index.change path fun row =>
    { row with lastIndexedAt := some now, lastIndexedHash := some hash, lastFailedHash := none }

def markFailed (index : FileIndex) (path hash : String) : FileIndex :=
  index.change path fun row => { row with lastFailedHash := some hash }

def forget (row : FileRow) : FileRow :=
  { row with lastIndexedAt := none, lastIndexedHash := none, lastFailedHash := none }

def failedCount (index : FileIndex) : Nat :=
  index.rows.countP (fun row => row.lastFailedHash.isSome)

def clearFailed (index : FileIndex) : FileIndex :=
  { index with rows := index.rows.map (fun row => { row with lastFailedHash := none }) }

def clearIndexed (index : FileIndex) (path : String) : FileIndex :=
  index.change path forget

def hasHistory (row : FileRow) : Bool :=
  row.lastIndexedAt.isSome || row.lastFailedHash.isSome

def historyCount (index : FileIndex) : Nat :=
  index.rows.countP hasHistory

def clearAllIndexed (index : FileIndex) : FileIndex :=
  { index with rows := index.rows.map (fun row => if hasHistory row then forget row else row) }

def markDeleted (index : FileIndex) (path : String) : FileIndex :=
  index.change path fun row => { row with deleted := true, available := false }

def remove (index : FileIndex) (path : String) : FileIndex :=
  { index with rows := Table.erase FileRow.path path index.rows }

end FileIndex

end CodeGraph
