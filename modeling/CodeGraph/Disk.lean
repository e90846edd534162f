import CodeGraph.Path
import CodeGraph.Table

/-!
A tree of directories and files, as a value. Locations are the parts of absolute paths. A file has
an entry for each directory above it.
-/

set_option autoImplicit false

namespace CodeGraph

abbrev Location : Type := List String

/-- What a file holds. Of a file that cannot be read only the size is known. -/
inductive FileContent where
  | bytes (content : List UInt8)
  | unreadable (size : Nat)
deriving DecidableEq, Repr, Inhabited

def FileContent.size : FileContent → Nat
  | .bytes content => content.length
  | .unreadable size => size

inductive DiskEntry where
  | directory
  | file (content : FileContent)
deriving DecidableEq, Repr, Inhabited

/-- How many bytes an entry takes; a directory takes one block. -/
def DiskEntry.size : DiskEntry → Nat
  | .directory => 4096
  | .file content => content.size

inductive ReadError where
  | notFound
  | denied
  | isDirectory
  | notDirectory
  | invalidText
deriving DecidableEq, Repr

def ReadError.message : ReadError → String
  | .notFound => "No such file or directory (os error 2)"
  | .denied => "Permission denied (os error 13)"
  | .isDirectory => "Is a directory (os error 21)"
  | .notDirectory => "Not a directory (os error 20)"
  | .invalidText => "stream did not contain valid UTF-8"

structure Disk where
  entries : List (Location × DiskEntry) := []
deriving DecidableEq, Repr, Inhabited

namespace Disk

def at? (disk : Disk) (location : Location) : Option DiskEntry :=
  if location.isEmpty then some .directory
  else (Table.get? Prod.fst disk.entries location).map Prod.snd

def isDirectoryAt (disk : Disk) (location : Location) : Bool :=
  disk.at? location == some .directory

/-- Follows one component from a location that is given last part first. -/
def follow (disk : Disk) (place : List String) (part : String) :
    Except ReadError (List String) :=
  match disk.at? place.reverse with
  | none => .error .notFound
  | some (.file _) => .error .notDirectory
  | some .directory => if part == ".." then .ok place.tail else .ok (part :: place)

def locate (disk : Disk) (path : List String) : Except ReadError (Location × DiskEntry) := do
  let parts := if path.head? == some "/" then path.tail else path
  let place ← parts.foldlM disk.follow []
  match disk.at? place.reverse with
  | some entry => return (place.reverse, entry)
  | none => throw .notFound

def lookup (disk : Disk) (path : List String) : Except ReadError DiskEntry :=
  Prod.snd <$> disk.locate path

/-- What an absolute path leads to. One that is written as the path of a directory leads to no
file. -/
def find (disk : Disk) (path : String) : Except ReadError (Location × DiskEntry) := do
  let found ← disk.locate (Path.components path)
  match found.2 with
  | .file _ => if Path.isDirectoryLike path then throw .notDirectory else return found
  | .directory => return found

def isFile (disk : Disk) (path : List String) : Bool :=
  match disk.lookup path with
  | .ok (.file _) => true
  | _ => false

def readBytes (disk : Disk) (path : List String) : Except ReadError (List UInt8) := do
  match ← disk.lookup path with
  | .file (.bytes bytes) => return bytes
  | .file (.unreadable _) => throw .denied
  | .directory => throw .isDirectory

def readText (disk : Disk) (path : List String) : Except ReadError String := do
  match Text.ofBytes? (← disk.readBytes path) with
  | some text => return text
  | none => throw .invalidText

def makeDirectory (disk : Disk) (location : Location) : Disk :=
  (List.range location.length).foldl
    (fun disk count =>
      let part := location.take (count + 1)
      match disk.at? part with
      | some _ => disk
      | none => ⟨disk.entries ++ [(part, .directory)]⟩) disk

/-- Goes one component down, into a directory that is made if it is missing. `none` if something
else is in the way. The location is given last part first. -/
def enter? (state : Disk × List String) (part : String) : Option (Disk × List String) :=
  let (disk, place) := state
  if part == ".." then some (disk, place.tail)
  else
    let inside := part :: place
    match disk.at? inside.reverse with
    | some .directory => some (disk, inside)
    | some (.file _) => none
    | none => some (disk.makeDirectory inside.reverse, inside)

def enterDirectory? (disk : Disk) (path : List String) : Option (Disk × Location) := do
  let parts := if path.head? == some "/" then path.tail else path
  let (disk, place) ← parts.foldlM enter? (disk, [])
  return (disk, place.reverse)

def put (disk : Disk) (location : Location) (content : FileContent) : Disk :=
  let disk := disk.makeDirectory location.dropLast
  ⟨Table.put Prod.fst (location, .file content) disk.entries⟩

def write (disk : Disk) (location : Location) (bytes : List UInt8) : Disk :=
  disk.put location (.bytes bytes)

def remove (disk : Disk) (location : Location) : Disk :=
  ⟨disk.entries.filter (fun entry => !location.isPrefixOf entry.1)⟩

def filesBelow (disk : Disk) (location : Location) : List Location :=
  disk.entries.filterMap (fun entry =>
    match entry.2 with
    | .file _ => Path.below? location entry.1
    | .directory => none)

def names (disk : Disk) (location : Location) : List String :=
  disk.entries.filterMap (fun entry =>
    match Path.below? location entry.1 with
    | some [name] => some name
    | _ => none)

end Disk

end CodeGraph
