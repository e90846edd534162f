import CodeGraph.Text

/-!
Slash-separated paths. Empty segments and `.` segments say nothing about the place, so the parts
of a path leave them out.
-/

set_option autoImplicit false

namespace CodeGraph.Path

def segments (path : String) : List String :=
  (Text.splitOn '/' path.toList).map String.ofList

def isAbsolute (path : String) : Bool :=
  path.toList.head? == some '/'

/-- The segments that name something: neither empty nor `.`. -/
def parts (path : String) : List String :=
  (segments path).filter (fun segment => segment != "" && segment != ".")

/-- Whether a path ends in a segment that names nothing, as only paths of directories do. -/
def isDirectoryLike (path : String) : Bool :=
  (segments path).getLast?.any (fun segment => segment == "" || segment == ".")

def fileName? (path : String) : Option String :=
  (parts path).getLast?.filter (· != "..")

/-- What follows the last dot of the file name; a dot that only starts the name does not count. -/
def extension? (path : String) : Option String := do
  let name ← fileName? path
  let (before, after) ← Text.splitLast '.' name.toList
  if before.isEmpty then none else some (String.ofList after)

/-- What tells two paths apart: the parts, and whether the path starts at the root or with `.`. -/
def components (path : String) : List String :=
  if isAbsolute path then "/" :: parts path
  else if (segments path).head? == some "." then "." :: parts path
  else parts path

def parent? (path : List String) : Option (List String) :=
  match path.getLast? with
  | none | some "/" => none
  | some _ => some path.dropLast

def ancestors (path : List String) : List (List String) :=
  let parents := (List.range path.length).map (fun count => path.take (path.length - count))
  if path.head? == some "/" then parents else parents ++ [[]]

def ofComponents (path : List String) : String :=
  match path with
  | "/" :: parts => "/" ++ "/".intercalate parts
  | parts => "/".intercalate parts

def below? : List String → List String → Option (List String)
  | [], path => some path
  | _ :: _, [] => none
  | b :: base, p :: path => if b = p then below? base path else none

def join (base path : String) : String :=
  if isAbsolute path then path
  else if base == "" then path
  else if base.endsWith "/" then base ++ path
  else base ++ "/" ++ path

def enter? (place : List String) (segment : String) : Option (List String) :=
  if segment == "" || segment == "." then some place
  else if segment == ".." then
    match place with
    | [] => none
    | _ :: parent => some parent
  else some (segment :: place)

def place? (segments : List String) : Option (List String) :=
  segments.foldlM enter? []

def ofParts (parts : List String) : String :=
  "/".intercalate parts

/-- The same place without empty, `.` and `..` segments; `none` if the path climbs above the
root. -/
def normalize? (path : String) : Option String :=
  (place? (segments path)).map (fun place => ofParts place.reverse)

end CodeGraph.Path
