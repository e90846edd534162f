import CodeGraph.Url

set_option autoImplicit false

namespace CodeGraph.Specifier

inductive Kind where
  | path
  | builtin
  | url
  | git
  | package
deriving DecidableEq, Repr

def Kind.name : Kind → String
  | .path => "path"
  | .builtin => "builtin"
  | .url => "url"
  | .git => "git"
  | .package => "package"

def startsWith (start specifier : String) : Bool :=
  Text.startsWith start.toList specifier.toList

def isPath (specifier : String) : Bool :=
  specifier == "." || specifier == ".." || startsWith "./" specifier ||
    startsWith "../" specifier || startsWith "/" specifier

def isExternal (specifier : String) : Bool :=
  !isPath specifier

def beforeFragment (specifier : List Char) : List Char :=
  specifier.takeWhile (· != '#')

def isGit (specifier : String) : Bool :=
  ["git+", "git://", "git@", "github:", "gitlab:", "bitbucket:"].any
      (fun start => startsWith start specifier) ||
    Text.endsWith ".git".toList (beforeFragment specifier.toList)

def kind (specifier : String) : Kind :=
  if isPath specifier then .path
  else if startsWith "node:" specifier then .builtin
  else if startsWith "http://" specifier || startsWith "https://" specifier then .url
  else if isGit specifier then .git
  else .package

structure Parsed where
  name : String
  subpath : Option String
deriving DecidableEq, Repr

def nonEmpty (text : List Char) : Option String :=
  if text.isEmpty then none else some (String.ofList text)

/-- The package name ends at the first slash, or at the second one when it starts with `@`. -/
def parseChars (specifier : List Char) : Parsed :=
  match Text.splitOnce '/' specifier with
  | none => ⟨String.ofList specifier, none⟩
  | some (first, rest) =>
      if first.head? == some '@' then
        match Text.splitOnce '/' rest with
        | none => ⟨String.ofList (first ++ '/' :: rest), none⟩
        | some (second, rest) => ⟨String.ofList (first ++ '/' :: second), nonEmpty rest⟩
      else ⟨String.ofList first, nonEmpty rest⟩

def parse (specifier : String) : Parsed :=
  let chars := specifier.toList
  parseChars ((Text.stripStart? "node:".toList chars).getD chars)

def digits (text : List Char) : Option (List Char × List Char) :=
  let found := text.takeWhile Text.isDecimalDigit
  if found.isEmpty then none else some (found, text.dropWhile Text.isDecimalDigit)

def dot : List Char → Option (List Char)
  | '.' :: rest => some rest
  | _ => none

def isPrereleaseChar (c : Char) : Bool :=
  c.isAlphanum || c == '.' || c == '-'

/-- Three numbers with dots between them and an optional prerelease part. -/
def versionAt (text : List Char) : Option (List Char) := do
  let (major, rest) ← digits text
  let (minor, rest) ← digits (← dot rest)
  let (patch, rest) ← digits (← dot rest)
  let core := major ++ '.' :: minor ++ '.' :: patch
  match rest with
  | '-' :: rest =>
      let tag := rest.takeWhile isPrereleaseChar
      return if tag.isEmpty then core else core ++ '-' :: tag
  | _ => return core

def versionAfterAt : List Char → Option (List Char)
  | 'v' :: rest => versionAt rest
  | text => versionAt text

/-- The first version that follows an `@`, without a leading `v`. -/
def versionIn : List Char → Option (List Char)
  | [] => none
  | '@' :: rest =>
      match versionAfterAt rest with
      | some version => some version
      | none => versionIn rest
  | _ :: rest => versionIn rest

def urlVersion? (specifier : String) : Option String :=
  (versionIn specifier.toList).map String.ofList

def beforeVersion? (segment : String) : Option String := do
  let (before, _) ← Text.splitLast '@' segment.toList
  nonEmpty before

def nameInSegments : Option String → List String → Option String
  | _, [] => none
  | previous, segment :: rest =>
      match beforeVersion? segment with
      | some name =>
          match previous with
          | some scope => if startsWith "@" scope then some (scope ++ "/" ++ name) else some name
          | none => some name
      | none => nameInSegments (some segment) rest

/-- The package an address delivers: the first versioned segment, with the scope before it; else
host and path. -/
def urlPackageName (specifier : String) : String :=
  match Url.parse? specifier with
  | none => specifier
  | some url =>
      match nameInSegments none url.segments with
      | some name => name
      | none => url.host ++ String.ofList (Text.trimEndBy (· == '/') url.path.toList)

def isCommit (text : List Char) : Bool :=
  decide (7 ≤ text.length) && decide (text.length ≤ 40) &&
    text.all (fun c => Text.isDigit c || (decide ('a' ≤ c) && decide (c ≤ 'f')))

/-- The repository name of a location: its last non-empty piece without `.git` at the end. -/
def repositoryName (location : List Char) : List Char :=
  let pieces := Text.splitBy (fun c => c == '/' || c == ':') location
  let name := (pieces.reverse.find? (fun piece => !piece.isEmpty)).getD location
  Text.stripEndAll ".git".toList name.length name

structure Repository where
  name : String
  commit : Option String
deriving DecidableEq, Repr

def repository (specifier : String) : Repository :=
  match Text.splitOnce '#' specifier.toList with
  | some (location, fragment) =>
      { name := String.ofList (repositoryName location)
        commit := if isCommit fragment then some (String.ofList fragment) else none }
  | none => { name := String.ofList (repositoryName specifier.toList), commit := none }

/-- Version ranges that name a place in the workspace instead of a release. -/
def isWorkspaceRange (range : String) : Bool :=
  startsWith "workspace:" range || startsWith "file:" range || startsWith "link:" range

end CodeGraph.Specifier
