import CodeGraph.Disk
import CodeGraph.Error
import CodeGraph.Json.Reader
import CodeGraph.Json.Record
import CodeGraph.Yaml.Reader

set_option autoImplicit false

namespace CodeGraph

structure LockedPackage where
  version : String
  integrity : Option String := none
  resolved : Option String := none
deriving DecidableEq, Repr, Inhabited

abbrev LockedPackages : Type := List (String × LockedPackage)

structure Lockfile where
  fileName : String := ""
  manager : String
  packages : LockedPackages
deriving DecidableEq, Repr, Inhabited

namespace Lockfile

def get? (lockfile : Lockfile) (name : String) : Option LockedPackage :=
  lockfile.packages.lookup name

def addNew (packages : LockedPackages) (name : String) (locked : LockedPackage) : LockedPackages :=
  if (packages.lookup name).isSome then packages else packages ++ [(name, locked)]

def npmEntry? (value : Json) : Option (Option LockedPackage) := do
  match ← value.record? [⟨"version", false⟩, ⟨"integrity", false⟩, ⟨"resolved", false⟩] with
  | [version, integrity, resolved] =>
      let version ← Json.optionalText? version
      let integrity ← Json.optionalText? integrity
      let resolved ← Json.optionalText? resolved
      return version.map (fun version => ⟨version, integrity, resolved⟩)
  | _ => none

def npmName? (place : String) : Option String := do
  let name ← Text.stripStart? "node_modules/".toList place.toList
  if (Text.splitOnceAt "/node_modules/".toList name).isSome then none
  return String.ofList name

/-- Adds the entries that pin a version. Repeated keys come last first, and the first counts. -/
def addAll (name? : String → Option String) (packages : LockedPackages)
    (entries : List (String × Option LockedPackage)) : LockedPackages :=
  entries.foldl (fun packages (key, _) =>
    match name? key, entries.lookup key with
    | some name, some (some locked) => addNew packages name locked
    | _, _ => packages) packages

def ofNpm (content : String) : Except IndexError Lockfile :=
  let parsed := do
    let value ← Json.readWritten? content
    match ← value.record? [⟨"packages", true⟩, ⟨"dependencies", true⟩] with
    | [places, dependencies] =>
        return (← Json.map? npmEntry? places, ← Json.map? npmEntry? dependencies)
    | _ => none
  match parsed with
  | none => .error .json
  | some (places, dependencies) =>
      .ok { manager := "npm", packages := addAll some (addAll npmName? [] places) dependencies }

/-- The package of a descriptor such as `name@range`; a mark at its start belongs to the name. -/
def descriptorName? (descriptor : List Char) : Option String :=
  match descriptor with
  | [] => none
  | c :: rest =>
      if c.toNat < 128 then
        (Text.splitOnce '@' rest).map (fun parts => String.ofList (c :: parts.1))
      else none

def isQuote (c : Char) : Bool :=
  c == '"'

def yarnField? (line : List Char) : Option (String × String) := do
  let (key, value) ← (Text.splitOnceAt [':', ' '] line).or (Text.splitOnce ' ' line)
  let value := Text.trimBy isQuote (Text.trim value)
  if value.isEmpty then none
  return (String.ofList (Text.trimEndBy (· == ':') key), String.ofList value)

structure YarnState where
  packages : LockedPackages := []
  names : List String := []
  current : Option LockedPackage := none

/-- Closes the current entry. The first entry of a name counts. -/
def YarnState.flush (state : YarnState) : YarnState :=
  match state.current with
  | some locked =>
      { packages := state.names.foldl (fun packages name => addNew packages name locked)
          state.packages }
  | none => { packages := state.packages }

def headerNames (line : List Char) : List String :=
  (Text.splitOn ',' (Text.trimEndBy (· == ':') line)).filterMap
    (fun descriptor => descriptorName? (Text.trimBy isQuote (Text.trim descriptor)))

def YarnState.field (state : YarnState) (key value : String) : YarnState :=
  match key with
  | "version" => { state with current := some { version := value } }
  | "integrity" | "checksum" =>
      { state with current := state.current.map (fun l => { l with integrity := some value }) }
  | "resolved" | "resolution" =>
      { state with current := state.current.map (fun l => { l with resolved := some value }) }
  | _ => state

def YarnState.line (state : YarnState) (line : List Char) : YarnState :=
  let text := Text.trim line
  if text.isEmpty || text.head? == some '#' then state
  else if line.head? != some ' ' then { state.flush with names := headerNames line }
  else
    match yarnField? text with
    | some (key, value) => state.field key value
    | none => state

def ofYarn (content : String) : Lockfile :=
  let state := (Text.lines content.toList).foldl YarnState.line {}
  { manager := "yarn", packages := state.flush.packages }

def withoutPeers (version : List Char) : List Char :=
  version.takeWhile (fun c => c != '(' && c != '_')

def splitAtMark : List Char → Option (List Char × List Char)
  | [] => none
  | c :: rest =>
      if c == '/' || c == '@' then some ([], rest)
      else (splitAtMark rest).map (fun parts => (c :: parts.1, parts.2))

/-- The name and the version in a key such as `/name/version`, `/name@version` or `name@version`,
with what the version was resolved for behind it. -/
def pnpmKey? (key : String) : Option (String × String) := do
  let key := (Text.trimStartBy (· == '/') key.toList).takeWhile (· != '(')
  let (scope, rest) ←
    if key.head? == some '@' then
      (Text.splitOnce '/' key).map (fun parts => (parts.1 ++ ['/'], parts.2))
    else some ([], key)
  let (name, version) ← splitAtMark rest
  let name := scope ++ name
  let version := withoutPeers version
  if name.isEmpty || version.isEmpty then none
  return (String.ofList name, String.ofList version)

def dependencyGroups : List String :=
  ["dependencies", "devDependencies", "optionalDependencies"]

def declaredVersion? (spec : Yaml) : Option String :=
  ((spec.get? "version").bind Yaml.string?).or spec.string?

def addDeclared (packages : LockedPackages) (entry : Yaml × Yaml) : LockedPackages :=
  match entry.1.string?, declaredVersion? entry.2 with
  | some name, some version =>
      addNew packages name { version := String.ofList (withoutPeers version.toList) }
  | _, _ => packages

def addImporter (importer : Yaml) (packages : LockedPackages) : LockedPackages :=
  dependencyGroups.foldl (fun packages group =>
    (((importer.get? group).bind Yaml.mapping?).getD []).foldl addDeclared packages) packages

def setIntegrity (name version : String) (integrity : Option String) (packages : LockedPackages) :
    LockedPackages :=
  packages.map (fun (key, locked) =>
    if key = name && locked.version = version && locked.integrity.isNone then
      (key, { locked with integrity })
    else (key, locked))

def addPackage (packages : LockedPackages) (entry : Yaml × Yaml) : LockedPackages :=
  match entry.1.string?.bind pnpmKey? with
  | none => packages
  | some (name, version) =>
      let integrity := ((entry.2.get? "resolution").bind (·.get? "integrity")).bind Yaml.string?
      setIntegrity name version integrity (addNew packages name { version })

def pnpmPackages (document : Yaml) : LockedPackages :=
  let direct := match (document.get? "importers").bind (·.get? ".") with
    | some root => addImporter root []
    | none => []
  (((document.get? "packages").bind Yaml.mapping?).getD []).foldl addPackage
    (addImporter document direct)

def ofPnpm (content : String) : Except IndexError Lockfile :=
  match Yaml.read? content with
  | some document => .ok { manager := "pnpm", packages := pnpmPackages document }
  | none => .error .resolution

inductive Format where
  | npm
  | yarn
  | pnpm
deriving DecidableEq, Repr

def parse (format : Format) (content : String) : Except IndexError Lockfile :=
  match format with
  | .npm => ofNpm content
  | .yarn => .ok (ofYarn content)
  | .pnpm => ofPnpm content

/-- The names of lockfiles, first ones first. Those without a format are passed over. -/
def candidates : List (String × Option Format) :=
  [("package-lock.json", some .npm), ("npm-shrinkwrap.json", some .npm), ("yarn.lock", some .yarn),
    ("pnpm-lock.yaml", some .pnpm), ("bun.lockb", none)]

def fileNames : List String :=
  candidates.map Prod.fst

def load (disk : Disk) (directory : List String) : Except IndexError (Option Lockfile) :=
  match candidates.find? (fun (name, format) =>
      format.isSome && disk.isFile (directory ++ [name])) with
  | some (name, some format) => do
      let content ← (disk.readText (directory ++ [name])).mapError (.unreadable ·.message)
      let lockfile ← parse format content
      return some { lockfile with fileName := name }
  | _ => .ok none

end Lockfile

end CodeGraph
