import CodeGraph.Edge
import CodeGraph.Package.Cache
import CodeGraph.Package.Specifier

/-!
Which version of a package an import means. The answer comes from the first source that knows: the
lockfile of the workspace, an installed package, the nearest manifest. Addresses and repositories
speak for themselves.
-/

set_option autoImplicit false

namespace CodeGraph

inductive ResolutionSource where
  | lockfile
  | nodeModules
  | manifest
  | unknown
  | url
  | git
  | builtin
deriving DecidableEq, Repr, Inhabited

namespace ResolutionSource

def name : ResolutionSource → String
  | .lockfile => "lockfile"
  | .nodeModules => "node_modules"
  | .manifest => "manifest"
  | .unknown => "unknown"
  | .url => "url"
  | .git => "git"
  | .builtin => "builtin"

/-- How far a source is trusted: the single-precision number next to a decimal of two places. -/
def confidence : ResolutionSource → Json.Number
  | .lockfile | .builtin => .decimal false 1 0
  | .nodeModules => .decimal false 949999988079071 (-15)
  | .git => .decimal false 8999999761581421 (-16)
  | .url => .decimal false 800000011920929 (-15)
  | .manifest => .decimal false 699999988079071 (-15)
  | .unknown => .decimal false 5 (-1)

end ResolutionSource

structure Resolution where
  name : String
  subpath : Option String := none
  range : Option String := none
  resolved : Option String := none
  manager : Option String := none
  lockfile : Option String := none
  integrity : Option String := none
  workspace : Option String := none
  commit : Option String := none
  url : Option String := none
  source : ResolutionSource
deriving DecidableEq, Repr, Inhabited

namespace Resolution

def versionLabel (resolution : Resolution) : Option String :=
  resolution.resolved.or resolution.range

def node (resolution : Resolution) : String :=
  packageNode resolution.name resolution.versionLabel

def properties (resolution : Resolution) : Properties :=
  let texts := [("subpath", resolution.subpath), ("range", resolution.range),
    ("resolved", resolution.resolved), ("manager", resolution.manager),
    ("lockfile", resolution.lockfile), ("integrity", resolution.integrity),
    ("workspace", resolution.workspace), ("commit", resolution.commit), ("url", resolution.url)]
  Properties.ofList
    (("name", .string resolution.name) :: ("source", .string resolution.source.name) ::
      ("confidence", .number resolution.source.confidence) ::
      texts.filterMap (fun (key, text) => text.map (fun text => (key, Json.string text))))

end Resolution

namespace Resolver

def loadLockfile (disk : Disk) (root : List String) : Option Lockfile :=
  match Lockfile.load disk root with
  | .ok lockfile => lockfile
  | .error _ => none

def loadManifest (disk : Disk) (root start : List String) : Option Manifest := do
  let directory ← Manifest.nearestDirectory? disk start root
  match Manifest.read disk (directory ++ [Manifest.fileName]) with
  | .ok manifest => some manifest
  | .error _ => none

def package (disk : Disk) (start : List String) (lockfile : Option Lockfile)
    (manifest : Option Manifest) (parsed : Specifier.Parsed) : Resolution :=
  let declared := (manifest.bind (·.declaredRange? parsed.name)).map Prod.snd
  let named (source : ResolutionSource) : Resolution :=
    { name := parsed.name, subpath := parsed.subpath, source }
  match lockfile.bind (fun lockfile => (lockfile.get? parsed.name).map (lockfile, ·)) with
  | some (lockfile, locked) =>
      { named .lockfile with
        resolved := some locked.version, integrity := locked.integrity
        manager := some lockfile.manager, lockfile := some lockfile.fileName, range := declared }
  | none =>
      match Manifest.installed? disk start parsed.name with
      | some (_, version) => { named .nodeModules with resolved := some version, range := declared }
      | none =>
          if manifest.isNone then named .unknown
          else
            match declared with
            | some range =>
                if Specifier.isWorkspaceRange range then
                  { named .manifest with workspace := some range }
                else { named .manifest with range := some range }
            | none => named .manifest

/-- The directory of an importing file; the root if it has none. -/
def startOf (root file : List String) : List String :=
  (Path.parent? file).getD root

def resolve (disk : Disk) (root : List String) (cache : PackageCache) (specifier : String)
    (file : List String) : Resolution × PackageCache :=
  match Specifier.kind specifier with
  | .url =>
      ({ name := Specifier.urlPackageName specifier, source := .url
         resolved := Specifier.urlVersion? specifier, url := some specifier }, cache)
  | .git =>
      let repository := Specifier.repository specifier
      ({ name := repository.name, source := .git, commit := repository.commit
         url := some specifier }, cache)
  | .builtin =>
      let parsed := Specifier.parse specifier
      ({ name := parsed.name, subpath := parsed.subpath, source := .builtin
         manager := some "builtin" }, cache)
  | .package | .path =>
      let start := startOf root file
      let (manifest, cache) := PackageCache.getOrLoad PackageCache.manifestShelf cache start
        (fun cache => (loadManifest disk root start, cache))
      let (lockfile, cache) := PackageCache.getOrLoad PackageCache.lockfileShelf cache root
        (fun cache => (loadLockfile disk root, cache))
      (package disk start lockfile manifest (Specifier.parse specifier), cache)

end Resolver

end CodeGraph
