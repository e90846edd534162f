import CodeGraph.Package.Lockfile
import CodeGraph.Package.Manifest

/-!
Remembered lockfiles and manifests. That there is none is remembered too. A load during which
something was invalidated is answered, but not remembered.
-/

set_option autoImplicit false

namespace CodeGraph

def isPackageMetadata (path : String) : Bool :=
  match Path.fileName? path with
  | some name => name == Manifest.fileName || Lockfile.fileNames.contains name
  | none => false

abbrev Slots (α : Type) : Type := List (List String × Option α)

structure PackageCache where
  lockfiles : Slots Lockfile := []
  manifests : Slots Manifest := []
  /-- Goes up with every invalidation. -/
  generation : Nat := 0
deriving Repr, Inhabited

namespace PackageCache

def clear (cache : PackageCache) : PackageCache :=
  { cache with lockfiles := [], manifests := [] }

def invalidate? (cache : PackageCache) (path : String) : Option PackageCache := do
  let name ← Path.fileName? path
  let directory := (Path.components path).dropLast
  if Lockfile.fileNames.contains name then
    some { cache with
      generation := cache.generation + 1
      lockfiles := Table.erase Prod.fst directory cache.lockfiles }
  else if name == Manifest.fileName then
    some { cache with
      generation := cache.generation + 1
      manifests := cache.manifests.filter (fun slot => (Path.below? directory slot.1).isNone) }
  else none

def invalidate (cache : PackageCache) (path : String) : PackageCache :=
  (cache.invalidate? path).getD cache

/-- A load may change the cache while it runs. -/
abbrev Load (α : Type) : Type := PackageCache → Option α × PackageCache

structure Shelf (α : Type) where
  get : PackageCache → Slots α
  set : PackageCache → Slots α → PackageCache

def lockfileShelf : Shelf Lockfile :=
  ⟨PackageCache.lockfiles, fun cache slots => { cache with lockfiles := slots }⟩

def manifestShelf : Shelf Manifest :=
  ⟨PackageCache.manifests, fun cache slots => { cache with manifests := slots }⟩

def getOrLoad {α : Type} (shelf : Shelf α) (cache : PackageCache) (key : List String)
    (load : Load α) : Option α × PackageCache :=
  match Table.get? Prod.fst (shelf.get cache) key with
  | some slot => (slot.2, cache)
  | none =>
      let (loaded, after) := load cache
      if after.generation ≠ cache.generation then (loaded, after)
      else
        match Table.get? Prod.fst (shelf.get after) key with
        | some slot => (slot.2, after)
        | none => (loaded, shelf.set after (shelf.get after ++ [(key, loaded)]))

def has {α : Type} (shelf : Shelf α) (cache : PackageCache) (key : List String) : Bool :=
  Table.has Prod.fst (shelf.get cache) key

end PackageCache

end CodeGraph
