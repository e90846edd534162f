import CodeGraph.Extraction
import CodeGraph.Proofs.Table
import Mathlib.Data.List.Find

set_option autoImplicit false

namespace CodeGraph

namespace PackageCache

variable {α : Type}

def answer (shelf : Shelf α) (cache : PackageCache) (key : List String) (value : Option α) :
    Option α :=
  ((Table.get? Prod.fst (shelf.get cache) key).map Prod.snd).getD value

theorem getOrLoad_eq (shelf : Shelf α) (cache : PackageCache) (key : List String)
    (value : Option α) :
    getOrLoad shelf cache key (fun cache => (value, cache)) =
      (answer shelf cache key value,
        if has shelf cache key then cache
        else shelf.set cache (shelf.get cache ++ [(key, value)])) := by
  cases found : Table.get? Prod.fst (shelf.get cache) key with
  | none =>
      have missing : has shelf cache key = false := by
        rw [Bool.eq_false_iff]
        intro present
        obtain ⟨slot, inside, same⟩ := Table.has_iff.mp present
        exact Table.get?_eq_none_iff.mp found slot inside same
      simp [getOrLoad, answer, found, missing]
  | some slot =>
      obtain ⟨inside, same⟩ := Table.get?_some found
      have present : has shelf cache key = true := Table.has_iff.mpr ⟨slot, inside, same⟩
      simp [getOrLoad, answer, found, present]

theorem getD_get?_append (slots : Slots α) (load : List String → Option α)
    (key other : List String) :
    ((Table.get? Prod.fst (slots ++ [(key, load key)]) other).map Prod.snd).getD (load other) =
      ((Table.get? Prod.fst slots other).map Prod.snd).getD (load other) := by
  simp only [Table.get?, List.find?_append]
  cases slots.find? (fun row => decide (row.1 = other)) with
  | some slot => rfl
  | none => by_cases same : key = other <;> simp [same]

end PackageCache

namespace Resolver

structure Known where
  manifest : List String → Option Manifest
  lockfile : Option Lockfile
  installed : List String → String → Option (List String × String)

def known (disk : Disk) (root : List String) (cache : PackageCache) : Known where
  manifest start :=
    PackageCache.answer PackageCache.manifestShelf cache start (loadManifest disk root start)
  lockfile := PackageCache.answer PackageCache.lockfileShelf cache root (loadLockfile disk root)
  installed := Manifest.installed? disk

variable {disk disk' : Disk} {root : List String} {cache cache' : PackageCache}

theorem known_manifest (start : List String) :
    known disk root (PackageCache.getOrLoad PackageCache.manifestShelf cache start
      (fun cache => (loadManifest disk root start, cache))).2 = known disk root cache := by
  rw [PackageCache.getOrLoad_eq]
  dsimp only
  split
  · rfl
  · simp only [known, PackageCache.answer, PackageCache.manifestShelf, PackageCache.lockfileShelf,
      Known.mk.injEq, and_true]
    funext other
    exact PackageCache.getD_get?_append cache.manifests (loadManifest disk root) start other

theorem known_lockfile :
    known disk root (PackageCache.getOrLoad PackageCache.lockfileShelf cache root
      (fun cache => (loadLockfile disk root, cache))).2 = known disk root cache := by
  rw [PackageCache.getOrLoad_eq]
  dsimp only
  split
  · rfl
  · simp only [known, PackageCache.answer, PackageCache.manifestShelf, PackageCache.lockfileShelf,
      Known.mk.injEq, true_and, and_true]
    exact PackageCache.getD_get?_append cache.lockfiles (fun _ => loadLockfile disk root) root root

theorem known_resolve (specifier : String) (file : List String) :
    known disk root (resolve disk root cache specifier file).2 = known disk root cache := by
  unfold resolve
  split
  · rfl
  · rfl
  · rfl
  all_goals exact known_lockfile.trans (known_manifest _)

theorem package_known (start : List String) (parsed : Specifier.Parsed) :
    let manifest := PackageCache.getOrLoad PackageCache.manifestShelf cache start
      (fun cache => (loadManifest disk root start, cache))
    let lockfile := PackageCache.getOrLoad PackageCache.lockfileShelf manifest.2 root
      (fun cache => (loadLockfile disk root, cache))
    package disk start lockfile.1 manifest.1 parsed =
      package disk start (known disk root cache).lockfile
        ((known disk root cache).manifest start) parsed := by
  intro manifest lockfile
  have first : manifest.1 = (known disk root cache).manifest start := by
    simp only [manifest, PackageCache.getOrLoad_eq]
    rfl
  have second : lockfile.1 = (known disk root manifest.2).lockfile := by
    simp only [lockfile, PackageCache.getOrLoad_eq]
    rfl
  rw [first, second, known_manifest]

theorem resolve_congr (same : known disk root cache = known disk' root cache') (specifier : String)
    (file : List String) :
    (resolve disk root cache specifier file).1 = (resolve disk' root cache' specifier file).1 := by
  have installed : Manifest.installed? disk = Manifest.installed? disk' :=
    congrArg Known.installed same
  have alike : package disk = package disk' := by
    funext start lockfile manifest parsed
    simp only [package, installed]
  unfold resolve
  split
  · rfl
  · rfl
  · rfl
  all_goals
    refine (package_known _ _).trans (Eq.trans ?_ (package_known _ _).symm)
    rw [alike, same]

end Resolver

theorem toOption_cases {ε α : Type} {first second : Except ε α}
    (same : first.toOption = second.toOption) :
    (∃ value, first = .ok value ∧ second = .ok value) ∨
      ∃ error error', first = .error error ∧ second = .error error' := by
  cases first with
  | error error =>
      cases second with
      | error error' => exact .inr ⟨error, error', rfl, rfl⟩
      | ok value => cases same
  | ok value =>
      cases second with
      | error error' => cases same
      | ok other => exact .inl ⟨value, rfl, by rw [Option.some.inj same]⟩

def FileContent.text? : FileContent → Option String
  | .bytes content => Text.ofBytes? content
  | .unreadable _ => none

namespace Disk

def content? (disk : Disk) (path : List String) : Option FileContent :=
  match disk.lookup path with
  | .ok (.file content) => some content
  | _ => none

def SameMetadata (a b : Disk) : Prop :=
  ∀ directory, ∀ name ∈ Manifest.fileName :: Lockfile.fileNames,
    a.content? (directory ++ [name]) = b.content? (directory ++ [name])

variable {a b : Disk} {path : List String}

theorem isFile_eq (disk : Disk) (path : List String) :
    disk.isFile path = (disk.content? path).isSome := by
  unfold isFile content?
  cases disk.lookup path with
  | error error => rfl
  | ok entry => cases entry <;> rfl

theorem toOption_readText (disk : Disk) (path : List String) :
    (disk.readText path).toOption = (disk.content? path).bind FileContent.text? := by
  unfold readText readBytes content?
  cases disk.lookup path with
  | error error => rfl
  | ok entry =>
      match entry with
      | .directory | .file (.unreadable _) => rfl
      | .file (.bytes content) =>
          simp only [bind, Except.bind, pure, Except.pure, Option.bind_some, FileContent.text?]
          cases Text.ofBytes? content <;> rfl

theorem toOption_readManifest (disk : Disk) (path : List String) :
    (Manifest.read disk path).toOption =
      (disk.readText path).toOption.bind (fun text => (Manifest.parse text).toOption) := by
  unfold Manifest.read
  cases disk.readText path <;> rfl

theorem isFile_congr (same : a.content? path = b.content? path) :
    a.isFile path = b.isFile path := by
  rw [isFile_eq, isFile_eq, same]

theorem readText_congr (same : a.content? path = b.content? path) :
    (a.readText path).toOption = (b.readText path).toOption := by
  rw [toOption_readText, toOption_readText, same]

theorem readManifest_congr (same : a.content? path = b.content? path) :
    (Manifest.read a path).toOption = (Manifest.read b path).toOption := by
  rw [toOption_readManifest, toOption_readManifest, readText_congr same]

theorem loadManifest_eq (disk : Disk) (root start : List String) :
    Resolver.loadManifest disk root start =
      (Manifest.nearestDirectory? disk start root).bind (fun directory =>
        (Manifest.read disk (directory ++ [Manifest.fileName])).toOption) := by
  unfold Resolver.loadManifest
  cases Manifest.nearestDirectory? disk start root with
  | none => rfl
  | some directory =>
      simp only [bind, Option.bind_some]
      cases Manifest.read disk (directory ++ [Manifest.fileName]) <;> rfl

namespace SameMetadata

variable (same : a.SameMetadata b)

include same

theorem manifest (directory : List String) :
    a.content? (directory ++ [Manifest.fileName]) = b.content? (directory ++ [Manifest.fileName]) :=
  same directory _ (List.mem_cons_self ..)

theorem loadManifest (root : List String) :
    Resolver.loadManifest a root = Resolver.loadManifest b root := by
  funext start
  have nearest : Manifest.nearestDirectory? a start root =
      Manifest.nearestDirectory? b start root := by
    simp only [Manifest.nearestDirectory?, isFile_congr (same.manifest _)]
  rw [loadManifest_eq, loadManifest_eq, nearest]
  simp only [readManifest_congr (same.manifest _)]

theorem installed : Manifest.installed? a = Manifest.installed? b := by
  funext start name
  unfold Manifest.installed?
  congr 1
  funext directory
  dsimp only
  generalize (if Path.isAbsolute name = true then Path.components name
    else directory ++ "node_modules" :: Path.parts name) = package
  rw [isFile_congr (same.manifest package)]
  rcases toOption_cases (readManifest_congr (same.manifest package)) with
    ⟨manifest, first, second⟩ | ⟨error, error', first, second⟩
  · rw [first, second]
  · rw [first, second]

theorem loadLockfile (root : List String) :
    Resolver.loadLockfile a root = Resolver.loadLockfile b root := by
  have listed {entry : String × Option Lockfile.Format} (inside : entry ∈ Lockfile.candidates) :
      a.content? (root ++ [entry.1]) = b.content? (root ++ [entry.1]) :=
    same root entry.1 (List.mem_cons_of_mem _ (List.mem_map_of_mem inside))
  have candidate : Lockfile.candidates.find? (fun entry =>
      entry.2.isSome && a.isFile (root ++ [entry.1])) =
        Lockfile.candidates.find? (fun entry =>
          entry.2.isSome && b.isFile (root ++ [entry.1])) :=
    List.find?_congr fun entry inside => by rw [isFile_congr (listed inside)]
  simp only [Resolver.loadLockfile, Lockfile.load, candidate]
  cases found : Lockfile.candidates.find? (fun entry =>
      entry.2.isSome && b.isFile (root ++ [entry.1])) with
  | none => rfl
  | some entry =>
      obtain ⟨name, format⟩ := entry
      cases format with
      | none => rfl
      | some format =>
          have inside := List.mem_of_find?_eq_some found
          rcases toOption_cases (readText_congr (listed inside)) with
            ⟨text, first, second⟩ | ⟨error, error', first, second⟩
          · simp only [first, second]
          · simp only [first, second]
            rfl

theorem known (root : List String) (cache : PackageCache) :
    Resolver.known a root cache = Resolver.known b root cache := by
  simp only [Resolver.known, same.loadManifest, same.loadLockfile, same.installed]

end SameMetadata

end Disk

namespace Extraction

variable {disk disk' : Disk} {root : List String} {cache cache' : PackageCache}

theorem known_resolveImports (path : String) (imports : List Import) :
    Resolver.known disk root (resolveImports disk root path imports cache).2 =
      Resolver.known disk root cache := by
  induction imports generalizing cache with
  | nil => rfl
  | cons entry rest ih =>
      unfold resolveImports
      split
      · exact ih.trans (Resolver.known_resolve ..)
      · exact ih

theorem resolveImports_congr (path : String) (imports : List Import)
    (same : Resolver.known disk root cache = Resolver.known disk' root cache') :
    (resolveImports disk root path imports cache).1 =
      (resolveImports disk' root path imports cache').1 := by
  induction imports generalizing cache cache' with
  | nil => rfl
  | cons entry rest ih =>
      unfold resolveImports
      split
      · refine congrArg₂ List.cons (congrArg some (Resolver.resolve_congr same _ _)) (ih ?_)
        rw [Resolver.known_resolve, Resolver.known_resolve, same]
      · exact congrArg (List.cons none) (ih same)

variable (path content : String) (chunks : List Chunk) (grammars : Grammars)

theorem known_ofFile :
    Resolver.known disk root (ofFile disk root cache path content chunks grammars).2 =
      Resolver.known disk root cache := by
  unfold ofFile
  split
  · rfl
  · exact known_resolveImports ..

theorem ofFile_congr (same : Resolver.known disk root cache = Resolver.known disk' root cache') :
    (ofFile disk root cache path content chunks grammars).1 =
      (ofFile disk' root cache' path content chunks grammars).1 := by
  unfold ofFile
  split
  · rfl
  next facts _ => simp only [resolveImports_congr path facts.imports same]

end Extraction

end CodeGraph
