import CodeGraph.Proofs.Resolver.Reading
import Mathlib.Logic.Relation

/-!
One slot of a cache: how it is looked up and filled, one step at a time, while files change and
invalidations come in between.

A slot may be out of date only as long as the invalidation of a file that it came from is still to
drop it, and a load only as long as that invalidation is still to count.
-/

set_option autoImplicit false

namespace CodeGraph

namespace PackageCache

def dropsLockfile (path : String) (key : List String) : Bool :=
  (Path.fileName? path).any Lockfile.fileNames.contains &&
    decide (key = (Path.components path).dropLast)

def dropsManifest (path : String) (key : List String) : Bool :=
  Path.fileName? path == some Manifest.fileName &&
    (Path.below? (Path.components path).dropLast key).isSome

def count (cache : PackageCache) : PackageCache :=
  { cache with generation := cache.generation + 1 }

def forget (cache : PackageCache) (path : String) : PackageCache :=
  { cache with
    lockfiles := cache.lockfiles.filter (fun slot => !dropsLockfile path slot.1)
    manifests := cache.manifests.filter (fun slot => !dropsManifest path slot.1) }

theorem invalidate_eq (cache : PackageCache) {path : String}
    (metadata : isPackageMetadata path = true) :
    cache.invalidate path = cache.count.forget path := by
  unfold isPackageMetadata at metadata
  split at metadata
  next name named =>
    by_cases lockfile : name ∈ Lockfile.fileNames
    · have other : (name == Manifest.fileName) = false := by
        rw [beq_eq_false_iff_ne]
        rintro rfl
        exact absurd lockfile (by decide)
      simp [invalidate, invalidate?, forget, count, dropsLockfile, dropsManifest, named, lockfile,
        other, Table.erase]
    · obtain rfl : name = Manifest.fileName := by simpa [lockfile] using metadata
      simp [invalidate, invalidate?, forget, count, dropsLockfile, dropsManifest, named, lockfile]
  next => cases metadata

end PackageCache

namespace Invalidation

/-- An absolute path without steps back. -/
structure Plain (path : List String) : Prop where
  absolute : path.head? = some "/"
  forward : ".." ∉ path

/-- The paths that a key may depend on: whatever is written at one of them drops the key. -/
def Scope (drops : String → List String → Bool) (key path : List String) : Prop :=
  Plain path ∧ ∀ text, Path.components text = path → drops text key = true

/-- What is remembered of one kind of file: where, how it is loaded, and which paths it comes
from. -/
structure Source (α : Type) where
  shelf : PackageCache.Shelf α
  reading : List String → Reading (Option α)
  drops : String → List String → Bool
  get_set : ∀ cache slots, shelf.get (shelf.set cache slots) = slots
  get_forget : ∀ cache path,
    shelf.get (PackageCache.forget cache path) =
      (shelf.get cache).filter (fun slot => !drops path slot.1)
  within : ∀ key, Plain key → (reading key).Within (Scope drops key)

theorem Plain.append {directory : List String} (plain : Plain directory) {name : String}
    (forward : name ≠ "..") : Plain (directory ++ [name]) := by
  refine ⟨?_, ?_⟩
  · rw [List.head?_append, plain.absolute]
    rfl
  · simp [plain.forward, forward.symm]

theorem Plain.of_prefix {directory path : List String} (plain : Plain path)
    (above : directory <+: path) (solid : directory ≠ []) : Plain directory := by
  refine ⟨?_, fun inside => plain.forward (above.subset inside)⟩
  obtain ⟨rest, rfl⟩ := above
  have absolute := plain.absolute
  rwa [List.head?_append_of_ne_nil _ solid] at absolute

theorem fileName?_of_components {text name : String} {directory : List String}
    (plain : Plain directory) (forward : name ≠ "..")
    (place : Path.components text = directory ++ [name]) : Path.fileName? text = some name := by
  obtain ⟨rest, rfl⟩ : ∃ rest, directory = "/" :: rest := by
    cases directory with
    | nil => cases plain.absolute
    | cons first rest => exact ⟨rest, by rw [Option.some.inj plain.absolute]⟩
  have parts : Path.parts text = rest ++ [name] := Path.parts_of_components place
  simp [Path.fileName?, parts, forward]

theorem mem_ancestors {path directory : List String} (absolute : path.head? = some "/")
    (member : directory ∈ Path.ancestors path) : directory <+: path ∧ directory ≠ [] := by
  simp only [Path.ancestors, absolute, BEq.rfl, if_true, List.mem_map, List.mem_range] at member
  obtain ⟨count, short, rfl⟩ := member
  refine ⟨List.take_prefix _ _, ?_⟩
  rw [← List.length_pos_iff, List.length_take]
  omega

theorem mem_of_mem_climb {ceiling directory : List String} {directories : List (List String)}
    (member : directory ∈ Manifest.climb ceiling directories) : directory ∈ directories := by
  induction directories with
  | nil => cases member
  | cons first above ih =>
      unfold Manifest.climb at member
      split at member
      · exact List.mem_cons.mpr (.inl (List.mem_singleton.mp member))
      · rcases List.mem_cons.mp member with rfl | later
        · exact List.mem_cons_self ..
        · exact List.mem_cons_of_mem _ (ih later)

def manifests (root : List String) : Source Manifest where
  shelf := PackageCache.manifestShelf
  reading start := Manifest.reading (Manifest.climb root (Path.ancestors start))
  drops := PackageCache.dropsManifest
  get_set _ _ := rfl
  get_forget _ _ := rfl
  within start plain := by
    refine (Manifest.within_reading _).mono ?_
    rintro path ⟨directory, listed, rfl⟩
    obtain ⟨above, solid⟩ := mem_ancestors plain.absolute (mem_of_mem_climb listed)
    have inside := plain.of_prefix above solid
    refine ⟨inside.append (by decide), fun text place => ?_⟩
    obtain ⟨rest, rfl⟩ := above
    have below : Path.below? directory (directory ++ rest) = some rest :=
      Path.below?_eq_some.mpr rfl
    simp [PackageCache.dropsManifest, fileName?_of_components inside (by decide) place, place,
      below]

def lockfiles : Source Lockfile where
  shelf := PackageCache.lockfileShelf
  reading directory := Lockfile.reading directory Lockfile.candidates
  drops := PackageCache.dropsLockfile
  get_set _ _ := rfl
  get_forget _ _ := rfl
  within directory plain := by
    refine (Lockfile.within_reading directory _).mono ?_
    rintro path ⟨name, listed, rfl⟩
    have forward : name ≠ ".." := by
      rintro rfl
      exact absurd listed (by decide)
    refine ⟨plain.append forward, fun text place => ?_⟩
    have known : name ∈ Lockfile.fileNames := listed
    simp [PackageCache.dropsLockfile, fileName?_of_components plain forward place, place, known]

inductive Fetch (α : Type) where
  | asked
  | missed
  | loading (generation : Nat) (left : Reading (Option α))
  | got (value : Option α)

variable {α : Type}

/-- The next step of a look-up. What was loaded is stored in the step that compares the
generations. -/
def Fetch.advance (source : Source α) (disk : Disk) (key : List String) (cache : PackageCache) :
    Fetch α → Fetch α × PackageCache
  | .asked =>
      match Table.get? Prod.fst (source.shelf.get cache) key with
      | some slot => (.got slot.2, cache)
      | none => (.missed, cache)
  | .missed => (.loading cache.generation (source.reading key), cache)
  | .loading generation (.ask path next) => (.loading generation (next (disk.content? path)), cache)
  | .loading generation (.done value) =>
      if cache.generation ≠ generation then (.got value, cache)
      else
        match Table.get? Prod.fst (source.shelf.get cache) key with
        | some slot => (.got slot.2, cache)
        | none => (.got value, source.shelf.set cache (source.shelf.get cache ++ [(key, value)]))
  | .got value => (.got value, cache)

/-- A value for a key is what the disk says, or one of the paths stands for a change since then. -/
def Source.Fits (source : Source α) (disk : Disk) (paths : List String) (key : List String)
    (value : Option α) : Prop :=
  value = (source.reading key).run disk ∨ ∃ path ∈ paths, source.drops path key = true

def Source.Sound (source : Source α) (disk : Disk) (paths : List String) (cache : PackageCache) :
    Prop :=
  ∀ slot ∈ source.shelf.get cache, Plain slot.1 ∧ source.Fits disk paths slot.1 slot.2

/-- Of the loads only those matter that no invalidation has overtaken. -/
def Fetch.Sound (source : Source α) (disk : Disk) (changed : List String) (generation : Nat)
    (key : List String) : Fetch α → Prop
  | .loading started left =>
      started ≤ generation ∧
      left.Within (Scope source.drops key) ∧
      (started = generation → source.Fits disk changed key (left.run disk))
  | .asked | .missed | .got _ => True

variable {source : Source α} {disk : Disk} {cache : PackageCache} {key : List String}
  {paths changed : List String}

theorem Source.Fits.mono {paths' : List String} (more : ∀ path ∈ paths, path ∈ paths')
    {value : Option α} (fits : source.Fits disk paths key value) :
    source.Fits disk paths' key value :=
  fits.imp_right fun ⟨path, member, drops⟩ => ⟨path, more path member, drops⟩

theorem run_change (tree : disk.Tree) {path : String} (plain : Plain (Path.components path))
    (content : Option FileContent) (other : ¬source.drops path key = true)
    {left : Reading (Option α)} (within : left.Within (Scope source.drops key)) :
    left.run (disk.change (Path.components path).tail content) = left.run disk := by
  refine Reading.run_congr within ?_
  rintro asked ⟨place, dropping⟩
  refine tree.content?_change content place.absolute plain.absolute place.forward ?_
  rintro rfl
  exact other (dropping path rfl)

theorem Source.Fits.change (tree : disk.Tree) {path : String}
    (plain : Plain (Path.components path)) (content : Option FileContent) (whole : Plain key)
    {left : Reading (Option α)} (within : left.Within (Scope source.drops key))
    (fits : source.Fits disk paths key (left.run disk)) :
    source.Fits (disk.change (Path.components path).tail content) (path :: paths) key
      (left.run (disk.change (Path.components path).tail content)) := by
  by_cases drops : source.drops path key = true
  · exact .inr ⟨path, List.mem_cons_self .., drops⟩
  · rcases fits with same | ⟨earlier, member, dropping⟩
    · rw [run_change tree plain content drops within, same]
      exact .inl (run_change tree plain content drops (source.within key whole)).symm
    · exact .inr ⟨earlier, List.mem_cons_of_mem _ member, dropping⟩

theorem Source.Sound.change (sound : source.Sound disk paths cache) (tree : disk.Tree)
    {path : String} (plain : Plain (Path.components path)) (content : Option FileContent) :
    source.Sound (disk.change (Path.components path).tail content) (path :: paths) cache := by
  rintro ⟨key, value⟩ member
  obtain ⟨whole, fits⟩ := sound _ member
  -- A slot is like a load that has nothing left to look at.
  have nothing : (Reading.done value).Within (Scope source.drops key) := trivial
  exact ⟨whole, Source.Fits.change tree plain content whole nothing fits⟩

theorem Fetch.Sound.change {fetch : Fetch α} {generation : Nat}
    (sound : fetch.Sound source disk changed generation key) (tree : disk.Tree) {path : String}
    (plain : Plain (Path.components path)) (content : Option FileContent) (whole : Plain key) :
    fetch.Sound source (disk.change (Path.components path).tail content) (path :: changed)
      generation key := by
  cases fetch with
  | asked | missed | got => trivial
  | loading started left =>
      obtain ⟨earlier, within, fits⟩ := sound
      exact ⟨earlier, within, fun same =>
        (fits same).change tree plain content whole within⟩

theorem Source.Sound.of_slots (sound : source.Sound disk paths cache) {cache' : PackageCache}
    (same : source.shelf.get cache' = source.shelf.get cache) {paths' : List String}
    (more : ∀ path ∈ paths, path ∈ paths') : source.Sound disk paths' cache' := by
  intro slot member
  rw [same] at member
  obtain ⟨whole, fits⟩ := sound slot member
  exact ⟨whole, fits.mono more⟩

theorem Source.Sound.forget (sound : source.Sound disk paths cache) (path : String)
    {paths' : List String} (rest : ∀ other ∈ paths, other = path ∨ other ∈ paths') :
    source.Sound disk paths' (cache.forget path) := by
  intro slot member
  rw [source.get_forget, List.mem_filter] at member
  obtain ⟨inside, kept⟩ := member
  obtain ⟨whole, fits⟩ := sound slot inside
  refine ⟨whole, fits.imp_right ?_⟩
  rintro ⟨other, listed, drops⟩
  rcases rest other listed with rfl | later
  · simp [drops] at kept
  · exact ⟨other, later, drops⟩

theorem advance_frame (source : Source α) (fetch : Fetch α) {β : Type} (view : PackageCache → β)
    (apart : ∀ slots, view (source.shelf.set cache slots) = view cache) :
    view (fetch.advance source disk key cache).2 = view cache := by
  unfold Fetch.advance
  split
  · split <;> rfl
  · rfl
  · rfl
  · split
    · rfl
    · split
      · rfl
      · exact apart _
  · rfl

theorem Source.Sound.advance (sound : source.Sound disk paths cache) (whole : Plain key)
    {fetch : Fetch α} (fetching : fetch.Sound source disk changed cache.generation key)
    (known : ∀ path ∈ changed, path ∈ paths) :
    source.Sound disk paths (fetch.advance source disk key cache).2 := by
  unfold Fetch.advance
  split
  · split <;> exact sound
  · exact sound
  · exact sound
  next generation value =>
    split
    next => exact sound
    next current =>
      split
      next => exact sound
      next =>
        -- No invalidation has counted since the load began, so the value is as good as a slot.
        intro slot member
        rw [source.get_set, List.mem_append, List.mem_singleton] at member
        rcases member with old | rfl
        · exact sound slot old
        · exact ⟨whole, (fetching.2.2 (not_not.mp current).symm).mono known⟩
  · exact sound

theorem Fetch.Sound.advance (whole : Plain key) {fetch : Fetch α}
    (fetching : fetch.Sound source disk changed cache.generation key) :
    (fetch.advance source disk key cache).1.Sound source disk changed cache.generation key := by
  unfold Fetch.advance
  split
  · split <;> trivial
  · exact ⟨Nat.le_refl _, source.within key whole, fun _ => .inl rfl⟩
  · exact ⟨fetching.1, fetching.2.1.2 _, fetching.2.2⟩
  · split
    · trivial
    · split <;> trivial
  · trivial

def Fetch.Right (source : Source α) (disk : Disk) (key : List String) : Fetch α → Prop
  | .asked | .missed => True
  | .loading _ left => left.run disk = (source.reading key).run disk
  | .got value => value = (source.reading key).run disk

def Fetch.steps (source : Source α) (disk : Disk) (key : List String) : Fetch α → Nat
  | .asked => (source.reading key).looks disk + 3
  | .missed => (source.reading key).looks disk + 2
  | .loading _ left => left.looks disk + 1
  | .got _ => 0

theorem Source.Sound.slot_eq (sound : source.Sound disk [] cache) {slot : List String × Option α}
    (found : Table.get? Prod.fst (source.shelf.get cache) key = some slot) :
    slot.2 = (source.reading key).run disk := by
  obtain ⟨member, rfl⟩ := Table.get?_some found
  rcases (sound slot member).2 with same | ⟨_, none, _⟩
  · exact same
  · cases none

theorem Fetch.Right.advance (sound : source.Sound disk [] cache) {fetch : Fetch α}
    (right : fetch.Right source disk key) :
    (fetch.advance source disk key cache).1.Right source disk key := by
  unfold Fetch.advance
  split
  · split
    next found => exact sound.slot_eq found
    next => trivial
  · rfl
  · exact right
  · split
    · exact right
    · split
      next found => exact sound.slot_eq found
      next => exact right
  · exact right

theorem Fetch.steps_advance (source : Source α) (disk : Disk) (key : List String)
    (cache : PackageCache) {fetch : Fetch α} (unfinished : ∀ value, fetch ≠ .got value) :
    (fetch.advance source disk key cache).1.steps source disk key <
      fetch.steps source disk key := by
  unfold Fetch.advance
  split
  · split <;> simp [Fetch.steps]
  · simp [Fetch.steps]
  · simp [Fetch.steps, Reading.looks]
  · split
    · simp [Fetch.steps]
    · split <;> simp [Fetch.steps]
  next value => exact absurd rfl (unfinished value)

def Fetch.Reaches (source : Source α) (disk : Disk) (key : List String) :
    Fetch α × PackageCache → Fetch α × PackageCache → Prop :=
  Relation.ReflTransGen fun before after => before.1.advance source disk key before.2 = after

theorem Fetch.reaches_done (source : Source α) (disk : Disk) (key : List String)
    (cache : PackageCache) (generation : Nat) (left : Reading (Option α)) :
    Fetch.Reaches source disk key (.loading generation left, cache)
      (.loading generation (.done (left.run disk)), cache) := by
  induction left with
  | done value => exact .refl
  | ask path next ih => exact .head rfl (ih _)

theorem Fetch.reaches_got (source : Source α) (disk : Disk) (key : List String)
    (cache : PackageCache) {load : Option α} (loads : (source.reading key).run disk = load) :
    Fetch.Reaches source disk key (.asked, cache)
      ((PackageCache.getOrLoad source.shelf cache key (fun cache => (load, cache))).map
        Fetch.got id) := by
  subst loads
  cases found : Table.get? Prod.fst (source.shelf.get cache) key with
  | some slot =>
      refine .single ?_
      simp [Fetch.advance, PackageCache.getOrLoad, found]
  | none =>
      have missed : Fetch.advance source disk key cache .asked = (.missed, cache) := by
        simp [Fetch.advance, found]
      refine .head missed (.head rfl ((Fetch.reaches_done source disk key cache _ _).tail ?_))
      simp [Fetch.advance, PackageCache.getOrLoad, found]

end Invalidation

end CodeGraph
