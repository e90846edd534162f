import CodeGraph.Proofs.Resolver.Slots

/-!
A resolver whose cache is invalidated while resolutions run, one step at a time: a look at a slot, a
look at a file, the storing of what was loaded, the change of a file and the two halves of an
invalidation, which first counts and then drops the slots.

Once every change is followed by its invalidation, resolutions answer as if nothing were remembered.
-/

set_option autoImplicit false

namespace CodeGraph.Invalidation

inductive Phase where
  | manifest (fetch : Fetch Manifest)
  | lockfile (manifest : Option Manifest) (fetch : Fetch Lockfile)
  | answered (resolution : Resolution)

structure Call where
  specifier : String
  file : List String
  phase : Phase

def Call.start (root : List String) (disk : Disk) (cache : PackageCache) (specifier : String)
    (file : List String) : Call :=
  { specifier, file
    phase :=
      match Specifier.kind specifier with
      | .package | .path => .manifest .asked
      | _ => .answered (Resolver.resolve disk root cache specifier file).1 }

def Call.advance (root : List String) (disk : Disk) (cache : PackageCache) (call : Call) :
    Call × PackageCache :=
  let start := Resolver.startOf root call.file
  match call.phase with
  | .manifest (.got manifest) => ({ call with phase := .lockfile manifest .asked }, cache)
  | .manifest fetch =>
      let (fetch, cache) := fetch.advance (manifests root) disk start cache
      ({ call with phase := .manifest fetch }, cache)
  | .lockfile manifest (.got lockfile) =>
      let resolution := Resolver.package disk start lockfile manifest
        (Specifier.parse call.specifier)
      ({ call with phase := .answered resolution }, cache)
  | .lockfile manifest fetch =>
      let (fetch, cache) := fetch.advance lockfiles disk root cache
      ({ call with phase := .lockfile manifest fetch }, cache)
  | .answered _ => (call, cache)

structure State where
  disk : Disk
  cache : PackageCache := {}
  changed : List String := []
  /-- The invalidations that have counted and are still to drop slots. -/
  counted : List String := []
  calls : List Call := []

inductive Action where
  | change (path : String) (content : Option FileContent)
  | count (path : String)
  | drop (index : Nat)
  | resolve (specifier : String) (file : List String)
  | advance (call : Nat)
deriving DecidableEq

def step (root : List String) (state : State) : Action → State
  | .change path content =>
      { state with
        disk := state.disk.change (Path.components path).tail content
        changed := path :: state.changed }
  | .count path =>
      { state with
        cache := state.cache.count
        changed := state.changed.filter (fun other => other != path)
        counted := path :: state.counted }
  | .drop index =>
      match state.counted[index]? with
      | none => state
      | some path =>
          { state with
            cache := state.cache.forget path, counted := state.counted.eraseIdx index }
  | .resolve specifier file =>
      let call := Call.start root state.disk state.cache specifier file
      { state with calls := state.calls ++ [call] }
  | .advance index =>
      match state.calls[index]? with
      | none => state
      | some call =>
          let (call, cache) := call.advance root state.disk state.cache
          { state with cache, calls := state.calls.set index call }

def run (root : List String) (disk : Disk) (actions : List Action) : State :=
  actions.foldl (step root) { disk }

def Below (directory path : List String) : Prop :=
  ∃ below, below ≠ [] ∧ path = directory ++ below ∧ ".." ∉ below

def Action.Inside (root : List String) : Action → Prop
  | .change path _ | .count path =>
      isPackageMetadata path = true ∧ Below root (Path.components path)
  | .resolve _ file => Below root file
  | .drop _ | .advance _ => True

def Call.Sound (root : List String) (disk : Disk) (changed : List String) (generation : Nat)
    (call : Call) : Prop :=
  Plain (Resolver.startOf root call.file) ∧
  match call.phase with
  | .manifest fetch =>
      fetch.Sound (manifests root) disk changed generation (Resolver.startOf root call.file)
  | .lockfile _ fetch => fetch.Sound lockfiles disk changed generation root
  | .answered _ => True

structure Coherent (root : List String) (state : State) : Prop where
  tree : state.disk.Tree
  manifests : (manifests root).Sound state.disk (state.changed ++ state.counted) state.cache
  lockfiles : lockfiles.Sound state.disk (state.changed ++ state.counted) state.cache
  calls : ∀ call ∈ state.calls,
    call.Sound root state.disk state.changed state.cache.generation

variable {root paths changed : List String} {disk : Disk} {cache : PackageCache} {state : State}

theorem Plain.of_below (plain : Plain root) {path : List String} (below : Below root path) :
    Plain path := by
  obtain ⟨rest, -, rfl, forward⟩ := below
  refine ⟨?_, ?_⟩
  · rw [List.head?_append, plain.absolute]
    rfl
  · simp [plain.forward, forward]

theorem Plain.startOf (plain : Plain root) {file : List String} (below : Below root file) :
    Plain (Resolver.startOf root file) := by
  obtain ⟨rest, solid, rfl, forward⟩ := below
  have above : Plain (root ++ rest).dropLast := by
    rw [List.dropLast_append_of_ne_nil solid]
    refine ⟨?_, ?_⟩
    · rw [List.head?_append, plain.absolute]
      rfl
    · rw [List.mem_append]
      exact fun inside => inside.elim plain.forward
        (fun later => forward (List.mem_of_mem_dropLast later))
  unfold Resolver.startOf Path.parent?
  split
  · exact plain
  · exact plain
  · exact above

theorem Call.Sound.overtaken {call : Call} {changed changed' : List String}
    {generation : Nat} (sound : call.Sound root disk changed generation) :
    call.Sound root disk changed' (generation + 1) := by
  refine ⟨sound.1, ?_⟩
  have kept {α : Type} {source : Source α} {key : List String} {fetch : Fetch α}
      (old : fetch.Sound source disk changed generation key) :
      fetch.Sound source disk changed' (generation + 1) key := by
    cases fetch with
    | asked | missed | got => trivial
    | loading started left =>
        exact ⟨Nat.le_succ_of_le old.1, old.2.1, fun same => absurd old.1 (by omega)⟩
  have old := sound.2
  split at old
  next phase => simpa only [phase] using kept old
  next phase => simpa only [phase] using kept old
  next => trivial

theorem Call.Sound.change {call : Call} {generation : Nat}
    (sound : call.Sound root disk changed generation) (tree : disk.Tree) (whole : Plain root)
    {path : String} (plain : Plain (Path.components path)) (content : Option FileContent) :
    call.Sound root (disk.change (Path.components path).tail content) (path :: changed)
      generation := by
  refine ⟨sound.1, ?_⟩
  have old := sound.2
  split at old
  next phase => simpa only [phase] using old.change tree plain content sound.1
  next phase => simpa only [phase] using old.change tree plain content whole
  next => trivial

/-- A step of a resolution leaves the generation as it is, stores nothing that does not fit, and
nothing at all on the other shelf. -/
theorem Call.Sound.advance {call : Call} (whole : Plain root)
    (sound : call.Sound root disk changed cache.generation)
    (manifests_sound : (manifests root).Sound disk paths cache)
    (lockfiles_sound : lockfiles.Sound disk paths cache)
    (known : ∀ path ∈ changed, path ∈ paths) :
    (call.advance root disk cache).2.generation = cache.generation ∧
    (manifests root).Sound disk paths (call.advance root disk cache).2 ∧
    lockfiles.Sound disk paths (call.advance root disk cache).2 ∧
    (call.advance root disk cache).1.Sound root disk changed cache.generation := by
  obtain ⟨plain, phase_sound⟩ := sound
  unfold Call.advance
  split
  next => exact ⟨rfl, manifests_sound, lockfiles_sound, plain, trivial⟩
  next fetch _ phase =>
    simp only [phase] at phase_sound
    refine ⟨advance_frame (manifests root) fetch PackageCache.generation fun _ => rfl,
      manifests_sound.advance plain phase_sound known, ?_, plain, phase_sound.advance plain⟩
    exact lockfiles_sound.of_slots
      (advance_frame (manifests root) fetch lockfiles.shelf.get fun _ => rfl) fun _ same => same
  next => exact ⟨rfl, manifests_sound, lockfiles_sound, plain, trivial⟩
  next manifest fetch _ phase =>
    simp only [phase] at phase_sound
    refine ⟨advance_frame lockfiles fetch PackageCache.generation fun _ => rfl, ?_,
      lockfiles_sound.advance whole phase_sound known, plain, phase_sound.advance whole⟩
    exact manifests_sound.of_slots
      (advance_frame lockfiles fetch (manifests root).shelf.get fun _ => rfl) fun _ same => same
  next => exact ⟨rfl, manifests_sound, lockfiles_sound, plain, phase_sound⟩

theorem Coherent.advance (coherent : Coherent root state) (whole : Plain root) (index : Nat) :
    Coherent root (step root state (.advance index)) := by
  simp only [step]
  split
  · exact coherent
  next call there =>
    obtain ⟨generation, manifests, lockfiles, after⟩ :=
      (coherent.calls call (List.mem_of_getElem? there)).advance whole coherent.manifests
        coherent.lockfiles (fun path member => List.mem_append_left _ member)
    refine ⟨coherent.tree, manifests, lockfiles, fun other member => ?_⟩
    rw [generation]
    rcases List.mem_or_eq_of_mem_set member with old | rfl
    · exact coherent.calls other old
    · exact after

theorem Coherent.step (coherent : Coherent root state) (whole : Plain root) {action : Action}
    (inside : action.Inside root) : Coherent root (step root state action) := by
  cases action with
  | change path content =>
      have plain := whole.of_below inside.2
      exact ⟨coherent.tree.change _ content,
        coherent.manifests.change coherent.tree plain content,
        coherent.lockfiles.change coherent.tree plain content,
        fun call member =>
          (coherent.calls call member).change coherent.tree whole plain content⟩
  | count path =>
      -- A change that was counted may still have slots to drop, so it stays in the account.
      have more : ∀ other ∈ state.changed ++ state.counted,
          other ∈ state.changed.filter (fun other => other != path) ++ path :: state.counted := by
        intro other member
        by_cases same : other = path
        · simp [same]
        · simpa [same] using member
      exact ⟨coherent.tree, coherent.manifests.of_slots rfl more,
        coherent.lockfiles.of_slots rfl more,
        fun call member => (coherent.calls call member).overtaken⟩
  | drop index =>
      simp only [Invalidation.step]
      split
      · exact coherent
      next path there =>
        have rest : ∀ other ∈ state.changed ++ state.counted,
            other = path ∨ other ∈ state.changed ++ state.counted.eraseIdx index := by
          obtain ⟨short, rfl⟩ := List.getElem?_eq_some_iff.mp there
          intro other member
          rw [List.mem_append, (List.getElem_cons_eraseIdx_perm short).symm.mem_iff,
            List.mem_cons] at member
          rw [List.mem_append]
          tauto
        exact ⟨coherent.tree, coherent.manifests.forget path rest,
          coherent.lockfiles.forget path rest, coherent.calls⟩
  | resolve specifier file =>
      refine ⟨coherent.tree, coherent.manifests, coherent.lockfiles, fun call member => ?_⟩
      rcases List.mem_append.mp member with old | new
      · exact coherent.calls call old
      · rw [List.mem_singleton.mp new]
        refine ⟨whole.startOf inside, ?_⟩
        cases kind : Specifier.kind specifier <;> simp [Call.start, kind, Fetch.Sound]
  | advance index => exact coherent.advance whole index

theorem Coherent.run (whole : Plain root) {disk : Disk} (tree : disk.Tree) {actions : List Action}
    (inside : ∀ action ∈ actions, action.Inside root) : Coherent root (run root disk actions) := by
  suffices kept : ∀ state, Coherent root state →
      Coherent root (actions.foldl (Invalidation.step root) state) from
    kept _ ⟨tree, by rintro _ ⟨⟩, by rintro _ ⟨⟩, by rintro _ ⟨⟩⟩
  induction actions with
  | nil => exact fun _ coherent => coherent
  | cons action rest ih =>
      intro state coherent
      exact ih (fun other member => inside other (List.mem_cons_of_mem _ member)) _
        (coherent.step whole (inside action (List.mem_cons_self ..)))

def Call.Reaches (root : List String) (disk : Disk) :
    Call × PackageCache → Call × PackageCache → Prop :=
  Relation.ReflTransGen fun before after => before.1.advance root disk before.2 = after

theorem Call.reaches_manifest (specifier : String) (file : List String)
    {before after : Fetch Manifest × PackageCache}
    (fetched : Fetch.Reaches (manifests root) disk (Resolver.startOf root file) before after) :
    Call.Reaches root disk (⟨specifier, file, .manifest before.1⟩, before.2)
      (⟨specifier, file, .manifest after.1⟩, after.2) := by
  let call (point : Fetch Manifest × PackageCache) : Call × PackageCache :=
    (⟨specifier, file, .manifest point.1⟩, point.2)
  refine Relation.ReflTransGen.lift' call ?_ _ _ fetched
  rintro ⟨fetch, cache⟩ - rfl
  cases fetch with
  | got value => exact .refl
  | asked | missed | loading => exact .single rfl

theorem Call.reaches_lockfile (specifier : String) (file : List String)
    (manifest : Option Manifest) {before after : Fetch Lockfile × PackageCache}
    (fetched : Fetch.Reaches lockfiles disk root before after) :
    Call.Reaches root disk (⟨specifier, file, .lockfile manifest before.1⟩, before.2)
      (⟨specifier, file, .lockfile manifest after.1⟩, after.2) := by
  let call (point : Fetch Lockfile × PackageCache) : Call × PackageCache :=
    (⟨specifier, file, .lockfile manifest point.1⟩, point.2)
  refine Relation.ReflTransGen.lift' call ?_ _ _ fetched
  rintro ⟨fetch, cache⟩ - rfl
  cases fetch with
  | got value => exact .refl
  | asked | missed | loading => exact .single rfl

/-- With nobody to interrupt it, a resolution answers and stores what the resolver does at once. -/
theorem Call.reaches_answer (root : List String) (disk : Disk) (cache : PackageCache)
    (specifier : String) (file : List String) :
    Call.Reaches root disk (Call.start root disk cache specifier file, cache)
      ((Resolver.resolve disk root cache specifier file).map
        (fun resolution => ⟨specifier, file, .answered resolution⟩) id) := by
  let start := Resolver.startOf root file
  let manifest := PackageCache.getOrLoad PackageCache.manifestShelf cache start
    (fun cache => (Resolver.loadManifest disk root start, cache))
  have looked : Fetch.Reaches (manifests root) disk start (.asked, cache)
      (manifest.map Fetch.got id) :=
    Fetch.reaches_got (manifests root) disk start cache (Manifest.run_reading disk root start)
  have locked := Fetch.reaches_got lockfiles disk root manifest.2
    (Lockfile.run_reading disk root)
  have whole := ((Call.reaches_manifest specifier file looked).tail rfl).trans
    ((Call.reaches_lockfile specifier file manifest.1 locked).tail rfl)
  cases kind : Specifier.kind specifier with
  | package =>
      simp only [Call.start, Resolver.resolve, kind]
      exact whole
  | path =>
      simp only [Call.start, Resolver.resolve, kind]
      exact whole
  | url | git | builtin =>
      simp only [Call.start, Resolver.resolve, kind]
      exact .refl

def Call.IsPackage (call : Call) : Prop :=
  Specifier.kind call.specifier = .package ∨ Specifier.kind call.specifier = .path

def Call.Right (root : List String) (disk : Disk) (call : Call) : Prop :=
  match call.phase with
  | .manifest fetch =>
      call.IsPackage ∧ fetch.Right (manifests root) disk (Resolver.startOf root call.file)
  | .lockfile manifest fetch =>
      call.IsPackage ∧
      manifest = Resolver.loadManifest disk root (Resolver.startOf root call.file) ∧
      fetch.Right lockfiles disk root
  | .answered resolution =>
      resolution = (Resolver.resolve disk root {} call.specifier call.file).1

def Call.steps (root : List String) (disk : Disk) (call : Call) : Nat :=
  match call.phase with
  | .manifest fetch =>
      fetch.steps (manifests root) disk (Resolver.startOf root call.file) +
        (Fetch.asked.steps lockfiles disk root + 2)
  | .lockfile _ fetch => fetch.steps lockfiles disk root + 1
  | .answered _ => 0

theorem Call.IsPackage.resolve_eq {call : Call} (package : call.IsPackage) :
    (Resolver.resolve disk root {} call.specifier call.file).1 =
      Resolver.package disk (Resolver.startOf root call.file) (Resolver.loadLockfile disk root)
        (Resolver.loadManifest disk root (Resolver.startOf root call.file))
        (Specifier.parse call.specifier) := by
  rcases package with kind | kind <;>
    simp [Resolver.resolve, kind, PackageCache.getOrLoad, PackageCache.manifestShelf,
      PackageCache.lockfileShelf, Table.get?]

theorem Call.right_start (root : List String) (disk : Disk) (cache : PackageCache)
    (specifier : String) (file : List String) :
    (Call.start root disk cache specifier file).Right root disk := by
  cases kind : Specifier.kind specifier <;>
    simp [Call.start, Call.Right, Call.IsPackage, kind, Fetch.Right, Resolver.resolve]

theorem Call.Right.advance (manifests_sound : (manifests root).Sound disk [] cache)
    (lockfiles_sound : lockfiles.Sound disk [] cache) {call : Call}
    (right : call.Right root disk) : (call.advance root disk cache).1.Right root disk := by
  unfold Call.Right at right
  unfold Call.advance
  split
  next manifest phase =>
    simp only [phase] at right
    exact ⟨right.1, right.2.trans (Manifest.run_reading disk root _), trivial⟩
  next fetch _ phase =>
    simp only [phase] at right
    exact ⟨right.1, right.2.advance manifests_sound⟩
  next manifest lockfile phase =>
    simp only [phase] at right
    obtain ⟨package, rfl, loaded⟩ := right
    obtain rfl : lockfile = Resolver.loadLockfile disk root :=
      loaded.trans (Lockfile.run_reading disk root)
    exact package.resolve_eq.symm
  next manifest fetch _ phase =>
    simp only [phase] at right
    exact ⟨right.1, right.2.1, right.2.2.advance lockfiles_sound⟩
  next phase =>
    simp only [phase] at right
    simpa only [Call.Right, phase] using right

theorem Call.steps_advance (root : List String) (disk : Disk) (cache : PackageCache) (call : Call) :
    (call.advance root disk cache).1.steps root disk ≤ call.steps root disk - 1 := by
  unfold Call.advance
  split
  next manifest phase =>
    simp only [Call.steps, phase, Fetch.steps]
    omega
  next fetch unfinished phase =>
    have fewer := Fetch.steps_advance (manifests root) disk (Resolver.startOf root call.file) cache
      unfinished
    simp only [Call.steps, phase]
    omega
  next manifest lockfile phase => exact Nat.zero_le _
  next manifest fetch unfinished phase =>
    have fewer := Fetch.steps_advance lockfiles disk root cache unfinished
    simp only [Call.steps, phase]
    omega
  next phase => simp [Call.steps, phase]

theorem Call.identity_advance (root : List String) (disk : Disk) (cache : PackageCache)
    (call : Call) :
    (call.advance root disk cache).1.specifier = call.specifier ∧
      (call.advance root disk cache).1.file = call.file := by
  unfold Call.advance
  split <;> exact ⟨rfl, rfl⟩

def Action.Resolves : Action → Prop
  | .resolve _ _ | .advance _ => True
  | .change _ _ | .count _ | .drop _ => False

structure Quiet (root : List String) (disk : Disk) (state : State) : Prop
    extends Coherent root state where
  same : state.disk = disk
  changed : state.changed = []
  counted : state.counted = []

theorem step_resolves (root : List String) (state : State) {action : Action}
    (resolves : action.Resolves) :
    (step root state action).disk = state.disk ∧
    (step root state action).changed = state.changed ∧
    (step root state action).counted = state.counted := by
  cases action with
  | change | count | drop => cases resolves
  | resolve specifier file => exact ⟨rfl, rfl, rfl⟩
  | advance index =>
      simp only [step]
      split <;> exact ⟨rfl, rfl, rfl⟩

theorem Quiet.step (quiet : Quiet root disk state) (whole : Plain root) {action : Action}
    (inside : action.Inside root) (resolves : action.Resolves) :
    Quiet root disk (step root state action) := by
  obtain ⟨same, changed, counted⟩ := step_resolves root state resolves
  exact ⟨quiet.toCoherent.step whole inside, same.trans quiet.same, changed.trans quiet.changed,
    counted.trans quiet.counted⟩

def Awaits (root : List String) (disk : Disk) (specifier : String) (file : List String)
    (index steps : Nat) (state : State) : Prop :=
  ∃ call, state.calls[index]? = some call ∧ call.specifier = specifier ∧ call.file = file ∧
    call.Right root disk ∧ call.steps root disk ≤ steps

variable {specifier : String} {file : List String} {index steps : Nat}

theorem Awaits.step (awaits : Awaits root disk specifier file index steps state)
    (quiet : Quiet root disk state) {action : Action} (resolves : action.Resolves) :
    Awaits root disk specifier file index (steps - [action].count (.advance index))
      (step root state action) := by
  obtain ⟨call, there, named, imported, right, few⟩ := awaits
  have short := (List.getElem?_eq_some_iff.mp there).1
  cases action with
  | change | count | drop => cases resolves
  | resolve other importer =>
      refine ⟨call, ?_, named, imported, right, by simpa using few⟩
      rw [← there]
      exact List.getElem?_append_left short
  | advance other =>
      by_cases same : other = index
      · subst same
        -- Nothing waits to be counted or dropped, so what is remembered fits the disk.
        have manifests_sound := quiet.manifests
        have lockfiles_sound := quiet.lockfiles
        rw [quiet.same, quiet.changed, quiet.counted] at manifests_sound lockfiles_sound
        have identity := call.identity_advance root disk state.cache
        have fewer := call.steps_advance root disk state.cache
        refine ⟨(call.advance root disk state.cache).1, ?_, identity.1.trans named,
          identity.2.trans imported, right.advance manifests_sound lockfiles_sound, ?_⟩
        · simp only [Invalidation.step, there, quiet.same]
          exact List.getElem?_set_self short
        · simp only [List.count_singleton_self]
          omega
      · have differ : Action.advance other ≠ .advance index := by simpa using same
        refine ⟨call, ?_, named, imported, right, by simpa [differ] using few⟩
        simp only [Invalidation.step]
        split
        · exact there
        · rw [← there]
          exact List.getElem?_set_ne same

theorem Awaits.foldl (awaits : Awaits root disk specifier file index steps state)
    (quiet : Quiet root disk state) (whole : Plain root) {actions : List Action}
    (calm : ∀ action ∈ actions, action.Resolves ∧ action.Inside root) :
    Awaits root disk specifier file index (steps - actions.count (.advance index))
      (actions.foldl (Invalidation.step root) state) := by
  induction actions generalizing state steps with
  | nil => simpa using awaits
  | cons action rest ih =>
      obtain ⟨resolves, inside⟩ := calm action (List.mem_cons_self ..)
      have later := ih (awaits.step quiet resolves) (quiet.step whole inside resolves)
        fun other member => calm other (List.mem_cons_of_mem _ member)
      rwa [Nat.sub_sub, ← List.count_append] at later

/-- Once every change was followed by an invalidation, a resolution that starts gives the answer of
a new resolver, whatever else is being resolved in the meantime. -/
theorem resolution_after_invalidations (root : List String) (whole : Plain root) (disk : Disk)
    (tree : disk.Tree) (before : List Action) (inside : ∀ action ∈ before, action.Inside root)
    (changed : (run root disk before).changed = []) (counted : (run root disk before).counted = [])
    (specifier : String) (file : List String) (below : Below root file) :
    ∃ steps, ∀ after : List Action,
      (∀ action ∈ after, action.Resolves ∧ action.Inside root) →
      ∃ call,
        (run root disk (before ++ .resolve specifier file :: after)).calls[
          (run root disk before).calls.length]? = some call ∧
        (∀ resolution, call.phase = .answered resolution →
          resolution =
            (Resolver.resolve (run root disk before).disk root {} specifier file).1) ∧
        (steps ≤ after.count (.advance (run root disk before).calls.length) →
          ∃ resolution, call.phase = .answered resolution) := by
  have quiet : Quiet root (run root disk before).disk (run root disk before) :=
    ⟨.run whole tree inside, rfl, changed, counted⟩
  let call := Call.start root (run root disk before).disk (run root disk before).cache specifier file
  refine ⟨call.steps root (run root disk before).disk, fun after calm => ?_⟩
  -- From its first step on the resolution is right about the disk, which nobody changes.
  have begun : Awaits root (run root disk before).disk specifier file
      (run root disk before).calls.length (call.steps root (run root disk before).disk)
      (step root (run root disk before) (.resolve specifier file)) :=
    ⟨call, List.getElem?_concat_length .., rfl, rfl, Call.right_start .., Nat.le_refl _⟩
  obtain ⟨answer, there, named, imported, right, few⟩ :=
    begun.foldl (quiet.step whole below trivial) whole calm
  refine ⟨answer, ?_, fun resolution answered => ?_, fun enough => ?_⟩
  · rw [run, List.foldl_append]
    exact there
  · simpa only [Call.Right, answered, named, imported] using right
  · have ended : answer.steps root (run root disk before).disk = 0 := by omega
    unfold Call.steps at ended
    split at ended
    · omega
    · omega
    next resolution phase => exact ⟨resolution, phase⟩

def raced : List Action :=
  [.resolve "react" ["/", "w", "src", "app.js"], .advance 0, .advance 0, .advance 0,
    .change "/w/src/package.json" (some (.bytes [123, 125])),
    .count "/w/src/package.json", .advance 0, .advance 0, .drop 0]

theorem resolution_after_race :
    (run ["/", "w"] {} raced).cache.manifests.length = 0 ∧
    (Resolver.resolve {} ["/", "w"] {} "react" ["/", "w", "src", "app.js"]).1.source = .unknown ∧
    (Resolver.resolve (run ["/", "w"] {} raced).disk ["/", "w"] {} "react"
      ["/", "w", "src", "app.js"]).1.source = .manifest ∧
    ∃ steps, ∀ after : List Action,
      (∀ action ∈ after, action.Resolves ∧ action.Inside ["/", "w"]) →
      ∃ call,
        (run ["/", "w"] {} (raced ++ .resolve "react" ["/", "w", "src", "app.js"] :: after)).calls[
          (run ["/", "w"] {} raced).calls.length]? = some call ∧
        (∀ resolution, call.phase = .answered resolution →
          resolution =
            (Resolver.resolve (run ["/", "w"] {} raced).disk ["/", "w"] {} "react"
              ["/", "w", "src", "app.js"]).1) ∧
        (steps ≤ after.count (.advance (run ["/", "w"] {} raced).calls.length) →
          ∃ resolution, call.phase = .answered resolution) := by
  have tree : Disk.Tree {} := by
    intro above below solid there
    simp [Disk.at?, solid, Table.get?] at there
  have file : Below ["/", "w"] ["/", "w", "src", "app.js"] :=
    ⟨["src", "app.js"], by decide, by decide, by decide⟩
  have manifest : Below ["/", "w"] (Path.components "/w/src/package.json") :=
    ⟨["src", "package.json"], by decide, by decide, by decide⟩
  have metadata : isPackageMetadata "/w/src/package.json" = true := by decide
  have inside : ∀ action ∈ raced, action.Inside ["/", "w"] := by
    simp [raced, Action.Inside, file, manifest, metadata]
  exact ⟨by decide, by decide, by decide,
    resolution_after_invalidations ["/", "w"] ⟨rfl, by decide⟩ {} tree raced inside (by decide)
      (by decide) "react" ["/", "w", "src", "app.js"] file⟩

end CodeGraph.Invalidation
