import CodeGraph.Proofs.Resolver.Lookups

/-!
Which values from before a removal can still come back after it. An invalidation counts before it
drops, so that no load that was running then is stored. A clear does not count, and a load that was
running when it began is stored behind it.
-/

set_option autoImplicit false

namespace CodeGraph.Clearing

variable {state : State} {kind : Kind} {key : List String} {since : Nat}

/-- No look-up that begins from here on gives a value whose loader had started before a time. -/
def State.Holds (state : State) (kind : Kind) (key : List String) (since : Nat) : Prop :=
  ∀ later : List Action, ∀ lookup ∈ (later.foldl State.step state).lookups,
    lookup.request.kind = kind → lookup.request.key = key → state.clock ≤ lookup.begun →
    ∀ value started, lookup.phase = .got value started → since ≤ started

def State.SlotFresh (state : State) (kind : Kind) (key : List String) (since : Nat) : Prop :=
  state.remembers kind key = true → since ≤ state.origin kind key

/-- The loads that may be stored are not older than a time. -/
def State.LoadsFresh (state : State) (kind : Kind) (key : List String) (since : Nat) : Prop :=
  ∀ lookup ∈ state.lookups, lookup.request.kind = kind → lookup.request.key = key →
    ∀ started, lookup.phase = .loading state.cache.generation started → since ≤ started

structure Lookup.Sound (state : State) (lookup : Lookup) : Prop where
  begun : lookup.begun < state.clock
  ready : ∀ generation, lookup.phase = .ready generation → generation ≤ state.cache.generation
  loading : ∀ generation started, lookup.phase = .loading generation started →
    generation ≤ state.cache.generation ∧ lookup.begun ≤ started

/-- Once an invalidation has counted, all loads from before it are out of date. -/
structure Call.Sound (state : State) (call : Call) : Prop where
  since : call.since < state.clock
  counted : ∀ path, call.removal = .invalidate path → isPackageMetadata path = true →
    ∀ kind key, state.LoadsFresh kind key call.since

structure State.Sound (state : State) : Prop where
  lookups : ∀ lookup ∈ state.lookups, lookup.Sound state
  calls : ∀ call ∈ state.calls, call.Sound state

theorem Lookup.Sound.next {lookup : Lookup} (sound : lookup.Sound state) :
    Lookup.Sound state { lookup with phase := lookup.next state } where
  begun := sound.begun
  ready generation ready := by
    have current : lookup.next state = .ready generation := ready
    exact Nat.le_of_eq (next_ready current)
  loading generation started loading := by
    obtain ⟨ready, rfl⟩ := next_loading loading
    exact ⟨sound.ready _ ready, Nat.le_of_lt sound.begun⟩

theorem Lookup.Sound.mono {lookup : Lookup} (sound : lookup.Sound state) {state' : State}
    (clock : state.clock ≤ state'.clock)
    (generation : state.cache.generation ≤ state'.cache.generation) : lookup.Sound state' where
  begun := Nat.lt_of_lt_of_le sound.begun clock
  ready g ready := (sound.ready g ready).trans generation
  loading g started loading :=
    ⟨(sound.loading g started loading).1.trans generation, (sound.loading g started loading).2⟩

theorem Lookup.Sound.step (sound : state.Sound) (action : Action) :
    ∀ lookup ∈ (state.step action).lookups, lookup.Sound (state.step action) := by
  intro lookup member
  have generation := generation_step state action
  rcases mem_lookups_step member with old | ⟨request, rfl⟩ | ⟨earlier, old, rfl⟩
  · exact (sound.lookups lookup old).mono (Nat.le_succ _) generation
  · exact ⟨Nat.lt_succ_self _, by simp, by simp⟩
  · exact (sound.lookups earlier old).next.mono (Nat.le_succ _) generation

theorem State.LoadsFresh.step (fresh : state.LoadsFresh kind key since) (sound : state.Sound)
    (past : since ≤ state.clock) (action : Action) :
    (state.step action).LoadsFresh kind key since := by
  intro lookup member same place started loading
  have generation := generation_step state action
  rcases mem_lookups_step member with old | ⟨request, rfl⟩ | ⟨earlier, old, rfl⟩
  · have earlier := ((sound.lookups lookup old).loading _ _ loading).1
    rw [← Nat.le_antisymm generation earlier] at loading
    exact fresh lookup old same place started loading
  · cases loading
  · rw [(next_loading loading).2]
    exact past

theorem State.SlotFresh.step (fresh : state.SlotFresh kind key since)
    (loads : state.LoadsFresh kind key since) (action : Action) :
    (state.step action).SlotFresh kind key since := by
  intro remembers
  rcases remembers_step remembers with ⟨before, same⟩ | ⟨lookup, member, kinds, place, loading⟩
  · rw [same]
    exact fresh before
  · exact loads lookup member kinds place _ loading

theorem State.Sound.step (sound : state.Sound) (action : Action) : (state.step action).Sound where
  lookups := Lookup.Sound.step sound action
  calls := by
    intro call member
    rcases mem_calls_step member with old | ⟨rfl, since⟩
    · obtain ⟨past, counted⟩ := sound.calls call old
      exact ⟨Nat.lt_succ_of_lt past, fun path named metadata kind key =>
        (counted path named metadata kind key).step sound (Nat.le_of_lt past) action⟩
    · refine ⟨since ▸ Nat.lt_succ_self _, fun path named metadata kind key => ?_⟩
      -- The generations of all loads lie behind the one that has just begun.
      intro lookup there _ _ started loading
      have current := ((sound.lookups lookup there).loading _ _ loading).1
      rw [named] at current
      have counts : (state.step (.remove (.invalidate path))).cache.generation =
          state.cache.generation + 1 := by
        simp [State.step, State.act, Removal.begin, metadata, PackageCache.count]
      omega

theorem sound_run (actions : List Action) : (run actions).Sound :=
  foldl_keeps (fun _ sound action => sound.step action) ⟨by simp, by simp⟩ actions

structure State.Fresh (state : State) (kind : Kind) (key : List String) (since : Nat) : Prop where
  slot : state.SlotFresh kind key since
  loads : state.LoadsFresh kind key since

def State.Kept (state : State) (kind : Kind) (key : List String) (since mark : Nat) : Prop :=
  ∀ lookup ∈ state.lookups, lookup.request.kind = kind → lookup.request.key = key →
    mark ≤ lookup.begun → ∀ value started, lookup.phase = .got value started → since ≤ started

theorem State.Kept.step {mark : Nat} (kept : state.Kept kind key since mark) (sound : state.Sound)
    (fresh : state.SlotFresh kind key since) (past : since ≤ mark) (action : Action) :
    (state.step action).Kept kind key since mark := by
  intro lookup member same place late value started got
  rcases mem_lookups_step member with old | ⟨request, rfl⟩ | ⟨earlier, old, rfl⟩
  · exact kept lookup old same place late value started got
  · cases got
  · rcases next_got got with done | ⟨remembered, rfl⟩ | ⟨generation, loading⟩
    · exact kept earlier old same place late value started done
    · subst same place
      exact fresh remembered
    · exact past.trans (late.trans ((sound.lookups earlier old).loading _ _ loading).2)

theorem State.Fresh.step (fresh : state.Fresh kind key since) (sound : state.Sound)
    (past : since ≤ state.clock) (action : Action) : (state.step action).Fresh kind key since where
  slot := fresh.slot.step fresh.loads action
  loads := fresh.loads.step sound past action

theorem State.Fresh.foldl (fresh : state.Fresh kind key since) (sound : state.Sound)
    (past : since ≤ state.clock) (actions : List Action) :
    (actions.foldl State.step state).Fresh kind key since := by
  have kept := foldl_keeps
    (P := fun later => later.Fresh kind key since ∧ later.Sound ∧ since ≤ later.clock)
    (fun _ ⟨fresh, sound, past⟩ action =>
      ⟨fresh.step sound past action, sound.step action, Nat.le_succ_of_le past⟩)
    ⟨fresh, sound, past⟩ actions
  exact kept.1

theorem State.Fresh.holds (fresh : state.Fresh kind key since) (sound : state.Sound)
    (past : since ≤ state.clock) : state.Holds kind key since := by
  intro later
  have none_yet : state.Kept kind key since state.clock := fun lookup member _ _ late =>
    absurd (sound.lookups lookup member).begun (Nat.not_lt.mpr late)
  have kept := foldl_keeps
    (P := fun later => later.Kept kind key since state.clock ∧ later.Fresh kind key since ∧
      later.Sound ∧ since ≤ later.clock)
    (fun _ ⟨kept, fresh, sound, now⟩ action =>
      ⟨kept.step sound fresh.slot past action, fresh.step sound now action, sound.step action,
        Nat.le_succ_of_le now⟩)
    ⟨none_yet, fresh, sound, past⟩ later
  exact kept.1

theorem State.Holds.slotFresh (holds : state.Holds kind key since) :
    state.SlotFresh kind key since := by
  intro remembers
  let request : Request := ⟨kind, key, none⟩
  have found : (state.slot? request).isSome := (isSome_slot? state request).trans remembers
  obtain ⟨slot, found⟩ := Option.isSome_iff_exists.mp found
  let asked : Lookup := ⟨request, state.clock, .asked⟩
  have found_later : (state.step (.ask request)).slot? asked.request = some slot := found
  have next : asked.next (state.step (.ask request)) = .got slot.2 (state.origin kind key) := by
    simp only [Lookup.next, found_later, asked]
    rfl
  have there : (state.step (.ask request)).lookups[state.lookups.length]? = some asked :=
    List.getElem?_concat_length ..
  have member := mem_lookups_advance there
  exact holds [.ask request, .advance state.lookups.length] _ member rfl rfl (Nat.le_refl _) _ _
    next

theorem State.Holds.foldl (holds : state.Holds kind key since) (actions : List Action) :
    (actions.foldl State.step state).Holds kind key since := by
  intro later lookup member same place late
  rw [← List.foldl_append] at member
  exact holds (actions ++ later) lookup member same place
    ((clock_le_foldl state actions).trans late)

theorem State.Holds.loadsFresh (holds : state.Holds kind key since) :
    state.LoadsFresh kind key since := by
  rintro lookup member rfl rfl started loading
  obtain ⟨index, there⟩ := List.getElem?_of_mem member
  let cleared : State := { state with cache := state.cache.clear, clock := state.clock + 2 }
  have forgotten : cleared.remembers lookup.request.kind lookup.request.key = false := by
    unfold State.remembers
    cases lookup.request.kind <;> rfl
  have stores : lookup.stores? cleared = some started := stores?_eq_some.mpr ⟨loading, forgotten⟩
  have still_there : cleared.lookups[index]? = some lookup := there
  obtain ⟨remembers, origin⟩ := stored_by_advance still_there stores
  have shown := ((holds.foldl [.remove .clear, .finish state.calls.length]).foldl
    [.advance index]).slotFresh
  rw [foldl_clear] at shown
  exact origin ▸ shown remembers

theorem holds_iff_fresh (sound : state.Sound) (past : since ≤ state.clock) :
    state.Holds kind key since ↔ state.Fresh kind key since :=
  ⟨fun holds => ⟨holds.slotFresh, holds.loadsFresh⟩, fun fresh => fresh.holds sound past⟩

theorem State.LoadsFresh.foldl (fresh : state.LoadsFresh kind key since) (sound : state.Sound)
    (past : since ≤ state.clock) (actions : List Action) :
    (actions.foldl State.step state).LoadsFresh kind key since := by
  have kept := foldl_keeps
    (P := fun later => later.LoadsFresh kind key since ∧ later.Sound ∧ since ≤ later.clock)
    (fun _ ⟨fresh, sound, past⟩ action =>
      ⟨fresh.step sound past action, sound.step action, Nat.le_succ_of_le past⟩)
    ⟨fresh, sound, past⟩ actions
  exact kept.1

theorem metadata_of_drops {path : String} (drops : kind.drops path key = true) :
    isPackageMetadata path = true := by
  unfold isPackageMetadata
  cases kind with
  | lockfile =>
      simp only [Kind.drops, PackageCache.dropsLockfile, Bool.and_eq_true] at drops
      obtain ⟨name, named, known⟩ := (Option.any_eq_true _ _).mp drops.1
      rw [named]
      exact Bool.or_eq_true_iff.mpr (.inr known)
  | manifest =>
      simp only [Kind.drops, PackageCache.dropsManifest, Bool.and_eq_true, beq_iff_eq] at drops
      simp [drops.1]

theorem remembers_finish {index : Nat} {call : Call} (there : state.calls[index]? = some call)
    (remembers : (state.step (.finish index)).remembers kind key = true) :
    ∀ path, call.removal = .invalidate path → kind.drops path key = false := by
  rw [step_finish there] at remembers
  exact (has_finish remembers).2

theorem fresh_of_drops (sound : state.Sound) {index : Nat} {call : Call}
    (there : state.calls[index]? = some call) {path : String}
    (invalidates : call.removal = .invalidate path) (drops : kind.drops path key = true) :
    (state.step (.finish index)).Fresh kind key call.since where
  slot remembers := by
    rw [remembers_finish there remembers path invalidates] at drops
    cases drops
  loads := by
    obtain ⟨past, counted⟩ := sound.calls call (List.mem_of_getElem? there)
    exact (counted path invalidates (metadata_of_drops drops) kind key).step sound
      (Nat.le_of_lt past) _

theorem fresh_of_idle (sound : state.Sound)
    (idle : ∀ lookup ∈ state.lookups, lookup.request.kind = kind → lookup.request.key = key →
      ∀ started, lookup.phase ≠ .loading state.cache.generation started)
    (during : List Action) {index : Nat}
    (there : (during.foldl State.step (state.step (.remove .clear))).calls[index]? =
      some ⟨.clear, state.clock⟩) :
    ((during.foldl State.step (state.step (.remove .clear))).step (.finish index)).Fresh kind key
      state.clock := by
  have begun := sound.step (.remove .clear)
  have loads : (state.step (.remove .clear)).LoadsFresh kind key state.clock :=
    fun lookup member same place started loading =>
      absurd loading (idle lookup member same place started)
  cases kind with
  | lockfile =>
      have slot : (state.step (.remove .clear)).SlotFresh .lockfile key state.clock :=
        fun remembers => nomatch remembers
      have fresh : (state.step (.remove .clear)).Fresh .lockfile key state.clock := ⟨slot, loads⟩
      have left := fresh.foldl begun (Nat.le_succ _) (during ++ [.finish index])
      rwa [List.foldl_append] at left
  | manifest =>
      have left := loads.foldl begun (Nat.le_succ _) (during ++ [.finish index])
      rw [List.foldl_append] at left
      refine ⟨fun remembers => ?_, left⟩
      rw [step_finish there] at remembers
      cases remembers

def place : List String → List String
  | "." :: rest => rest
  | directory => directory

/-- The keys that a file may have contributed to, however its directory is written. -/
def Kind.covers : Kind → String → List String → Bool
  | lockfile, path, key =>
      (Path.fileName? path).any Lockfile.fileNames.contains &&
        decide (place key = place (Path.components path).dropLast)
  | manifest, path, key =>
      Path.fileName? path == some Manifest.fileName &&
        (Path.below? (place (Path.components path).dropLast) (place key)).isSome

theorem covers_eq_drops {path : String}
    (plain : place (Path.components path).dropLast = (Path.components path).dropLast)
    (whole : place key = key) : kind.covers path key = kind.drops path key := by
  cases kind <;>
    simp [Kind.covers, Kind.drops, PackageCache.dropsLockfile, PackageCache.dropsManifest, plain,
      whole]

/-- Nothing from before a removal comes back after it exactly if nothing from before it is left in
the slot and no load from before it may still be stored. An invalidation sees to that for all keys
that it drops, which are those that it covers, dots in front apart. A clear sees to that only for
keys that no load was running for when it began. -/
theorem removal_holds_iff (before : List Action) (index : Nat) (call : Call)
    (there : (run before).calls[index]? = some call) (kind : Kind) (key : List String) :
    let after := run (before ++ [.finish index])
    (after.Holds kind key call.since ↔ after.Fresh kind key call.since) ∧
    (∀ path, call.removal = .invalidate path → kind.drops path key = true →
      after.Holds kind key call.since) ∧
    (∀ path, call.removal = .invalidate path → kind.covers path key = true →
      place (Path.components path).dropLast = (Path.components path).dropLast →
      place key = key → after.Holds kind key call.since) ∧
    (∀ earlier during, before = earlier ++ .remove .clear :: during →
      call = ⟨.clear, (run earlier).clock⟩ →
      (∀ lookup ∈ (run earlier).lookups, lookup.request.kind = kind → lookup.request.key = key →
        ∀ started, lookup.phase ≠ .loading (run earlier).cache.generation started) →
      after.Holds kind key call.since) := by
  intro after
  have sound := sound_run before
  have past := (sound.calls call (List.mem_of_getElem? there)).since
  have last : after = (run before).step (.finish index) := List.foldl_append ..
  -- Every later look-up shows what is in the slot by then, or what a load puts there.
  have exact_iff : after.Holds kind key call.since ↔ after.Fresh kind key call.since := by
    rw [last]
    exact holds_iff_fresh (sound.step _) (Nat.le_of_lt (Nat.lt_succ_of_lt past))
  have dropped : ∀ path, call.removal = .invalidate path → kind.drops path key = true →
      after.Holds kind key call.since := by
    intro path invalidates drops
    rw [exact_iff, last]
    exact fresh_of_drops sound there invalidates drops
  refine ⟨exact_iff, dropped, fun path invalidates covers plain whole => ?_, ?_⟩
  · rw [covers_eq_drops plain whole] at covers
    exact dropped path invalidates covers
  · rintro earlier during rfl rfl idle
    have begun : run (earlier ++ .remove .clear :: during) =
        during.foldl State.step ((run earlier).step (.remove .clear)) := List.foldl_append ..
    rw [begun] at there last
    rw [exact_iff, last]
    exact fresh_of_idle (sound_run earlier) idle during there

def raced : List Action :=
  [.ask ⟨.lockfile, ["/", "w"], none⟩, .advance 0, .advance 0, .advance 0, .remove .clear]

def dotted : List Action :=
  .ask ⟨.lockfile, ["."], none⟩ :: (List.replicate 4 (.advance 0) ++
    [.remove (.invalidate "yarn.lock")])

theorem running_load_outlives_clear :
    ¬(run (raced ++ [.finish 0])).Holds .lockfile ["/", "w"] 4 ∧
    Kind.lockfile.covers "yarn.lock" ["."] = true ∧
    ¬(run (dotted ++ [.finish 0])).Holds .lockfile ["."] 5 := by
  refine ⟨fun holds => ?_, by decide, fun holds => ?_⟩
  · have fresh := (removal_holds_iff raced 0 ⟨.clear, 4⟩ rfl .lockfile ["/", "w"]).1.mp holds
    have late := fresh.loads _ (List.mem_cons_self ..) rfl rfl 3 rfl
    exact absurd late (by decide)
  · have fresh := (removal_holds_iff dotted 0 ⟨.invalidate "yarn.lock", 5⟩ rfl .lockfile
      ["."]).1.mp holds
    have late := fresh.slot (by decide)
    exact absurd late (by decide)

end CodeGraph.Clearing
