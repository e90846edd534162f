import CodeGraph.Proofs.Resolver.Slots

set_option autoImplicit false

namespace CodeGraph.Clearing

inductive Kind where
  | lockfile
  | manifest
deriving DecidableEq, Repr

namespace Kind

abbrev Value : Kind → Type
  | lockfile => Lockfile
  | manifest => Manifest

def shelf : (kind : Kind) → PackageCache.Shelf kind.Value
  | lockfile => PackageCache.lockfileShelf
  | manifest => PackageCache.manifestShelf

def drops : Kind → String → List String → Bool
  | lockfile => PackageCache.dropsLockfile
  | manifest => PackageCache.dropsManifest

end Kind

/-- What the loader is going to give may be anything. -/
structure Request where
  kind : Kind
  key : List String
  gives : Option kind.Value

inductive Phase (α : Type) where
  | asked
  | missed
  | ready (generation : Nat)
  | loading (generation started : Nat)
  /-- The value, and when the loader that gave it had started. -/
  | got (value : α) (started : Nat)

structure Lookup where
  request : Request
  begun : Nat
  phase : Phase (Option request.kind.Value)

inductive Removal where
  | clear
  | invalidate (path : String)
deriving DecidableEq, Repr

namespace Removal

def begin : Removal → PackageCache → PackageCache
  | clear, cache => { cache with lockfiles := [] }
  | invalidate path, cache => if isPackageMetadata path then cache.count else cache

def finish : Removal → PackageCache → PackageCache
  | clear, cache => { cache with manifests := [] }
  | invalidate path, cache => cache.forget path

end Removal

structure Call where
  removal : Removal
  since : Nat
deriving DecidableEq, Repr

structure State where
  cache : PackageCache := {}
  clock : Nat := 0
  /-- When the loader of a remembered value had started. -/
  origin : Kind → List String → Nat := fun _ _ => 0
  lookups : List Lookup := []
  calls : List Call := []

inductive Action where
  | ask (request : Request)
  | advance (index : Nat)
  | remove (removal : Removal)
  | finish (index : Nat)

namespace State

def slot? (state : State) (request : Request) : Option (List String × Option request.kind.Value) :=
  Table.get? Prod.fst (request.kind.shelf.get state.cache) request.key

def remembers (state : State) (kind : Kind) (key : List String) : Bool :=
  PackageCache.has kind.shelf state.cache key

end State

def Lookup.next (state : State) (lookup : Lookup) : Phase (Option lookup.request.kind.Value) :=
  match lookup.phase with
  | .asked =>
      match state.slot? lookup.request with
      | some slot => .got slot.2 (state.origin lookup.request.kind lookup.request.key)
      | none => .missed
  | .missed => .ready state.cache.generation
  | .ready generation => .loading generation state.clock
  | .loading generation started =>
      if state.cache.generation ≠ generation then .got lookup.request.gives started
      else
        match state.slot? lookup.request with
        | some slot => .got slot.2 (state.origin lookup.request.kind lookup.request.key)
        | none => .got lookup.request.gives started
  | .got value started => .got value started

def Lookup.stores? (state : State) (lookup : Lookup) : Option Nat :=
  match lookup.phase with
  | .loading generation started =>
      -- The slots are locked between the comparison and the store, so that an invalidation that
      -- counts in between drops the value again, as one that counts behind the store does.
      if state.cache.generation ≠ generation || (state.slot? lookup.request).isSome then none
      else some started
  | _ => none

namespace State

def store (state : State) (request : Request) (started : Nat) : State :=
  { state with
    cache := request.kind.shelf.set state.cache
      (request.kind.shelf.get state.cache ++ [(request.key, request.gives)])
    origin := fun kind key =>
      if kind = request.kind ∧ key = request.key then started else state.origin kind key }

def advance (state : State) (index : Nat) (lookup : Lookup) : State :=
  let stored := match lookup.stores? state with
    | some started => state.store lookup.request started
    | none => state
  { stored with
    lookups := state.lookups.set index { lookup with phase := lookup.next state } }

def act (state : State) : Action → State
  | .ask request => { state with lookups := state.lookups ++ [⟨request, state.clock, .asked⟩] }
  | .advance index =>
      match state.lookups[index]? with
      | some lookup => state.advance index lookup
      | none => state
  | .remove removal =>
      { state with
        cache := removal.begin state.cache
        calls := state.calls ++ [⟨removal, state.clock⟩] }
  | .finish index =>
      match state.calls[index]? with
      | some call =>
          { state with
            cache := call.removal.finish state.cache
            calls := state.calls.eraseIdx index }
      | none => state

def step (state : State) (action : Action) : State :=
  { state.act action with clock := state.clock + 1 }

end State

def run (actions : List Action) : State :=
  actions.foldl State.step {}

variable {state : State} {kind : Kind} {key : List String}

theorem step_advance {index : Nat} {lookup : Lookup}
    (there : state.lookups[index]? = some lookup) :
    state.step (.advance index) =
      { state.advance index lookup with clock := state.clock + 1 } := by
  rw [State.step, State.act, there]

theorem step_finish {index : Nat} {call : Call} (there : state.calls[index]? = some call) :
    state.step (.finish index) =
      { state with
        cache := call.removal.finish state.cache
        clock := state.clock + 1
        calls := state.calls.eraseIdx index } := by
  rw [State.step, State.act, there]

theorem isSome_slot? (state : State) (request : Request) :
    (state.slot? request).isSome = state.remembers request.kind request.key := by
  rw [Bool.eq_iff_iff, State.remembers, PackageCache.has, Table.has_iff, State.slot?, Table.get?,
    List.find?_isSome]
  simp

theorem next_loading {lookup : Lookup} {generation started : Nat}
    (loading : lookup.next state = .loading generation started) :
    lookup.phase = .ready generation ∧ started = state.clock := by
  unfold Lookup.next at loading
  split at loading
  · split at loading <;> cases loading
  · cases loading
  next ready =>
    cases loading
    exact ⟨ready, rfl⟩
  · split at loading
    · cases loading
    · split at loading <;> cases loading
  · cases loading

theorem next_ready {lookup : Lookup} {generation : Nat}
    (ready : lookup.next state = .ready generation) : generation = state.cache.generation := by
  unfold Lookup.next at ready
  split at ready
  · split at ready <;> cases ready
  · cases ready
    rfl
  · cases ready
  · split at ready
    · cases ready
    · split at ready <;> cases ready
  · cases ready

theorem next_got {lookup : Lookup} {value : Option lookup.request.kind.Value} {started : Nat}
    (got : lookup.next state = .got value started) :
    lookup.phase = .got value started ∨
    (state.remembers lookup.request.kind lookup.request.key = true ∧
      started = state.origin lookup.request.kind lookup.request.key) ∨
    ∃ generation, lookup.phase = .loading generation started := by
  have remembered : ∀ slot, state.slot? lookup.request = some slot →
      state.remembers lookup.request.kind lookup.request.key = true := by
    intro slot found
    rw [← isSome_slot?, found]
    rfl
  unfold Lookup.next at got
  split at got
  · split at got
    next slot found =>
      cases got
      exact .inr (.inl ⟨remembered slot found, rfl⟩)
    next => cases got
  · cases got
  · cases got
  -- The load is over: its value is stored, unless somebody else stored one meanwhile.
  next generation _ loading =>
    split at got
    · cases got
      exact .inr (.inr ⟨generation, loading⟩)
    · split at got
      next slot found =>
        cases got
        exact .inr (.inl ⟨remembered slot found, rfl⟩)
      next =>
        cases got
        exact .inr (.inr ⟨generation, loading⟩)
  next done =>
    cases got
    exact .inl done

/-- Only a load that no invalidation has overtaken is stored. -/
theorem stores?_eq_some {lookup : Lookup} {started : Nat} :
    lookup.stores? state = some started ↔
      lookup.phase = .loading state.cache.generation started ∧
        state.remembers lookup.request.kind lookup.request.key = false := by
  unfold Lookup.stores?
  rw [isSome_slot?]
  split
  next generation _ loading =>
    rw [loading]
    by_cases current : state.cache.generation = generation
    · subst current
      cases state.remembers lookup.request.kind lookup.request.key <;> simp
    · simp [current, Ne.symm current]
  next other =>
    refine iff_of_false (by simp) ?_
    rintro ⟨loading, -⟩
    exact other _ _ loading

theorem remembers_store (request : Request) (started : Nat) :
    (state.store request started).remembers kind key =
      (state.remembers kind key || decide (kind = request.kind ∧ key = request.key)) := by
  unfold State.remembers State.store PackageCache.has Table.has
  obtain ⟨other, place, gives⟩ := request
  cases kind <;> cases other <;>
    simp [Kind.shelf, PackageCache.lockfileShelf, PackageCache.manifestShelf, eq_comm]

theorem generation_store (request : Request) (started : Nat) :
    (state.store request started).cache.generation = state.cache.generation := by
  obtain ⟨other, place, gives⟩ := request
  cases other <;> rfl

theorem advance_cases (state : State) (index : Nat) (lookup : Lookup) :
    (∃ started, lookup.stores? state = some started ∧
      state.advance index lookup =
        { state.store lookup.request started with
          lookups := state.lookups.set index { lookup with phase := lookup.next state } }) ∨
    (lookup.stores? state = none ∧
      state.advance index lookup =
        { state with
          lookups := state.lookups.set index { lookup with phase := lookup.next state } }) := by
  unfold State.advance
  cases lookup.stores? state with
  | some started => exact .inl ⟨started, rfl, rfl⟩
  | none => exact .inr ⟨rfl, rfl⟩

theorem generation_advance (state : State) (index : Nat) (lookup : Lookup) :
    (state.advance index lookup).cache.generation = state.cache.generation := by
  rcases advance_cases state index lookup with ⟨started, -, after⟩ | ⟨-, after⟩
  · rw [after]
    exact generation_store lookup.request started
  · rw [after]

theorem remembers_advance {index : Nat} {lookup : Lookup}
    (remembers : (state.advance index lookup).remembers kind key = true) :
    (state.remembers kind key = true ∧
      (state.advance index lookup).origin kind key = state.origin kind key) ∨
    (lookup.request.kind = kind ∧ lookup.request.key = key ∧
      lookup.phase =
        .loading state.cache.generation ((state.advance index lookup).origin kind key)) := by
  rcases advance_cases state index lookup with ⟨started, stores, after⟩ | ⟨-, after⟩
  · have loading := (stores?_eq_some.mp stores).1
    rw [after] at remembers ⊢
    by_cases same : kind = lookup.request.kind ∧ key = lookup.request.key
    · refine .inr ⟨same.1.symm, same.2.symm, ?_⟩
      simpa [State.store, same] using loading
    · refine .inl ⟨?_, by simp [State.store, same]⟩
      change (state.store lookup.request started).remembers kind key = true at remembers
      simpa [remembers_store, same] using remembers
  · rw [after] at remembers ⊢
    exact .inl ⟨remembers, rfl⟩

theorem generation_begin (removal : Removal) (cache : PackageCache) :
    cache.generation ≤ (removal.begin cache).generation := by
  unfold Removal.begin
  split
  · exact Nat.le_refl _
  · split
    · exact Nat.le_succ _
    · exact Nat.le_refl _

theorem generation_finish (removal : Removal) (cache : PackageCache) :
    (removal.finish cache).generation = cache.generation := by
  cases removal <;> rfl

theorem has_begin {removal : Removal} {cache : PackageCache}
    (has : PackageCache.has kind.shelf (removal.begin cache) key = true) :
    PackageCache.has kind.shelf cache key = true := by
  unfold Removal.begin at has
  split at has
  · cases kind with
    | lockfile => cases has
    | manifest => exact has
  · split at has
    · cases kind <;> exact has
    · exact has

theorem has_finish {removal : Removal} {cache : PackageCache}
    (has : PackageCache.has kind.shelf (removal.finish cache) key = true) :
    PackageCache.has kind.shelf cache key = true ∧
      ∀ path, removal = .invalidate path → kind.drops path key = false := by
  cases removal with
  | clear =>
      refine ⟨?_, fun _ other => nomatch other⟩
      cases kind with
      | lockfile => exact has
      | manifest => cases has
  | invalidate path =>
      have kept : PackageCache.has kind.shelf cache key = true ∧ kind.drops path key = false := by
        unfold PackageCache.has at has ⊢
        rw [Table.has_iff] at has ⊢
        obtain ⟨slot, member, rfl⟩ := has
        cases kind <;>
          simp only [Kind.shelf, Removal.finish, PackageCache.forget, Kind.drops,
            PackageCache.lockfileShelf, PackageCache.manifestShelf, List.mem_filter,
            Bool.not_eq_true'] at member ⊢ <;>
          exact ⟨⟨slot, member.1, rfl⟩, member.2⟩
      refine ⟨kept.1, ?_⟩
      rintro _ ⟨⟩
      exact kept.2

theorem generation_step (state : State) (action : Action) :
    state.cache.generation ≤ (state.step action).cache.generation := by
  change state.cache.generation ≤ (state.act action).cache.generation
  unfold State.act
  split
  · exact Nat.le_refl _
  · split
    next index _ lookup _ => exact Nat.le_of_eq (generation_advance state index lookup).symm
    next => exact Nat.le_refl _
  next removal => exact generation_begin removal state.cache
  · split
    next call _ => exact Nat.le_of_eq (generation_finish call.removal state.cache).symm
    next => exact Nat.le_refl _

theorem mem_lookups_step {action : Action} {lookup : Lookup}
    (member : lookup ∈ (state.step action).lookups) :
    lookup ∈ state.lookups ∨
    (∃ request, lookup = ⟨request, state.clock, .asked⟩) ∨
    ∃ earlier ∈ state.lookups, lookup = { earlier with phase := earlier.next state } := by
  change lookup ∈ (state.act action).lookups at member
  unfold State.act at member
  split at member
  next request =>
    rcases List.mem_append.mp member with old | new
    · exact .inl old
    · exact .inr (.inl ⟨request, List.mem_singleton.mp new⟩)
  · split at member
    next earlier found =>
      rcases List.mem_or_eq_of_mem_set member with old | rfl
      · exact .inl old
      · exact .inr (.inr ⟨earlier, List.mem_of_getElem? found, rfl⟩)
    next => exact .inl member
  · exact .inl member
  · split at member <;> exact .inl member

theorem mem_calls_step {action : Action} {call : Call} (member : call ∈ (state.step action).calls) :
    call ∈ state.calls ∨ action = .remove call.removal ∧ call.since = state.clock := by
  change call ∈ (state.act action).calls at member
  unfold State.act at member
  split at member
  · exact .inl member
  · split at member
    next index _ lookup _ =>
      rcases advance_cases state index lookup with ⟨_, -, after⟩ | ⟨-, after⟩
      · rw [after] at member
        exact .inl member
      · rw [after] at member
        exact .inl member
    next => exact .inl member
  next removal =>
    rcases List.mem_append.mp member with old | new
    · exact .inl old
    · rw [List.mem_singleton.mp new]
      exact .inr ⟨rfl, rfl⟩
  · split at member
    next => exact .inl (List.mem_of_mem_eraseIdx member)
    next => exact .inl member

theorem remembers_step {action : Action}
    (remembers : (state.step action).remembers kind key = true) :
    (state.remembers kind key = true ∧
      (state.step action).origin kind key = state.origin kind key) ∨
    ∃ lookup ∈ state.lookups, lookup.request.kind = kind ∧ lookup.request.key = key ∧
      lookup.phase =
        .loading state.cache.generation ((state.step action).origin kind key) := by
  change (state.act action).remembers kind key = true at remembers
  change (_ ∧ (state.act action).origin kind key = _) ∨ ∃ lookup ∈ state.lookups, _ ∧ _ ∧
    lookup.phase = .loading _ ((state.act action).origin kind key)
  unfold State.act at remembers ⊢
  split at remembers
  · exact .inl ⟨remembers, rfl⟩
  · split at remembers
    next lookup found =>
      rcases remembers_advance remembers with kept | stored
      · exact .inl kept
      · exact .inr ⟨lookup, List.mem_of_getElem? found, stored⟩
    next => exact .inl ⟨remembers, rfl⟩
  · exact .inl ⟨has_begin remembers, rfl⟩
  · split at remembers
    · exact .inl ⟨(has_finish remembers).1, rfl⟩
    · exact .inl ⟨remembers, rfl⟩

theorem mem_lookups_advance {index : Nat} {lookup : Lookup}
    (there : state.lookups[index]? = some lookup) :
    { lookup with phase := lookup.next state } ∈ (state.step (.advance index)).lookups := by
  have inside := (List.getElem?_eq_some_iff.mp there).1
  refine List.mem_of_getElem? (i := index) ?_
  rw [step_advance there]
  exact List.getElem?_set_self inside

theorem stored_by_advance {index : Nat} {lookup : Lookup} {started : Nat}
    (there : state.lookups[index]? = some lookup) (stores : lookup.stores? state = some started) :
    (state.step (.advance index)).remembers lookup.request.kind lookup.request.key = true ∧
      (state.step (.advance index)).origin lookup.request.kind lookup.request.key = started := by
  have stored : (state.store lookup.request started).remembers lookup.request.kind
      lookup.request.key = true := by
    simp [remembers_store]
  simp only [step_advance there, State.advance, stores]
  exact ⟨stored, by simp [State.store]⟩

theorem foldl_keeps {P : State → Prop}
    (step : ∀ state, P state → ∀ action, P (state.step action)) (begun : P state)
    (actions : List Action) : P (actions.foldl State.step state) := by
  induction actions generalizing state with
  | nil => exact begun
  | cons action rest ih => exact ih (step state begun action)

theorem clock_le_foldl (state : State) (actions : List Action) :
    state.clock ≤ (actions.foldl State.step state).clock :=
  foldl_keeps (P := fun later => state.clock ≤ later.clock)
    (fun _ later _ => Nat.le_succ_of_le later) (Nat.le_refl _) actions

theorem foldl_lookup (state : State) (request : Request) :
    let index := state.lookups.length
    let after := (.ask request :: List.replicate 4 (.advance index)).foldl State.step state
    let given := PackageCache.getOrLoad request.kind.shelf state.cache request.key
      (fun cache => (request.gives, cache))
    after.cache = given.2 ∧
      ∃ started, after.lookups[index]? = some ⟨request, state.clock, .got given.1 started⟩ := by
  cases found : Table.get? Prod.fst (request.kind.shelf.get state.cache) request.key with
  | some slot =>
      simp [State.step, State.act, State.advance, Lookup.next, Lookup.stores?, State.slot?,
        PackageCache.getOrLoad, found, List.replicate]
  | none =>
      simp [State.step, State.act, State.advance, Lookup.next, Lookup.stores?, State.slot?,
        PackageCache.getOrLoad, found, List.replicate, State.store]

theorem finish_begin_clear (cache : PackageCache) :
    Removal.clear.finish (Removal.clear.begin cache) = cache.clear := rfl

theorem finish_begin_invalidate (cache : PackageCache) (path : String) :
    (Removal.invalidate path).finish ((Removal.invalidate path).begin cache) =
      cache.invalidate path := by
  by_cases metadata : isPackageMetadata path = true
  · rw [cache.invalidate_eq metadata, Removal.begin, if_pos metadata]
    rfl
  · rw [Removal.begin, if_neg metadata]
    unfold isPackageMetadata at metadata
    split at metadata
    next name named =>
      simp only [Bool.or_eq_true, not_or, beq_iff_eq, List.contains_iff_mem] at metadata
      simp [Removal.finish, PackageCache.forget, PackageCache.invalidate, PackageCache.invalidate?,
        PackageCache.dropsLockfile, PackageCache.dropsManifest, named, metadata,
        beq_false_of_ne metadata.1]
    next unnamed =>
      simp [Removal.finish, PackageCache.forget, PackageCache.invalidate, PackageCache.invalidate?,
        PackageCache.dropsLockfile, PackageCache.dropsManifest, unnamed]

theorem foldl_clear (state : State) :
    [.remove .clear, .finish state.calls.length].foldl State.step state =
      { state with cache := state.cache.clear, clock := state.clock + 2 } := by
  simp [State.step, State.act, List.eraseIdx_append_of_length_le, finish_begin_clear]

end CodeGraph.Clearing
