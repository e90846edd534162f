import CodeGraph.Syntax.Parser

/-!
The tree of a text with nothing but blanks in it. Every construct of the grammars starts with a
token, and there is none, so that each of their parsers fails there or gives nothing; what is left
is a root without children.
-/

set_option autoImplicit false

namespace CodeGraph.Syntax

section Trivia

structure Cursor.Blank (cursor : Cursor) : Prop where
  rest : ∀ c ∈ cursor.rest, Text.isBlank c = true
  /-- The bound on the steps is enough to pass them. -/
  room : cursor.rest.length ≤ cursor.size - cursor.position
  comments : cursor.comments = []

variable {cursor : Cursor} {trivia : Trivia}

theorem Cursor.blank_start {text : List Char} (blank : ∀ c ∈ text, Text.isBlank c = true) :
    (Cursor.start text).Blank :=
  ⟨blank, Nat.le_refl _, rfl⟩

theorem Cursor.Blank.skipBlank (blank : cursor.Blank) {c : Char} {rest : List Char}
    (shape : cursor.rest = c :: rest) : (cursor.skipBlank c).Blank where
  rest d inside := blank.rest d (List.mem_of_mem_drop inside)
  room := by
    have room := blank.room
    rw [shape] at room
    simp only [Cursor.skipBlank, shape, List.drop_one, List.tail_cons]
    simp only [List.length_cons] at room
    omega
  comments := blank.comments

structure Passes (holds : Cursor → Prop) (trivia : Trivia) : Prop where
  blank : ∀ cursor, holds cursor → cursor.Blank
  step : ∀ cursor c rest, holds cursor → cursor.rest = c :: rest →
    trivia cursor = some (cursor.skipBlank c) ∧ holds (cursor.skipBlank c)
  stop : ∀ cursor, cursor.rest = [] → trivia cursor = none

theorem Passes.skipTrivia {holds : Cursor → Prop} (passes : Passes holds trivia) {fuel : Nat}
    (holdsAt : holds cursor) (enough : cursor.rest.length < fuel) :
    (skipTrivia trivia fuel cursor).rest = [] ∧ holds (skipTrivia trivia fuel cursor) := by
  induction fuel generalizing cursor with
  | zero => exact absurd enough (Nat.not_lt_zero _)
  | succ fuel ih =>
      unfold Syntax.skipTrivia
      cases shape : cursor.rest with
      | nil =>
          rw [passes.stop cursor shape]
          exact ⟨shape, holdsAt⟩
      | cons c rest =>
          obtain ⟨step, holds'⟩ := passes.step cursor c rest holdsAt shape
          rw [step]
          refine ih holds' ?_
          rw [shape, List.length_cons] at enough
          simp only [Cursor.skipBlank, shape, List.drop_one, List.tail_cons]
          omega

theorem Passes.skipAll {holds : Cursor → Prop} (passes : Passes holds trivia)
    (holdsAt : holds cursor) :
    (cursor.skipAll trivia).rest = [] ∧ holds (cursor.skipAll trivia) :=
  passes.skipTrivia holdsAt (Nat.lt_succ_of_le (passes.blank cursor holdsAt).room)

theorem ne_of_isBlank {c solid : Char} (blank : Text.isBlank c = true)
    (isSolid : Text.isBlank solid = false) : c ≠ solid := by
  rintro rfl
  rw [blank] at isSolid
  cases isSolid

theorem passes_of_isBlank
    (step : ∀ cursor c rest, cursor.rest = c :: rest → Text.isBlank c = true →
      trivia cursor = some (cursor.skipBlank c))
    (stop : ∀ cursor, cursor.rest = [] → trivia cursor = none) : Passes Cursor.Blank trivia where
  blank _ := id
  step cursor c rest blank shape :=
    ⟨step cursor c rest shape (blank.rest c (by simp [shape])), blank.skipBlank shape⟩
  stop := stop

end Trivia

section Parsers

variable {α β : Type} {holds : Cursor → Prop} {parser : Parser α} {value : α}

def Stuck (holds : Cursor → Prop) (parser : Parser α) : Prop :=
  ∀ cursor, holds cursor → parser cursor = none

def Yields (holds : Cursor → Prop) (parser : Parser α) (value : α) : Prop :=
  ∀ cursor, holds cursor → ∃ next, parser cursor = some (value, next) ∧ holds next

theorem Stuck.bind (stuck : Stuck holds parser) (follow : α → Parser β) :
    Stuck holds (parser >>= follow) := by
  intro cursor holdsAt
  change (parser cursor).bind (fun result => follow result.1 result.2) = none
  rw [stuck cursor holdsAt]
  rfl

theorem Yields.bind_stuck (yields : Yields holds parser value) {follow : α → Parser β}
    (stuck : Stuck holds (follow value)) : Stuck holds (parser >>= follow) := by
  intro cursor holdsAt
  obtain ⟨next, done, holds'⟩ := yields cursor holdsAt
  change (parser cursor).bind (fun result => follow result.1 result.2) = none
  rw [done]
  exact stuck next holds'

theorem Yields.bind (yields : Yields holds parser value) {follow : α → Parser β} {other : β}
    (more : Yields holds (follow value) other) : Yields holds (parser >>= follow) other := by
  intro cursor holdsAt
  obtain ⟨next, done, holds'⟩ := yields cursor holdsAt
  obtain ⟨last, finished, kept⟩ := more next holds'
  refine ⟨last, ?_, kept⟩
  change (parser cursor).bind (fun result => follow result.1 result.2) = some (other, last)
  rw [done]
  exact finished

theorem yields_pure (value : α) : Yields holds (pure value) value :=
  fun cursor holdsAt => ⟨cursor, rfl, holdsAt⟩

theorem stuck_failure : Stuck holds (Parser.failure : Parser α) :=
  fun _ _ => rfl

theorem stuck_get {follow : Cursor → Parser β} (stuck : ∀ cursor, Stuck holds (follow cursor)) :
    Stuck holds (get >>= follow) :=
  fun cursor holdsAt => stuck cursor cursor holdsAt

theorem yields_get {follow : Cursor → Parser β} {other : β}
    (yields : ∀ cursor, Yields holds (follow cursor) other) :
    Yields holds (get >>= follow) other :=
  fun cursor holdsAt => yields cursor cursor holdsAt

theorem stuck_guardThat {condition : Bool} (fails : condition = false) :
    Stuck holds (Parser.guardThat condition) := by
  subst fails
  exact stuck_failure

theorem Stuck.orElse {second : Parser α} (first : Stuck holds parser)
    (other : Stuck holds second) : Stuck holds (Parser.orElse parser second) := by
  intro cursor holdsAt
  rw [Parser.orElse, first cursor holdsAt]
  exact other cursor holdsAt

theorem Stuck.firstOf {others : List (Parser α)} (first : Stuck holds parser)
    (rest : Stuck holds (Parser.firstOf others)) :
    Stuck holds (Parser.firstOf (parser :: others)) :=
  first.orElse rest

theorem Stuck.optional (stuck : Stuck holds parser) : Yields holds (Parser.optional parser) none := by
  intro cursor holdsAt
  refine ⟨cursor, ?_, holdsAt⟩
  rw [Parser.optional, stuck cursor holdsAt]

theorem Stuck.ahead (stuck : Stuck holds parser) : Stuck holds (Parser.ahead parser) := by
  intro cursor holdsAt
  rw [Parser.ahead, stuck cursor holdsAt]
  rfl

theorem Yields.loop {step : α → Parser (Option α)} (yields : Yields holds (step value) none) :
    Yields holds (Parser.loop value step) value := by
  intro cursor holdsAt
  obtain ⟨next, done, holds'⟩ := yields cursor holdsAt
  refine ⟨next, ?_, holds'⟩
  change Parser.iterate step cursor.remaining value cursor = some (value, next)
  rw [Cursor.remaining, Parser.iterate]
  change (step value cursor).bind _ = _
  rw [done]
  rfl

theorem Stuck.many (stuck : Stuck holds parser) : Yields holds (Parser.many parser) [] := by
  unfold Parser.many
  refine Yields.bind (Yields.loop ?_) (yields_pure _)
  intro cursor holdsAt
  obtain ⟨next, done, holds'⟩ := stuck.optional cursor holdsAt
  refine ⟨next, ?_, holds'⟩
  change (Parser.optional parser cursor).bind _ = _
  rw [done]
  rfl

theorem stuck_rest {condition : List Char → Bool} {follow : List Char → Parser α}
    (fails : ∀ text : List Char, (∀ c ∈ text, Text.isBlank c = true) → condition text = false) :
    Stuck Cursor.Blank (do
      let text ← Parser.rest
      Parser.guardThat (condition text)
      follow text) := by
  intro cursor blank
  change (Parser.guardThat (condition cursor.rest) >>= fun _ => follow cursor.rest) cursor = none
  exact (stuck_guardThat (fails cursor.rest blank.rest)).bind _ cursor blank

theorem startsWith_of_isBlank {text : List Char} (blank : ∀ c ∈ text, Text.isBlank c = true) :
    Text.startsWith ['#', '!'] text = false := by
  cases text with
  | nil => rfl
  | cons c rest =>
      have solid : '#' ≠ c :=
        (ne_of_isBlank (blank c (List.mem_cons_self ..)) rfl).symm
      simp [Text.startsWith, Text.stripStart?, solid]

def Bare (holds : Cursor → Prop) (parser : Parser Node) : Prop :=
  ∀ cursor, holds cursor → ∃ root next, parser cursor = some (root, next) ∧ root.namedChildren = []

theorem Yields.bind_bare (yields : Yields holds parser value) {follow : α → Parser Node}
    (bare : Bare holds (follow value)) : Bare holds (parser >>= follow) := by
  intro cursor holdsAt
  obtain ⟨next, done, holds'⟩ := yields cursor holdsAt
  obtain ⟨root, last, finished, empty⟩ := bare next holds'
  refine ⟨root, last, ?_, empty⟩
  change (parser cursor).bind (fun result => follow result.1 result.2) = some (root, last)
  rw [done]
  exact finished

theorem bare_get {follow : Cursor → Parser Node} (bare : ∀ cursor, Bare holds (follow cursor)) :
    Bare holds (get >>= follow) :=
  fun cursor holdsAt => bare cursor cursor holdsAt

theorem bare_rest {follow : List Char → Parser Node} (bare : ∀ text, Bare holds (follow text)) :
    Bare holds (Parser.rest >>= follow) :=
  fun cursor holdsAt => bare cursor.rest cursor holdsAt

theorem bare_root {root : Node} (empty : root.children = []) :
    Bare Cursor.Blank (do
      let cursor ← get
      return root.attachAll cursor.comments.reverse) := by
  intro cursor blank
  refine ⟨root, cursor, ?_, by rw [Node.namedChildren, empty, List.filter_nil]⟩
  change some (root.attachAll cursor.comments.reverse, cursor) = _
  rw [blank.comments]
  rfl

end Parsers

end CodeGraph.Syntax
