import CodeGraph.Proofs.Syntax.Blank
import CodeGraph.Syntax.Python.Statement

set_option autoImplicit false

namespace CodeGraph.Syntax

namespace Python

structure Spent (cursor : Cursor) : Prop where
  blank : cursor.Blank
  rest : cursor.rest = []

theorem trivia_of_isBlank {cursor : Cursor} {c : Char} {rest : List Char}
    (shape : cursor.rest = c :: rest) (blank : Text.isBlank c = true) :
    trivia cursor = if c = '\n' ∧ cursor.nesting = 0 then none else some (cursor.skipBlank c) := by
  have comment : c ≠ '#' := ne_of_isBlank blank rfl
  have joined : c ≠ '\\' := ne_of_isBlank blank rfl
  by_cases line : c = '\n'
  · simp [trivia, shape, line]
  · simp [trivia, *]

/-- Line breaks are blanks inside brackets. -/
theorem passes_trivia :
    Passes (fun cursor => cursor.Blank ∧ cursor.nesting ≠ 0) trivia where
  blank _ := And.left
  step cursor c rest holds shape := by
    have isBlank := holds.1.rest c (by simp [shape])
    rw [trivia_of_isBlank shape isBlank, if_neg fun both => holds.2 both.2]
    exact ⟨rfl, holds.1.skipBlank shape, holds.2⟩
  stop cursor shape := by simp [trivia, shape]

theorem blank_skipTrivia (fuel : Nat) {cursor : Cursor} (blank : cursor.Blank) :
    (skipTrivia trivia fuel cursor).Blank := by
  induction fuel generalizing cursor with
  | zero => exact blank
  | succ fuel ih =>
      unfold skipTrivia
      cases shape : cursor.rest with
      | nil =>
          rw [Passes.stop passes_trivia cursor shape]
          exact blank
      | cons c rest =>
          rw [trivia_of_isBlank shape (blank.rest c (by simp [shape]))]
          by_cases line : c = '\n' ∧ cursor.nesting = 0
          · rwa [if_pos line]
          · rw [if_neg line]
            exact ih (blank.skipBlank shape)

theorem passes_spent : Passes Spent trivia where
  blank _ spent := spent.blank
  step cursor c rest spent shape := by
    rw [spent.rest] at shape
    cases shape
  stop := Passes.stop passes_trivia

theorem yields_upcoming : Yields Spent upcoming [] := by
  intro cursor spent
  obtain ⟨rest, kept⟩ := Passes.skipAll passes_spent spent
  refine ⟨_, ?_, kept⟩
  change some ((cursor.skipAll trivia).rest, cursor.skipAll trivia) = _
  rw [rest]

theorem yields_upcomingWord : Yields Spent upcomingWord "" :=
  Yields.bind yields_upcoming (yields_pure _)

theorem yields_atLineEnd : Yields Spent atLineEnd true :=
  Yields.bind yields_upcoming (yields_pure true)

theorem stuck_statementLine (rules : Rules) : Stuck Spent (statementLine rules) := by
  refine Stuck.bind ?_ _
  unfold simpleStatements
  refine Yields.bind_stuck (Yields.loop ?_)
    (Yields.bind_stuck yields_atLineEnd ((stuck_guardThat rfl).bind _))
  refine Yields.bind yields_atLineEnd ?_
  rw [if_pos (by simp)]
  exact yields_pure none

theorem stuck_statement (rules : Rules) (indent : Nat) : Stuck Spent (statement rules indent) :=
  Yields.bind_stuck yields_upcoming
    (Yields.bind_stuck yields_upcomingWord (stuck_statementLine rules))

/-- Looking ahead stops at the first character that is no plain blank, even if all are blanks. -/
theorem stuck_ahead {α : Type} {follow : Ahead → Parser α}
    (stuck : ∀ following, Stuck Cursor.Blank (follow following)) :
    Stuck Cursor.Blank (ahead >>= follow) :=
  fun _ blank => stuck _ _ (blank_skipTrivia _ blank)

theorem spent_enterLine {cursor : Cursor} (blank : cursor.Blank) :
    ∃ next, enterLine cursor = some ((), next) ∧ Spent next := by
  let inside : Cursor := { cursor with nesting := cursor.nesting + 1 }
  have within : inside.Blank := ⟨blank.rest, blank.room, blank.comments⟩
  obtain ⟨rest, kept, -⟩ := Passes.skipAll passes_trivia ⟨within, Nat.succ_ne_zero _⟩
  exact ⟨{ inside.skipAll trivia with nesting := cursor.nesting }, rfl,
    ⟨kept.rest, kept.room, kept.comments⟩, rest⟩

theorem yields_enterLine : Yields Cursor.Blank enterLine () := by
  intro cursor blank
  obtain ⟨next, entered, spent⟩ := spent_enterLine blank
  exact ⟨next, entered, spent.blank⟩

theorem stuck_enterLine {α : Type} {parser : Parser α} (stuck : Stuck Spent parser) :
    Stuck Cursor.Blank (enterLine >>= fun _ => parser) := by
  intro cursor blank
  obtain ⟨next, entered, spent⟩ := spent_enterLine blank
  change (enterLine cursor).bind (fun result => parser result.2) = none
  rw [entered]
  exact stuck next spent

theorem bare_module : Bare Cursor.Blank module := by
  refine bare_get fun cursor => ?_
  refine (Stuck.many (stuck_ahead fun following => ?_)).bind_bare
    (Yields.bind_bare yields_enterLine (bare_root rfl))
  cases following.atEnd with
  | true => exact Stuck.bind stuck_failure _
  | false =>
      refine (yields_pure ()).bind_stuck (stuck_enterLine ?_)
      cases 16 * (cursor.size + 1) with
      | zero => exact stuck_failure
      | succ depth => exact stuck_statement _ _

theorem namedChildren_tree {text : List Char} (blank : ∀ c ∈ text, Text.isBlank c = true) :
    (tree text).namedChildren = [] := by
  obtain ⟨root, next, read, empty⟩ := bare_module _ (Cursor.blank_start blank)
  unfold tree
  rw [read]
  exact empty

end Python

end CodeGraph.Syntax
