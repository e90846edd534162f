import CodeGraph.Proofs.Syntax.Blank
import CodeGraph.Syntax.EcmaScript.Statement

set_option autoImplicit false

namespace CodeGraph.Syntax

namespace EcmaScript

theorem passes_trivia : Passes Cursor.Blank trivia := by
  refine passes_of_isBlank (fun cursor c rest shape blank => ?_) fun cursor shape => ?_
  · have solid : c ≠ '/' := ne_of_isBlank blank rfl
    simp [trivia, shape, solid, isSpace, blank]
  · simp [trivia, shape]

theorem yields_next : Yields Cursor.Blank next () :=
  fun _ blank => ⟨_, rfl, (Passes.skipAll passes_trivia blank).2⟩

theorem yields_upcoming : Yields Cursor.Blank upcoming [] := by
  intro cursor blank
  obtain ⟨spent, kept⟩ := Passes.skipAll passes_trivia blank
  refine ⟨_, ?_, kept⟩
  change some ((cursor.skipAll trivia).rest, cursor.skipAll trivia) = _
  rw [spent]

theorem yields_upcomingWord : Yields Cursor.Blank upcomingWord "" :=
  Yields.bind yields_upcoming (yields_pure _)

theorem stuck_symbol {text : String} (solid : ("" == text) = false) :
    Stuck Cursor.Blank (symbol text) :=
  Yields.bind_stuck yields_upcoming ((stuck_guardThat solid).bind _)

theorem stuck_keyword {text : String} (solid : ("" == text) = false) :
    Stuck Cursor.Blank (keyword text) :=
  Yields.bind_stuck yields_upcomingWord ((stuck_guardThat solid).bind _)

theorem stuck_name (kind : String) : Stuck Cursor.Blank (name kind) := by
  have word : Stuck Cursor.Blank (word kind) :=
    Yields.bind_stuck yields_upcoming ((stuck_guardThat rfl).bind _)
  refine Yields.bind_stuck yields_upcomingWord ?_
  exact (yields_pure ()).bind_stuck word

theorem yields_optionalNode {parser : Parser Node} (stuck : Stuck Cursor.Blank parser) :
    Yields Cursor.Blank (optionalNode parser) [] :=
  stuck.optional.bind (yields_pure _)

namespace Grammar

variable {grammar : Grammar}

theorem stuck_whenTyped {α : Type} {parser : Parser α} (stuck : Stuck Cursor.Blank parser) :
    Stuck Cursor.Blank (grammar.whenTyped parser) := by
  unfold whenTyped
  cases grammar.typed with
  | true => exact (yields_pure ()).bind_stuck stuck
  | false => exact Stuck.bind stuck_failure _

theorem stuck_openingWord {text : String} (solid : ("" == text) = false) :
    Stuck Cursor.Blank (openingWord text) :=
  (stuck_keyword solid).bind _

theorem stuck_classDeclaration : Stuck Cursor.Blank (classDeclaration grammar) := by
  have decorator : Stuck Cursor.Blank (decorator grammar) := (stuck_symbol rfl).bind _
  unfold classDeclaration
  refine decorator.many.bind_stuck ?_
  refine (yields_optionalNode (stuck_whenTyped (stuck_keyword rfl))).bind_stuck ?_
  exact (stuck_keyword rfl).bind _

theorem stuck_typedStatement : Stuck Cursor.Blank (typedStatement grammar) := by
  refine stuck_whenTyped ?_
  refine Stuck.firstOf ?_ ((stuck_openingWord rfl).bind _ |>.firstOf ?_)
  · exact (yields_optionalNode (stuck_keyword rfl)).bind_stuck ((stuck_keyword rfl).bind _)
  refine ((stuck_openingWord rfl).bind _).firstOf ?_
  refine ((stuck_openingWord rfl).bind _).firstOf ?_
  refine ((stuck_openingWord rfl).bind _).firstOf ?_
  exact Stuck.firstOf stuck_classDeclaration stuck_failure

structure Dry (read : Goal → Parser Node) : Prop where
  expression : ∀ allowIn, Stuck Cursor.Blank (read (.expression allowIn))
  assignment : ∀ allowIn, Stuck Cursor.Blank (read (.assignment allowIn))
  binary : ∀ level allowIn, Stuck Cursor.Blank (read (.binary level allowIn))
  unary : Stuck Cursor.Blank (read .unary)

theorem stuck_primary (fuel : Nat) : Stuck Cursor.Blank (primary grammar fuel) := by
  cases fuel with
  | zero => exact stuck_failure
  | succ fuel =>
      refine Yields.bind_stuck yields_upcoming ?_
      refine Yields.bind_stuck yields_upcomingWord ?_
      exact Yields.bind_stuck yields_upcomingWord (stuck_name _)

theorem stuck_unary : Stuck Cursor.Blank (unary grammar) := by
  have operator : Yields Cursor.Blank upcomingOperator "" :=
    Yields.bind yields_upcoming (Yields.bind yields_upcoming (yields_pure _))
  refine operator.bind_stuck ?_
  have operand : Stuck Cursor.Blank (operand grammar true) :=
    stuck_get fun cursor => (stuck_primary _).bind _
  exact operand.bind _

theorem stuck_assignmentRule {allowIn : Bool} (dry : Dry grammar.read) :
    Stuck Cursor.Blank (assignmentRule grammar allowIn) := by
  have conditional : Stuck Cursor.Blank (conditional grammar allowIn) := (dry.binary _ _).bind _
  refine Yields.bind_stuck yields_upcoming ?_
  refine ((stuck_keyword rfl).bind _).firstOf ?_
  refine ((stuck_guardThat rfl).bind _).firstOf ?_
  exact (conditional.bind _).firstOf stuck_failure

theorem stuck_otherStatement (dry : Dry grammar.read) :
    Stuck Cursor.Blank (otherStatement grammar) := by
  have namespaced : Stuck Cursor.Blank (grammar.whenTyped (namespaceDeclaration grammar)) :=
    stuck_whenTyped ((stuck_openingWord rfl).bind _)
  refine Stuck.firstOf stuck_typedStatement ?_
  refine ((stuck_name _).bind _).firstOf ?_
  exact ((namespaced.orElse (dry.expression true)).bind _).firstOf stuck_failure

theorem stuck_statement (dry : Dry grammar.read) : Stuck Cursor.Blank (statement grammar) :=
  Yields.bind_stuck yields_upcoming (Yields.bind_stuck yields_upcomingWord (stuck_otherStatement dry))

end Grammar

open Grammar in
theorem dry_read (typed elements : Bool) (depth : Nat) : Dry (read typed elements depth) := by
  induction depth with
  | zero => exact ⟨fun _ => stuck_failure, fun _ => stuck_failure, fun _ _ => stuck_failure,
      stuck_failure⟩
  | succ depth ih =>
      exact ⟨fun _ => (ih.assignment _).bind _, fun _ => stuck_assignmentRule ih,
        fun _ _ => ih.unary.bind _, stuck_unary⟩

theorem stuck_read (typed elements : Bool) (depth : Nat) :
    Stuck Cursor.Blank (read typed elements depth .statement) := by
  cases depth with
  | zero => exact stuck_failure
  | succ depth => exact Grammar.stuck_statement (dry_read typed elements depth)

theorem bare_program (typed elements : Bool) : Bare Cursor.Blank (program typed elements) := by
  have hashBang : Stuck Cursor.Blank hashBang := stuck_rest fun text => startsWith_of_isBlank
  refine bare_rest fun text => ?_
  refine (yields_optionalNode hashBang).bind_bare ?_
  refine (stuck_read typed elements _).many.bind_bare ?_
  exact Yields.bind_bare yields_next (bare_root rfl)

theorem namedChildren_tree (typed elements : Bool) {text : List Char}
    (blank : ∀ c ∈ text, Text.isBlank c = true) : (tree typed elements text).namedChildren = [] := by
  obtain ⟨root, next, read, empty⟩ := bare_program typed elements _ (Cursor.blank_start blank)
  unfold tree
  rw [read]
  exact empty

end EcmaScript

end CodeGraph.Syntax
