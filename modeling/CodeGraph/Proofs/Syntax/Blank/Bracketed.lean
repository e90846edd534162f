import CodeGraph.Proofs.Syntax.Blank
import CodeGraph.Syntax.Go
import CodeGraph.Syntax.Rust

set_option autoImplicit false

namespace CodeGraph.Syntax

namespace Lexer

variable {lexer : Lexer} {holds : Cursor → Prop}

theorem stuck_token (passes : Passes holds lexer.trivia) : Stuck holds lexer.token := by
  intro cursor holdsAt
  obtain ⟨spent, -⟩ := passes.skipAll holdsAt
  change (Parser.guardThat (!(cursor.skipAll lexer.trivia).rest.isEmpty)
    (cursor.skipAll lexer.trivia)).bind _ = none
  rw [spent]
  rfl

theorem yields_sees (passes : Passes holds lexer.trivia) (texts : List String) :
    Yields holds (lexer.sees texts) false :=
  (stuck_token passes).ahead.optional.bind (yields_pure false)

theorem stuck_expect (passes : Passes holds lexer.trivia) (texts : List String) :
    Stuck holds (lexer.expect texts) :=
  (yields_sees passes texts).bind_stuck ((stuck_guardThat rfl).bind _)

theorem yields_next (passes : Passes holds lexer.trivia) : Yields holds lexer.next () :=
  fun _ holdsAt => ⟨_, rfl, (passes.skipAll holdsAt).2⟩

theorem yields_atEnd (passes : Passes holds lexer.trivia) : Yields holds lexer.atEnd true := by
  intro cursor holdsAt
  obtain ⟨spent, kept⟩ := passes.skipAll holdsAt
  refine ⟨_, ?_, kept⟩
  change some ((cursor.skipAll lexer.trivia).rest.isEmpty, cursor.skipAll lexer.trivia) = _
  rw [spent]
  rfl

end Lexer

namespace Go

theorem passes_trivia : Passes Cursor.Blank lexer.trivia := by
  refine passes_of_isBlank (fun cursor c rest shape blank => ?_) fun cursor shape => ?_
  · have solid : c ≠ '/' := ne_of_isBlank blank rfl
    simp [lexer, trivia, shape, solid, blank]
  · simp [lexer, trivia, shape]

theorem stuck_expect (texts : List String) : Stuck Cursor.Blank (lexer.expect texts) :=
  Lexer.stuck_expect passes_trivia texts

theorem yields_line : Yields Cursor.Blank line [] := by
  unfold line
  refine Yields.bind (Yields.loop ?_) (yields_pure _)
  refine (Lexer.yields_next passes_trivia).bind (yields_get fun cursor => ?_)
  refine (Lexer.yields_atEnd passes_trivia).bind ((Lexer.yields_sees passes_trivia _).bind ?_)
  rw [if_pos (by simp)]
  exact yields_pure none

theorem stuck_keyworded (word kind : String) (inside : Parser (List Node)) :
    Stuck Cursor.Blank (keyworded word kind inside) :=
  (stuck_expect _).bind _

theorem stuck_declaration : Stuck Cursor.Blank declaration := by
  refine Stuck.firstOf ((stuck_expect _).bind _) ?_
  refine Stuck.firstOf (stuck_keyworded _ _ _) ?_
  refine Stuck.firstOf (stuck_keyworded _ _ _) ?_
  refine Stuck.firstOf (stuck_keyworded _ _ _) ?_
  refine Stuck.firstOf (stuck_keyworded _ _ _) ?_
  refine Stuck.firstOf (stuck_keyworded _ _ _) ?_
  exact (Yields.bind_stuck yields_line ((stuck_guardThat rfl).bind _)).firstOf stuck_failure

theorem bare_sourceFile : Bare Cursor.Blank sourceFile := by
  have semicolons := (stuck_expect [";"]).many
  refine bare_get fun cursor => ?_
  refine (semicolons.bind_stuck stuck_declaration).many.bind_bare ?_
  refine semicolons.bind_bare ?_
  exact (Lexer.yields_next passes_trivia).bind_bare (bare_root rfl)

theorem namedChildren_tree {text : List Char} (blank : ∀ c ∈ text, Text.isBlank c = true) :
    (tree text).namedChildren = [] := by
  obtain ⟨root, next, read, empty⟩ := bare_sourceFile _ (Cursor.blank_start blank)
  unfold tree
  rw [read]
  exact empty

end Go

namespace Rust

theorem passes_trivia : Passes Cursor.Blank lexer.trivia := by
  refine passes_of_isBlank (fun cursor c rest shape blank => ?_) fun cursor shape => ?_
  · have solid : c ≠ '/' := ne_of_isBlank blank rfl
    simp [lexer, trivia, shape, solid, blank]
  · simp [lexer, trivia, shape]

theorem stuck_expect (texts : List String) : Stuck Cursor.Blank (lexer.expect texts) :=
  Lexer.stuck_expect passes_trivia texts

theorem stuck_item (items : Items) : Stuck Cursor.Blank (item items) := by
  have visibility : Stuck Cursor.Blank visibility := (stuck_expect _).bind _
  have modifier : Stuck Cursor.Blank modifier := (stuck_expect _).bind _
  exact visibility.optional.bind_stuck
    (modifier.many.bind_stuck ((Lexer.stuck_token passes_trivia).bind _))

theorem stuck_statement : Stuck Cursor.Blank statement := by
  unfold statement
  refine Yields.bind_stuck (Yields.loop ?_) ((stuck_guardThat rfl).bind _)
  refine (Lexer.yields_atEnd passes_trivia).bind ?_
  rw [if_pos (by simp)]
  exact yields_pure none

theorem yields_items (depth : Nat) : Yields Cursor.Blank (items (depth + 1)) [] := by
  have attributeItem : Stuck Cursor.Blank attributeItem :=
    (stuck_expect _).bind _
  exact (attributeItem.firstOf ((stuck_item _).firstOf
    (Stuck.firstOf stuck_statement stuck_failure))).many

theorem bare_sourceFile : Bare Cursor.Blank sourceFile := by
  have shebang : Stuck Cursor.Blank shebang := stuck_rest fun text blank => by
    rw [startsWith_of_isBlank blank, Bool.false_and]
  refine bare_get fun cursor => ?_
  refine shebang.optional.bind_bare ((yields_items _).bind_bare ?_)
  exact (Lexer.yields_next passes_trivia).bind_bare (bare_root rfl)

theorem namedChildren_tree {text : List Char} (blank : ∀ c ∈ text, Text.isBlank c = true) :
    (tree text).namedChildren = [] := by
  obtain ⟨root, next, read, empty⟩ := bare_sourceFile _ (Cursor.blank_start blank)
  unfold tree
  rw [read]
  exact empty

end Rust

end CodeGraph.Syntax
