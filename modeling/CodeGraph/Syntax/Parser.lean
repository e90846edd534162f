import CodeGraph.Syntax.Node

/-!
Parsers over a cursor. A parser fails or moves the cursor; trivia before a token is skipped by the
`Trivia` of the grammar, which also collects the comments in it.
-/

set_option autoImplicit false

namespace CodeGraph.Syntax

structure Cursor where
  size : Nat
  rest : List Char
  position : Nat
  /-- Where the last token ended. -/
  last : Nat
  /-- Whether a line break stands between the last token and the cursor. -/
  broken : Bool
  /-- How many brackets are open in which a line break is a blank. -/
  nesting : Nat
  comments : List Node

abbrev Parser (α : Type) : Type := StateT Cursor Option α

namespace Cursor

def start (text : List Char) : Cursor :=
  { size := text.length, rest := text, position := 0, last := 0, broken := false, nesting := 0
    comments := [] }

/-- A bound on the steps that read at least one character each. -/
def remaining (cursor : Cursor) : Nat :=
  cursor.size - cursor.position + 1

def skip (cursor : Cursor) (count : Nat) : Cursor :=
  { cursor with rest := cursor.rest.drop count, position := cursor.position + count }

def skipBlank (cursor : Cursor) (c : Char) : Cursor :=
  { cursor with
    rest := cursor.rest.drop 1
    position := cursor.position + 1
    broken := cursor.broken || c == '\n' }

def skipComment (cursor : Cursor) (kind : String) (length : Nat) : Cursor :=
  let body := cursor.rest.take length
  { cursor with
    rest := cursor.rest.drop length
    position := cursor.position + length
    broken := cursor.broken || body.contains '\n'
    comments := Node.leaf kind cursor.position (cursor.position + length) :: cursor.comments }

end Cursor

/-- A step over trivia: `none` at the start of a token. -/
abbrev Trivia : Type := Cursor → Option Cursor

def skipTrivia (trivia : Trivia) : Nat → Cursor → Cursor
  | 0, cursor => cursor
  | fuel + 1, cursor =>
      match trivia cursor with
      | some next => skipTrivia trivia fuel next
      | none => cursor

def Cursor.skipAll (cursor : Cursor) (trivia : Trivia) : Cursor :=
  skipTrivia trivia cursor.remaining cursor

namespace Parser

def failure {α : Type} : Parser α := fun _ => none

def cursor : Parser Cursor := get

def rest : Parser (List Char) := return (← get).rest

def take (count : Nat) : Parser (Nat × Nat) := do
  let cursor ← get
  let stop := cursor.position + count
  set { cursor with
    rest := cursor.rest.drop count, position := stop, last := stop, broken := false }
  return (cursor.position, stop)

def guardThat (condition : Bool) : Parser Unit :=
  if condition then pure () else failure

def ahead {α : Type} (parser : Parser α) : Parser α := fun cursor =>
  (parser cursor).map (fun result => (result.1, cursor))

def optional {α : Type} (parser : Parser α) : Parser (Option α) := fun cursor =>
  match parser cursor with
  | some (value, next) => some (some value, next)
  | none => some (none, cursor)

def succeeds {α : Type} (parser : Parser α) : Parser Bool :=
  return (← optional (ahead parser)).isSome

def orElse {α : Type} (first second : Parser α) : Parser α := fun cursor =>
  match first cursor with
  | some result => some result
  | none => second cursor

def firstOf {α : Type} : List (Parser α) → Parser α
  | [] => failure
  | parser :: rest => orElse parser (firstOf rest)

def iterate {α : Type} (step : α → Parser (Option α)) : Nat → α → Parser α
  | 0, value => pure value
  | fuel + 1, value => do
      match ← step value with
      | some next => iterate step fuel next
      | none => pure value

/-- Repeats a step while it can be taken; every step that is taken reads a character. -/
def loop {α : Type} (value : α) (step : α → Parser (Option α)) : Parser α := do
  iterate step (← get).remaining value

def many {α : Type} (parser : Parser α) : Parser (List α) := do
  let items ← loop [] (fun read => do
    let before := (← get).position
    match ← optional parser with
    | some item => if (← get).position = before then return none else return some (item :: read)
    | none => return none)
  return items.reverse

end Parser

end CodeGraph.Syntax
