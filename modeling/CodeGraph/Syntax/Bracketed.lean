import CodeGraph.Syntax.Parser

set_option autoImplicit false

namespace CodeGraph.Syntax

inductive TokenSort where
  | word
  | literal
  | symbol
deriving DecidableEq, Repr

structure Token where
  sort : TokenSort
  text : String
  node : Node

structure Lexer where
  trivia : Trivia
  /-- The sort and the length of the token at the start of a text that is not empty. -/
  measure : List Char → TokenSort × Nat

namespace Lexer

def next (lexer : Lexer) : Parser Unit :=
  modify (fun cursor => cursor.skipAll lexer.trivia)

def token (lexer : Lexer) : Parser Token := do
  next lexer
  let text ← Parser.rest
  Parser.guardThat !text.isEmpty
  let (sort, length) := lexer.measure text
  let length := max 1 length
  let spelling := String.ofList (text.take length)
  let (start, stop) ← Parser.take length
  return ⟨sort, spelling, Node.token spelling start stop⟩

def upcoming? (lexer : Lexer) : Parser (Option Token) :=
  Parser.optional (Parser.ahead (token lexer))

def sees (lexer : Lexer) (texts : List String) : Parser Bool := do
  match ← upcoming? lexer with
  | some token => return token.sort != .literal && texts.contains token.text
  | none => return false

def expect (lexer : Lexer) (texts : List String) : Parser Node := do
  Parser.guardThat (← sees lexer texts)
  return (← token lexer).node

def word (lexer : Lexer) (kind : String) : Parser Node := do
  let token ← token lexer
  Parser.guardThat (token.sort == .word)
  return Node.leaf kind token.node.start token.node.stop

def atEnd (lexer : Lexer) : Parser Bool := do
  next lexer
  return (← Parser.rest).isEmpty

def isOpening (token : Token) : Bool :=
  token.sort == .symbol && (token.text == "(" || token.text == "[" || token.text == "\x7b")

def isClosing (token : Token) : Bool :=
  token.sort == .symbol && (token.text == ")" || token.text == "]" || token.text == "\x7d")

def close (lexer : Lexer) : Nat → Nat → Parser Nat
  | _, 0 => return (← get).last
  | 0, _ => Parser.failure
  | fuel + 1, depth + 1 => do
      let token ← token lexer
      if isOpening token then close lexer fuel (depth + 2)
      else if isClosing token then close lexer fuel depth
      else close lexer fuel (depth + 1)

def piece (lexer : Lexer) : Parser Token := do
  let token ← token lexer
  Parser.guardThat !(isClosing token)
  if isOpening token then
    let stop ← close lexer (← get).remaining 1
    return { token with node := Node.leaf "token_tree" token.node.start stop }
  return token

def group (lexer : Lexer) (bracket kind : String) : Parser Node := do
  Parser.guardThat (← sees lexer [bracket])
  return (← piece lexer).node.ofKind kind

end Lexer

end CodeGraph.Syntax
