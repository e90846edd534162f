import CodeGraph.Syntax.Parser

set_option autoImplicit false

namespace CodeGraph.Syntax.EcmaScript

def isSpace (c : Char) : Bool :=
  Text.isBlank c || c.toNat == 0xFEFF || c.toNat == 0x200B || c.toNat == 0x2060

def isNameStart (c : Char) : Bool :=
  if c.toNat < 128 then c.isAlpha || c == '_' || c == '$' || c == '\\' else !isSpace c

def isNamePart (c : Char) : Bool :=
  isNameStart c || Text.isDigit c

def endsLine (c : Char) : Bool :=
  c == '\n' || c == '\r' || c.toNat == 0x2028 || c.toNat == 0x2029

def blockLength : List Char → Nat
  | '*' :: '/' :: _ => 2
  | _ :: rest => blockLength rest + 1
  | [] => 0

def trivia : Trivia := fun cursor =>
  match cursor.rest with
  | '/' :: '/' :: rest =>
      some (cursor.skipComment "comment" ((rest.takeWhile (fun c => !endsLine c)).length + 2))
  | '/' :: '*' :: rest => some (cursor.skipComment "comment" (blockLength rest + 2))
  | c :: _ => if isSpace c then some (cursor.skipBlank c) else none
  | [] => none

def next : Parser Unit :=
  modify (fun cursor => cursor.skipAll trivia)

def upcoming : Parser (List Char) := do
  next
  Parser.rest

def startsWith (text : String) : Parser Bool :=
  return Text.startsWith text.toList (← upcoming)

def longSymbols : List String :=
  [">>>=", "...", "===", "!==", "**=", "<<=", ">>=", ">>>", "&&=", "||=", "??=", "=>", "==", "!=",
    "<=", ">=", "&&", "||", "??", "?.", "++", "--", "+=", "-=", "*=", "/=", "%=", "&=", "|=", "^=",
    "<<", ">>", "**"]

/-- The longest symbol at the start of a text. `?.` before a digit is two symbols. -/
def symbolAt (text : List Char) : String :=
  match longSymbols.find? (fun symbol => Text.startsWith symbol.toList text) with
  | some "?." =>
      match text with
      | _ :: _ :: c :: _ => if Text.isDigit c then "?" else "?."
      | _ => "?."
  | some symbol => symbol
  | none => String.ofList (text.take 1)

/-- Accepts a symbol that is no part of a longer one. -/
def symbol (text : String) : Parser Node := do
  Parser.guardThat (symbolAt (← upcoming) == text)
  let (start, stop) ← Parser.take text.length
  return Node.token text start stop

/-- Accepts a symbol even where a longer one starts, as type brackets need it. -/
def shortSymbol (text : String) : Parser Node := do
  Parser.guardThat (← startsWith text)
  let (start, stop) ← Parser.take text.length
  return Node.token text start stop

def nameText (text : List Char) : List Char :=
  match text with
  | c :: _ => if isNameStart c then text.takeWhile isNamePart else []
  | [] => []

def upcomingWord : Parser String :=
  return String.ofList (nameText (← upcoming))

def keyword (word : String) : Parser Node := do
  Parser.guardThat ((← upcomingWord) == word)
  let (start, stop) ← Parser.take word.length
  return Node.token word start stop

def reserved : List String :=
  ["break", "case", "catch", "class", "const", "continue", "debugger", "default", "delete", "do",
    "else", "enum", "export", "extends", "false", "finally", "for", "function", "if", "import", "in",
    "instanceof", "new", "null", "return", "super", "switch", "this", "throw", "true", "try",
    "typeof", "var", "void", "while", "with"]

def word (kind : String) : Parser Node := do
  let text := nameText (← upcoming)
  Parser.guardThat (!text.isEmpty)
  let (start, stop) ← Parser.take text.length
  return Node.leaf kind start stop

def name (kind : String) : Parser Node := do
  Parser.guardThat (!reserved.contains (← upcomingWord))
  word kind

def identifier : Parser Node := name "identifier"

def typeIdentifier : Parser Node := name "type_identifier"

def privateName : Parser Node := do
  let text ← upcoming
  match text with
  | '#' :: rest =>
      let length := (nameText rest).length
      Parser.guardThat (length != 0)
      let (start, stop) ← Parser.take (length + 1)
      return Node.leaf "private_property_identifier" start stop
  | _ => Parser.failure

def isNumberPart (c : Char) : Bool :=
  c.isAlphanum || c == '.' || c == '_'

/-- The length of a number; a sign belongs to it right after an exponent mark. -/
def numberLength (radix : Bool) : List Char → Nat
  | 'e' :: c :: rest | 'E' :: c :: rest =>
      if !radix && (c == '+' || c == '-') then numberLength radix rest + 2
      else if isNumberPart c then numberLength radix (c :: rest) + 1
      else 1
  | c :: rest => if isNumberPart c then numberLength radix rest + 1 else 0
  | [] => 0

def startsNumber : List Char → Bool
  | '.' :: c :: _ => Text.isDigit c
  | c :: _ => Text.isDigit c
  | [] => false

def hasRadix : List Char → Bool
  | '0' :: c :: _ => c == 'x' || c == 'X' || c == 'b' || c == 'B' || c == 'o' || c == 'O'
  | _ => false

def number : Parser Node := do
  let text ← upcoming
  Parser.guardThat (startsNumber text)
  let (start, stop) ← Parser.take (numberLength (hasRadix text) text)
  return Node.leaf "number" start stop

def quotedLength (quote : Char) : List Char → Nat
  | '\\' :: _ :: rest => quotedLength quote rest + 2
  | c :: rest => if c == quote then 1 else quotedLength quote rest + 1
  | [] => 0

def string : Parser Node := do
  match ← upcoming with
  | c :: rest =>
      Parser.guardThat (c == '"' || c == '\'')
      let (start, stop) ← Parser.take (quotedLength c rest + 1)
      return Node.leaf "string" start stop
  | [] => Parser.failure

def patternLength (inClass : Bool) : List Char → Nat
  | '\\' :: _ :: rest => patternLength inClass rest + 2
  | '[' :: rest => patternLength true rest + 1
  | ']' :: rest => patternLength false rest + 1
  | '/' :: rest => if inClass then patternLength inClass rest + 1 else 1
  | _ :: rest => patternLength inClass rest + 1
  | [] => 0

def regex : Parser Node := do
  match ← upcoming with
  | '/' :: rest =>
      let length := patternLength false rest
      let flags := (rest.drop length).takeWhile isNamePart
      let (start, stop) ← Parser.take (length + 1 + flags.length)
      return Node.leaf "regex" start stop
  | _ => Parser.failure

def commaSeparated (item : Parser Node) : Parser (List Node) := do
  let (nodes, _) ← Parser.loop (([] : List Node), true) (fun (read, wanted) => do
    if !wanted then return none
    match ← Parser.optional item with
    | none => return none
    | some node =>
        match ← Parser.optional (symbol ",") with
        | some comma => return some (comma :: node :: read, true)
        | none => return some (node :: read, false))
  return nodes.reverse

def optionalNode (parser : Parser Node) : Parser (List Node) :=
  return (← Parser.optional parser).toList

def inField (field : String) (parser : Parser Node) : Parser Node :=
  return (← parser).inField field

def terminator : Parser (List Node) :=
  optionalNode (symbol ";")

end CodeGraph.Syntax.EcmaScript
