import CodeGraph.Syntax.Parser

/-! Tokens of Python. A line break is a blank inside brackets and ends the statement elsewhere. -/

set_option autoImplicit false

namespace CodeGraph.Syntax.Python

def isNameStart (c : Char) : Bool :=
  c == '_' || (Text.isWord c && !Text.isDigit c)

def isNamePart (c : Char) : Bool :=
  c == '_' || Text.isWord c

def restOfLine (text : List Char) : Nat :=
  (text.takeWhile (· != '\n')).length

def trivia : Trivia := fun cursor =>
  match cursor.rest with
  | '#' :: rest => some (cursor.skipComment "comment" (restOfLine rest + 1))
  | '\\' :: '\n' :: _ => some (cursor.skip 2)
  | '\\' :: '\r' :: '\n' :: _ => some (cursor.skip 3)
  | '\n' :: _ => if cursor.nesting = 0 then none else some (cursor.skipBlank '\n')
  | c :: _ =>
      if Text.isBlank c || c.toNat == 0xFEFF || c.toNat == 0x200B || c.toNat == 0x2060 then
        some (cursor.skipBlank c)
      else none
  | [] => none

def next : Parser Unit :=
  modify (fun cursor => cursor.skipAll trivia)

def upcoming : Parser (List Char) := do
  next
  Parser.rest

def longSymbols : List String :=
  ["**=", "//=", ">>=", "<<=", "...", "->", ":=", "==", "!=", "<=", ">=", "<>", "**", "//", "<<",
    ">>", "+=", "-=", "*=", "/=", "%=", "@=", "&=", "|=", "^="]

def symbolAt (text : List Char) : String :=
  match longSymbols.find? (fun symbol => Text.startsWith symbol.toList text) with
  | some symbol => symbol
  | none => String.ofList (text.take 1)

def symbol (text : String) : Parser Node := do
  Parser.guardThat (symbolAt (← upcoming) == text)
  let (start, stop) ← Parser.take text.length
  return Node.token text start stop

/-- An opening bracket; line breaks are blanks up to its closing one. -/
def opening (text : String) : Parser Node := do
  let bracket ← symbol text
  modify (fun cursor => { cursor with nesting := cursor.nesting + 1 })
  return bracket

def closing (text : String) : Parser Node := do
  let bracket ← symbol text
  modify (fun cursor => { cursor with nesting := cursor.nesting - 1 })
  return bracket

def nameText (text : List Char) : List Char :=
  match text with
  | c :: _ => if isNameStart c then text.takeWhile isNamePart else []
  | [] => []

def upcomingWord : Parser String :=
  return String.ofList (nameText (← upcoming))

def keyword (word : String) : Parser Node := do
  Parser.guardThat ((← upcomingWord) == word)
  let (start, stop) ← Parser.take word.length
  return Node.token word start stop

def reserved : List String :=
  ["False", "None", "True", "and", "as", "assert", "async", "await", "break", "class", "continue",
    "def", "del", "elif", "else", "except", "finally", "for", "from", "global", "if", "import",
    "in", "is", "lambda", "nonlocal", "not", "or", "pass", "raise", "return", "try", "while",
    "with", "yield"]

def isStringStart (text : List Char) : Bool :=
  match text.dropWhile (fun c => "rRbBuUfFtT".toList.contains c) with
  | c :: _ => c == '"' || c == '\''
  | [] => false

def identifier : Parser Node := do
  let text ← upcoming
  let word := nameText text
  Parser.guardThat (!word.isEmpty && !reserved.contains (String.ofList word))
  Parser.guardThat !(isStringStart text && word.length ≤ 2 &&
    word.all (fun c => "rRbBuUfFtT".toList.contains c))
  let (start, stop) ← Parser.take word.length
  return Node.leaf "identifier" start stop

def isNumberPart (c : Char) : Bool :=
  c.isAlphanum || c == '.' || c == '_'

def numberLength (radix : Bool) : List Char → Nat
  | 'e' :: c :: rest | 'E' :: c :: rest =>
      if !radix && (c == '+' || c == '-') then numberLength radix rest + 2
      else if isNumberPart c then numberLength radix (c :: rest) + 1
      else 1
  | c :: rest => if isNumberPart c then numberLength radix rest + 1 else 0
  | [] => 0

def startsNumber : List Char → Bool
  | '.' :: c :: _ => Text.isDigit c
  | c :: _ => Text.isDigit c
  | [] => false

def hasRadix : List Char → Bool
  | '0' :: c :: _ => c.isAlpha
  | _ => false

def number : Parser Node := do
  let text ← upcoming
  Parser.guardThat (startsNumber text)
  let length := numberLength (hasRadix text) text
  let isFloat := (text.take length).any (fun c => c == '.' || c == 'e')
  let (start, stop) ← Parser.take length
  return Node.leaf (if isFloat then "float" else "integer") start stop

def optionalNode (parser : Parser Node) : Parser (List Node) :=
  return (← Parser.optional parser).toList

def optionalList (parser : Parser (List Node)) : Parser (List Node) :=
  return (← Parser.optional parser).getD []

def inField (field : String) (parser : Parser Node) : Parser Node :=
  return (← parser).inField field

def commaSeparated (item : Parser Node) : Parser (List Node) := do
  let (nodes, _) ← Parser.loop (([] : List Node), true) (fun (read, wanted) => do
    if !wanted then return none
    match ← Parser.optional item with
    | none => return none
    | some node =>
        match ← Parser.optional (symbol ",") with
        | some comma => return some (comma :: node :: read, true)
        | none => return some (node :: read, false))
  return nodes.reverse

end CodeGraph.Syntax.Python
