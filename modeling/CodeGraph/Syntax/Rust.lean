import CodeGraph.Syntax.Bracketed

/-!
Trees of Rust sources, as deep as items go: bodies of functions, implementations, traits and
modules are read for the items in them, and everything else is skipped by brackets.
-/

set_option autoImplicit false

namespace CodeGraph.Syntax.Rust

/-- The length of a block comment; they nest. -/
def blockCommentLength : Nat → List Char → Nat
  | depth, '/' :: '*' :: rest => blockCommentLength (depth + 1) rest + 2
  | depth, '*' :: '/' :: rest => if depth ≤ 1 then 2 else blockCommentLength (depth - 1) rest + 2
  | depth, _ :: rest => blockCommentLength depth rest + 1
  | _, [] => 0

/-- A documentation comment ends behind its line break, any other line comment before it. -/
def lineCommentLength (text : List Char) : Nat :=
  let length := (text.takeWhile (· != '\n')).length
  match text with
  | '/' :: '/' :: '/' :: '/' :: _ => length
  | '/' :: '/' :: '/' :: _ | '/' :: '/' :: '!' :: _ => min (length + 1) text.length
  | _ => length

def trivia : Trivia := fun cursor =>
  match cursor.rest with
  | '/' :: '/' :: _ => some (cursor.skipComment "line_comment" (lineCommentLength cursor.rest))
  | '/' :: '*' :: _ => some (cursor.skipComment "block_comment" (blockCommentLength 0 cursor.rest))
  | c :: _ => if Text.isBlank c then some (cursor.skipBlank c) else none
  | [] => none

def isNamePart (c : Char) : Bool :=
  c == '_' || Text.isWord c

def quotedLength (quote : Char) : List Char → Nat
  | '\\' :: _ :: rest => quotedLength quote rest + 2
  | c :: rest => if c == quote then 1 else quotedLength quote rest + 1
  | [] => 0

/-- The length of a raw string, behind its opening quote; `marks` number signs close it. -/
def rawLength (marks : Nat) : List Char → Nat
  | '"' :: rest =>
      if (rest.take marks).all (· == '#') && marks ≤ rest.length then marks + 1
      else rawLength marks rest + 1
  | _ :: rest => rawLength marks rest + 1
  | [] => 0

def rawTail? (text : List Char) : Option (TokenSort × Nat) :=
  let marks := (text.takeWhile (· == '#')).length
  match text.drop marks with
  | '"' :: rest => some (.literal, marks + 1 + rawLength marks rest)
  | c :: rest =>
      if marks == 1 && isNamePart c then
        some (.word, 1 + ((c :: rest).takeWhile isNamePart).length)
      else none
  | [] => none

def measure (text : List Char) : TokenSort × Nat :=
  match text with
  | '"' :: rest => (.literal, quotedLength '"' rest + 1)
  | '\'' :: '\\' :: _ => (.literal, quotedLength '\'' (text.drop 1) + 1)
  | '\'' :: _ :: '\'' :: _ => (.literal, 3)
  | '\'' :: rest => (.literal, (rest.takeWhile isNamePart).length + 1)
  | '-' :: '>' :: _ | '=' :: '>' :: _ => (.symbol, 2)
  | c :: _ =>
      if isNamePart c then
        let name := text.takeWhile isNamePart
        let raw := if ["r", "br", "cr"].contains (String.ofList name) then
            rawTail? (text.drop name.length) else none
        match raw with
        | some (sort, length) => (sort, name.length + length)
        | none => (if Text.isDigit c then .literal else .word, name.length)
      else (.symbol, 1)
  | [] => (.symbol, 0)

def lexer : Lexer := ⟨trivia, measure⟩

abbrev Items : Type := Parser (List Node)

/-- Reads up to one of the given tokens, and past angle brackets if they count as brackets. -/
def before (angles : Bool) (stops : List String) : Parser (List Token) := do
  let (pieces, _) ← Parser.loop (([] : List Token), 0) (fun (read, depth) => do
    if (← lexer.atEnd) || (depth = 0 && (← lexer.sees stops)) then return none
    match ← Parser.optional lexer.piece with
    | none => return none
    | some piece =>
        let depth :=
          if !angles || piece.sort != .symbol then depth
          else if piece.text == "<" then depth + 1
          else if piece.text == ">" then depth - 1
          else depth
        return some (piece :: read, depth))
  return pieces.reverse

def nodes (tokens : List Token) : List Node :=
  tokens.map Token.node

def attributeItem : Parser Node := do
  let mark ← lexer.expect ["#"]
  match ← Parser.optional (lexer.expect ["!"]) with
  | some inner =>
      return Node.branch "inner_attribute_item" [mark, inner, ← lexer.group "[" "attribute"]
  | none => return Node.branch "attribute_item" [mark, ← lexer.group "[" "attribute"]

def visibility : Parser Node := do
  let mark ← lexer.expect ["pub"]
  match ← Parser.optional (lexer.group "(" "scope") with
  | some scope => return Node.branch "visibility_modifier" [mark, scope]
  | none => return Node.leaf "visibility_modifier" mark.start mark.stop

def modifiers : List String :=
  ["async", "const", "default", "extern", "safe", "unsafe"]

def modifier : Parser Node := do
  let mark ← lexer.expect modifiers
  let convention ←
    if mark.kind == "extern" then
      Parser.optional (do
        let token ← lexer.token
        Parser.guardThat (token.sort == .literal)
        pure token.node)
    else pure none
  Parser.guardThat (← lexer.sees ("fn" :: "impl" :: "trait" :: modifiers))
  return Node.branch "modifier" (mark :: convention.toList)

def body (items : Items) (kind : String) : Parser Node := do
  let left ← lexer.expect ["\x7b"]
  let inside ← items
  let right ← lexer.expect ["\x7d"]
  return (Node.branch kind (left :: inside ++ [right])).inField "body"

def declared (kind bodiless : String) (start : List Node) (inside : Parser Node) :
    Parser Node := do
  let name ← lexer.word "identifier"
  let head ← before true ["\x7b", ";"]
  let start := start ++ name.inField "name" :: nodes head
  match ← Parser.optional (lexer.expect [";"]) with
  | some stop => return Node.branch bodiless (start ++ [stop])
  | none => return Node.branch kind (start ++ [← inside])

def fields : Parser Node :=
  return (← lexer.group "\x7b" "field_declaration_list").inField "body"

def terminated (kind : String) (start : List Node) : Parser Node := do
  let inside ← before false [";"]
  return Node.branch kind (start ++ nodes inside ++ [← lexer.expect [";"]])

def binding (kind : String) (start : List Node) : Parser Node := do
  let mutability ← Parser.optional (lexer.expect ["mut", "ref"])
  let name ← lexer.word "identifier"
  terminated kind (start ++ mutability.toList ++ [name.inField "name"])

/-- Divides the head of an implementation before its last part, the type that it is for. -/
def splitHead (read : List Token) : List Token → List Token × List Token
  | [] => ([], read.reverse)
  | token :: rest =>
      let divides := token.sort == .word && token.text == "for" &&
        (rest.head?.map Token.text) != some "<"
      if divides then ((token :: read).reverse, rest) else splitHead (token :: read) rest

def genericParameters : Parser (List Token) := do
  if ← lexer.sees ["<"] then
    let (pieces, _) ← Parser.loop (([] : List Token), true) (fun (read, more) => do
      if !more then return none
      let piece ← lexer.piece
      let depth := (piece :: read).foldl (fun (depth : Int) token =>
        if token.sort != .symbol then depth
        else if token.text == "<" then depth + 1
        else if token.text == ">" then depth - 1
        else depth) 0
      return some (piece :: read, depth != 0))
    return pieces.reverse
  return []

def implementation (items : Items) (start : List Node) : Parser Node := do
  let parameters ← genericParameters
  let head ← before true ["\x7b", ";", "where"]
  let (first, type) := splitHead [] head
  Parser.guardThat !type.isEmpty
  let typeNode := (Node.branch "type" (nodes type)).inField "type"
  let bounds ← before true ["\x7b", ";"]
  let start := start ++ nodes parameters ++ nodes first ++ typeNode :: nodes bounds
  match ← Parser.optional (lexer.expect [";"]) with
  | some stop => return Node.branch "impl_item" (start ++ [stop])
  | none => return Node.branch "impl_item" (start ++ [← body items "declaration_list"])

def macroDefinition (start : List Node) : Parser Node := do
  let mark ← lexer.expect ["!"]
  let name ← lexer.word "identifier"
  let braces ← lexer.sees ["\x7b"]
  let rules ← lexer.piece
  let start := start ++ [mark, name.inField "name", rules.node]
  if braces then return Node.branch "macro_definition" start
  return Node.branch "macro_definition" (start ++ [← lexer.expect [";"]])

def external (start : List Node) : Parser Node := do
  if ← lexer.sees ["crate"] then terminated "extern_crate_declaration" start
  else
    let head ← before false ["\x7b", ";"]
    return Node.branch "foreign_mod_item" (start ++ nodes head ++ [(← lexer.piece).node])

def item (items : Items) : Parser Node := do
  let scope ← Parser.optional visibility
  let marks ← Parser.many modifier
  let keyword ← lexer.token
  Parser.guardThat (keyword.sort == .word)
  let start := scope.toList ++ marks ++ [keyword.node]
  match keyword.text with
  | "fn" => declared "function_item" "function_signature_item" start (body items "block")
  | "struct" => declared "struct_item" "struct_item" start fields
  | "union" => declared "union_item" "union_item" start fields
  | "enum" => declared "enum_item" "enum_item" start fields
  | "trait" => declared "trait_item" "trait_item" start (body items "declaration_list")
  | "mod" => declared "mod_item" "mod_item" start (body items "declaration_list")
  | "impl" => implementation items start
  | "type" => binding "type_item" start
  | "const" => binding "const_item" start
  | "static" => binding "static_item" start
  | "use" => terminated "use_declaration" start
  | "extern" => external start
  | "macro_rules" => macroDefinition start
  | _ => Parser.failure

/-- A statement that declares nothing. Behind a group in braces it ends before a word. -/
def statement : Parser Node := do
  let (pieces, _) ← Parser.loop (([] : List Token), false) (fun (read, done) => do
    if done || (← lexer.atEnd) then return none
    let afterBraces := (read.head?.map Token.text) == some "\x7b"
    match ← lexer.upcoming? with
    | none => return none
    | some ahead =>
        let continues := ahead.sort == .symbol && ahead.text != "#" ||
          ["else", "as"].contains ahead.text
        if afterBraces && !continues then return none
        match ← Parser.optional lexer.piece with
        | none => return none
        | some piece => return some (piece :: read, piece.sort == .symbol && piece.text == ";"))
  Parser.guardThat !pieces.isEmpty
  return Node.branch "expression_statement" (nodes pieces.reverse)

def items : Nat → Items
  | 0 => Parser.failure
  | depth + 1 => Parser.many (Parser.firstOf [attributeItem, item (items depth), statement])

def shebang : Parser Node := do
  let text ← Parser.rest
  Parser.guardThat (Text.startsWith ['#', '!'] text && (text.drop 2).head? != some '[')
  let length := (text.takeWhile (· != '\n')).length
  let (start, stop) ← Parser.take (min (length + 1) text.length)
  return Node.leaf "shebang" start stop

def sourceFile : Parser Node := do
  let length := (← get).size
  let first ← Parser.optional shebang
  let inside ← items (length + 1)
  lexer.next
  let cursor ← get
  let root : Node :=
    { kind := "source_file", named := true, field := none, start := 0, stop := length
      children := first.toList ++ inside }
  return root.attachAll cursor.comments.reverse

def tree (text : List Char) : Node :=
  match sourceFile (Cursor.start text) with
  | some (root, _) => root
  | none => Node.leaf "source_file" 0 text.length

end CodeGraph.Syntax.Rust
