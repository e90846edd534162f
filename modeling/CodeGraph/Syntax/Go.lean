import CodeGraph.Syntax.Bracketed

/-!
Trees of Go sources, as deep as declarations go. A declaration ends with its line unless a bracket
is open or the last token asks for more.
-/

set_option autoImplicit false

namespace CodeGraph.Syntax.Go

def blockCommentLength : List Char → Nat
  | '*' :: '/' :: _ => 2
  | _ :: rest => blockCommentLength rest + 1
  | [] => 0

def trivia : Trivia := fun cursor =>
  match cursor.rest with
  | '/' :: '/' :: rest =>
      some (cursor.skipComment "comment" ((rest.takeWhile (· != '\n')).length + 2))
  | '/' :: '*' :: rest => some (cursor.skipComment "comment" (blockCommentLength rest + 2))
  | c :: _ => if Text.isBlank c then some (cursor.skipBlank c) else none
  | [] => none

def isNamePart (c : Char) : Bool :=
  c == '_' || Text.isWord c

def quotedLength (quote : Char) : List Char → Nat
  | '\\' :: _ :: rest => quotedLength quote rest + 2
  | c :: rest => if c == quote then 1 else quotedLength quote rest + 1
  | [] => 0

def measure (text : List Char) : TokenSort × Nat :=
  match text with
  | '"' :: rest => (.literal, quotedLength '"' rest + 1)
  | '\'' :: rest => (.literal, quotedLength '\'' rest + 1)
  | '`' :: rest => (.literal, (rest.takeWhile (· != '`')).length + 2)
  | '+' :: '+' :: _ | '-' :: '-' :: _ => (.symbol, 2)
  | c :: _ =>
      if isNamePart c then
        (if Text.isDigit c then .literal else .word, (text.takeWhile isNamePart).length)
      else (.symbol, 1)
  | [] => (.symbol, 0)

def lexer : Lexer := ⟨trivia, measure⟩

def openWords : List String :=
  ["chan", "const", "func", "import", "interface", "map", "package", "struct", "type", "var"]

/-- Whether a line break behind a token ends the declaration. -/
def endsLine (token : Token) : Bool :=
  match token.sort with
  | .literal => true
  | .word => !openWords.contains token.text
  | .symbol => Lexer.isOpening token || token.text == "++" || token.text == "--"

def line : Parser (List Token) := do
  let pieces ← Parser.loop ([] : List Token) (fun read => do
    lexer.next
    let broken := (← get).broken && (read.head?.map endsLine).getD false
    if broken || (← lexer.atEnd) || (← lexer.sees [";"]) then return none
    match ← Parser.optional lexer.piece with
    | none => return none
    | some piece => return some (piece :: read))
  return pieces.reverse

def nodes (tokens : List Token) : List Node :=
  tokens.map Token.node

def spec (kind : String) : Parser Node := do
  let name ← lexer.word "identifier"
  let following ← line
  return Node.branch kind (name.inField "name" :: nodes following)

/-- Whether brackets hold type parameters: a name and something that bounds it. -/
def opensParameters : Parser Bool := do
  match ← Parser.optional (Parser.ahead (do
    let mark ← lexer.token
    let first ← lexer.token
    let second ← lexer.token
    pure (mark, first, second))) with
  | some (mark, first, second) =>
      return mark.text == "[" && first.sort == .word &&
        (second.sort == .word || [",", "[", "~"].contains second.text)
  | none => return false

def typeKind (pieces : List Token) : String :=
  match pieces.head?.map Token.text with
  | some "struct" => "struct_type"
  | some "interface" => "interface_type"
  | _ => "type"

def typeSpec : Parser Node := do
  let name ← lexer.word "type_identifier"
  let parameters ← if ← opensParameters then pure [(← lexer.piece).node] else pure []
  let mark ← Parser.optional (lexer.expect ["="])
  let type ← line
  Parser.guardThat !type.isEmpty
  let node := Node.branch (typeKind type) (nodes type)
  return Node.branch (if mark.isSome then "type_alias" else "type_spec")
    (name.inField "name" :: parameters ++ mark.toList ++ [node.inField "type"])

def specs (item : Parser Node) (list : List Node → List Node) : Parser (List Node) := do
  match ← Parser.optional (lexer.expect ["("]) with
  | none => return [← item]
  | some left =>
      let inside ← Parser.many (do
        let _ ← Parser.many (lexer.expect [";"])
        item)
      let _ ← Parser.many (lexer.expect [";"])
      let right ← lexer.expect [")"]
      return list (left :: inside ++ [right])

def function : Parser Node := do
  let mark ← lexer.expect ["func"]
  let receiver ← Parser.optional (lexer.group "(" "parameter_list")
  let name ← lexer.word (if receiver.isSome then "field_identifier" else "identifier")
  let following ← line
  let kind := if receiver.isSome then "method_declaration" else "function_declaration"
  return Node.branch kind
    (mark :: (receiver.map (·.inField "receiver")).toList ++ name.inField "name" :: nodes following)

def keyworded (word kind : String) (inside : Parser (List Node)) : Parser Node := do
  let mark ← lexer.expect [word]
  return Node.branch kind (mark :: (← inside))

def declaration : Parser Node :=
  Parser.firstOf [
    function,
    keyworded "type" "type_declaration" (specs typeSpec id),
    keyworded "const" "const_declaration" (specs (spec "const_spec") id),
    keyworded "var" "var_declaration"
      (specs (spec "var_spec") (fun nodes => [Node.branch "var_spec_list" nodes])),
    keyworded "import" "import_declaration" (return nodes (← line)),
    keyworded "package" "package_clause" (return nodes (← line)),
    do
      let pieces ← line
      Parser.guardThat !pieces.isEmpty
      return Node.branch "statement" (nodes pieces)]

def sourceFile : Parser Node := do
  let length := (← get).size
  let inside ← Parser.many (do
    let _ ← Parser.many (lexer.expect [";"])
    declaration)
  let _ ← Parser.many (lexer.expect [";"])
  lexer.next
  let cursor ← get
  let root : Node :=
    { kind := "source_file", named := true, field := none, start := 0, stop := length
      children := inside }
  return root.attachAll cursor.comments.reverse

def tree (text : List Char) : Node :=
  match sourceFile (Cursor.start text) with
  | some (root, _) => root
  | none => Node.leaf "source_file" 0 text.length

end CodeGraph.Syntax.Go
