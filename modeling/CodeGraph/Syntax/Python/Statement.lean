import CodeGraph.Syntax.Python.Expression

/-!
Statements and blocks of Python. A block is a run of lines with one indentation. A comment behind
the last statement belongs to the block when it is indented at least as far.
-/

set_option autoImplicit false

namespace CodeGraph.Syntax.Python

structure Ahead where
  comment : Option Nat
  /-- The indentation of the next token; the end of the text counts as zero. -/
  indent : Nat
  atEnd : Bool

/-- Looks past blank lines and comments. `indent` counts the blanks of the current line. -/
def lookAhead (comment : Option Nat) (indent : Nat) : Nat → List Char → Ahead
  | 0, _ => ⟨comment, 0, true⟩
  | _, [] => ⟨comment, 0, true⟩
  | fuel + 1, c :: rest =>
      if c == '\n' then lookAhead comment 0 fuel rest
      else if c == ' ' then lookAhead comment (indent + 1) fuel rest
      else if c == '\t' then lookAhead comment (indent + 8) fuel rest
      else if c == '\r' || c == '\x0c' then lookAhead comment 0 fuel rest
      else if c == '#' then
        lookAhead (comment.or (some indent)) 0 fuel (rest.drop (restOfLine rest))
      else if c == '\\' then
        match rest with
        | '\n' :: rest => lookAhead comment indent fuel rest
        | _ => ⟨comment, indent, false⟩
      else ⟨comment, indent, false⟩

def ahead : Parser Ahead := do
  next
  let cursor ← get
  return lookAhead none 0 cursor.remaining cursor.rest

def enterLine : Parser Unit :=
  modify (fun cursor =>
    { ({ cursor with nesting := cursor.nesting + 1 }).skipAll trivia with nesting := cursor.nesting })

def passComment : Parser Nat := do
  modify (fun cursor =>
    { cursor with rest := cursor.rest.dropWhile (· != '#')
                  position := cursor.position + (cursor.rest.takeWhile (· != '#')).length })
  modify (fun cursor => cursor.skipComment "comment" (restOfLine cursor.rest))
  return (← get).position

def atLineEnd : Parser Bool := do
  match ← upcoming with
  | [] | '\n' :: _ => return true
  | _ => return false

def lineEnd (stop : Nat) : Parser Nat := do
  let before := (← get).comments.length
  next
  let cursor ← get
  match cursor.comments.head? with
  | some comment =>
      return if before < cursor.comments.length then max stop comment.stop else stop
  | none => return stop

def dottedName : Parser Node := do
  let first ← identifier
  let others ← Parser.many (do
    let dot ← symbol "."
    return [dot, ← identifier])
  return Node.branch "dotted_name" (first :: others.flatten)

def importItem : Parser Node := do
  let given ← dottedName
  match ← Parser.optional (keyword "as") with
  | none => return given.inField "name"
  | some mark =>
      let newName ← inField "alias" identifier
      return (Node.branch "aliased_import" [given.inField "name", mark, newName]).inField "name"

def importStatement : Parser Node := do
  let mark ← keyword "import"
  let items ← commaSeparated importItem
  return Node.branch "import_statement" (mark :: items)

def relativeImport : Parser Node := do
  let dots ← Parser.many (Parser.orElse (symbol "...") (symbol "."))
  Parser.guardThat !dots.isEmpty
  let start := Node.branch "import_prefix" dots
  let given ← optionalNode (do
    Parser.guardThat ((← upcomingWord) != "import")
    dottedName)
  return Node.branch "relative_import" (start :: given)

def importList : Parser (List Node) :=
  Parser.orElse (do
    let left ← opening "("
    let items ← commaSeparated importItem
    let right ← closing ")"
    return [left] ++ items ++ [right]) (commaSeparated importItem)

def wildcardImport : Parser Node := do
  let star ← symbol "*"
  return Node.leaf "wildcard_import" star.start star.stop

def fromStatement : Parser Node := do
  let mark ← keyword "from"
  match ← Parser.optional (keyword "__future__") with
  | some module =>
      let second ← keyword "import"
      let items ← importList
      return Node.branch "future_import_statement" ([mark, module, second] ++ items)
  | none =>
      let module ← inField "module_name" (Parser.orElse relativeImport dottedName)
      let second ← keyword "import"
      let items ← Parser.orElse (return [← wildcardImport]) importList
      return Node.branch "import_from_statement" ([mark, module, second] ++ items)

/-- Expressions with commas, as one node. -/
def expressionList (rules : Rules) (kind : String) : Parser Node := do
  let items ← commaSeparated (element rules)
  match items with
  | [single] => return single
  | [] => Parser.failure
  | _ => return Node.branch kind items

def augmentedOperators : List String :=
  ["+=", "-=", "*=", "/=", "//=", "%=", "**=", "@=", "&=", "|=", "^=", "<<=", ">>="]

def assigned (rules : Rules) : Nat → Parser Node
  | 0 => Parser.failure
  | fuel + 1 => do
      let value ← Parser.orElse (yielded rules) (expressionList rules "expression_list")
      match ← Parser.optional (symbol "=") with
      | none => return value
      | some mark =>
          let right ← inField "right" (assigned rules fuel)
          return Node.branch "assignment" [value.inField "left", mark, right]

def annotatedAssignment (rules : Rules) (left : Node) : Parser Node := do
  let colon ← symbol ":"
  let type ← inField "type" (rules .type)
  let value ← optionalList (do
    let mark ← symbol "="
    return [mark, ← inField "right" (assigned rules (← get).remaining)])
  return Node.branch "assignment" ([left.inField "left", colon, type] ++ value)

def expressionStatement (rules : Rules) : Parser Node := do
  match ← Parser.optional (yielded rules) with
  | some value => return Node.branch "expression_statement" [value]
  | none =>
      let items ← commaSeparated (element rules)
      Parser.guardThat !items.isEmpty
      let left := match items with
        | [single] => single
        | _ => Node.branch "pattern_list" items
      match symbolAt (← upcoming) with
      | "=" =>
          let mark ← symbol "="
          let right ← inField "right" (assigned rules (← get).remaining)
          return Node.branch "expression_statement"
            [Node.branch "assignment" [left.inField "left", mark, right]]
      | ":" => return Node.branch "expression_statement" [← annotatedAssignment rules left]
      | text =>
          if augmentedOperators.contains text then
            let mark ← symbol text
            let right ← inField "right" (assigned rules (← get).remaining)
            return Node.branch "expression_statement" [Node.branch "augmented_assignment"
              [left.inField "left", mark.inField "operator", right]]
          else return Node.branch "expression_statement" items

def wordStatement (rules : Rules) (word kind : String) : Parser Node := do
  let mark ← keyword word
  let items ← commaSeparated (element rules)
  return Node.branch kind (mark :: items)

def raiseStatement (rules : Rules) : Parser Node := do
  let mark ← keyword "raise"
  let items ← commaSeparated (rules .expression)
  let cause ← optionalList (do
    let second ← keyword "from"
    return [second, ← inField "cause" (rules .expression)])
  return Node.branch "raise_statement" ([mark] ++ items ++ cause)

def typeAlias (rules : Rules) : Parser Node := do
  let mark ← keyword "type"
  let left ← inField "left" (rules .type)
  let equals ← symbol "="
  let right ← inField "right" (rules .type)
  return Node.branch "type_alias_statement" [mark, left, equals, right]

def simpleStatement (rules : Rules) : Parser Node := do
  match ← upcomingWord with
  | "import" => importStatement
  | "from" => fromStatement
  | "pass" => wordStatement rules "pass" "pass_statement"
  | "break" => wordStatement rules "break" "break_statement"
  | "continue" => wordStatement rules "continue" "continue_statement"
  | "return" => wordStatement rules "return" "return_statement"
  | "del" => wordStatement rules "del" "delete_statement"
  | "global" => wordStatement rules "global" "global_statement"
  | "nonlocal" => wordStatement rules "nonlocal" "nonlocal_statement"
  | "assert" => wordStatement rules "assert" "assert_statement"
  | "raise" => raiseStatement rules
  | "type" => Parser.orElse (typeAlias rules) (expressionStatement rules)
  | _ => expressionStatement rules

def simpleStatements (rules : Rules) : Parser (List Node) := do
  let (nodes, _) ← Parser.loop (([] : List Node), true) (fun (read, wanted) => do
    if !wanted || (← atLineEnd) then return none
    let node ← simpleStatement rules
    match ← Parser.optional (symbol ";") with
    | some mark => return some (mark :: node :: read, true)
    | none => return some (node :: read, false))
  Parser.guardThat (!nodes.isEmpty && (← atLineEnd))
  return nodes.reverse

structure BlockScan where
  statements : List Node
  stop : Nat
  finished : Bool

def blockStep (rules : Rules) (indent : Nat) (scan : BlockScan) : Parser (Option BlockScan) := do
  if scan.finished then return none
  let stop ← lineEnd scan.stop
  let following ← ahead
  if !following.atEnd && indent ≤ following.indent then
    enterLine
    let statement ← rules (.statement indent)
    return some { scan with statements := statement :: scan.statements, stop := statement.stop }
  else if following.comment.any (fun comment => decide (indent ≤ comment)) then
    let stop ← passComment
    return some { scan with stop := stop }
  else return some { scan with stop := stop, finished := true }

def indentedBlock (rules : Rules) (outer : Nat) : Parser Node := do
  let following ← ahead
  Parser.guardThat (!following.atEnd && outer < following.indent)
  enterLine
  let start := (← get).position
  let scan ← Parser.loop (⟨[], start, false⟩ : BlockScan) (blockStepFrom start following.indent)
  return { Node.leaf "block" start scan.stop with
    field := some "body", children := scan.statements.reverse.flatMap spread }
  where
    blockStepFrom (start indent : Nat) (scan : BlockScan) : Parser (Option BlockScan) := do
      if scan.statements.isEmpty && (← get).position = start then
        let statement ← rules (.statement indent)
        return some { scan with statements := [statement], stop := statement.stop }
      else blockStep rules indent scan
    /-- Several statements of one line are read as one node. -/
    spread (node : Node) : List Node :=
      if node.kind == "line" then node.children else [node]

def suite (rules : Rules) (indent : Nat) : Parser Node := do
  if ← atLineEnd then indentedBlock rules indent
  else
    let nodes ← simpleStatements rules
    let block := Node.branch "block" nodes
    let stop ← lineEnd block.stop
    return { block with stop := stop, field := some "body" }

def clauseAt (indent : Nat) (words : List String) : Parser Unit := do
  let following ← ahead
  Parser.guardThat (!following.atEnd && following.indent == indent)
  enterLine
  Parser.guardThat (words.contains (← upcomingWord))

def elseClause (rules : Rules) (indent : Nat) : Parser Node := do
  clauseAt indent ["else"]
  let mark ← keyword "else"
  let colon ← symbol ":"
  let body ← suite rules indent
  return (Node.branch "else_clause" [mark, colon, body]).inField "alternative"

def elifClause (rules : Rules) (indent : Nat) : Parser Node := do
  clauseAt indent ["elif"]
  let mark ← keyword "elif"
  let condition ← inField "condition" (element rules)
  let colon ← symbol ":"
  let body ← suite rules indent
  return (Node.branch "elif_clause" [mark, condition, colon, body]).inField "alternative"

def ifStatement (rules : Rules) (indent : Nat) : Parser Node := do
  let mark ← keyword "if"
  let condition ← inField "condition" (element rules)
  let colon ← symbol ":"
  let body ← suite rules indent
  let others ← Parser.many (elifClause rules indent)
  let last ← optionalNode (elseClause rules indent)
  return Node.branch "if_statement"
    ([mark, condition, colon, body.inField "consequence"] ++ others ++ last)

def whileStatement (rules : Rules) (indent : Nat) : Parser Node := do
  let mark ← keyword "while"
  let condition ← inField "condition" (element rules)
  let colon ← symbol ":"
  let body ← suite rules indent
  let last ← optionalNode (elseClause rules indent)
  return Node.branch "while_statement" ([mark, condition, colon, body] ++ last)

def forStatement (rules : Rules) (indent : Nat) (asyncMark : List Node) : Parser Node := do
  let mark ← keyword "for"
  let left ← inField "left" (targets rules)
  let inMark ← keyword "in"
  let right ← inField "right" (expressionList rules "expression_list")
  let colon ← symbol ":"
  let body ← suite rules indent
  let last ← optionalNode (elseClause rules indent)
  return Node.branch "for_statement" (asyncMark ++ [mark, left, inMark, right, colon, body] ++ last)

def exceptClause (rules : Rules) (indent : Nat) : Parser Node := do
  clauseAt indent ["except"]
  let mark ← keyword "except"
  let star ← optionalNode (symbol "*")
  let caught ← optionalNode (expressionList rules "expression_list")
  let newName ← optionalList (do
    let second ← keyword "as"
    return [second, ← identifier])
  let colon ← symbol ":"
  let body ← suite rules indent
  return Node.branch "except_clause" ([mark] ++ star ++ caught ++ newName ++ [colon, body])

def finallyClause (rules : Rules) (indent : Nat) : Parser Node := do
  clauseAt indent ["finally"]
  let mark ← keyword "finally"
  let colon ← symbol ":"
  let body ← suite rules indent
  return Node.branch "finally_clause" [mark, colon, body]

def tryStatement (rules : Rules) (indent : Nat) : Parser Node := do
  let mark ← keyword "try"
  let colon ← symbol ":"
  let body ← suite rules indent
  let handlers ← Parser.many (exceptClause rules indent)
  let other ← optionalNode (elseClause rules indent)
  let last ← optionalNode (finallyClause rules indent)
  return Node.branch "try_statement" ([mark, colon, body] ++ handlers ++ other ++ last)

def withItem (rules : Rules) : Parser Node := do
  let value ← element rules
  match ← Parser.optional (keyword "as") with
  | none => return Node.branch "with_item" [value]
  | some mark =>
      let target ← rules (.binary 0)
      return Node.branch "with_item" [Node.branch "as_pattern" [value, mark, target]]

def withItems (rules : Rules) : Parser (List Node) :=
  Parser.orElse (do
    let left ← opening "("
    let items ← commaSeparated (withItem rules)
    let right ← closing ")"
    Parser.guardThat (symbolAt (← upcoming) == ":")
    return [left] ++ items ++ [right]) (commaSeparated (withItem rules))

def withStatement (rules : Rules) (indent : Nat) (asyncMark : List Node) : Parser Node := do
  let mark ← keyword "with"
  let items ← withItems rules
  Parser.guardThat !items.isEmpty
  let colon ← symbol ":"
  let body ← suite rules indent
  return Node.branch "with_statement"
    (asyncMark ++ [mark, Node.branch "with_clause" items, colon, body])

def functionDefinition (rules : Rules) (indent : Nat) (asyncMark : List Node) : Parser Node := do
  let mark ← keyword "def"
  let given ← inField "name" identifier
  let types ← optionalNode (inField "type_parameters" (typeParameters (boundedType rules)))
  let arguments ← parameters rules
  let result ← optionalList (do
    let arrow ← symbol "->"
    return [arrow, ← inField "return_type" (rules .type)])
  let colon ← symbol ":"
  let body ← suite rules indent
  return Node.branch "function_definition"
    (asyncMark ++ [mark, given] ++ types ++ [arguments] ++ result ++ [colon, body])

def classDefinition (rules : Rules) (indent : Nat) : Parser Node := do
  let mark ← keyword "class"
  let given ← inField "name" identifier
  let types ← optionalNode (inField "type_parameters" (typeParameters (boundedType rules)))
  let bases ← optionalNode (inField "superclasses" (argumentList rules))
  let colon ← symbol ":"
  let body ← suite rules indent
  return Node.branch "class_definition" ([mark, given] ++ types ++ bases ++ [colon, body])

def asynchronous (rules : Rules) (indent : Nat) : Parser Node := do
  let mark ← keyword "async"
  Parser.firstOf [functionDefinition rules indent [mark], forStatement rules indent [mark],
    withStatement rules indent [mark]]

def decorator (rules : Rules) : Parser Node := do
  let mark ← symbol "@"
  let value ← element rules
  let node := Node.branch "decorator" [mark, value]
  let stop ← lineEnd node.stop
  return { node with stop := stop }

def decoratedDefinition (rules : Rules) (indent : Nat) : Parser Node := do
  let decorators ← Parser.many (do
    let node ← decorator rules
    enterLine
    return node)
  Parser.guardThat !decorators.isEmpty
  let definition ← inField "definition" (Parser.firstOf [functionDefinition rules indent [],
    classDefinition rules indent, asynchronous rules indent])
  return Node.branch "decorated_definition" (decorators ++ [definition])

/-- The length of the patterns of a case: up to a colon or a guard outside all brackets. -/
def patternLength : Nat → Nat → Bool → List Char → Nat
  | 0, _, _, _ => 0
  | _, _, _, [] => 0
  | fuel + 1, depth, inWord, c :: rest =>
      if c == '"' || c == '\'' then
        let body := rest.takeWhile (· != c)
        body.length + 2 + patternLength fuel depth false (rest.drop (body.length + 1))
      else if depth = 0 && c == ':' then 0
      else if depth = 0 && !inWord && String.ofList (nameText (c :: rest)) == "if" then 0
      else
        let depth :=
          if "([\x7b".toList.contains c then depth + 1
          else if ")]\x7d".toList.contains c then depth - 1
          else depth
        patternLength fuel depth (isNamePart c) rest + 1

def caseClause (rules : Rules) (indent : Nat) : Parser Node := do
  let mark ← keyword "case"
  let text ← upcoming
  let length := patternLength (← get).remaining 0 false text
  let solid := (Text.trimEndBy Text.isBlank (text.take length)).length
  Parser.guardThat (solid != 0)
  let (start, stop) ← Parser.take solid
  let guarded ← optionalNode (inField "guard" (ifClause rules))
  let colon ← symbol ":"
  let body ← suite rules indent
  return Node.branch "case_clause" ([mark, Node.leaf "case_pattern" start stop] ++ guarded ++
    [colon, body.inField "consequence"])

def matchStatement (rules : Rules) (indent : Nat) : Parser Node := do
  let mark ← keyword "match"
  let subjects ← commaSeparated (element rules)
  Parser.guardThat !subjects.isEmpty
  let colon ← symbol ":"
  Parser.guardThat (← atLineEnd)
  let following ← ahead
  Parser.guardThat (!following.atEnd && indent < following.indent)
  let cases ← Parser.many (do
    clauseAt following.indent ["case"]
    caseClause rules following.indent)
  Parser.guardThat !cases.isEmpty
  let body := (Node.branch "block" cases).inField "body"
  return Node.branch "match_statement" ([mark] ++ subjects ++ [colon, body])

def statementLine (rules : Rules) : Parser Node := do
  match ← simpleStatements rules with
  | [single] => return single
  | nodes => return Node.branch "line" nodes

def statement (rules : Rules) (indent : Nat) : Parser Node := do
  if symbolAt (← upcoming) == "@" then decoratedDefinition rules indent
  else
    match ← upcomingWord with
    | "if" => ifStatement rules indent
    | "while" => whileStatement rules indent
    | "for" => forStatement rules indent []
    | "try" => tryStatement rules indent
    | "with" => withStatement rules indent []
    | "def" => functionDefinition rules indent []
    | "class" => classDefinition rules indent
    | "async" => asynchronous rules indent
    | "match" => Parser.orElse (matchStatement rules indent) (statementLine rules)
    | _ => statementLine rules

def rule (rules : Rules) : Goal → Parser Node
  | .expression => expression rules
  | .disjunction => disjunction rules
  | .binary level => binary rules level
  | .unary => unary rules
  | .type => type rules
  | .statement indent => statement rules indent

def read : Nat → Goal → Parser Node
  | 0, _ => Parser.failure
  | depth + 1, goal => rule (read depth) goal

def module : Parser Node := do
  let length := (← get).size
  let rules := read (16 * (length + 1))
  let statements ← Parser.many (do
    let following ← ahead
    Parser.guardThat !following.atEnd
    enterLine
    rules (.statement following.indent))
  enterLine
  let cursor ← get
  let root : Node :=
    { kind := "module", named := true, field := none, start := 0, stop := length
      children := statements.flatMap
        (fun node => if node.kind == "line" then node.children else [node]) }
  return root.attachAll cursor.comments.reverse

def tree (text : List Char) : Node :=
  match module (Cursor.start text) with
  | some (root, _) => root
  | none => Node.leaf "module" 0 text.length

end CodeGraph.Syntax.Python
