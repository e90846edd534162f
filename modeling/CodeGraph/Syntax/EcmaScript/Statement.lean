import CodeGraph.Syntax.EcmaScript.Expression

set_option autoImplicit false

namespace CodeGraph.Syntax.EcmaScript.Grammar

def block (grammar : Grammar) : Parser Node := do
  let left ← symbol "\x7b"
  let statements ← Parser.many (grammar.read .statement)
  let right ← symbol "\x7d"
  return Node.branch "statement_block" (left :: statements ++ [right])

/-- A function with a name. Without a body it is a signature, which ends like a statement. -/
def functionDeclaration (grammar : Grammar) : Parser Node := do
  let asyncMark ← optionalNode (keyword "async")
  let mark ← keyword "function"
  let star ← optionalNode (symbol "*")
  let given ← inField "name" identifier
  let signature ← callSignature grammar
  let start := asyncMark ++ [mark] ++ star ++ [given] ++ signature
  match ← Parser.optional (functionBody grammar) with
  | some body =>
      let kind := if star.isEmpty then "function_declaration" else "generator_function_declaration"
      return Node.branch kind (start ++ [body])
  | none =>
      Parser.guardThat grammar.typed
      return Node.branch "function_signature" (start ++ (← terminator))

def classDeclaration (grammar : Grammar) : Parser Node := do
  let decorations ← decorators grammar
  let abstractMark ← optionalNode (grammar.whenTyped (keyword "abstract"))
  let mark ← keyword "class"
  let tail ← classTail grammar (operand grammar false)
  Parser.guardThat (tail.any (·.field == some "name"))
  let kind := if abstractMark.isEmpty then "class_declaration" else "abstract_class_declaration"
  return Node.branch kind (decorations ++ abstractMark ++ [mark] ++ tail)

def declarator (grammar : Grammar) (allowIn : Bool) : Parser Node := do
  let target ← inField "name" (grammar.read .pattern)
  let mark ← optionalNode (grammar.whenTyped (symbol "!"))
  let type ← optionalNode (grammar.whenTyped (inField "type" (typeAnnotated grammar)))
  let value ← optionalList (grammar.initializer allowIn)
  return Node.branch "variable_declarator" ([target] ++ mark ++ type ++ value)

def declarationStart : Parser (String × Node) := do
  match ← upcomingWord with
  | "var" => return ("variable_declaration", ← keyword "var")
  | "const" => return ("lexical_declaration", (← keyword "const").inField "kind")
  | "let" =>
      let mark ← keyword "let"
      let text ← upcoming
      Parser.guardThat (Text.startsWith ['['] text || Text.startsWith ['\x7b'] text ||
        !(nameText text).isEmpty)
      return ("lexical_declaration", mark.inField "kind")
  | _ => Parser.failure

def declarators (grammar : Grammar) (allowIn : Bool) : Parser Node := do
  let (kind, mark) ← declarationStart
  let items ← commaSeparated (declarator grammar allowIn)
  Parser.guardThat !items.isEmpty
  return Node.branch kind (mark :: items)

def variableDeclaration (grammar : Grammar) : Parser Node := do
  let start ← declarators grammar true
  let finish ← terminator
  return Node.branch start.kind (start.children ++ finish)

/-- A word that opens a declaration only when a name follows on its line. -/
def openingWord (text : String) : Parser Node := do
  let mark ← keyword text
  next
  Parser.guardThat !(← get).broken
  return mark

def interfaceBase (grammar : Grammar) : Parser Node :=
  inField "type" (typeName grammar)

def interfaceDeclaration (grammar : Grammar) : Parser Node := do
  let mark ← openingWord "interface"
  let given ← inField "name" typeIdentifier
  let types ← optionalNode (typeParameters grammar)
  let bases ← optionalNode (do
    let mark ← keyword "extends"
    let items ← commaSeparated (interfaceBase grammar)
    return Node.branch "extends_type_clause" (mark :: items))
  let body ← objectType grammar
  return Node.branch "interface_declaration"
    ([mark, given] ++ types ++ bases ++ [(body.ofKind "interface_body").inField "body"])

def aliasDeclaration (grammar : Grammar) : Parser Node := do
  let mark ← openingWord "type"
  let given ← inField "name" typeIdentifier
  let types ← optionalNode (typeParameters grammar)
  let equals ← symbol "="
  let value ← inField "value" (grammar.read .type)
  let finish ← terminator
  return Node.branch "type_alias_declaration" ([mark, given] ++ types ++ [equals, value] ++ finish)

def enumItem (grammar : Grammar) : Parser Node := do
  let property ← inField "name" (propertyName grammar)
  match ← Parser.optional (grammar.initializer true) with
  | none => return property
  | some value => return Node.branch "enum_assignment" (property :: value)

def enumDeclaration (grammar : Grammar) : Parser Node := do
  let constant ← optionalNode (keyword "const")
  let mark ← keyword "enum"
  let given ← inField "name" identifier
  let left ← symbol "\x7b"
  let items ← commaSeparated (enumItem grammar)
  let right ← symbol "\x7d"
  let body := (Node.branch "enum_body" (left :: items ++ [right])).inField "body"
  return Node.branch "enum_declaration" (constant ++ [mark, given, body])

def dottedName : Parser Node := do
  let first ← identifier
  Parser.loop first (fun object => do
    match ← Parser.optional (symbol ".") with
    | none => return none
    | some dot => return some (qualify object dot (← word "property_identifier")))

def moduleTail (grammar : Grammar) : Parser (List Node) := do
  let given ← inField "name" (Parser.orElse string dottedName)
  let body ← optionalNode (functionBody grammar)
  return given :: body

def moduleDeclaration (grammar : Grammar) : Parser Node := do
  let mark ← openingWord "module"
  return Node.branch "module" (mark :: (← moduleTail grammar))

def namespaceDeclaration (grammar : Grammar) : Parser Node := do
  let mark ← openingWord "namespace"
  return Node.branch "internal_module" (mark :: (← moduleTail grammar))

def importAlias : Parser Node := do
  let mark ← keyword "import"
  let given ← identifier
  let equals ← symbol "="
  let target ← dottedName
  let finish ← terminator
  return Node.branch "import_alias" ([mark, given, equals, target] ++ finish)

def declaration (grammar : Grammar) : Parser Node :=
  Parser.firstOf [functionDeclaration grammar, classDeclaration grammar,
    grammar.whenTyped (enumDeclaration grammar), variableDeclaration grammar,
    grammar.whenTyped (Parser.firstOf [interfaceDeclaration grammar, aliasDeclaration grammar,
      moduleDeclaration grammar, namespaceDeclaration grammar, importAlias])]

def ambientDeclaration (grammar : Grammar) : Parser Node := do
  let mark ← openingWord "declare"
  let declared ← Parser.orElse (return [← declaration grammar]) (do
    let mark ← keyword "global"
    let body ← grammar.read .block
    return [mark, body])
  return Node.branch "ambient_declaration" (mark :: declared)

def fromClause : Parser (List Node) := do
  let mark ← keyword "from"
  return [mark, ← inField "source" string]

def moduleName : Parser Node :=
  Parser.orElse (word "identifier") string

/-- `type` and `typeof` before a specifier, when a name follows that is not `as` alone. -/
def typeMark (grammar : Grammar) : Parser (List Node) :=
  optionalNode (grammar.whenTyped (do
    let text ← upcomingWord
    Parser.guardThat (text == "type" || text == "typeof")
    let mark ← keyword text
    let _ ← Parser.ahead (do
      let following ← upcomingWord
      if following == "as" then
        let _ ← keyword "as"
        let second ← upcomingWord
        -- `type as` names a thing called `type`, `type as as x` a type called `as`.
        Parser.guardThat (second == "as" || second == "")
      else
        let _ ← moduleName)
    return mark))

def renamed (kind : String) (grammar : Grammar) : Parser Node := do
  let mark ← typeMark grammar
  let given ← inField "name" moduleName
  let newName ← optionalList (do
    let mark ← keyword "as"
    return [mark, ← inField "alias" moduleName])
  return Node.branch kind (mark ++ [given] ++ newName)

def braced (kind : String) (item : Parser Node) : Parser Node := do
  let left ← symbol "\x7b"
  let items ← commaSeparated item
  let right ← symbol "\x7d"
  return Node.branch kind (left :: items ++ [right])

def namespaceImport : Parser Node := do
  let star ← symbol "*"
  let mark ← keyword "as"
  let given ← identifier
  return Node.branch "namespace_import" [star, mark, given]

def importBindings (grammar : Grammar) : Parser Node :=
  Parser.orElse namespaceImport (braced "named_imports" (renamed "import_specifier" grammar))

def importClause (grammar : Grammar) : Parser Node :=
  Parser.orElse (return Node.branch "import_clause" [← importBindings grammar]) (do
    let given ← identifier
    let others ← optionalList (do
      let comma ← symbol ","
      return [comma, ← importBindings grammar])
    return Node.branch "import_clause" (given :: others))

def importAttribute (grammar : Grammar) : Parser Node := do
  let mark ← Parser.orElse (keyword "with") (keyword "assert")
  let value ← object grammar
  return Node.branch "import_attribute" [mark, value]

def requireClause : Parser Node := do
  let given ← identifier
  let equals ← symbol "="
  let mark ← keyword "require"
  let left ← symbol "("
  let source ← inField "source" string
  let right ← symbol ")"
  return Node.branch "import_require_clause" [given, equals, mark, left, source, right]

def importBody (grammar : Grammar) : Parser (List Node) :=
  Parser.firstOf [grammar.whenTyped (return [← requireClause]), do
      let clause ← importClause grammar
      return clause :: (← fromClause),
    return [← inField "source" string]]

def importStatement (grammar : Grammar) : Parser Node := do
  let mark ← keyword "import"
  let body ← Parser.orElse (importBody grammar) (do
    let text ← upcomingWord
    Parser.guardThat (grammar.typed && (text == "type" || text == "typeof"))
    let mark ← keyword text
    return mark :: (← importBody grammar))
  let attributes ← optionalNode (importAttribute grammar)
  let finish ← terminator
  return Node.branch "import_statement" ([mark] ++ body ++ attributes ++ finish)

def exportClause (grammar : Grammar) : Parser Node :=
  braced "export_clause" (renamed "export_specifier" grammar)

def namespaceExport : Parser Node := do
  let star ← symbol "*"
  let mark ← keyword "as"
  let given ← moduleName
  return Node.branch "namespace_export" [star, mark, given]

def exportList (grammar : Grammar) : Parser (List Node) := do
  let mark ← optionalNode (grammar.whenTyped (keyword "type"))
  let body ← Parser.firstOf [do
      let whole ← namespaceExport
      return whole :: (← fromClause), do
      let star ← symbol "*"
      return star :: (← fromClause), do
      let clause ← exportClause grammar
      return clause :: (← optionalList fromClause)]
  let attributes ← optionalNode (importAttribute grammar)
  return mark ++ body ++ attributes ++ (← terminator)

def exportDefault (grammar : Grammar) : Parser (List Node) := do
  let mark ← keyword "default"
  let body ← Parser.orElse (return [← inField "declaration" (Parser.firstOf [
      functionDeclaration grammar, classDeclaration grammar,
      grammar.whenTyped (interfaceDeclaration grammar)])]) (do
    let value ← inField "value" grammar.assignment
    return value :: (← terminator))
  return mark :: body

def exportTyped (grammar : Grammar) : Parser (List Node) :=
  grammar.whenTyped (Parser.firstOf [do
      let mark ← symbol "="
      let value ← grammar.expression
      return [mark, value] ++ (← terminator), do
      let mark ← keyword "as"
      let second ← keyword "namespace"
      let given ← identifier
      return [mark, second, given] ++ (← terminator), do
      let newName ← importAlias
      return [newName]])

def exportStatement (grammar : Grammar) : Parser Node := do
  let decorations ← decorators grammar
  let mark ← keyword "export"
  let body ← Parser.firstOf [exportDefault grammar, exportList grammar, exportTyped grammar,
    return [← inField "declaration" (Parser.orElse (declaration grammar)
      (grammar.whenTyped (ambientDeclaration grammar)))]]
  return Node.branch "export_statement" (decorations ++ [mark] ++ body)

def condition (grammar : Grammar) : Parser Node := do
  let left ← symbol "("
  let value ← grammar.expression
  let right ← symbol ")"
  return (Node.branch "parenthesized_expression" [left, value, right]).inField "condition"

def ifStatement (grammar : Grammar) : Parser Node := do
  let mark ← keyword "if"
  let test ← condition grammar
  let consequence ← inField "consequence" (grammar.read .statement)
  let alternative ← optionalNode (do
    let mark ← keyword "else"
    let body ← grammar.read .statement
    return (Node.branch "else_clause" [mark, body]).inField "alternative")
  return Node.branch "if_statement" ([mark, test, consequence] ++ alternative)

def forHead (grammar : Grammar) : Parser (List Node) := do
  let kind ← optionalNode (return (← declarationStart).2)
  let target ← inField "left" (Parser.orElse (do
    let target ← grammar.read .pattern
    Parser.guardThat (["in", "of"].contains (← upcomingWord))
    return target) (operand grammar false))
  let text ← upcomingWord
  Parser.guardThat (text == "in" || text == "of")
  let mark ← keyword text
  let source ← inField "right" grammar.expression
  return kind ++ [target, mark.inField "operator", source]

def forStatement (grammar : Grammar) : Parser Node := do
  let mark ← keyword "for"
  let awaitMark ← optionalNode (keyword "await")
  let left ← symbol "("
  match ← Parser.optional (forHead grammar) with
  | some head =>
      let right ← symbol ")"
      let body ← inField "body" (grammar.read .statement)
      return Node.branch "for_in_statement" ([mark] ++ awaitMark ++ [left] ++ head ++ [right, body])
  | none =>
      let start ← optionalNode (inField "initializer"
        (Parser.orElse (declarators grammar false) (grammar.read (.expression false))))
      let first ← symbol ";"
      let test ← optionalNode (inField "condition" grammar.expression)
      let second ← symbol ";"
      let step ← optionalNode (inField "increment" grammar.expression)
      let right ← symbol ")"
      let body ← inField "body" (grammar.read .statement)
      return Node.branch "for_statement"
        ([mark, left] ++ start ++ [first] ++ test ++ [second] ++ step ++ [right, body])

def whileStatement (grammar : Grammar) : Parser Node := do
  let mark ← keyword "while"
  let test ← condition grammar
  let body ← inField "body" (grammar.read .statement)
  return Node.branch "while_statement" [mark, test, body]

def doStatement (grammar : Grammar) : Parser Node := do
  let mark ← keyword "do"
  let body ← inField "body" (grammar.read .statement)
  let second ← keyword "while"
  let test ← condition grammar
  return Node.branch "do_statement" ([mark, body, second, test] ++ (← terminator))

def catchClause (grammar : Grammar) : Parser Node := do
  let mark ← keyword "catch"
  let parameter ← optionalList (do
    let left ← symbol "("
    let target ← inField "parameter" (grammar.read .pattern)
    let type ← optionalNode (grammar.whenTyped (inField "type" (typeAnnotated grammar)))
    let right ← symbol ")"
    return [left, target] ++ type ++ [right])
  let body ← functionBody grammar
  return (Node.branch "catch_clause" ([mark] ++ parameter ++ [body])).inField "handler"

def tryStatement (grammar : Grammar) : Parser Node := do
  let mark ← keyword "try"
  let body ← functionBody grammar
  let handler ← optionalNode (catchClause grammar)
  let finalizer ← optionalNode (do
    let mark ← keyword "finally"
    let body ← functionBody grammar
    return (Node.branch "finally_clause" [mark, body]).inField "finalizer")
  return Node.branch "try_statement" ([mark, body] ++ handler ++ finalizer)

def switchCase (grammar : Grammar) : Parser Node := do
  let head ← Parser.orElse (do
    let mark ← keyword "case"
    let value ← inField "value" grammar.expression
    return ("switch_case", [mark, value])) (return ("switch_default", [← keyword "default"]))
  let colon ← symbol ":"
  let body ← Parser.many (grammar.read .statement)
  return Node.branch head.1 (head.2 ++ [colon] ++ body)

def switchStatement (grammar : Grammar) : Parser Node := do
  let mark ← keyword "switch"
  let value ← condition grammar
  let left ← symbol "\x7b"
  let cases ← Parser.many (switchCase grammar)
  let right ← symbol "\x7d"
  let body := (Node.branch "switch_body" (left :: cases ++ [right])).inField "body"
  return Node.branch "switch_statement" [mark, value.inField "value", body]

def wordStatement (text kind : String) (operand : Parser Node) : Parser Node := do
  let mark ← keyword text
  let following ← upcoming
  let value ←
    if (← get).broken || endsOperand following then pure [] else optionalNode operand
  return Node.branch kind (mark :: value ++ (← terminator))

def labeledStatement (grammar : Grammar) : Parser Node := do
  let label ← name "statement_identifier"
  let colon ← symbol ":"
  let body ← inField "body" (grammar.read .statement)
  return Node.branch "labeled_statement" [label.inField "label", colon, body]

def expressionStatement (grammar : Grammar) : Parser Node := do
  let value ← Parser.orElse (grammar.whenTyped (namespaceDeclaration grammar)) grammar.expression
  return Node.branch "expression_statement" (value :: (← terminator))

def emptyStatement : Parser Node := do
  let mark ← symbol ";"
  return Node.leaf "empty_statement" mark.start mark.stop

def withStatement (grammar : Grammar) : Parser Node := do
  let mark ← keyword "with"
  let value ← condition grammar
  let body ← inField "body" (grammar.read .statement)
  return Node.branch "with_statement" [mark, value.inField "object", body]

def typedStatement (grammar : Grammar) : Parser Node :=
  grammar.whenTyped (Parser.firstOf [enumDeclaration grammar, interfaceDeclaration grammar,
    aliasDeclaration grammar, moduleDeclaration grammar, ambientDeclaration grammar,
    classDeclaration grammar])

def otherStatement (grammar : Grammar) : Parser Node :=
  Parser.firstOf [typedStatement grammar, labeledStatement grammar, expressionStatement grammar]

def statement (grammar : Grammar) : Parser Node := do
  let text ← upcoming
  match text with
  | '{' :: _ => grammar.read .block
  | ';' :: _ => emptyStatement
  | '@' :: _ => Parser.firstOf [exportStatement grammar, classDeclaration grammar]
  | _ =>
      match ← upcomingWord with
      | "import" => Parser.firstOf [importStatement grammar, grammar.whenTyped importAlias,
          expressionStatement grammar]
      | "export" => exportStatement grammar
      | "function" => functionDeclaration grammar
      | "async" => Parser.orElse (functionDeclaration grammar) (otherStatement grammar)
      | "class" => classDeclaration grammar
      | "var" => variableDeclaration grammar
      | "const" =>
          Parser.orElse (grammar.whenTyped (enumDeclaration grammar)) (variableDeclaration grammar)
      | "let" => Parser.orElse (variableDeclaration grammar) (otherStatement grammar)
      | "if" => ifStatement grammar
      | "for" => forStatement grammar
      | "while" => whileStatement grammar
      | "do" => doStatement grammar
      | "try" => tryStatement grammar
      | "switch" => switchStatement grammar
      | "with" => withStatement grammar
      | "return" => wordStatement "return" "return_statement" grammar.expression
      | "throw" => wordStatement "throw" "throw_statement" grammar.expression
      | "break" => wordStatement "break" "break_statement" (name "statement_identifier")
      | "continue" => wordStatement "continue" "continue_statement" (name "statement_identifier")
      | "debugger" => wordStatement "debugger" "debugger_statement" Parser.failure
      | _ => otherStatement grammar

def rule (grammar : Grammar) : Goal → Parser Node
  | .statement => statement grammar
  | .block => block grammar
  | .expression allowIn => sequence grammar allowIn
  | .assignment allowIn => assignmentRule grammar allowIn
  | .binary level allowIn => binary grammar level allowIn
  | .unary => unary grammar
  | .pattern => pattern grammar
  | .type => conditionalType grammar
  | .plainType => unionType grammar
  | .element => element grammar

end Grammar

def read (typed elements : Bool) : Nat → Goal → Parser Node
  | 0, _ => Parser.failure
  | depth + 1, goal => Grammar.rule ⟨typed, elements, read typed elements depth⟩ goal

def hashBang : Parser Node := do
  let text ← Parser.rest
  Parser.guardThat (Text.startsWith ['#', '!'] text)
  let (start, stop) ← Parser.take (text.takeWhile (· != '\n')).length
  return Node.leaf "hash_bang_line" start stop

def program (typed elements : Bool) : Parser Node := do
  let length := (← Parser.rest).length
  let first ← optionalNode hashBang
  let statements ← Parser.many (read typed elements (16 * (length + 1)) .statement)
  next
  let cursor ← get
  let root : Node :=
    { kind := "program", named := true, field := none, start := 0, stop := length
      children := first ++ statements }
  return root.attachAll cursor.comments.reverse

def tree (typed elements : Bool) (text : List Char) : Node :=
  match program typed elements (Cursor.start text) with
  | some (root, _) => root
  | none => Node.leaf "program" 0 text.length

end CodeGraph.Syntax.EcmaScript
