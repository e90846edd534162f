import CodeGraph.Syntax.EcmaScript.Type

set_option autoImplicit false

namespace CodeGraph.Syntax.EcmaScript.Grammar

def functionBody (grammar : Grammar) : Parser Node :=
  inField "body" (grammar.read .block)

/-- `function`, with its name if it has one. The kind depends on the star after the keyword. -/
def functionExpression (grammar : Grammar) : Parser Node := do
  let asyncMark ← optionalNode (keyword "async")
  let mark ← keyword "function"
  let star ← optionalNode (symbol "*")
  let given ← optionalNode (inField "name" identifier)
  let signature ← callSignature grammar
  let body ← functionBody grammar
  let kind := if star.isEmpty then "function_expression" else "generator_function"
  return Node.branch kind (asyncMark ++ [mark] ++ star ++ given ++ signature ++ [body])

def chained (grammar : Grammar) (primary : Parser Node) (instantiate : Bool) : Parser Node := do
  let first ← primary
  Parser.loop first (fun object => do
    let text ← upcoming
    let broken := (← get).broken
    match symbolAt text with
    | "." =>
        let dot ← symbol "."
        let property ← Parser.orElse (word "property_identifier") privateName
        return some (Node.branch "member_expression"
          [object.inField "object", dot, property.inField "property"])
    | "?." =>
        let mark ← symbol "?."
        let chain := { mark with kind := "optional_chain", named := true, children := [mark] }
        let types ← optionalNode (grammar.whenTyped
          (inField "type_arguments" (typeArguments grammar)))
        match ← Parser.optional (arguments grammar) with
        | some given =>
            return some (Node.branch "call_expression"
              ([object.inField "function", chain.inField "optional_chain"] ++ types ++ [given]))
        | none =>
            match ← Parser.optional (symbol "[") with
            | some left =>
                let index ← inField "index" grammar.expression
                let right ← symbol "]"
                return some (Node.branch "subscript_expression"
                  [object.inField "object", chain.inField "optional_chain", left, index, right])
            | none =>
                let property ← Parser.orElse (word "property_identifier") privateName
                return some (Node.branch "member_expression"
                  [object.inField "object", chain.inField "optional_chain",
                    property.inField "property"])
    | "[" =>
        let left ← symbol "["
        let index ← inField "index" grammar.expression
        let right ← symbol "]"
        return some (Node.branch "subscript_expression" [object.inField "object", left, index, right])
    | "(" =>
        let given ← arguments grammar
        return some (Node.branch "call_expression" [object.inField "function", given])
    | "`" =>
        let given ← template "template_string" "template_substitution" grammar.expression
        return some (Node.branch "call_expression"
          [object.inField "function", given.inField "arguments"])
    | "!" =>
        if grammar.typed && !broken then
          let mark ← symbol "!"
          return some (Node.branch "non_null_expression" [object, mark])
        else return none
    | "<" | "<<" =>
        if !grammar.typed then return none
        Parser.optional (do
          let types ← inField "type_arguments" (typeArguments grammar)
          match ← Parser.optional (arguments grammar) with
          | some given =>
              return Node.branch "call_expression" [object.inField "function", types, given]
          | none =>
              Parser.guardThat instantiate
              let following ← upcoming
              Parser.guardThat (following.isEmpty || (← get).broken ||
                ")]\x7d,;:?=.".toList.contains (following.headD ' '))
              return Node.branch "instantiation_expression" [object, types])
    | _ => return none)

def heritage (grammar : Grammar) (leftHand : Parser Node) : Parser Node :=
  if grammar.typed then do
    let implementsClause : Parser Node := do
      let mark ← keyword "implements"
      let types ← commaSeparated (grammar.read .type)
      return Node.branch "implements_clause" (mark :: types)
    let extendsClause : Parser Node := do
      let mark ← keyword "extends"
      let bases ← commaSeparated leftHand
      let types ← optionalNode (inField "type_arguments" (typeArguments grammar))
      return Node.branch "extends_clause" ([mark] ++ bases.map (·.inField "value") ++ types)
    let parents ← optionalNode extendsClause
    let interfaces ← optionalNode implementsClause
    Parser.guardThat !(parents.isEmpty && interfaces.isEmpty)
    return Node.branch "class_heritage" (parents ++ interfaces)
  else do
    let mark ← keyword "extends"
    let base ← leftHand
    return Node.branch "class_heritage" [mark, base]

def staticBlock (grammar : Grammar) : Parser Node := do
  let mark ← keyword "static"
  let body ← functionBody grammar
  return Node.branch "class_static_block" [mark, body]

def memberModifiers (grammar : Grammar) : Parser (List Node) :=
  Parser.many (modifier (if grammar.typed then
    ["public", "private", "protected", "static", "override", "readonly", "abstract", "declare",
      "async", "accessor", "get", "set"]
    else ["static", "async", "accessor", "get", "set"]))

def classMember (grammar : Grammar) : Parser Node := do
  let modifiers ← memberModifiers grammar
  let star ← optionalNode (symbol "*")
  let property ← inField "name" (propertyName grammar)
  let mark ← optionalNode (grammar.whenTyped (Parser.orElse (symbol "?") (symbol "!")))
  let start := modifiers ++ star ++ [property] ++ mark
  match ← Parser.optional (callSignature grammar) with
  | some signature =>
      match ← Parser.optional (functionBody grammar) with
      | some body => return Node.branch "method_definition" (start ++ signature ++ [body])
      | none =>
          let kind :=
            if modifiers.any (·.kind == "abstract") then "abstract_method_signature"
            else "method_signature"
          return Node.branch kind (start ++ signature)
  | none =>
      let type ← optionalNode (grammar.whenTyped (inField "type" (typeAnnotated grammar)))
      let value ← optionalList (grammar.initializer true)
      let kind := if grammar.typed then "public_field_definition" else "field_definition"
      return Node.branch kind (start ++ type ++ value)

/-- A member with its decorators. Before typed methods they are members of their own. -/
def decoratedMember (grammar : Grammar) : Parser (List Node) := do
  let decorations ← decorators grammar
  let member ← Parser.firstOf [staticBlock grammar, grammar.whenTyped (indexSignature grammar),
    classMember grammar]
  if decorations.isEmpty then return [member]
  else if grammar.typed && member.kind != "public_field_definition" then
    return decorations ++ [member]
  else
    return [{ Node.branch member.kind (decorations ++ member.children) with
      field := member.field }]

def classBody (grammar : Grammar) : Parser Node := do
  let left ← symbol "\x7b"
  let members ← Parser.many (Parser.firstOf [
    return [← symbol ";"], return [← symbol ","], decoratedMember grammar])
  let right ← symbol "\x7d"
  return (Node.branch "class_body" (left :: members.flatten ++ [right])).inField "body"

def classTail (grammar : Grammar) (leftHand : Parser Node) : Parser (List Node) := do
  let given ← optionalNode (inField "name" (do
    Parser.guardThat ((← upcomingWord) != "implements")
    if grammar.typed then typeIdentifier else identifier))
  let types ← optionalNode (grammar.whenTyped (typeParameters grammar))
  let parents ← optionalNode (heritage grammar leftHand)
  let body ← classBody grammar
  return given ++ types ++ parents ++ [body]

def objectItem (grammar : Grammar) : Parser Node :=
  Parser.firstOf [
    do
      let dots ← symbol "..."
      let value ← grammar.assignment
      return Node.branch "spread_element" [dots, value],
    do
      let modifiers ← Parser.many (modifier ["async", "get", "set"])
      let star ← optionalNode (symbol "*")
      let property ← inField "name" (propertyName grammar)
      let signature ← callSignature grammar
      let body ← functionBody grammar
      return Node.branch "method_definition" (modifiers ++ star ++ [property] ++ signature ++ [body]),
    do
      let key ← inField "key" (propertyName grammar)
      let colon ← symbol ":"
      let value ← inField "value" grammar.assignment
      return Node.branch "pair" [key, colon, value],
    do
      let key ← name "shorthand_property_identifier"
      match ← Parser.optional (grammar.initializer true) with
      | none => return key
      | some value => return Node.branch "object_assignment_pattern" (key :: value)]

def object (grammar : Grammar) : Parser Node := do
  let left ← symbol "\x7b"
  let items ← commaSeparated (objectItem grammar)
  let right ← symbol "\x7d"
  return Node.branch "object" (left :: items ++ [right])

def array (grammar : Grammar) : Parser Node := do
  let left ← symbol "["
  let items ← arrayItems (argumentItem grammar)
  let right ← symbol "]"
  return Node.branch "array" (left :: items ++ [right])

def parenthesized (grammar : Grammar) : Parser Node := do
  let left ← symbol "("
  let value ← grammar.expression
  let type ← optionalNode (grammar.whenTyped (inField "type" (typeAnnotated grammar)))
  let right ← symbol ")"
  return Node.branch "parenthesized_expression" ([left, value] ++ type ++ [right])

def importExpression : Parser Node := do
  let mark ← importNode
  match ← Parser.optional (symbol ".") with
  | none => return mark
  | some dot =>
      let property ← keyword "meta"
      return Node.branch "meta_property" [mark, dot, property]

def wordExpression : Parser Node := do
  match ← upcomingWord with
  | "this" => leafWord "this" "this"
  | "super" => leafWord "super" "super"
  | "null" => leafWord "null" "null"
  | "true" => leafWord "true" "true"
  | "false" => leafWord "false" "false"
  | "undefined" => leafWord "undefined" "undefined"
  | "import" => importExpression
  | _ => identifier

def bindingLevel : String → Option Nat
  | "??" => some 1
  | "||" => some 2
  | "&&" => some 3
  | "|" => some 4
  | "^" => some 5
  | "&" => some 6
  | "==" | "!=" | "===" | "!==" => some 7
  | "<" | "<=" | ">" | ">=" | "instanceof" | "in" => some 8
  | "<<" | ">>" | ">>>" => some 9
  | "+" | "-" => some 10
  | "*" | "/" | "%" => some 11
  | "**" => some 12
  | _ => none

def assignmentOperators : List String :=
  ["+=", "-=", "*=", "/=", "%=", "&=", "|=", "^=", "<<=", ">>=", ">>>=", "**=", "&&=", "||=", "??="]

def upcomingOperator : Parser String := do
  let text := nameText (← upcoming)
  if text.isEmpty then return symbolAt (← upcoming) else return String.ofList text

def operator (text : String) : Parser Node :=
  if text.toList.all isNameStart then keyword text else symbol text

def typeOperator (grammar : Grammar) (value : Node) : Parser (Option Node) := do
  let text ← upcomingWord
  if !grammar.typed || (← get).broken || !(text == "as" || text == "satisfies") then return none
  let mark ← keyword text
  let type ← grammar.read .type
  let kind := if text == "as" then "as_expression" else "satisfies_expression"
  return some (Node.branch kind [value, mark, type])

def binary (grammar : Grammar) (level : Nat) (allowIn : Bool) : Parser Node := do
  let first ← grammar.read .unary
  Parser.loop first (fun left => do
    match ← (if level ≤ 8 then typeOperator grammar left else return none) with
    | some whole => return some whole
    | none =>
        let text ← upcomingOperator
        match bindingLevel text with
        | none => return none
        | some own =>
            if own < level || (text == "in" && !allowIn) then return none
            let mark ← operator text
            let right ← grammar.read (.binary (if text == "**" then own else own + 1) allowIn)
            return some (Node.branch "binary_expression"
              [left.inField "left", mark.inField "operator", right.inField "right"]))

def conditional (grammar : Grammar) (allowIn : Bool) : Parser Node := do
  let condition ← grammar.read (.binary 0 allowIn)
  match ← Parser.optional (symbol "?") with
  | none => return condition
  | some question =>
      let upToColon (value : Parser Node) : Parser (Node × Node) := do
        return (← inField "consequence" value, ← symbol ":")
      -- in `a ? (b) : c => d` the colon does not start the result type of an arrow function
      let (consequence, colon) ←
        Parser.orElse (upToColon grammar.assignment) (upToColon (grammar.read (.binary 0 true)))
      let alternative ← inField "alternative" (grammar.read (.assignment allowIn))
      return Node.branch "ternary_expression"
        [condition.inField "condition", question, consequence, colon, alternative]

def arrow (grammar : Grammar) (allowIn : Bool) : Parser Node := do
  let asyncMark ← optionalNode (do
    let mark ← keyword "async"
    next
    Parser.guardThat !(← get).broken
    let text ← upcoming
    Parser.guardThat (Text.startsWith ['('] text || Text.startsWith ['<'] text ||
      !(nameText text).isEmpty)
    return mark)
  let parameters ← Parser.orElse (return [← inField "parameter" identifier]) (callSignature grammar)
  let mark ← symbol "=>"
  let body ← inField "body"
    (Parser.orElse (grammar.read .block) (grammar.read (.assignment allowIn)))
  return Node.branch "arrow_function" (asyncMark ++ parameters ++ [mark, body])

/-- Whether an arrow function may start here: a parenthesis, type parameters or a name. -/
def mayStartArrow (text : List Char) : Bool :=
  match text with
  | '(' :: _ | '<' :: _ => true
  | _ => !(nameText text).isEmpty && !reserved.contains (String.ofList (nameText text))

def endsOperand (text : List Char) : Bool :=
  text.isEmpty || ")]\x7d,;:".toList.contains (text.headD ' ')

def yieldExpression (grammar : Grammar) (allowIn : Bool) : Parser Node := do
  let mark ← keyword "yield"
  let text ← upcoming
  if (← get).broken || endsOperand text then return Node.branch "yield_expression" [mark]
  let star ← optionalNode (symbol "*")
  let value ← grammar.read (.assignment allowIn)
  return Node.branch "yield_expression" ([mark] ++ star ++ [value])

def assignmentExpression (grammar : Grammar) (allowIn : Bool) : Parser Node := do
  let left ← conditional grammar allowIn
  let text := symbolAt (← upcoming)
  if text == "=" then
    let mark ← symbol "="
    let right ← grammar.read (.assignment allowIn)
    return Node.branch "assignment_expression" [left.inField "left", mark, right.inField "right"]
  else if assignmentOperators.contains text then
    let mark ← symbol text
    let right ← grammar.read (.assignment allowIn)
    return Node.branch "augmented_assignment_expression"
      [left.inField "left", mark.inField "operator", right.inField "right"]
  else return left

def assignmentRule (grammar : Grammar) (allowIn : Bool) : Parser Node := do
  let text ← upcoming
  Parser.firstOf [yieldExpression grammar allowIn,
    (do Parser.guardThat (mayStartArrow text); arrow grammar allowIn),
    assignmentExpression grammar allowIn]

def sequence (grammar : Grammar) (allowIn : Bool) : Parser Node := do
  let first ← grammar.read (.assignment allowIn)
  let rest ← Parser.many (do
    let comma ← symbol ","
    return [comma, ← grammar.read (.assignment allowIn)])
  if rest.isEmpty then return first
  else return Node.branch "sequence_expression" (first :: rest.flatten)

def elementName : Parser Node := do
  let isPart (c : Char) : Bool := isNamePart c || c == '-' || c == ':' || c == '.'
  let text ← upcoming
  Parser.guardThat (match text with | c :: _ => isNameStart c | [] => false)
  let (start, stop) ← Parser.take (text.takeWhile isPart).length
  return Node.leaf "identifier" start stop

def plainQuoted : Parser Node := do
  match ← upcoming with
  | c :: rest =>
      Parser.guardThat (c == '"' || c == '\'')
      let length := (rest.takeWhile (· != c)).length + 2
      let (start, stop) ← Parser.take length
      return Node.leaf "string" start stop
  | [] => Parser.failure

def elementExpression (grammar : Grammar) : Parser Node := do
  let left ← symbol "\x7b"
  let value ← optionalNode (Parser.orElse (do
    let dots ← symbol "..."
    let value ← grammar.assignment
    return Node.branch "spread_element" [dots, value]) grammar.expression)
  let right ← symbol "\x7d"
  return Node.branch "jsx_expression" ([left] ++ value ++ [right])

def elementAttribute (grammar : Grammar) : Parser Node :=
  Parser.orElse (elementExpression grammar) (do
    let key ← elementName
    let key := key.ofKind "property_identifier"
    match ← Parser.optional (symbol "=") with
    | none => return Node.branch "jsx_attribute" [key]
    | some equals =>
        let value ← Parser.firstOf [plainQuoted, elementExpression grammar, grammar.read .element]
        return Node.branch "jsx_attribute" [key, equals, value])

def elementHead (grammar : Grammar) : Parser (List Node) := do
  match ← Parser.optional elementName with
  | none => return []
  | some tag =>
      let types ← optionalNode (grammar.whenTyped
        (inField "type_arguments" (typeArguments grammar)))
      let attributes ← Parser.many (inField "attribute" (elementAttribute grammar))
      return [tag.inField "name"] ++ types ++ attributes

def elementChild (grammar : Grammar) : Parser Node := do
  let text ← Parser.rest
  let length := (text.takeWhile (fun c => c != '<' && c != '\x7b')).length
  if length ≠ 0 then
    let (start, stop) ← Parser.take length
    return Node.leaf "jsx_text" start stop
  else
    Parser.guardThat !(Text.startsWith ['<', '/'] text)
    Parser.orElse (elementExpression grammar) (grammar.read .element)

def element (grammar : Grammar) : Parser Node := do
  let left ← shortSymbol "<"
  let head ← elementHead grammar
  match ← Parser.optional (shortSymbol "/>") with
  | some right => return Node.branch "jsx_self_closing_element" ([left] ++ head ++ [right])
  | none =>
      let right ← shortSymbol ">"
      let opening :=
        (Node.branch "jsx_opening_element" ([left] ++ head ++ [right])).inField "open_tag"
      let children ← Parser.many (elementChild grammar)
      let close ← shortSymbol "</"
      let tag ← optionalNode (inField "name" elementName)
      let right ← shortSymbol ">"
      let closing :=
        (Node.branch "jsx_closing_element" ([close] ++ tag ++ [right])).inField "close_tag"
      return Node.branch "jsx_element" ([opening] ++ children ++ [closing])

def newTarget (grammar : Grammar) (mark : Node) (constructed : Parser Node) : Parser Node := do
  match ← Parser.optional (symbol ".") with
  | some dot =>
      let property ← keyword "target"
      return Node.branch "meta_property" [mark, dot, property]
  | none =>
      let first ← constructed
      let target ← Parser.loop first (fun object => do
        match symbolAt (← upcoming) with
        | "." =>
            let dot ← symbol "."
            let property ← Parser.orElse (word "property_identifier") privateName
            return some (Node.branch "member_expression"
              [object.inField "object", dot, property.inField "property"])
        | "[" =>
            let left ← symbol "["
            let index ← inField "index" grammar.expression
            let right ← symbol "]"
            return some (Node.branch "subscript_expression"
              [object.inField "object", left, index, right])
        | "!" =>
            if grammar.typed && !(← get).broken then
              let mark ← symbol "!"
              return some (Node.branch "non_null_expression" [object, mark])
            else return none
        | _ => return none)
      let types ← optionalNode (grammar.whenTyped
        (inField "type_arguments" (typeArguments grammar)))
      let given ← optionalNode (arguments grammar)
      return Node.branch "new_expression" ([mark, target.inField "constructor"] ++ types ++ given)

/-- Operands without a call after them. `new` nests, one level for each keyword. -/
def primary (grammar : Grammar) : Nat → Parser Node
  | 0 => Parser.failure
  | fuel + 1 => do
      let text ← upcoming
      let leftHand := chained grammar (primary grammar fuel) false
      match text with
      | '(' :: _ => parenthesized grammar
      | '[' :: _ => array grammar
      | '{' :: _ => object grammar
      | '`' :: _ => template "template_string" "template_substitution" grammar.expression
      | '/' :: _ => regex
      | '#' :: _ => privateName
      | '"' :: _ | '\'' :: _ => string
      | '<' :: _ => do
          Parser.guardThat grammar.elements
          grammar.read .element
      | '@' :: _ => do
          let decorations ← decorators grammar
          let mark ← keyword "class"
          let tail ← classTail grammar leftHand
          return Node.branch "class" (decorations ++ [mark] ++ tail)
      | _ =>
          if startsNumber text then number
          else
            match ← upcomingWord with
            | "function" => functionExpression grammar
            | "async" => Parser.orElse (functionExpression grammar) identifier
            | "class" => do
                let mark ← keyword "class"
                let tail ← classTail grammar leftHand
                return Node.branch "class" (mark :: tail)
            | "new" => do
                let mark ← keyword "new"
                newTarget grammar mark (primary grammar fuel)
            | _ => wordExpression

def operand (grammar : Grammar) (instantiate : Bool) : Parser Node := do
  chained grammar (primary grammar (← get).remaining) instantiate

def unaryWords : List String := ["typeof", "void", "delete"]

def unary (grammar : Grammar) : Parser Node := do
  let text ← upcomingOperator
  if ["!", "~", "-", "+"].contains text || unaryWords.contains text then
    let mark ← operator text
    let value ← grammar.read .unary
    return Node.branch "unary_expression" [mark.inField "operator", value.inField "argument"]
  else if text == "++" || text == "--" then
    let mark ← symbol text
    let value ← grammar.read .unary
    return Node.branch "update_expression" [mark.inField "operator", value.inField "argument"]
  else if text == "await" then
    let mark ← keyword "await"
    let value ← grammar.read .unary
    return Node.branch "await_expression" [mark, value]
  else if text == "<" && grammar.typed && !grammar.elements then
    let types ← typeArguments grammar
    let value ← grammar.read .unary
    return Node.branch "type_assertion" [types, value]
  else
    let value ← operand grammar true
    let following := symbolAt (← upcoming)
    if (following == "++" || following == "--") && !(← get).broken then
      let mark ← symbol following
      return Node.branch "update_expression" [value.inField "argument", mark.inField "operator"]
    else return value

end CodeGraph.Syntax.EcmaScript.Grammar
