import CodeGraph.Syntax.EcmaScript.Grammar

set_option autoImplicit false

namespace CodeGraph.Syntax.EcmaScript.Grammar

def typeArguments (grammar : Grammar) : Parser Node := do
  let left ← shortSymbol "<"
  let items ← commaSeparated (grammar.read .type)
  let right ← shortSymbol ">"
  return Node.branch "type_arguments" (left :: items ++ [right])

def typeAnnotated (grammar : Grammar) : Parser Node := do
  let colon ← symbol ":"
  let type ← grammar.read .type
  return Node.branch "type_annotation" [colon, type]

def typeParameter (grammar : Grammar) : Parser Node := do
  let constant ← optionalNode (do
    let constant ← keyword "const"
    let _ ← Parser.ahead typeIdentifier
    return constant)
  let parameter ← inField "name" typeIdentifier
  let bound ← optionalNode (do
    let mark ← keyword "extends"
    let type ← grammar.read .type
    return (Node.branch "constraint" [mark, type]).inField "constraint")
  let fallback ← optionalNode (do
    let mark ← symbol "="
    let type ← grammar.read .type
    return (Node.branch "default_type" [mark, type]).inField "value")
  return Node.branch "type_parameter" (constant ++ [parameter] ++ bound ++ fallback)

def typeParameters (grammar : Grammar) : Parser Node := do
  let left ← shortSymbol "<"
  let items ← commaSeparated (typeParameter grammar)
  let right ← shortSymbol ">"
  return (Node.branch "type_parameters" (left :: items ++ [right])).inField "type_parameters"

def decoratorTarget (grammar : Grammar) : Parser Node := do
  let first ← Parser.orElse identifier (do
    let left ← symbol "("
    let value ← grammar.expression
    let right ← symbol ")"
    return Node.branch "parenthesized_expression" [left, value, right])
  Parser.loop first (fun object => do
    match ← Parser.optional (symbol ".") with
    | none => return none
    | some dot =>
        let property ← word "property_identifier"
        return some (Node.branch "member_expression"
          [object.inField "object", dot, property.inField "property"]))

def argumentItem (grammar : Grammar) : Parser Node :=
  Parser.orElse (do
    let dots ← symbol "..."
    let value ← grammar.assignment
    return Node.branch "spread_element" [dots, value]) grammar.assignment

def arguments (grammar : Grammar) : Parser Node := do
  let left ← symbol "("
  let items ← commaSeparated (argumentItem grammar)
  let right ← symbol ")"
  return (Node.branch "arguments" (left :: items ++ [right])).inField "arguments"

def decorator (grammar : Grammar) : Parser Node := do
  let mark ← symbol "@"
  let target ← decoratorTarget grammar
  let types ← optionalNode (grammar.whenTyped (typeArguments grammar))
  match ← Parser.optional (arguments grammar) with
  | none => return (Node.branch "decorator" [mark, target]).inField "decorator"
  | some given =>
      let call := Node.branch "call_expression"
        ([target.inField "function"] ++ types.map (·.inField "type_arguments") ++ [given])
      return (Node.branch "decorator" [mark, call]).inField "decorator"

def decorators (grammar : Grammar) : Parser (List Node) :=
  Parser.many (decorator grammar)

def startsName (text : List Char) : Bool :=
  match text with
  | c :: _ => isNameStart c || Text.isDigit c || "\"'[#*".toList.contains c
  | [] => false

def modifier (words : List String) : Parser Node := do
  let text ← upcomingWord
  Parser.guardThat (words.contains text)
  let mark ← keyword text
  Parser.guardThat (startsName (← upcoming))
  if ["public", "private", "protected"].contains text then
    return { mark with kind := "accessibility_modifier", named := true, children := [mark] }
  else if text == "override" then
    return { mark with kind := "override_modifier", named := true, children := [mark] }
  else return mark

def parameterModifiers : Parser (List Node) :=
  Parser.many (Parser.orElse (modifier ["public", "private", "protected", "override", "readonly"])
    (do
      let text ← upcomingWord
      Parser.guardThat (["public", "private", "protected", "readonly"].contains text)
      let mark ← keyword text
      Parser.guardThat (← Parser.succeeds (symbol "\x7b"))
      return mark))

def thisNode : Parser Node := do
  let mark ← keyword "this"
  return Node.leaf "this" mark.start mark.stop

def typedParameter (grammar : Grammar) : Parser Node := do
  let decorations ← decorators grammar
  let modifiers ← parameterModifiers
  let target ← inField "pattern" (Parser.orElse thisNode (grammar.read .pattern))
  let question ← optionalNode (symbol "?")
  let type ← optionalNode (inField "type" (typeAnnotated grammar))
  let value ← optionalList (grammar.initializer true)
  let kind := if question.isEmpty then "required_parameter" else "optional_parameter"
  return Node.branch kind (decorations ++ modifiers ++ [target] ++ question ++ type ++ value)

def formalParameters (grammar : Grammar) : Parser Node := do
  let left ← symbol "("
  let items ← commaSeparated
    (if grammar.typed then typedParameter grammar else patternWithDefault grammar)
  let right ← symbol ")"
  return (Node.branch "formal_parameters" (left :: items ++ [right])).inField "parameters"

def typePredicate (grammar : Grammar) : Parser Node := do
  let subject ← inField "name" (Parser.orElse thisNode identifier)
  let mark ← keyword "is"
  let type ← inField "type" (grammar.read .type)
  return Node.branch "type_predicate" [subject, mark, type]

def assertion (grammar : Grammar) : Parser Node := do
  let mark ← keyword "asserts"
  let claim ← Parser.firstOf [typePredicate grammar, thisNode, identifier]
  return Node.branch "asserts" [mark, claim]

def returnType (grammar : Grammar) : Parser Node :=
  Parser.firstOf [assertion grammar, typePredicate grammar, grammar.read .type]

def returnAnnotated (grammar : Grammar) : Parser Node := do
  let colon ← symbol ":"
  let type ← returnType grammar
  let kind :=
    if type.kind == "asserts" then "asserts_annotation"
    else if type.kind == "type_predicate" then "type_predicate_annotation"
    else "type_annotation"
  return (Node.branch kind [colon, type]).inField "return_type"

def callSignature (grammar : Grammar) : Parser (List Node) := do
  let types ← optionalNode (grammar.whenTyped (typeParameters grammar))
  let parameters ← formalParameters grammar
  let result ← optionalNode (grammar.whenTyped (returnAnnotated grammar))
  return types ++ [parameters] ++ result

def mappedClause (grammar : Grammar) : Parser Node := do
  let parameter ← inField "name" typeIdentifier
  let mark ← keyword "in"
  let type ← inField "type" (grammar.read .type)
  let newName ← optionalList (do
    let mark ← keyword "as"
    let type ← inField "alias" (grammar.read .type)
    return [mark, type])
  return Node.branch "mapped_type_clause" ([parameter, mark, type] ++ newName)

def indexKey (grammar : Grammar) : Parser (List Node) :=
  Parser.orElse (return [← mappedClause grammar]) (do
    let key ← inField "name" identifier
    let colon ← symbol ":"
    let type ← inField "index_type" (grammar.read .type)
    return [key, colon, type])

def indexAnnotated (grammar : Grammar) : Parser Node := do
  let sign ← optionalNode (Parser.orElse (symbol "-") (symbol "+"))
  let question ← optionalNode (symbol "?")
  let colon ← symbol ":"
  let type ← grammar.read .type
  let kind :=
    if question.isEmpty then "type_annotation"
    else if sign.isEmpty then "opting_type_annotation"
    else if sign.any (·.kind == "-") then "omitting_type_annotation"
    else "adding_type_annotation"
  return (Node.branch kind (sign ++ question ++ [colon, type])).inField "type"

def indexSignature (grammar : Grammar) : Parser Node := do
  let sign ← optionalNode (Parser.orElse (symbol "-") (symbol "+"))
  let mark ← optionalNode (keyword "readonly")
  let left ← symbol "["
  let key ← indexKey grammar
  let right ← symbol "]"
  let type ← optionalNode (indexAnnotated grammar)
  return Node.branch "index_signature" (sign ++ mark ++ [left] ++ key ++ [right] ++ type)

def constructSignature (grammar : Grammar) : Parser Node := do
  let abstractMark ← optionalNode (keyword "abstract")
  let mark ← keyword "new"
  let signature ← callSignature grammar
  return Node.branch "construct_signature" (abstractMark ++ [mark] ++ signature)

def namedSignature (grammar : Grammar) : Parser Node := do
  let modifiers ← Parser.many (modifier
    ["public", "private", "protected", "static", "override", "readonly", "async", "get", "set"])
  let star ← optionalNode (symbol "*")
  let property ← inField "name" (propertyName grammar)
  let question ← optionalNode (symbol "?")
  match ← Parser.optional (callSignature grammar) with
  | some signature =>
      return Node.branch "method_signature" (modifiers ++ star ++ [property] ++ question ++ signature)
  | none =>
      let type ← optionalNode (inField "type" (typeAnnotated grammar))
      return Node.branch "property_signature" (modifiers ++ star ++ [property] ++ question ++ type)

def typeMember (grammar : Grammar) : Parser Node :=
  Parser.firstOf [indexSignature grammar, constructSignature grammar,
    return Node.branch "call_signature" (← callSignature grammar), namedSignature grammar]

def objectType (grammar : Grammar) : Parser Node := do
  let left ← symbol "\x7b"
  let members ← Parser.many (Parser.firstOf [symbol ",", symbol ";", typeMember grammar])
  let right ← symbol "\x7d"
  return Node.branch "object_type" (left :: members ++ [right])

def predefined : List String :=
  ["any", "number", "boolean", "string", "symbol", "void", "unknown", "never", "object"]

def leafWord (text kind : String) : Parser Node := do
  let mark ← keyword text
  return Node.leaf kind mark.start mark.stop

def predefinedType : Parser Node := do
  let text ← upcomingWord
  Parser.guardThat (predefined.contains text)
  leafWord text "predefined_type"

def literalKind : String → Option String
  | "true" => some "true"
  | "false" => some "false"
  | "null" => some "null"
  | "undefined" => some "undefined"
  | _ => none

def literalType : Parser Node := do
  let value ← Parser.firstOf [string, number, do
      let sign ← symbol "-"
      let value ← number
      return Node.branch "unary_expression" [sign, value], do
      let text ← upcomingWord
      match literalKind text with
      | some kind => leafWord text kind
      | none => Parser.failure]
  return Node.branch "literal_type" [value]

def qualify (first : Node) (dot second : Node) : Node :=
  Node.branch "nested_identifier"
    [first.inField "object", dot, (second.ofKind "property_identifier").inField "property"]

def typeName (grammar : Grammar) : Parser Node := do
  let first ← identifier
  let (modules, last) ← Parser.loop ((none : Option (Node × Node)), first) (fun (modules, last) => do
    match ← Parser.optional (symbol ".") with
    | none => return none
    | some dot =>
        let following ← word "identifier"
        let outer := match modules with
          | none => last
          | some (before, dot) => qualify before dot last
        return some (some (outer, dot), following))
  let last := last.ofKind "type_identifier"
  let whole := match modules with
    | none => last
    | some (outer, dot) => Node.branch "nested_type_identifier"
        [outer.inField "module", dot, last.inField "name"]
  match ← Parser.optional (typeArguments grammar) with
  | none => return whole
  | some given =>
      return Node.branch "generic_type" [whole.inField "name", given.inField "type_arguments"]

def importNode : Parser Node := do
  leafWord "import" "import"

def queryPath (grammar : Grammar) (first : Node) : Parser Node :=
  Parser.loop first (fun object => do
    if (← upcoming).isEmpty || (← get).broken then return none
    match ← Parser.optional (symbol ".") with
    | some dot =>
        let property ← Parser.orElse (word "property_identifier") privateName
        return some (Node.branch "member_expression"
          [object.inField "object", dot, property.inField "property"])
    | none =>
        match ← Parser.optional (arguments grammar) with
        | some given => return some (Node.branch "call_expression" [object.inField "function", given])
        | none => return none)

def queryTarget (grammar : Grammar) : Parser Node := do
  let first ← Parser.firstOf [importNode, thisNode, identifier]
  let path ← queryPath grammar first
  match ← Parser.optional (typeArguments grammar) with
  | none => return path
  | some given =>
      return Node.branch "instantiation_expression"
        [path.inField "function", given.inField "type_arguments"]

/-- `import('x').y` as a type. -/
def importType (grammar : Grammar) : Parser Node := do
  let path ← queryPath grammar (← importNode)
  match ← Parser.optional (typeArguments grammar) with
  | none => return path
  | some given =>
      return Node.branch "generic_type" [path.inField "name", given.inField "type_arguments"]

def tupleItem (grammar : Grammar) : Parser Node :=
  Parser.firstOf [do
      let target ← inField "name" (Parser.orElse (do
        let dots ← symbol "..."
        let target ← identifier
        return Node.branch "rest_pattern" [dots, target]) identifier)
      let question ← optionalNode (symbol "?")
      let type ← inField "type" (typeAnnotated grammar)
      let kind := if question.isEmpty then "required_parameter" else "optional_parameter"
      return Node.branch kind ([target] ++ question ++ [type]), do
      let dots ← symbol "..."
      let type ← grammar.read .type
      return Node.branch "rest_type" [dots, type], do
      let type ← grammar.read .type
      match ← Parser.optional (symbol "?") with
      | some question => return Node.branch "optional_type" [type, question]
      | none => return type]

def tupleType (grammar : Grammar) : Parser Node := do
  let left ← symbol "["
  let items ← commaSeparated (tupleItem grammar)
  let right ← symbol "]"
  return Node.branch "tuple_type" (left :: items ++ [right])

def templateTextLength : List Char → Nat
  | '`' :: _ => 0
  | '$' :: '{' :: _ => 0
  | '\\' :: _ :: rest => templateTextLength rest + 2
  | _ :: rest => templateTextLength rest + 1
  | [] => 0

def template (kind substitution : String) (value : Parser Node) : Parser Node := do
  let left ← symbol "`"
  let pieces ← Parser.many (do
    let length := templateTextLength (← Parser.rest)
    if length ≠ 0 then
      let (start, stop) ← Parser.take length
      return Node.leaf "string_fragment" start stop
    else
      Parser.guardThat (Text.startsWith ['$', '\x7b'] (← Parser.rest))
      let (start, stop) ← Parser.take 2
      let value ← value
      let right ← symbol "\x7d"
      return Node.branch substitution [Node.token "$\x7b" start stop, value, right])
  let right ← symbol "`"
  return Node.branch kind (left :: pieces ++ [right])

def inferType (grammar : Grammar) : Parser Node := do
  let mark ← keyword "infer"
  let target ← typeIdentifier
  let bound ← optionalList (do
    let mark ← keyword "extends"
    let type ← grammar.read .plainType
    Parser.guardThat !(← Parser.succeeds (symbol "?"))
    return [mark, type])
  return Node.branch "infer_type" ([mark, target] ++ bound)

def simpleType (grammar : Grammar) : Parser Node :=
  Parser.firstOf [
    do
      let left ← symbol "("
      let type ← grammar.read .type
      let right ← symbol ")"
      return Node.branch "parenthesized_type" [left, type, right],
    objectType grammar,
    tupleType grammar,
    template "template_literal_type" "template_type" (grammar.read .type),
    do
      let mark ← keyword "typeof"
      let target ← queryTarget grammar
      return Node.branch "type_query" [mark, target],
    do
      let mark ← keyword "unique"
      let kind ← keyword "symbol"
      return Node.branch "predefined_type" [mark, kind],
    predefinedType,
    literalType,
    leafWord "this" "this_type",
    importType grammar,
    leafWord "const" "const",
    typeName grammar]

def suffixedType (grammar : Grammar) : Parser Node := do
  let first ← simpleType grammar
  Parser.loop first (fun type => do
    next
    if (← get).broken then return none
    match ← Parser.optional (symbol "[") with
    | none => return none
    | some left =>
        match ← Parser.optional (symbol "]") with
        | some right => return some (Node.branch "array_type" [type, left, right])
        | none =>
            let index ← grammar.read .type
            let right ← symbol "]"
            return some (Node.branch "lookup_type" [type, left, index, right]))

/-- A type with its operators before it. They nest, one level for each operator. -/
def prefixedType (grammar : Grammar) : Nat → Parser Node
  | 0 => Parser.failure
  | fuel + 1 =>
      Parser.firstOf [
        do
          let mark ← keyword "keyof"
          let type ← prefixedType grammar fuel
          return Node.branch "index_type_query" [mark, type],
        do
          let mark ← keyword "readonly"
          let type ← prefixedType grammar fuel
          return Node.branch "readonly_type" [mark, type],
        inferType grammar,
        suffixedType grammar]

def operandType (grammar : Grammar) : Parser Node := do
  prefixedType grammar (← get).remaining

def functionType (grammar : Grammar) : Parser Node := do
  let types ← optionalNode (typeParameters grammar)
  let parameters ← formalParameters grammar
  let arrow ← symbol "=>"
  let result ← inField "return_type" (returnType grammar)
  return Node.branch "function_type" (types ++ [parameters, arrow, result])

def constructorType (grammar : Grammar) : Parser Node := do
  let abstractMark ← optionalNode (keyword "abstract")
  let mark ← keyword "new"
  let types ← optionalNode (typeParameters grammar)
  let parameters ← formalParameters grammar
  let arrow ← symbol "=>"
  let result ← inField "type" (grammar.read .type)
  return Node.branch "constructor_type"
    (abstractMark ++ [mark] ++ types ++ [parameters, arrow, result])

/-- Operands with an operator between them, which may also stand before the first one. -/
def joinedType (operator kind : String) (operand : Parser Node) : Parser Node := do
  let leading ← optionalNode (symbol operator)
  let first ← operand
  let first := if leading.isEmpty then first else Node.branch kind (leading ++ [first])
  Parser.loop first (fun type => do
    match ← Parser.optional (symbol operator) with
    | none => return none
    | some mark => return some (Node.branch kind [type, mark, ← operand]))

def unionType (grammar : Grammar) : Parser Node :=
  joinedType "|" "union_type" (joinedType "&" "intersection_type"
    (Parser.firstOf [functionType grammar, constructorType grammar, operandType grammar]))

def conditionalType (grammar : Grammar) : Parser Node := do
  let left ← grammar.read .plainType
  let condition ← Parser.optional (do
    let mark ← keyword "extends"
    let bound ← inField "right" (grammar.read .plainType)
    let question ← symbol "?"
    return [mark, bound, question])
  match condition with
  | none => return left
  | some middle =>
      let consequence ← inField "consequence" (grammar.read .type)
      let colon ← symbol ":"
      let alternative ← inField "alternative" (grammar.read .type)
      return Node.branch "conditional_type"
        ([left.inField "left"] ++ middle ++ [consequence, colon, alternative])

end CodeGraph.Syntax.EcmaScript.Grammar
