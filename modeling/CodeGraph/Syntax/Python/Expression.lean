import CodeGraph.Syntax.Python.Token

set_option autoImplicit false

namespace CodeGraph.Syntax.Python

inductive Goal where
  | expression
  | disjunction
  | binary (level : Nat)
  | unary
  | type
  /-- A statement of a block with this indentation. -/
  | statement (indent : Nat)
deriving DecidableEq, Repr

abbrev Rules : Type := Goal → Parser Node

structure Quoting where
  quote : List Char
  formatted : Bool

def plainLength (quoting : Quoting) : List Char → Nat
  | [] => 0
  | '\\' :: c :: rest =>
      if quoting.formatted && (c == '\x7b' || c == '\x7d') then 1
      else plainLength quoting rest + 2
  | '{' :: '{' :: rest => plainLength quoting rest + 2
  | '}' :: '}' :: rest => plainLength quoting rest + 2
  | c :: rest =>
      if Text.startsWith quoting.quote (c :: rest) then 0
      else if quoting.formatted && c == '\x7b' then 0
      else plainLength quoting rest + 1

def conversion : Parser (List Node) := do
  let mark ← symbol "!"
  let kind ← identifier
  return [Node.leaf "type_conversion" mark.start kind.stop]

def formatSpecifier (substitution : Parser Node) : Parser Node := do
  let colon ← symbol ":"
  let pieces ← Parser.many (do
    let text ← Parser.rest
    let length := (text.takeWhile (fun c => c != '\x7b' && c != '\x7d')).length
    if length ≠ 0 then
      let (start, stop) ← Parser.take length
      return Node.token "format" start stop
    else return (← substitution).ofKind "format_expression")
  return Node.branch "format_specifier" (colon :: pieces)

/-- A substitution in a formatted string. Format specifiers nest, one level for each brace. -/
def substitution (value : Parser Node) : Nat → Parser Node
  | 0 => Parser.failure
  | fuel + 1 => do
      let left ← opening "\x7b"
      let held ← inField "expression" value
      let equals ← optionalNode (symbol "=")
      let converted ← optionalList conversion
      let format ← optionalNode (formatSpecifier (substitution value fuel))
      let right ← closing "\x7d"
      return Node.branch "interpolation" ([left, held] ++ equals ++ converted ++ format ++ [right])

def quotingAt (text : List Char) : Option (Nat × Quoting) :=
  let mark := text.takeWhile (fun c => "rRbBuUfFtT".toList.contains c)
  match text.drop mark.length with
  | '"' :: '"' :: '"' :: _ =>
      some (mark.length + 3, ⟨['"', '"', '"'], mark.any (fun c => "fFtT".toList.contains c)⟩)
  | '\'' :: '\'' :: '\'' :: _ =>
      some (mark.length + 3, ⟨['\'', '\'', '\''], mark.any (fun c => "fFtT".toList.contains c)⟩)
  | c :: _ =>
      if c == '"' || c == '\'' then
        some (mark.length + 1, ⟨[c], mark.any (fun c => "fFtT".toList.contains c)⟩)
      else none
  | [] => none

def string (value : Parser Node) : Parser Node := do
  match quotingAt (← upcoming) with
  | none => Parser.failure
  | some (length, quoting) =>
      let (start, stop) ← Parser.take length
      let pieces ← Parser.many (do
        let text ← Parser.rest
        let length := plainLength quoting text
        if length ≠ 0 then
          let (start, stop) ← Parser.take length
          return Node.leaf "string_content" start stop
        else
          Parser.guardThat (quoting.formatted && Text.startsWith ['\x7b'] text)
          substitution value (← get).remaining)
      let (finish, last) ← Parser.take quoting.quote.length
      return Node.branch "string"
        ([Node.leaf "string_start" start stop] ++ pieces ++ [Node.leaf "string_end" finish last])

def strings (value : Parser Node) : Parser Node := do
  let first ← string value
  let others ← Parser.many (string value)
  if others.isEmpty then return first else return Node.branch "concatenated_string" (first :: others)

def starred (rules : Rules) : Parser Node := do
  let star ← symbol "*"
  let value ← rules (.binary 0)
  return Node.branch "list_splat" [star, value]

def doubleStarred (rules : Rules) : Parser Node := do
  let stars ← symbol "**"
  let value ← rules (.binary 0)
  return Node.branch "dictionary_splat" [stars, value]

def namedExpression (rules : Rules) : Parser Node := do
  let target ← inField "name" identifier
  let mark ← symbol ":="
  let value ← inField "value" (rules .expression)
  return Node.branch "named_expression" [target, mark, value]

def element (rules : Rules) : Parser Node :=
  Parser.firstOf [starred rules, namedExpression rules, rules .expression]

def targets (rules : Rules) : Parser Node := do
  let items ← commaSeparated (Parser.orElse (starred rules) (rules (.binary 1)))
  match items with
  | [single] => return single
  | [] => Parser.failure
  | _ => return Node.branch "pattern_list" items

def forClause (rules : Rules) : Parser Node := do
  let asyncMark ← optionalNode (keyword "async")
  let mark ← keyword "for"
  let left ← inField "left" (targets rules)
  let inMark ← keyword "in"
  let right ← commaSeparated (Parser.orElse (starred rules) (rules .disjunction))
  return Node.branch "for_in_clause" (asyncMark ++ [mark, left, inMark] ++
    right.map (·.inField "right"))

def ifClause (rules : Rules) : Parser Node := do
  let mark ← keyword "if"
  let condition ← Parser.orElse (namedExpression rules) (rules .disjunction)
  return Node.branch "if_clause" [mark, condition]

def clauses (rules : Rules) : Parser (List Node) := do
  let first ← forClause rules
  let others ← Parser.many (Parser.orElse (forClause rules) (ifClause rules))
  return first :: others

def yielded (rules : Rules) : Parser Node := do
  let mark ← keyword "yield"
  let value ← Parser.firstOf [do
      let second ← keyword "from"
      return [second, ← rules .expression],
    commaSeparated (element rules)]
  return Node.branch "yield" (mark :: value)

def parenthesized (rules : Rules) : Parser Node := do
  let left ← opening "("
  match ← Parser.optional (yielded rules) with
  | some value =>
      let right ← closing ")"
      return Node.branch "parenthesized_expression" [left, value, right]
  | none =>
      let items ← commaSeparated (element rules)
      match items with
      | [single] =>
          match ← Parser.optional (clauses rules) with
          | some following =>
              let right ← closing ")"
              return Node.branch "generator_expression"
                ([left, single.inField "body"] ++ following ++ [right])
          | none =>
              let right ← closing ")"
              return Node.branch "parenthesized_expression" [left, single, right]
      | _ =>
          let right ← closing ")"
          return Node.branch "tuple" ([left] ++ items ++ [right])

def list (rules : Rules) : Parser Node := do
  let left ← opening "["
  let items ← commaSeparated (element rules)
  match items with
  | [single] =>
      let following ← optionalList (clauses rules)
      let right ← closing "]"
      if following.isEmpty then return Node.branch "list" [left, single, right]
      else
        return Node.branch "list_comprehension"
          ([left, single.inField "body"] ++ following ++ [right])
  | _ =>
      let right ← closing "]"
      return Node.branch "list" ([left] ++ items ++ [right])

def pairOrElement (rules : Rules) : Parser Node :=
  Parser.firstOf [doubleStarred rules, starred rules, do
    let key ← Parser.orElse (namedExpression rules) (rules .expression)
    match ← Parser.optional (symbol ":") with
    | none => return key
    | some colon =>
        let value ← inField "value" (rules .expression)
        return Node.branch "pair" [key.inField "key", colon, value]]

def braces (rules : Rules) : Parser Node := do
  let left ← opening "\x7b"
  let items ← commaSeparated (pairOrElement rules)
  let isDictionary := items.isEmpty ||
    items.any (fun item => item.kind == "pair" || item.kind == "dictionary_splat")
  let following ← if items.length = 1 then optionalList (clauses rules) else pure []
  let right ← closing "\x7d"
  let kind :=
    if following.isEmpty then (if isDictionary then "dictionary" else "set")
    else if isDictionary then "dictionary_comprehension"
    else "set_comprehension"
  return Node.branch kind ([left] ++ items ++ following ++ [right])

def argument (rules : Rules) : Parser Node :=
  Parser.firstOf [doubleStarred rules, starred rules, do
      let given ← inField "name" identifier
      let equals ← symbol "="
      let value ← inField "value" (rules .expression)
      return Node.branch "keyword_argument" [given, equals, value],
    element rules]

def argumentList (rules : Rules) : Parser Node := do
  let left ← opening "("
  let items ← commaSeparated (argument rules)
  let right ← closing ")"
  return Node.branch "argument_list" (left :: items ++ [right])

/-- The arguments of a call. One expression with a comprehension after it needs no second pair of
parentheses. -/
def arguments (rules : Rules) : Parser Node :=
  inField "arguments" (do
    let left ← opening "("
    let items ← commaSeparated (argument rules)
    let following ← if items.length = 1 then optionalList (clauses rules) else pure []
    let right ← closing ")"
    if following.isEmpty then return Node.branch "argument_list" (left :: items ++ [right])
    else
      return Node.branch "generator_expression"
        ([left] ++ items.map (·.inField "body") ++ following ++ [right]))

/-- What stands between the brackets of a subscript: an element, or a slice if a colon follows. -/
def subscriptItem (rules : Rules) : Parser Node := do
  let start ← Parser.optional (element rules)
  match start, ← Parser.optional (symbol ":") with
  | some single, none => return single
  | none, none => Parser.failure
  | start, some first =>
      let stop ← optionalNode (rules .expression)
      let step ← optionalList (do
        let second ← symbol ":"
        return second :: (← optionalNode (rules .expression)))
      return Node.branch "slice" (start.toList ++ [first] ++ stop ++ step)

def leafWord (word kind : String) : Parser Node := do
  let mark ← keyword word
  return Node.leaf kind mark.start mark.stop

def ellipsis : Parser Node := do
  let mark ← symbol "..."
  return Node.leaf "ellipsis" mark.start mark.stop

def atom (rules : Rules) : Parser Node := do
  let text ← upcoming
  match text with
  | '(' :: _ => parenthesized rules
  | '[' :: _ => list rules
  | '{' :: _ => braces rules
  | _ =>
      if isStringStart text then
        Parser.orElse (strings (Parser.firstOf [yielded rules, do
          let items ← commaSeparated (element rules)
          match items with
          | [single] => return single
          | [] => Parser.failure
          | _ => return Node.branch "expression_list" items])) identifier
      else if startsNumber text then number
      else
        Parser.firstOf [ellipsis, leafWord "None" "none", leafWord "True" "true",
          leafWord "False" "false", identifier]

def chained (rules : Rules) : Parser Node := do
  let first ← atom rules
  Parser.loop first (fun object => do
    match symbolAt (← upcoming) with
    | "." =>
        let dot ← symbol "."
        let property ← inField "attribute" (do
          let word := nameText (← upcoming)
          Parser.guardThat !word.isEmpty
          let (start, stop) ← Parser.take word.length
          return Node.leaf "identifier" start stop)
        return some (Node.branch "attribute" [object.inField "object", dot, property])
    | "[" =>
        let left ← opening "["
        let items ← commaSeparated (subscriptItem rules)
        let right ← closing "]"
        return some (Node.branch "subscript" ([object.inField "value", left] ++
          items.map (fun item => if item.named then item.inField "subscript" else item) ++ [right]))
    | "(" =>
        let given ← arguments rules
        return some (Node.branch "call" [object.inField "function", given])
    | _ => return none)

def power (rules : Rules) (operand : Parser Node) : Parser Node := do
  let base ← operand
  match ← Parser.optional (symbol "**") with
  | none => return base
  | some mark =>
      let exponent ← rules .unary
      return Node.branch "binary_operator"
        [base.inField "left", mark.inField "operator", exponent.inField "right"]

def unary (rules : Rules) : Parser Node := do
  let text := symbolAt (← upcoming)
  if ["+", "-", "~"].contains text then
    let mark ← symbol text
    let value ← rules .unary
    return Node.branch "unary_operator" [mark.inField "operator", value.inField "argument"]
  else
    match ← Parser.optional (keyword "await") with
    | some mark =>
        let value ← rules .unary
        return Node.branch "await" [mark, value]
    | none => power rules (chained rules)

def bindingLevel : String → Option Nat
  | "|" => some 1
  | "^" => some 2
  | "&" => some 3
  | "<<" | ">>" => some 4
  | "+" | "-" => some 5
  | "*" | "/" | "//" | "%" | "@" => some 6
  | _ => none

def binary (rules : Rules) (level : Nat) : Parser Node := do
  let first ← rules .unary
  Parser.loop first (fun left => do
    let text := symbolAt (← upcoming)
    match bindingLevel text with
    | none => return none
    | some own =>
        if own < level then return none
        let mark ← symbol text
        let right ← rules (.binary (own + 1))
        return some (Node.branch "binary_operator"
          [left.inField "left", mark.inField "operator", right.inField "right"]))

def comparison : Parser Node := do
  let text ← upcomingWord
  match text with
  | "in" => keyword "in"
  | "is" =>
      let mark ← keyword "is"
      match ← Parser.optional (keyword "not") with
      | some second => return Node.token "is not" mark.start second.stop
      | none => return mark
  | "not" =>
      let mark ← keyword "not"
      let second ← keyword "in"
      return Node.token "not in" mark.start second.stop
  | _ =>
      let text := symbolAt (← upcoming)
      Parser.guardThat (["<", "<=", "==", "!=", ">=", ">", "<>"].contains text)
      symbol text

def compared (rules : Rules) : Parser Node := do
  let first ← rules (.binary 0)
  let others ← Parser.many (do
    let mark ← comparison
    return [mark.inField "operators", ← rules (.binary 0)])
  if others.isEmpty then return first
  else return Node.branch "comparison_operator" (first :: others.flatten)

def negated (rules : Rules) : Nat → Parser Node
  | 0 => Parser.failure
  | fuel + 1 => do
      match ← Parser.optional (keyword "not") with
      | some mark =>
          let value ← inField "argument" (negated rules fuel)
          return Node.branch "not_operator" [mark, value]
      | none => compared rules

def joined (word : String) (operand : Parser Node) : Parser Node := do
  let first ← operand
  Parser.loop first (fun left => do
    match ← Parser.optional (keyword word) with
    | none => return none
    | some mark =>
        let right ← operand
        return some (Node.branch "boolean_operator"
          [left.inField "left", mark.inField "operator", right.inField "right"]))

def disjunction (rules : Rules) : Parser Node := do
  let fuel := (← get).remaining
  joined "or" (joined "and" (negated rules fuel))

def boundedType (rules : Rules) : Parser Node := do
  let type ← rules .type
  match ← Parser.optional (symbol ":") with
  | none => return type
  | some colon =>
      let bound ← rules .type
      return Node.branch "type" [Node.branch "constrained_type" [type, colon, bound]]

def typeParameters (item : Parser Node) : Parser Node := do
  let left ← opening "["
  let items ← commaSeparated item
  let right ← closing "]"
  return Node.branch "type_parameter" (left :: items ++ [right])

def genericType (rules : Rules) : Parser Node := do
  let base ← identifier
  let parameters ← typeParameters (rules .type)
  return Node.branch "type" [Node.branch "generic_type" [base, parameters]]

def typeSuffixes (rules : Rules) (first : Node) : Parser Node :=
  Parser.loop first (fun type => do
    match ← Parser.optional (symbol "|") with
    | some bar =>
        let right ← rules .type
        return some (Node.branch "type" [Node.branch "union_type" [type, bar, right]])
    | none =>
        match ← Parser.optional (symbol ".") with
        | some dot =>
            let property ← identifier
            return some (Node.branch "type" [Node.branch "member_type" [type, dot, property]])
        | none => return none)

def type (rules : Rules) : Parser Node :=
  Parser.firstOf [do
      let first ← genericType rules
      let whole ← typeSuffixes rules first
      -- Calls and further subscripts make it an expression.
      Parser.guardThat !(["(", "["].contains (symbolAt (← upcoming)))
      return whole,
    do
      let stars ← Parser.orElse (symbol "**") (symbol "*")
      let target ← rules (.binary 0)
      return Node.branch "type" [Node.branch "splat_type" [stars, target]],
    return Node.branch "type" [← rules .expression]]

def splatPattern : Parser Node :=
  Parser.orElse (do
    let stars ← symbol "**"
    let target ← identifier
    return Node.branch "dictionary_splat_pattern" [stars, target]) (do
    let star ← symbol "*"
    let target ← identifier
    return Node.branch "list_splat_pattern" [star, target])

def separatorParameter : Parser Node := do
  let mark ← Parser.orElse (symbol "*") (symbol "/")
  let kind := if mark.kind == "*" then "keyword_separator" else "positional_separator"
  return Node.leaf kind mark.start mark.stop

def annotatedParameter (rules : Rules) (annotated : Bool) : Parser Node := do
  let target ← Parser.firstOf [splatPattern, identifier, rules .unary]
  let annotation ← optionalList (do
    Parser.guardThat annotated
    let colon ← symbol ":"
    return [colon, ← inField "type" (rules .type)])
  let value ← optionalList (do
    let equals ← symbol "="
    return [equals, ← inField "value" (rules .expression)])
  if annotation.isEmpty && value.isEmpty then return target
  let kind :=
    if value.isEmpty then "typed_parameter"
    else if annotation.isEmpty then "default_parameter"
    else "typed_default_parameter"
  let target := if value.isEmpty then target else target.inField "name"
  return Node.branch kind ([target] ++ annotation ++ value)

def parameter (rules : Rules) (annotated : Bool) : Parser Node :=
  Parser.orElse (annotatedParameter rules annotated) separatorParameter

def parameters (rules : Rules) : Parser Node := do
  let left ← opening "("
  let items ← commaSeparated (parameter rules true)
  let right ← closing ")"
  return (Node.branch "parameters" (left :: items ++ [right])).inField "parameters"

def lambda (rules : Rules) : Parser Node := do
  let mark ← keyword "lambda"
  let items ← commaSeparated (parameter rules false)
  let given :=
    if items.isEmpty then [] else [(Node.branch "lambda_parameters" items).inField "parameters"]
  let colon ← symbol ":"
  let body ← inField "body" (rules .expression)
  return Node.branch "lambda" ([mark] ++ given ++ [colon, body])

def conditional (rules : Rules) : Parser Node := do
  let value ← rules .disjunction
  let condition ← Parser.optional (do
    let mark ← keyword "if"
    let test ← rules .disjunction
    let second ← keyword "else"
    let other ← rules .expression
    return [mark, test, second, other])
  match condition with
  | none => return value
  | some parts => return Node.branch "conditional_expression" (value :: parts)

def expression (rules : Rules) : Parser Node :=
  Parser.orElse (lambda rules) (conditional rules)

end CodeGraph.Syntax.Python
