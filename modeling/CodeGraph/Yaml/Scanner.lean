import CodeGraph.Text

/-!
Tokens of YAML. Indentation becomes tokens that open and close blocks. A key without a mark is
found only when its colon is reached: the scanner remembers where one may have started and puts the
key token there.
-/

set_option autoImplicit false

namespace CodeGraph.Yaml

inductive Token where
  | directive
  | documentStart
  | documentEnd
  | sequenceStart
  | mappingStart
  | blockEnd
  | flowSequenceStart
  | flowSequenceEnd
  | flowMappingStart
  | flowMappingEnd
  | entry
  | flowEntry
  | key
  | value
  | reference (name : String)
  | anchor (name : String)
  | tag (text : String)
  | scalar (plain : Bool) (text : String)
deriving DecidableEq, Repr, Inhabited

/-- Where a key without a mark may have started. -/
structure PossibleKey where
  required : Bool
  index : Nat
  line : Nat
  offset : Nat
  column : Nat

structure Scanner where
  rest : List Char
  offset : Nat := 0
  line : Nat := 0
  column : Nat := 0
  tokens : List Token := []
  indent : Int := -1
  indents : List Int := []
  keyAllowed : Bool := true
  /-- One for each open flow collection, innermost first, and one for the document. -/
  keys : List (Option PossibleKey) := [none]

abbrev Scan : Type → Type := StateT Scanner Option

namespace Scanner

def isBreak (c : Char) : Bool :=
  c == '\n' || c == '\r'

def isSpace (c : Char) : Bool :=
  c == ' ' || c == '\t'

def blankAt (text : List Char) : Bool :=
  match text with
  | [] => true
  | c :: _ => isSpace c || isBreak c

def inFlow (scanner : Scanner) : Bool :=
  1 < scanner.keys.length

def skip (scanner : Scanner) (count : Nat) : Scanner :=
  { scanner with
    rest := scanner.rest.drop count
    offset := scanner.offset + count
    column := scanner.column + count }

def skipBreak (scanner : Scanner) : Scanner :=
  let count := if Text.startsWith ['\r', '\n'] scanner.rest then 2 else 1
  { scanner with
    rest := scanner.rest.drop count
    offset := scanner.offset + count
    line := scanner.line + 1
    column := 0 }

def push (scanner : Scanner) (token : Token) : Scanner :=
  { scanner with tokens := token :: scanner.tokens }

def insertAt (scanner : Scanner) (index : Nat) (token : Token) : Scanner :=
  let later := scanner.tokens.length - index
  { scanner with
    tokens := scanner.tokens.take later ++ token :: scanner.tokens.drop later }

def roll (scanner : Scanner) (column index : Nat) (token : Token) : Scanner :=
  if scanner.inFlow || (column : Int) ≤ scanner.indent then scanner
  else
    { scanner.insertAt index token with
      indents := scanner.indent :: scanner.indents
      indent := column }

def unroll (column : Int) : List Int → Scanner → Scanner
  | [], scanner => scanner
  | outer :: indents, scanner =>
      if scanner.inFlow || scanner.indent ≤ column then scanner
      else unroll column indents { scanner.push .blockEnd with indent := outer, indents }

def unrollTo (scanner : Scanner) (column : Int) : Scanner :=
  unroll column scanner.indents scanner

/-- Forgets the possible key; one that has to be a key must not be forgotten. -/
def forgetKey (scanner : Scanner) : Option Scanner :=
  match scanner.keys with
  | some key :: keys => if key.required then none else some { scanner with keys := none :: keys }
  | _ => some scanner

def rememberKey (scanner : Scanner) : Option Scanner :=
  if !scanner.keyAllowed then some scanner
  else do
    let scanner ← scanner.forgetKey
    let key : PossibleKey :=
      { required := !scanner.inFlow && scanner.indent == scanner.column
        index := scanner.tokens.length
        line := scanner.line
        offset := scanner.offset
        column := scanner.column }
    return { scanner with keys := some key :: scanner.keys.drop 1 }

/-- A key stays on its line and is short. -/
def isStale (scanner : Scanner) (key : PossibleKey) : Bool :=
  key.line < scanner.line || key.offset + 1024 < scanner.offset

def dropStale (scanner : Scanner) : Option Scanner := do
  let keys ← scanner.keys.mapM fun key =>
    match key with
    | some possible =>
        if scanner.isStale possible then (if possible.required then none else some none)
        else some key
    | none => some none
  return { scanner with keys }

def toToken : Nat → Scanner → Scanner
  | 0, scanner => scanner
  | fuel + 1, scanner =>
      match scanner.rest with
      | ' ' :: _ => toToken fuel (scanner.skip 1)
      | '\t' :: _ =>
          if scanner.inFlow || !scanner.keyAllowed then toToken fuel (scanner.skip 1) else scanner
      | '#' :: _ =>
          toToken fuel (scanner.skip (scanner.rest.takeWhile (fun c => !isBreak c)).length)
      | c :: _ =>
          if isBreak c then
            let next := scanner.skipBreak
            toToken fuel { next with keyAllowed := next.keyAllowed || !next.inFlow }
          else if c.toNat == 0xFEFF && scanner.offset == 0 then
            toToken fuel { scanner with rest := scanner.rest.drop 1, offset := 1 }
          else scanner
      | [] => scanner

def atDocumentMark (scanner : Scanner) : Bool :=
  scanner.column == 0 &&
    (Text.startsWith "---".toList scanner.rest || Text.startsWith "...".toList scanner.rest) &&
    blankAt (scanner.rest.drop 3)

structure Gap where
  blanks : List Char := []
  breaks : Nat := 0

/-- A single line break is a blank, and of several the first says nothing. -/
def Gap.text (gap : Gap) : List Char :=
  match gap.breaks with
  | 0 => gap.blanks
  | 1 => [' ']
  | count + 2 => List.replicate (count + 1) '\n'

def gap (plainIndent : Option Int) : Nat → Gap → Scanner → Option (Gap × Scanner)
  | 0, _, _ => none
  | fuel + 1, read, scanner =>
      match scanner.rest with
      | c :: _ =>
          if isSpace c then
            let violates := match plainIndent with
              | some indent => read.breaks != 0 && (scanner.column : Int) < indent && c == '\t'
              | none => false
            if violates then none
            else
              let blanks := if read.breaks = 0 then read.blanks ++ [c] else read.blanks
              gap plainIndent fuel { read with blanks } (scanner.skip 1)
          else if isBreak c then
            gap plainIndent fuel { read with breaks := read.breaks + 1 } scanner.skipBreak
          else some (read, scanner)
      | [] => some (read, scanner)

def isFlowMark (c : Char) : Bool :=
  ",[]\x7b\x7d".toList.contains c

/-- The length of a run of characters of a plain scalar; `none` where a colon may not stand. -/
def plainRun (flow : Bool) : List Char → Option Nat
  | [] => some 0
  | c :: rest =>
      if isSpace c || isBreak c then some 0
      else if flow && c == ':' && (rest.head?.any (fun d => d == '?' || isFlowMark d)) then none
      else if (c == ':' && blankAt rest) || (flow && isFlowMark c) then some 0
      else (plainRun flow rest).map (· + 1)

def plainWords : Nat → List Char → Gap → Scanner → Option (List Char × Gap × Scanner)
  | 0, _, _, _ => none
  | fuel + 1, read, before, scanner =>
      if scanner.atDocumentMark || scanner.rest.head? == some '#' then some (read, before, scanner)
      else
        match plainRun scanner.inFlow scanner.rest with
        | none => none
        | some 0 => some (read, before, scanner)
        | some count =>
            let read := read ++ before.text ++ scanner.rest.take count
            let next := scanner.skip count
            match gap (some (scanner.indent + 1)) (next.rest.length + 1) {} next with
            | none => none
            | some (after, next) =>
                if after.blanks.isEmpty && after.breaks = 0 then some (read, after, next)
                else if !next.inFlow && (next.column : Int) < scanner.indent + 1 then
                  some (read, after, next)
                else plainWords fuel read after next

def plainScalar (scanner : Scanner) : Option Scanner := do
  let (text, after, next) ← plainWords (scanner.rest.length + 1) [] {} scanner
  let next := { next with keyAllowed := after.breaks != 0 }
  return next.push (.scalar true (String.ofList text))

def hexValue? (c : Char) : Option Nat :=
  if Text.isDigit c then some (c.toNat - 48)
  else if 'a' ≤ c && c ≤ 'f' then some (c.toNat - 87)
  else if 'A' ≤ c && c ≤ 'F' then some (c.toNat - 55)
  else none

def escapes : List (Char × Nat) :=
  [('0', 0), ('a', 7), ('b', 8), ('t', 9), ('\t', 9), ('n', 10), ('v', 11), ('f', 12), ('r', 13),
    ('e', 27), (' ', 32), ('"', 34), ('/', 47), ('\\', 92), ('N', 0x85), ('_', 0xA0),
    ('L', 0x2028), ('P', 0x2029)]

def escape? (text : List Char) : Option (Char × Nat) := do
  let c ← text.head?
  match escapes.lookup c with
  | some code => return (Char.ofNat code, 1)
  | none =>
      let count ← [('x', 2), ('u', 4), ('U', 8)].lookup c
      let digits := (text.drop 1).take count
      if digits.length < count then none
      let values ← digits.mapM hexValue?
      let code := values.foldl (fun value digit => 16 * value + digit) 0
      if 0x10FFFF < code || (0xD800 ≤ code && code ≤ 0xDFFF) then none
      return (Char.ofNat code, count + 1)

def quotedText (quote : Char) : Nat → List Char → Scanner → Option (List Char × Scanner)
  | 0, _, _ => none
  | fuel + 1, read, scanner =>
      if scanner.atDocumentMark then none
      else
        match scanner.rest with
        | [] => none
        | c :: rest =>
            if quote == '\'' && c == '\'' && rest.head? == some '\'' then
              quotedText quote fuel (read ++ ['\'']) (scanner.skip 2)
            else if c == quote then some (read, scanner.skip 1)
            else if quote == '"' && c == '\\' then
              if rest.head?.any isBreak then
                match gap none (rest.length + 1) {} (scanner.skip 1).skipBreak with
                | some (after, next) =>
                    quotedText quote fuel (read ++ List.replicate after.breaks '\n') next
                | none => none
              else
                match escape? rest with
                | some (d, count) =>
                    quotedText quote fuel (read ++ [d]) (scanner.skip (count + 1))
                | none => none
            else if isSpace c || isBreak c then
              match gap none (scanner.rest.length + 1) {} scanner with
              | some (after, next) => quotedText quote fuel (read ++ after.text) next
              | none => none
            else quotedText quote fuel (read ++ [c]) (scanner.skip 1)

def quotedScalar (quote : Char) (scanner : Scanner) : Option Scanner := do
  let (text, next) ← quotedText quote (scanner.rest.length + 1) [] (scanner.skip 1)
  return next.push (.scalar false (String.ofList text))

/-- The header of a block scalar: whether line breaks at the end are kept (`some true`) or dropped
(`some false`), and the indentation that is given. -/
def blockHeader : List Char → Option Bool × Option Nat × List Char
  | c :: rest =>
      if c == '+' || c == '-' then
        match rest with
        | d :: more =>
            if Text.isDigit d then (some (c == '+'), some (d.toNat - 48), more)
            else (some (c == '+'), none, rest)
        | [] => (some (c == '+'), none, [])
      else if Text.isDigit c then
        match rest with
        | d :: more =>
            if d == '+' || d == '-' then (some (d == '+'), some (c.toNat - 48), more)
            else (none, some (c.toNat - 48), rest)
        | [] => (none, some (c.toNat - 48), [])
      else (none, none, c :: rest)
  | [] => (none, none, [])

/-- The indentation of the first line that is not blank, or of the longest blank one. -/
def blockIndent : Nat → List (List Char) → Nat
  | longest, [] => longest
  | longest, line :: lines =>
      let blanks := (line.takeWhile (· == ' ')).length
      if blanks == line.length then blockIndent (max longest blanks) lines else max longest blanks

def blockLines (indent : Nat) : List (List Char) → List (List Char)
  | [] => []
  | line :: lines =>
      let blanks := (line.takeWhile (· == ' ')).length
      if blanks == line.length && blanks ≤ indent then [] :: blockLines indent lines
      else if indent ≤ blanks then line.drop indent :: blockLines indent lines
      else []

def startsBlank (line : List Char) : Bool :=
  line.head?.any isSpace

/-- Folds the lines behind a line of text: one line break between two lines of text is a blank, and
of several the first says nothing. Lines that start with a blank keep their breaks. -/
def foldAfter (indented : Bool) (empty : Nat) : List (List Char) → List Char
  | [] => []
  | line :: lines =>
      if line.isEmpty then foldAfter indented (empty + 1) lines
      else
        let keeps := indented || startsBlank line
        let gap := if keeps then empty + 1 else empty
        (if gap = 0 then [' '] else List.replicate gap '\n') ++ line ++
          foldAfter (startsBlank line) 0 lines

def foldLines (lines : List (List Char)) : List Char :=
  match lines.dropWhile List.isEmpty with
  | [] => []
  | line :: rest =>
      List.replicate (lines.length - rest.length - 1) '\n' ++ line ++
        foldAfter (startsBlank line) 0 rest

def blockScalar (folded : Bool) (scanner : Scanner) : Option Scanner := do
  let (chomp, given, header) := blockHeader (scanner.rest.drop 1)
  if given == some 0 then none
  let header := header.dropWhile isSpace
  let header := if header.head? == some '#' then header.dropWhile (fun c => !isBreak c) else header
  if !(header.isEmpty || header.head?.any isBreak) then none
  let lines := (Text.lines (header.drop 1)).map (·.filter (· != '\r'))
  let outer := scanner.indent.toNat
  let indent := match given with
    | some count => if 0 ≤ scanner.indent then outer + count else count
    | none => max (max (blockIndent 0 lines) (scanner.indent + 1).toNat) 1
  let own := blockLines indent lines
  let solid := (own.reverse.dropWhile List.isEmpty).reverse
  let body := if folded then foldLines solid else Text.joinWith ['\n'] solid
  let ending := match chomp with
    | some false => []
    | some true => List.replicate (own.length - solid.length + 1) '\n'
    | none => if solid.isEmpty then [] else ['\n']
  let rest := (List.range (own.length)).foldl
    (fun text _ => (text.dropWhile (· != '\n')).drop 1) (header.drop 1)
  let next :=
    { scanner with
      rest
      offset := scanner.offset + (scanner.rest.length - rest.length)
      line := scanner.line + own.length + 1
      column := 0
      keyAllowed := true }
  return next.push (.scalar false (String.ofList (body ++ ending)))

def isNamePart (c : Char) : Bool :=
  c.isAlphanum || c == '-' || c == '_'

def named (make : String → Token) (scanner : Scanner) : Option Scanner := do
  let text := (scanner.rest.drop 1).takeWhile isNamePart
  let after := scanner.rest.drop (text.length + 1)
  let ends := blankAt after || after.head?.any (fun c => "?:,]\x7d%@`".toList.contains c)
  if text.isEmpty || !ends then none
  let next := (scanner.skip (text.length + 1)).push (make (String.ofList text))
  return { next with keyAllowed := false }

def tagged (scanner : Scanner) : Option Scanner := do
  let text := scanner.rest.takeWhile
    (fun c => !(isSpace c || isBreak c || (scanner.inFlow && isFlowMark c)))
  let next := (scanner.skip text.length).push (.tag (String.ofList text))
  return { next with keyAllowed := false }

def flowStart (token : Token) (scanner : Scanner) : Option Scanner := do
  let scanner ← scanner.rememberKey
  let next := (scanner.skip 1).push token
  return { next with keys := none :: next.keys, keyAllowed := true }

def flowEnd (token : Token) (scanner : Scanner) : Option Scanner := do
  let scanner ← scanner.forgetKey
  let keys := if scanner.inFlow then scanner.keys.drop 1 else scanner.keys
  let next := (scanner.skip 1).push token
  return { next with keys, keyAllowed := false }

def flowEntry (scanner : Scanner) : Option Scanner := do
  let scanner ← scanner.forgetKey
  return { (scanner.skip 1).push .flowEntry with keyAllowed := true }

def openBlock (token : Token) (scanner : Scanner) : Option Scanner :=
  if scanner.inFlow then some scanner
  else if scanner.keyAllowed then some (scanner.roll scanner.column scanner.tokens.length token)
  else none

def blockEntry (scanner : Scanner) : Option Scanner := do
  let scanner ← scanner.openBlock .sequenceStart
  let scanner ← scanner.forgetKey
  return { (scanner.skip 1).push .entry with keyAllowed := true }

def explicitKey (scanner : Scanner) : Option Scanner := do
  let scanner ← scanner.openBlock .mappingStart
  let scanner ← scanner.forgetKey
  return { (scanner.skip 1).push .key with keyAllowed := !scanner.inFlow }

def value (scanner : Scanner) : Option Scanner := do
  match scanner.keys with
  | some key :: keys =>
      let scanner := { scanner with keys := none :: keys }
      let scanner := (scanner.insertAt key.index .key).roll key.column key.index .mappingStart
      return { (scanner.skip 1).push .value with keyAllowed := false }
  | _ =>
      let scanner ← scanner.openBlock .mappingStart
      return { (scanner.skip 1).push .value with keyAllowed := !scanner.inFlow }

def documentMark (token : Token) (scanner : Scanner) : Option Scanner := do
  let scanner ← (scanner.unrollTo (-1)).forgetKey
  return { (scanner.skip 3).push token with keyAllowed := false }

def directive (scanner : Scanner) : Option Scanner := do
  let scanner ← (scanner.unrollTo (-1)).forgetKey
  let count := (scanner.rest.takeWhile (fun c => !isBreak c)).length
  return { (scanner.skip count).push .directive with keyAllowed := false }

def startsPlain (scanner : Scanner) (c : Char) (rest : List Char) : Bool :=
  !"-?:,[]\x7b\x7d#&*!|>'\"%@`".toList.contains c || (c == '-' && !(rest.head?.any isSpace)) ||
    (!scanner.inFlow && (c == '?' || c == ':') && !blankAt rest)

def token (scanner : Scanner) : Option Scanner :=
  match scanner.rest with
  | [] => none
  | c :: rest =>
      if scanner.column == 0 && c == '%' then directive scanner
      else if scanner.atDocumentMark then
        documentMark (if c == '-' then .documentStart else .documentEnd) scanner
      else if c == '[' then flowStart .flowSequenceStart scanner
      else if c == '{' then flowStart .flowMappingStart scanner
      else if c == ']' then flowEnd .flowSequenceEnd scanner
      else if c == '}' then flowEnd .flowMappingEnd scanner
      else if c == ',' then flowEntry scanner
      else if c == '-' && blankAt rest then blockEntry scanner
      else if c == '?' && (scanner.inFlow || blankAt rest) then explicitKey scanner
      else if c == ':' && (scanner.inFlow || blankAt rest) then value scanner
      else if c == '*' then scanner.rememberKey.bind (named .reference)
      else if c == '&' then scanner.rememberKey.bind (named .anchor)
      else if c == '!' then scanner.rememberKey.bind tagged
      else if (c == '|' || c == '>') && !scanner.inFlow then
        scanner.forgetKey.bind (blockScalar (c == '>'))
      else if c == '\'' || c == '"' then do
        let next ← quotedScalar c (← scanner.rememberKey)
        return { next with keyAllowed := false }
      else if scanner.startsPlain c rest then scanner.rememberKey.bind plainScalar
      else none

/-- Reads all tokens; each but the last step takes a character. -/
def all : Nat → Scanner → Option Scanner
  | 0, _ => none
  | fuel + 1, scanner => do
      let scanner ← (scanner.toToken (scanner.rest.length + 1)).dropStale
      let scanner := scanner.unrollTo scanner.column
      if scanner.rest.isEmpty then (scanner.unrollTo (-1)).forgetKey
      else all fuel (← token scanner)

end Scanner

def tokens? (text : List Char) : Option (List Token) :=
  (Scanner.all (text.length + 1) { rest := text }).map (fun scanner => scanner.tokens.reverse)

end CodeGraph.Yaml
