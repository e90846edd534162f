import CodeGraph.Toml

set_option autoImplicit false

namespace CodeGraph.Toml.Reader

def isBlank (c : Char) : Bool :=
  c == ' ' || c == '\t'

def isControl (c : Char) : Bool :=
  (c.toNat < 32 && c != '\t') || c.toNat == 127

def skipBlanks (text : List Char) : List Char :=
  text.dropWhile isBlank

def skipComment (text : List Char) : Option (List Char) :=
  match text with
  | '#' :: rest =>
      let line := rest.takeWhile (· != '\n')
      let solid := if line.getLast? == some '\r' then line.dropLast else line
      if solid.any isControl then none else some (rest.drop solid.length)
  | _ => some text

def skipNewline? : List Char → Option (List Char)
  | '\n' :: rest => some rest
  | '\r' :: '\n' :: rest => some rest
  | _ => none

def skipLines : Nat → List Char → Option (List Char)
  | 0, _ => none
  | fuel + 1, text => do
      let text ← skipComment (skipBlanks text)
      match skipNewline? text with
      | some rest => skipLines fuel rest
      | none => return text

def hexValue? (c : Char) : Option Nat :=
  if Text.isDigit c then some (c.toNat - 48)
  else if 'a' ≤ c && c ≤ 'f' then some (c.toNat - 87)
  else if 'A' ≤ c && c ≤ 'F' then some (c.toNat - 55)
  else none

def codePoint? (count : Nat) (text : List Char) : Option (Char × List Char) := do
  let digits := text.take count
  if digits.length < count then none
  let values ← digits.mapM hexValue?
  let code := values.foldl (fun value digit => 16 * value + digit) 0
  if 0x10FFFF < code || (0xD800 ≤ code && code ≤ 0xDFFF) then none
  return (Char.ofNat code, text.drop count)

def escape? : List Char → Option (Char × List Char)
  | 'b' :: rest => some ('\x08', rest)
  | 't' :: rest => some ('\t', rest)
  | 'n' :: rest => some ('\n', rest)
  | 'f' :: rest => some ('\x0c', rest)
  | 'r' :: rest => some ('\r', rest)
  | 'e' :: rest => some ('\x1b', rest)
  | '"' :: rest => some ('"', rest)
  | '\\' :: rest => some ('\\', rest)
  | 'x' :: rest => codePoint? 2 rest
  | 'u' :: rest => codePoint? 4 rest
  | 'U' :: rest => codePoint? 8 rest
  | _ => none

def basic : Nat → List Char → List Char → Option (String × List Char)
  | 0, _, _ => none
  | fuel + 1, read, text =>
      match text with
      | '"' :: rest => some (String.ofList read.reverse, rest)
      | '\\' :: rest => do
          let (c, rest) ← escape? rest
          basic fuel (c :: read) rest
      | c :: rest => if isControl c then none else basic fuel (c :: read) rest
      | [] => none

def literal : List Char → List Char → Option (String × List Char)
  | read, '\'' :: rest => some (String.ofList read.reverse, rest)
  | read, c :: rest => if isControl c then none else literal (c :: read) rest
  | _, [] => none

/-- The end of a string of several lines: up to two quotes belong to the text. -/
def closing? (quote : Char) (text : List Char) : Option (List Char × List Char) :=
  let count := (text.takeWhile (· == quote)).length
  if count < 3 then none
  else
    let own := min (count - 3) 2
    some (List.replicate own quote, text.drop (own + 3))

/-- A backslash at the end of a line takes all blanks behind it. -/
def joinedLine? (text : List Char) : Option (List Char) := do
  let rest ← skipNewline? (skipBlanks text)
  return rest.dropWhile (fun c => isBlank c || c == '\n' || c == '\r')

def multiline (quote : Char) : Nat → List Char → List Char → Option (String × List Char)
  | 0, _, _ => none
  | fuel + 1, read, text =>
      match closing? quote text with
      | some (own, rest) => some (String.ofList (read.reverse ++ own), rest)
      | none =>
          match text with
          | [] => none
          | '\r' :: '\n' :: rest => multiline quote fuel ('\n' :: '\r' :: read) rest
          | '\n' :: rest => multiline quote fuel ('\n' :: read) rest
          | c :: rest =>
              if quote == '"' && c == '\\' then
                match joinedLine? rest with
                | some rest => multiline quote fuel read rest
                | none => do
                    let (d, rest) ← escape? rest
                    multiline quote fuel (d :: read) rest
              else if isControl c then none
              else multiline quote fuel (c :: read) rest

def multilineText (quote : Char) (text : List Char) : Option (String × List Char) :=
  let text := (skipNewline? text).getD text
  multiline quote (text.length + 1) [] text

def stringValue (text : List Char) : Option (String × List Char) :=
  match text with
  | '"' :: '"' :: '"' :: rest => multilineText '"' rest
  | '\'' :: '\'' :: '\'' :: rest => multilineText '\'' rest
  | '"' :: rest => basic (rest.length + 1) [] rest
  | '\'' :: rest => literal [] rest
  | _ => none

def isBare (c : Char) : Bool :=
  c.isAlphanum || c == '_' || c == '-'

def simpleKey (text : List Char) : Option (String × List Char) :=
  match text with
  | '"' :: rest => basic (rest.length + 1) [] rest
  | '\'' :: rest => literal [] rest
  | _ =>
      let bare := text.takeWhile isBare
      if bare.isEmpty then none else some (String.ofList bare, text.drop bare.length)

def key : Nat → List Char → Option (List String × List Char)
  | 0, _ => none
  | fuel + 1, text => do
      let (first, rest) ← simpleKey (skipBlanks text)
      match skipBlanks rest with
      | '.' :: rest =>
          let (others, rest) ← key fuel rest
          return (first :: others, rest)
      | rest => return ([first], rest)

def isScalarPart (c : Char) : Bool :=
  c.isAlphanum || c == '_' || c == '-' || c == '+' || c == '.' || c == ':'

/-- Removes underscores, each of which stands between two digits. -/
def withoutUnderscores? (isDigit : Char → Bool) : Bool → List Char → Option (List Char)
  | _, [] => some []
  | afterDigit, '_' :: rest =>
      if afterDigit && rest.head?.any isDigit then withoutUnderscores? isDigit false rest else none
  | _, c :: rest => (withoutUnderscores? isDigit (isDigit c) rest).map (c :: ·)

def digits? (radix : Nat) (text : List Char) : Option Nat := do
  let values ← text.mapM hexValue?
  if values.isEmpty || values.any (radix ≤ ·) then none
  return values.foldl (fun value digit => radix * value + digit) 0

def radixInteger? (radix : Nat) (text : List Char) : Option Int := do
  let digits ← withoutUnderscores? (fun c => (hexValue? c).isSome) false text
  return Int.ofNat (← digits? radix digits)

def integer? (text : List Char) : Option Int := do
  match text with
  | '0' :: 'x' :: rest => radixInteger? 16 rest
  | '0' :: 'o' :: rest => radixInteger? 8 rest
  | '0' :: 'b' :: rest => radixInteger? 2 rest
  | _ =>
      let (negative, digits) := match text with
        | '-' :: rest => (true, rest)
        | '+' :: rest => (false, rest)
        | _ => (false, text)
      let digits ← withoutUnderscores? Text.isDigit false digits
      if digits.head? == some '0' && 1 < digits.length then none
      let value ← digits? 10 digits
      return if negative then -Int.ofNat value else Int.ofNat value

/-- Integers have at most 128 bits. -/
def fitsInteger (value : Int) : Bool :=
  decide (-170141183460469231731687303715884105728 ≤ value) &&
    decide (value < 340282366920938463463374607431768211456)

def isExponent (text : List Char) : Bool :=
  match text with
  | [] => true
  | c :: rest =>
      let digits := match rest with
        | '+' :: rest | '-' :: rest => rest
        | _ => rest
      (c == 'e' || c == 'E') && !digits.isEmpty && digits.all Text.isDigit

def isFloat (text : List Char) : Bool :=
  let body := match text with
    | '+' :: rest | '-' :: rest => rest
    | _ => text
  if body == "inf".toList || body == "nan".toList then true
  else
    match withoutUnderscores? Text.isDigit false body with
    | none => false
    | some body =>
        let whole := body.takeWhile Text.isDigit
        let wholeFine := !whole.isEmpty && !(whole.head? == some '0' && 1 < whole.length)
        match body.drop whole.length with
        | '.' :: rest =>
            let fraction := rest.takeWhile Text.isDigit
            wholeFine && !fraction.isEmpty && isExponent (rest.drop fraction.length)
        | rest => wholeFine && !rest.isEmpty && isExponent rest

def number? (count : Nat) (text : List Char) : Option (Nat × List Char) :=
  let digits := text.take count
  if digits.length == count && digits.all Text.isDigit then
    some (Text.digitsValue digits, text.drop count)
  else none

def days (year month : Nat) : Nat :=
  if month == 2 then
    if year % 4 == 0 && (year % 100 != 0 || year % 400 == 0) then 29 else 28
  else if [4, 6, 9, 11].contains month then 30
  else 31

def date? (text : List Char) : Option (List Char) := do
  let (year, rest) ← number? 4 text
  let rest ← Text.stripStart? ['-'] rest
  let (month, rest) ← number? 2 rest
  let rest ← Text.stripStart? ['-'] rest
  let (day, rest) ← number? 2 rest
  if 1 ≤ month && month ≤ 12 && 1 ≤ day && day ≤ days year month then some rest else none

def seconds? (text : List Char) : Option (List Char) :=
  match text with
  | ':' :: rest => do
      let (second, rest) ← number? 2 rest
      if 60 < second then none
      match rest with
      | '.' :: rest =>
          let fraction := rest.takeWhile Text.isDigit
          if fraction.isEmpty then none else some (rest.drop fraction.length)
      | _ => return rest
  | _ => some text

def time? (text : List Char) : Option (List Char) := do
  let (hour, rest) ← number? 2 text
  let rest ← Text.stripStart? [':'] rest
  let (minute, rest) ← number? 2 rest
  if 23 < hour || 59 < minute then none else seconds? rest

def offset? (text : List Char) : Option (List Char) :=
  match text with
  | 'Z' :: rest | 'z' :: rest => some rest
  | '+' :: rest | '-' :: rest => do
      let (hour, rest) ← number? 2 rest
      let rest ← Text.stripStart? [':'] rest
      let (minute, rest) ← number? 2 rest
      if 23 < hour || 59 < minute then none else some rest
  | _ => some text

def moment? (text : List Char) : Option (List Char) :=
  match date? text with
  | some (c :: rest) =>
      if c == 'T' || c == 't' || (c == ' ' && rest.head?.any Text.isDigit) then
        (time? rest).bind offset?
      else some (c :: rest)
  | some [] => some []
  | none => time? text

def scalar (text : List Char) : Option (Toml × List Char) :=
  match moment? text with
  | some rest => some (.other (String.ofList (text.take (text.length - rest.length))), rest)
  | none =>
      let word := text.takeWhile isScalarPart
      let rest := text.drop word.length
      if word == "true".toList then some (.boolean true, rest)
      else if word == "false".toList then some (.boolean false, rest)
      else
        match integer? word with
        | some value => if fitsInteger value then some (.integer value, rest) else none
        | none => if isFloat word then some (.other (String.ofList word), rest) else none

mutual

def value : Nat → List Char → Option (Toml × List Char)
  | 0, _ => none
  | fuel + 1, text =>
      match text with
      | '[' :: rest => items fuel [] rest
      | '{' :: rest => inlineEntries fuel [] rest
      | c :: _ =>
          if c == '"' || c == '\'' then (stringValue text).map (fun (s, rest) => (.string s, rest))
          else scalar text
      | [] => none

def items : Nat → List Toml → List Char → Option (Toml × List Char)
  | 0, _, _ => none
  | fuel + 1, read, text => do
      let text ← skipLines (text.length + 1) text
      match text with
      | ']' :: rest => return (.array read.reverse, rest)
      | _ =>
          let (item, rest) ← value fuel text
          let rest ← skipLines (rest.length + 1) rest
          match rest with
          | ',' :: rest => items fuel (item :: read) rest
          | ']' :: rest => return (.array (item :: read).reverse, rest)
          | _ => none

def inlineEntries : Nat → Entries → List Char → Option (Toml × List Char)
  | 0, _, _ => none
  | fuel + 1, read, text => do
      let text ← skipLines (text.length + 1) text
      match text with
      | '}' :: rest => return (.table (ofEntries read), rest)
      | _ =>
          let (path, rest) ← key (text.length + 1) text
          let rest ← Text.stripStart? ['='] (skipBlanks rest)
          let (item, rest) ← value fuel (skipBlanks rest)
          let read ← Entries.define? path.dropLast (path.getLastD "") item read
          let rest ← skipLines (rest.length + 1) rest
          match rest with
          | ',' :: rest => inlineEntries fuel read rest
          | '}' :: rest => return (.table (ofEntries read), rest)
          | _ => none

end

structure Document where
  entries : Entries := []
  table : List String := []

def lineEnd? (text : List Char) : Option (List Char) := do
  let text ← skipComment (skipBlanks text)
  if text.isEmpty then return []
  skipNewline? text

def expression (document : Document) (text : List Char) : Option (Document × List Char) := do
  match text with
  | '[' :: '[' :: rest =>
      let (path, rest) ← key (rest.length + 1) rest
      let rest ← Text.stripStart? [']', ']'] (skipBlanks rest)
      let entries ← Entries.openRow? path.dropLast (path.getLastD "") document.entries
      return ({ entries, table := path }, ← lineEnd? rest)
  | '[' :: rest =>
      let (path, rest) ← key (rest.length + 1) rest
      let rest ← Text.stripStart? [']'] (skipBlanks rest)
      let entries ← Entries.openTable? path.dropLast (path.getLastD "") document.entries
      return ({ entries, table := path }, ← lineEnd? rest)
  | _ =>
      let (path, rest) ← key (text.length + 1) text
      let rest ← Text.stripStart? ['='] (skipBlanks rest)
      let (item, rest) ← value (2 * rest.length + 2) (skipBlanks rest)
      let entries ← Entries.defineAt? document.table path.dropLast (path.getLastD "") item
        document.entries
      return ({ document with entries }, ← lineEnd? rest)

def expressions : Nat → Document → List Char → Option Document
  | 0, _, _ => none
  | fuel + 1, document, text => do
      let text ← skipLines (text.length + 1) text
      if text.isEmpty then return document
      let (document, rest) ← expression document text
      expressions fuel document rest

end CodeGraph.Toml.Reader

namespace CodeGraph.Toml

def read? (text : String) : Option Toml := do
  let chars := text.toList
  let chars := if chars.head?.any (fun c => c.toNat == 0xFEFF) then chars.drop 1 else chars
  let document ← Reader.expressions (chars.length + 1) {} chars
  return .table (ofEntries document.entries)

end CodeGraph.Toml
