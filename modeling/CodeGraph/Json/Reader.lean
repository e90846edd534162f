import CodeGraph.Json
import CodeGraph.Digest.Hex

/-!
Reading JSON texts. The reader is strict: no trailing commas, comments or control characters in
strings, escapes of surrogates only in pairs, and nothing but blanks after the value. Values nest
at most 127 deep.
-/

set_option autoImplicit false

namespace CodeGraph.Json.Reader

def isBlank (c : Char) : Bool :=
  c == ' ' || c == '\t' || c == '\n' || c == '\r'

def skip (text : List Char) : List Char :=
  text.dropWhile isBlank

def unit? (a b c d : Char) : Option Nat := do
  let a ← Digest.hexValue? a
  let b ← Digest.hexValue? b
  let c ← Digest.hexValue? c
  let d ← Digest.hexValue? d
  return 4096 * a + 256 * b + 16 * c + d

def escape? : Char → Option Char
  | '"' => some '"'
  | '\\' => some '\\'
  | '/' => some '/'
  | 'b' => some '\x08'
  | 'f' => some '\x0c'
  | 'n' => some '\n'
  | 'r' => some '\r'
  | 't' => some '\t'
  | _ => none

def isHighSurrogate (unit : Nat) : Bool :=
  decide (0xD800 ≤ unit) && decide (unit < 0xDC00)

def isLowSurrogate (unit : Nat) : Bool :=
  decide (0xDC00 ≤ unit) && decide (unit < 0xE000)

def surrogatePair (high low : Nat) : Char :=
  Char.ofNat (0x10000 + 0x400 * (high - 0xD800) + (low - 0xDC00))

def stringBody (read : List Char) : List Char → Option (List Char × List Char)
  | [] => none
  | '"' :: rest => some (read, rest)
  | '\\' :: 'u' :: a :: b :: c :: d :: '\\' :: 'u' :: e :: f :: g :: h :: rest =>
      match unit? a b c d with
      | none => none
      | some unit =>
          if isHighSurrogate unit then
            match unit? e f g h with
            | none => none
            | some low =>
                if isLowSurrogate low then stringBody (surrogatePair unit low :: read) rest
                else none
          else if isLowSurrogate unit then none
          else stringBody (Char.ofNat unit :: read) ('\\' :: 'u' :: e :: f :: g :: h :: rest)
  | '\\' :: 'u' :: a :: b :: c :: d :: rest =>
      match unit? a b c d with
      | none => none
      | some unit =>
          if isHighSurrogate unit || isLowSurrogate unit then none
          else stringBody (Char.ofNat unit :: read) rest
  | '\\' :: c :: rest =>
      match escape? c with
      | some image => stringBody (image :: read) rest
      | none => none
  | c :: rest => if c.toNat < 32 || c == '\\' then none else stringBody (c :: read) rest

def stringText (text : List Char) : Option (String × List Char) :=
  (stringBody [] text).map (fun result => (String.ofList result.1.reverse, result.2))

def fits (value : Int) : Bool :=
  decide (-9223372036854775808 ≤ value) && decide (value < 18446744073709551616)

def fraction? : List Char → Option (List Char × List Char)
  | '.' :: rest =>
      let digits := rest.takeWhile Text.isDigit
      if digits.isEmpty then none else some (digits, rest.dropWhile Text.isDigit)
  | text => some ([], text)

def exponentDigits? (negative : Bool) (text : List Char) : Option (Int × List Char) :=
  let digits := text.takeWhile Text.isDigit
  let value : Int := Text.digitsValue digits
  if digits.isEmpty then none
  else some (if negative then -value else value, text.dropWhile Text.isDigit)

def exponent? : List Char → Option (Option Int × List Char)
  | 'e' :: rest | 'E' :: rest =>
      let result := match rest with
        | '-' :: digits => exponentDigits? true digits
        | '+' :: digits => exponentDigits? false digits
        | digits => exponentDigits? false digits
      result.map (fun parts => (some parts.1, parts.2))
  | text => some (none, text)

/-- Exponents beyond this size leave no double but zero. -/
def exponentLimit : Int := 100000

def clampExponent (exponent : Int) : Int :=
  max (-exponentLimit) (min exponentLimit exponent)

def decimal? (negative : Bool) (digits : Nat) (exponent : Int) : Option Number :=
  let number := Number.decimal negative digits (clampExponent exponent)
  if digits != 0 && exponent > exponentLimit then none
  else if number.toFloat.isInf then none
  else some number

def unsigned? (negative : Bool) (text : List Char) : Option (Number × List Char) := do
  let digits := text.takeWhile Text.isDigit
  let rest := text.dropWhile Text.isDigit
  if digits.isEmpty then none
  if digits.length > 1 && digits.head? == some '0' then none
  let (places, rest) ← fraction? rest
  let (exponent, rest) ← exponent? rest
  let whole := Text.digitsValue digits
  if places.isEmpty && exponent.isNone then
    let value : Int := if negative then -(whole : Int) else whole
    if fits value && !(negative && whole == 0) then
      some (.int value, rest)
    else
      (decimal? negative whole 0).map (fun number => (number, rest))
  else
    let number ← decimal? negative (Text.digitsValue (digits ++ places))
      (exponent.getD 0 - places.length)
    some (number, rest)

def number? : List Char → Option (Number × List Char)
  | '-' :: rest => unsigned? true rest
  | text => unsigned? false text

def keyword? (text : List Char) : Option (Json × List Char) :=
  match Text.stripStart? "null".toList text with
  | some rest => some (.null, rest)
  | none =>
      match Text.stripStart? "true".toList text with
      | some rest => some (.bool true, rest)
      | none =>
          (Text.stripStart? "false".toList text).map (fun rest => (Json.bool false, rest))

mutual

/-- Reads one value. `depth` is how many levels may still be opened. -/
def value? : Nat → Nat → List Char → Option (Json × List Char)
  | 0, _, _ => none
  | fuel + 1, depth, text =>
      match skip text with
      | '"' :: rest => (stringText rest).map (fun result => (.string result.1, result.2))
      | '[' :: rest =>
          if depth ≤ 1 then none
          else
            match skip rest with
            | ']' :: rest => some (.array [], rest)
            | rest =>
                (items? fuel (depth - 1) [] rest).map
                  (fun result => (.array result.1.reverse, result.2))
      | '{' :: rest =>
          if depth ≤ 1 then none
          else
            match skip rest with
            | '}' :: rest => some (.object [], rest)
            | rest =>
                (fields? fuel (depth - 1) [] rest).map
                  (fun result => (.object result.1.reverse, result.2))
      | c :: rest =>
          if c == '-' || Text.isDigit c then
            (number? (c :: rest)).map (fun result => (.number result.1, result.2))
          else keyword? (c :: rest)
      | [] => none

def items? : Nat → Nat → List Json → List Char → Option (List Json × List Char)
  | 0, _, _, _ => none
  | fuel + 1, depth, read, text =>
      match value? fuel depth text with
      | none => none
      | some (item, rest) =>
          match skip rest with
          | ',' :: rest => items? fuel depth (item :: read) rest
          | ']' :: rest => some (item :: read, rest)
          | _ => none

def fields? : Nat → Nat → List (String × Json) → List Char →
    Option (List (String × Json) × List Char)
  | 0, _, _, _ => none
  | fuel + 1, depth, read, text =>
      match skip text with
      | '"' :: rest =>
          match stringText rest with
          | none => none
          | some (key, rest) =>
              match skip rest with
              | ':' :: rest =>
                  match value? fuel depth rest with
                  | none => none
                  | some (value, rest) =>
                      match skip rest with
                      | ',' :: rest => fields? fuel depth ((key, value) :: read) rest
                      | '}' :: rest => some ((key, value) :: read, rest)
                      | _ => none
              | _ => none
      | _ => none

end

def depthLimit : Nat := 128

end Reader

/-- The value a text stands for, with the fields of objects as they are written, repeated keys and
all. Every step of the reader but two for each value takes a character, so twice the length is fuel
enough. -/
def readWritten? (text : String) : Option Json :=
  let chars := text.toList
  match Reader.value? (2 * chars.length + 2) Reader.depthLimit chars with
  | some (value, rest) => if (Reader.skip rest).isEmpty then some value else none
  | none => none

mutual

/-- Sorts the fields of all objects; the last one of a repeated key counts. -/
def sorted : Json → Json
  | .array items => .array (sortedItems items)
  | .object fields => .object (Properties.ofList (sortedFields fields))
  | value => value

def sortedItems : List Json → List Json
  | [] => []
  | item :: rest => sorted item :: sortedItems rest

def sortedFields : List (String × Json) → List (String × Json)
  | [] => []
  | (key, value) :: rest => (key, sorted value) :: sortedFields rest

end

def read? (text : String) : Option Json :=
  (readWritten? text).map sorted

end CodeGraph.Json
