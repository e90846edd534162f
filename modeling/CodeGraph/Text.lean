import CodeGraph.Text.Property

set_option autoImplicit false

namespace CodeGraph.Text

def splitBy (cut : Char → Bool) : List Char → List (List Char)
  | [] => [[]]
  | c :: rest =>
      if cut c then [] :: splitBy cut rest
      else
        match splitBy cut rest with
        | [] => [[c]]
        | piece :: pieces => (c :: piece) :: pieces

theorem splitBy_ne_nil (cut : Char → Bool) (text : List Char) : splitBy cut text ≠ [] := by
  cases text with
  | nil => simp [splitBy]
  | cons c rest =>
      by_cases h : cut c
      · simp [splitBy, h]
      · simp only [splitBy, h]
        cases splitBy cut rest <;> simp

def splitOn (separator : Char) (text : List Char) : List (List Char) :=
  splitBy (· == separator) text

def splitOnce (separator : Char) : List Char → Option (List Char × List Char)
  | [] => none
  | c :: rest =>
      if c == separator then some ([], rest)
      else (splitOnce separator rest).map (fun parts => (c :: parts.1, parts.2))

def splitLast (separator : Char) (text : List Char) : Option (List Char × List Char) :=
  (splitOnce separator text.reverse).map (fun parts => (parts.2.reverse, parts.1.reverse))

def stripStart? : List Char → List Char → Option (List Char)
  | [], text => some text
  | _ :: _, [] => none
  | c :: start, d :: text => if c == d then stripStart? start text else none

@[simp] theorem stripStart?_append (start text : List Char) :
    stripStart? start (start ++ text) = some text := by
  induction start with
  | nil => rfl
  | cons c start ih => simp [stripStart?, ih]

def startsWith (start text : List Char) : Bool :=
  (stripStart? start text).isSome

def stripEnd? (ending text : List Char) : Option (List Char) :=
  (stripStart? ending.reverse text.reverse).map List.reverse

def endsWith (ending text : List Char) : Bool :=
  (stripEnd? ending text).isSome

def stripEndAll (ending : List Char) : Nat → List Char → List Char
  | 0, text => text
  | fuel + 1, text =>
      match stripEnd? ending text with
      | some rest => if ending.isEmpty then text else stripEndAll ending fuel rest
      | none => text

def splitOnceAt (mark : List Char) : List Char → Option (List Char × List Char)
  | [] => (stripStart? mark []).map (fun rest => ([], rest))
  | c :: text =>
      match stripStart? mark (c :: text) with
      | some rest => some ([], rest)
      | none => (splitOnceAt mark text).map (fun parts => (c :: parts.1, parts.2))

def trimStartBy (drop : Char → Bool) (text : List Char) : List Char :=
  text.dropWhile drop

def trimEndBy (drop : Char → Bool) (text : List Char) : List Char :=
  (text.reverse.dropWhile drop).reverse

def trimBy (drop : Char → Bool) (text : List Char) : List Char :=
  trimEndBy drop (trimStartBy drop text)

def trim (text : List Char) : List Char :=
  trimBy isBlank text

def trimEnd (text : List Char) : List Char :=
  trimEndBy isBlank text

/-- The lines of a text. A final line break starts no line, and a carriage return before a line
break belongs to the break. -/
def lines (text : List Char) : List (List Char) :=
  let pieces := splitOn '\n' text
  let broken := pieces.dropLast.map
    (fun line => if line.getLast? == some '\r' then line.dropLast else line)
  match pieces.getLast? with
  | some [] | none => broken
  | some last => broken ++ [last]

def isDigit (c : Char) : Bool :=
  decide ('0' ≤ c) && decide (c ≤ '9')

def digitsValue (digits : List Char) : Nat :=
  digits.foldl (fun value c => 10 * value + (c.toNat - 48)) 0

/-- A decimal number: an optional plus sign and at least one digit. -/
def natural? (text : List Char) : Option Nat :=
  let digits := match text with
    | '+' :: rest => rest
    | _ => text
  if digits.isEmpty || !digits.all isDigit then none else some (digitsValue digits)

def boundedNatural? (limit : Nat) (text : List Char) : Option Nat :=
  (natural? text).filter (fun value => decide (value ≤ limit))

def joinWith (separator : List Char) : List (List Char) → List Char
  | [] => []
  | [piece] => piece
  | piece :: pieces => piece ++ separator ++ joinWith separator pieces

def tailsFrom (position : Nat) : List Char → List (Nat × List Char)
  | [] => [(position, [])]
  | c :: rest => (position, c :: rest) :: tailsFrom (position + 1) rest

def padLeft (width : Nat) (text : String) : String :=
  String.ofList (List.replicate (width - text.length) ' ') ++ text

def padRight (width : Nat) (text : String) : String :=
  text ++ String.ofList (List.replicate (width - text.length) ' ')

def bytes (text : String) : List UInt8 :=
  text.toUTF8.data.toList

def ofBytes? (content : List UInt8) : Option String :=
  String.fromUTF8? (ByteArray.mk content.toArray)

/-- The part of a text in front of a byte; `none` inside a character. -/
def before? (text : String) (position : Nat) : Option String :=
  if boundary : String.Pos.Raw.IsValid text ⟨position⟩ then
    some (text.extract text.startPos (text.pos ⟨position⟩ boundary))
  else none

def after? (text : String) (position : Nat) : Option String :=
  if boundary : String.Pos.Raw.IsValid text ⟨position⟩ then
    some (text.extract (text.pos ⟨position⟩ boundary) text.endPos)
  else none

/-- Where some bytes stand in others, from left to right; a find that overlaps an earlier one does
not count. `skip` counts the bytes that still belong to the last find. -/
def findsFrom (part : List UInt8) (position skip : Nat) : List UInt8 → List Nat
  | [] => []
  | byte :: rest =>
      if skip ≠ 0 then findsFrom part (position + 1) (skip - 1) rest
      else if part.isPrefixOf (byte :: rest) then
        position :: findsFrom part (position + 1) (part.length - 1) rest
      else findsFrom part (position + 1) 0 rest

def finds (text part : String) : List Nat :=
  if part.isEmpty then
    (List.range (text.utf8ByteSize + 1)).filter (fun position => (before? text position).isSome)
  else findsFrom (bytes part) 0 0 (bytes text)

def newlines (text : List Char) : Nat :=
  text.countP (· == '\n')

end CodeGraph.Text
