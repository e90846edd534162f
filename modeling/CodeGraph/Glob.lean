import CodeGraph.Text

/-!
Globs for paths. `?` and `*` stay within a segment, `**` as a whole segment stands for any number of
segments, brackets hold a class of characters and braces hold alternatives. Matching goes byte by
byte.
-/

set_option autoImplicit false

namespace CodeGraph

inductive GlobToken where
  | byte (value : UInt8)
  /-- One byte of a segment. -/
  | any
  /-- Any bytes of a segment. -/
  | run
  | oneOf (negated : Bool) (ranges : List (UInt8 × UInt8))
  /-- Segments before the rest, if any. -/
  | leading
  /-- A slash and all that follows. -/
  | trailing
  /-- A slash, with segments and another slash behind it, if any. -/
  | between
deriving DecidableEq, Repr, Inhabited

inductive GlobError where
  | unclosedClass
  | invalidRange (first last : Char)
  | unopenedAlternates
  | unclosedAlternates
  | danglingEscape
deriving DecidableEq, Repr

def GlobError.message : GlobError → String
  | .unclosedClass => "unclosed character class; missing ']'"
  | .invalidRange first last =>
      "invalid range; '" ++ String.singleton first ++ "' > '" ++ String.singleton last ++ "'"
  | .unopenedAlternates =>
      "unopened alternate group; missing '\x7b' (maybe escape '\x7d' with '[\x7d]'?)"
  | .unclosedAlternates =>
      "unclosed alternate group; missing '\x7d' (maybe escape '\x7b' with '[\x7b]'?)"
  | .danglingEscape => "dangling '\\'"

/-- A path matches if it has one of the alternatives from start to end. -/
structure Glob where
  alternatives : List (List GlobToken) := []
deriving DecidableEq, Repr, Inhabited

namespace GlobToken

def slash : UInt8 := 47

def afterSlashes : List UInt8 → List (List UInt8)
  | [] => []
  | b :: rest => if b == slash then rest :: afterSlashes rest else afterSlashes rest

def withinSegment : List UInt8 → List (List UInt8)
  | [] => [[]]
  | b :: rest => (b :: rest) :: (if b == slash then [] else withinSegment rest)

def tails : List UInt8 → List (List UInt8)
  | [] => [[]]
  | b :: rest => (b :: rest) :: tails rest

def inRanges (ranges : List (UInt8 × UInt8)) (b : UInt8) : Bool :=
  ranges.any (fun range => range.1 ≤ b && b ≤ range.2)

def rests (token : GlobToken) (path : List UInt8) : List (List UInt8) :=
  match token, path with
  | .run, path => withinSegment path
  | .leading, path => path :: afterSlashes path
  | _, [] => []
  | .byte value, b :: rest => if b == value then [rest] else []
  | .any, b :: rest => if b == slash then [] else [rest]
  | .oneOf negated ranges, b :: rest => if inRanges ranges b == negated then [] else [rest]
  | .trailing, b :: rest => if b == slash then tails rest else []
  | .between, b :: rest => if b == slash then rest :: afterSlashes rest else []

end GlobToken

namespace Glob

def matchTokens : List GlobToken → List UInt8 → Bool
  | [], path => path.isEmpty
  | token :: rest, path => (token.rests path).any (matchTokens rest)

def isMatch (glob : Glob) (path : String) : Bool :=
  let bytes := Text.bytes path
  glob.alternatives.any (fun tokens => matchTokens tokens bytes)

/-- A part of a glob that is being read. Tokens stand last first. -/
structure Branch where
  alternatives : List (List GlobToken) := [[]]
  isEmpty : Bool := true

namespace Branch

def push (branch : Branch) (token : GlobToken) : Branch :=
  { alternatives := branch.alternatives.map (token :: ·), isEmpty := false }

def pushChar (branch : Branch) (c : Char) : Branch :=
  (Text.bytes (String.singleton c)).foldl (fun branch value => branch.push (.byte value)) branch

def replaceLast (branch : Branch) (choose : Option GlobToken → GlobToken) : Branch :=
  { branch with
    alternatives := branch.alternatives.map (fun tokens => choose tokens.head? :: tokens.tail) }

def pushGroup (branch : Branch) (group : List Branch) : Branch :=
  let solid := (group.map Branch.alternatives).filter (· != [[]])
  let choices := if solid.isEmpty then [[]] else solid.flatten
  { alternatives :=
      branch.alternatives.flatMap (fun tokens => choices.map (fun choice => choice ++ tokens))
    isEmpty := false }

end Branch

structure State where
  branch : Branch := {}
  /-- The groups that are open, innermost first: the branches that are done, last first, and the
  branch that the group stands in. -/
  groups : List (List Branch × Branch) := []
  previous : Option Char := none
  /-- Whether a bracket that no bracket closes was met: from there on brackets are plain. -/
  plainBrackets : Bool := false

namespace State

def push (state : State) (token : GlobToken) : State :=
  { state with branch := state.branch.push token }

/-- Reads a `**`; the text starts behind it. Gives the number of characters that belong to it. -/
def doubleStar (state : State) (text : List Char) : State × Nat :=
  let plain := (state.push .run).push .run
  let next := text.head?
  if state.branch.isEmpty then
    if next.isNone || next == some '/' then
      ({ state.push .leading with previous := next }, min 1 text.length)
    else (plain, 0)
  else if state.previous != some '/' &&
      (state.groups.isEmpty || (state.previous != some ',' && state.previous != some '\x7b')) then
    (plain, 0)
  else
    let ends := next.isNone || (!state.groups.isEmpty && (next == some ',' || next == some '\x7d'))
    let choose (last : Option GlobToken) : GlobToken :=
      match last with
      | some .leading => .leading
      | some .trailing => .trailing
      | _ => if ends then .trailing else .between
    let replaced := { state with branch := state.branch.replaceLast choose }
    if ends then ({ replaced with previous := some '*' }, 0)
    else if next == some '/' then ({ replaced with previous := some '/' }, 1)
    else (plain, 0)

end State

structure ClassScan where
  ranges : List (Char × Char) := []
  inRange : Bool := false

def scanClass (first : Bool) (scan : ClassScan) :
    List Char → Except GlobError (Option (List (Char × Char) × List Char))
  | [] => .ok none
  | c :: rest =>
      if c == ']' && !first then
        let ranges := if scan.inRange then ('-', '-') :: scan.ranges else scan.ranges
        .ok (some (ranges.reverse, rest))
      else if c == '-' && !first && !scan.inRange then
        scanClass false { scan with inRange := true } rest
      else
        match scan.inRange, scan.ranges with
        | true, (start, _) :: ranges =>
            if c < start then .error (.invalidRange start c)
            else scanClass false { ranges := (start, c) :: ranges } rest
        | _, ranges => scanClass false { ranges := (c, c) :: ranges } rest

/-- The bytes of a range: only the last byte of its start and the first of its end are a range. -/
def byteRanges (range : Char × Char) : List (UInt8 × UInt8) :=
  let bytes (c : Char) := Text.bytes (String.singleton c)
  let single (b : UInt8) := (b, b)
  if range.1 == range.2 then (bytes range.1).map single
  else
    (bytes range.1).dropLast.map single ++
      [((bytes range.1).getLastD 0, (bytes range.2).headD 0)] ++ (bytes range.2).tail.map single

def readClass (unclosed : Bool) (state : State) (text : List Char) :
    Except GlobError (State × List Char) := do
  let negated := text.head? == some '!' || text.head? == some '^'
  match ← scanClass true {} (if negated then text.tail else text) with
  | some (ranges, rest) =>
      return ({ state.push (.oneOf negated (ranges.flatMap byteRanges)) with
                previous := some ']' }, rest)
  | none =>
      if unclosed then
        let branch := state.branch.pushChar '['
        return ({ state with branch, previous := some '[', plainBrackets := true }, text)
      else throw .unclosedClass

def readChar (unclosed : Bool) (state : State) (c : Char) (text : List Char) :
    Except GlobError (State × List Char) := do
  let next := { state with previous := some c }
  if c == '?' then return (next.push .any, text)
  else if c == '*' then
    match text with
    | '*' :: rest =>
        let (after, count) := state.doubleStar rest
        let previous := if count = 0 then some '*' else after.previous
        return ({ after with previous }, rest.drop count)
    | _ => return (next.push .run, text)
  else if c == '[' && !state.plainBrackets then readClass unclosed state text
  else if c == '\x7b' then
    return ({ next with branch := {}, groups := ([], state.branch) :: state.groups }, text)
  else if c == '\x7d' then
    match state.groups with
    | [] => throw .unopenedAlternates
    | (done, outer) :: groups =>
        let branch := outer.pushGroup (done.reverse ++ [state.branch])
        return ({ next with branch, groups }, text)
  else if c == ',' then
    match state.groups with
    | [] => return ({ next with branch := state.branch.pushChar c }, text)
    | (done, outer) :: groups =>
        return ({ next with branch := {}, groups := (state.branch :: done, outer) :: groups }, text)
  else if c == '\\' then
    match text with
    | [] => throw .danglingEscape
    | d :: rest =>
        return ({ state with branch := state.branch.pushChar d, previous := some d }, rest)
  else return ({ next with branch := state.branch.pushChar c }, text)

def readAll (unclosed : Bool) : Nat → State → List Char → Except GlobError State
  | 0, state, _ => .ok state
  | _ + 1, state, [] => .ok state
  | fuel + 1, state, c :: text => do
      let (state, rest) ← readChar unclosed state c text
      readAll unclosed fuel state rest

/-- Reads a glob. With `unclosed`, a bracket that nothing closes stands for itself. -/
def parse (unclosed : Bool) (text : String) : Except GlobError Glob := do
  let state ← readAll unclosed text.length {} text.toList
  if !state.groups.isEmpty then throw .unclosedAlternates
  else if state.branch.alternatives == [[.leading]] then return ⟨[[.leading, .run]]⟩
  else return ⟨state.branch.alternatives.map List.reverse⟩

end Glob

end CodeGraph
