import CodeGraph.Glob
import CodeGraph.Path

set_option autoImplicit false

namespace CodeGraph

structure IgnoreRule where
  glob : Glob
  /-- Whether the rule keeps what it matches. -/
  keeps : Bool := false
  onlyDirectories : Bool := false
deriving DecidableEq, Repr, Inhabited

inductive Verdict where
  | ignored
  | kept
deriving DecidableEq, Repr, Inhabited

namespace IgnoreRule

/-- A line without blanks at its end, unless the last one is escaped. -/
def trimmed (line : List Char) : List Char :=
  if ['\\', ' '].isSuffixOf line then line else Text.trimEnd line

/-- The glob for what a line says: without a slash in it, a line is about names at any depth, and
what ends in `**` is about the inside of a directory only. -/
def globText (rooted : Bool) (text : List Char) : List Char :=
  let anywhere := !rooted && !text.contains '/'
  let starred := ['*', '*', '/'].isPrefixOf text || text == ['*', '*']
  let text := if anywhere && !starred then ['*', '*', '/'] ++ text else text
  if ['/', '*', '*'].isSuffixOf text then text ++ ['/', '*'] else text

def ofText (unclosed : Bool) (line : List Char) : Except GlobError IgnoreRule := do
  let escaped := ['\\', '!'].isPrefixOf line || ['\\', '#'].isPrefixOf line
  let keeps := !escaped && line.head? == some '!'
  let text := if escaped || keeps then line.tail else line
  let rooted := text.head? == some '/'
  let text := if rooted && !escaped then text.tail else text
  let onlyDirectories := text.getLast? == some '/'
  let text := if onlyDirectories then text.dropLast else text
  let text :=
    if onlyDirectories && text.getLast? == some '\\' then text.dropLast else text
  let glob ← Glob.parse unclosed (String.ofList (globText rooted text))
  return { glob, keeps, onlyDirectories }

def ofLine? (unclosed : Bool) (line : List Char) : Except GlobError (Option IgnoreRule) :=
  let text := trimmed line
  if line.head? == some '#' || text.isEmpty then .ok none
  else some <$> ofText unclosed text

def applies (rule : IgnoreRule) (path : String) (isDirectory : Bool) : Bool :=
  (!rule.onlyDirectories || isDirectory) && rule.glob.isMatch path

end IgnoreRule

abbrev IgnoreRules : Type := List IgnoreRule

namespace IgnoreRules

def verdict? (rules : IgnoreRules) (path : String) (isDirectory : Bool) : Option Verdict :=
  (rules.reverse.find? (fun rule => rule.applies path isDirectory)).map
    (fun rule => if rule.keeps then .kept else .ignored)

/-- What the rules say about a path or else about the nearest directory above it. -/
def verdictAbove? (rules : IgnoreRules) (path : String) : Option Verdict :=
  let above := (Path.ancestors (Path.components path)).tail
  (rules.verdict? path false).or
    (above.findSome? (fun directory => rules.verdict? (Path.ofComponents directory) true))

def pieces : List UInt8 → List (List UInt8)
  | [] => [[]]
  | b :: rest =>
      match pieces rest with
      | piece :: later => if b == 10 then [] :: piece :: later else (b :: piece) :: later
      | [] => [[b]]

/-- The lines of a file, up to the first that is not text. -/
def textLines (bytes : List UInt8) : List (List Char) :=
  let lines := (pieces bytes).map (fun line =>
    if line.getLast? == some 13 then line.dropLast else line)
  ((lines.map Text.ofBytes?).takeWhile Option.isSome).filterMap (fun line => line.map String.toList)

/-- The rules of an ignore file. Lines with a malformed glob are left out. -/
def ofFile (bytes : List UInt8) : IgnoreRules :=
  let lines := textLines bytes
  let lines :=
    match lines with
    | ('\uFEFF' :: first) :: rest => first.dropWhile (· == '\uFEFF') :: rest
    | lines => lines
  lines.filterMap (fun line =>
    match IgnoreRule.ofLine? true line with
    | .ok rule? => rule?
    | .error _ => none)

structure BadPattern where
  pattern : String
  error : GlobError
deriving DecidableEq, Repr

def BadPattern.message (bad : BadPattern) : String :=
  "ignore pattern " ++ bad.pattern ++ ": error parsing glob '!" ++
    String.ofList (IgnoreRule.trimmed bad.pattern.toList) ++ "': " ++ bad.error.message

/-- Rules that keep what some patterns match, for use the other way around. -/
def ofPatterns : List String → Except BadPattern IgnoreRules
  | [] => .ok []
  | pattern :: rest => do
      let rule? ← (IgnoreRule.ofLine? false ('!' :: pattern.toList)).mapError (⟨pattern, ·⟩)
      return rule?.toList ++ (← ofPatterns rest)

end IgnoreRules

end CodeGraph
