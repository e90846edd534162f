import CodeGraph.Yaml
import CodeGraph.Yaml.Scanner

/-!
Reading a document from its tokens. A key may stand in a mapping once, an alias means the value at
its anchor, and a text holds at most one document.
-/

set_option autoImplicit false

namespace CodeGraph.Yaml.Reader

structure State where
  tokens : List Token
  anchors : List (String × Yaml) := []

abbrev Read : Type → Type := StateT State Option

def failure {α : Type} : Read α := fun _ => none

def peek? : Read (Option Token) :=
  return (← get).tokens.head?

def advance : Read Unit :=
  modify (fun state => { state with tokens := state.tokens.drop 1 })

def sees (tokens : List Token) : Read Bool := do
  match ← peek? with
  | some token => return tokens.contains token
  | none => return false

def expect (token : Token) : Read Unit := do
  if ← sees [token] then advance else failure

def marks : Nat → Option String → Option String → Read (Option String × Option String)
  | 0, _, _ => failure
  | fuel + 1, anchor, tag => do
      match ← peek? with
      | some (.anchor name) =>
          if anchor.isSome then failure
          else
            advance
            marks fuel (some name) tag
      | some (.tag text) =>
          if tag.isSome then failure
          else
            advance
            marks fuel anchor (some text)
      | _ => return (anchor, tag)

def scalar (tag : Option String) (bare : Bool) (text : String) : Yaml :=
  if bare && tag != some "!!str" && tag != some "!" then ofPlain text else .string text

def hasKey (entries : List (Yaml × Yaml)) (key : Yaml) : Bool :=
  entries.any (fun entry => entry.1 == key)

/-- A mapping of entries that are given last first; no key may be repeated. -/
def mappingOf? (entries : List (Yaml × Yaml)) : Option Yaml :=
  let rec check : List (Yaml × Yaml) → Bool
    | [] => true
    | entry :: rest => !hasKey rest entry.1 && check rest
  if check entries then some (.mapping entries.reverse) else none

/-- What stands around a node: whether block collections may open there, and whether a sequence may
stand at the indentation of its key. -/
inductive Place where
  | block
  | blockOrSequence
  | flow
deriving DecidableEq

mutual

def node (place : Place) : Nat → Read Yaml
  | 0 => failure
  | fuel + 1 => do
      match ← peek? with
      | some (.reference name) =>
          advance
          match (← get).anchors.lookup name with
          | some value => return value
          | none => failure
      | _ =>
          let (anchor, tag) ← marks 4 none none
          let value ← content place tag (anchor.isSome || tag.isSome) fuel
          match anchor with
          | some name =>
              modify (fun state => { state with anchors := (name, value) :: state.anchors })
              return value
          | none => return value

def content (place : Place) (tag : Option String) (marked : Bool) : Nat → Read Yaml
  | 0 => failure
  | fuel + 1 => do
      match ← peek? with
      | some .entry =>
          if place == .blockOrSequence then indentless [] fuel
          else if marked then return .null
          else failure
      | some (.scalar bare text) =>
          advance
          return scalar tag bare text
      | some .flowSequenceStart =>
          advance
          flowSequence [] fuel
      | some .flowMappingStart =>
          advance
          flowMapping [] fuel
      | some .sequenceStart =>
          if place == .flow then failure
          else
            advance
            sequence [] fuel
      | some .mappingStart =>
          if place == .flow then failure
          else
            advance
            mapping [] fuel
      | _ => if marked then return .null else failure

def nodeUnless (place : Place) (stops : List Token) : Nat → Read Yaml
  | 0 => failure
  | fuel + 1 => do
      if (← sees stops) || (← peek?).isNone then return .null else node place fuel

def sequence (items : List Yaml) : Nat → Read Yaml
  | 0 => failure
  | fuel + 1 => do
      match ← peek? with
      | some .entry =>
          advance
          let item ← nodeUnless .block [.entry, .blockEnd] fuel
          sequence (item :: items) fuel
      | some .blockEnd =>
          advance
          return .sequence items.reverse
      | _ => failure

def indentless (items : List Yaml) : Nat → Read Yaml
  | 0 => failure
  | fuel + 1 => do
      match ← peek? with
      | some .entry =>
          advance
          let item ← nodeUnless .block [.entry, .key, .value, .blockEnd] fuel
          indentless (item :: items) fuel
      | _ => return .sequence items.reverse

def mapping (entries : List (Yaml × Yaml)) : Nat → Read Yaml
  | 0 => failure
  | fuel + 1 => do
      match ← peek? with
      | some .key =>
          advance
          let key ← nodeUnless .blockOrSequence [.key, .value, .blockEnd] fuel
          let value ← mappingValue fuel
          mapping ((key, value) :: entries) fuel
      | some .value =>
          let value ← mappingValue fuel
          mapping ((.null, value) :: entries) fuel
      | some .blockEnd =>
          advance
          fun state => (mappingOf? entries).map (·, state)
      | _ => failure

def mappingValue : Nat → Read Yaml
  | 0 => failure
  | fuel + 1 => do
      if ← sees [.value] then
        advance
        nodeUnless .blockOrSequence [.key, .value, .blockEnd] fuel
      else return .null

def flowValue (stops : List Token) : Nat → Read Yaml
  | 0 => failure
  | fuel + 1 => do
      if ← sees [.value] then
        advance
        nodeUnless .flow stops fuel
      else return .null

def flowSequence (items : List Yaml) : Nat → Read Yaml
  | 0 => failure
  | fuel + 1 => do
      if ← sees [.flowSequenceEnd] then
        advance
        return .sequence items.reverse
      if !items.isEmpty then expect .flowEntry
      if ← sees [.flowSequenceEnd] then
        advance
        return .sequence items.reverse
      if ← sees [.key] then
        advance
        let key ← nodeUnless .flow [.value, .flowEntry, .flowSequenceEnd] fuel
        let value ← flowValue [.flowEntry, .flowSequenceEnd] fuel
        flowSequence (.mapping [(key, value)] :: items) fuel
      else
        let item ← node .flow fuel
        flowSequence (item :: items) fuel

def flowMapping (entries : List (Yaml × Yaml)) : Nat → Read Yaml
  | 0 => failure
  | fuel + 1 => do
      if ← sees [.flowMappingEnd] then
        advance
        fun state => (mappingOf? entries).map (·, state)
      else
        if !entries.isEmpty then expect .flowEntry
        if ← sees [.flowMappingEnd] then
          advance
          fun state => (mappingOf? entries).map (·, state)
        else if ← sees [.key] then
          advance
          let key ← nodeUnless .flow [.value, .flowEntry, .flowMappingEnd] fuel
          let value ← flowValue [.flowEntry, .flowMappingEnd] fuel
          flowMapping ((key, value) :: entries) fuel
        else
          let key ← node .flow fuel
          flowMapping ((key, .null) :: entries) fuel

end

/-- The only document of a text; a text without one stands for null. -/
def document (fuel : Nat) : Read Yaml := do
  modify (fun state => { state with tokens := state.tokens.dropWhile (· == .documentEnd) })
  let directives := ((← get).tokens.takeWhile (· == .directive)).length
  modify (fun state => { state with tokens := state.tokens.drop directives })
  let marked ← sees [.documentStart]
  if marked then advance
  else if directives != 0 then failure
  let ends ← if marked then sees [.directive, .documentStart, .documentEnd] else pure false
  let value ← if ends || (← peek?).isNone then pure Yaml.null else node .block fuel
  modify (fun state => { state with tokens := state.tokens.dropWhile (· == .documentEnd) })
  if (← peek?).isSome then failure
  return value

end CodeGraph.Yaml.Reader

namespace CodeGraph.Yaml

def read? (text : String) : Option Yaml := do
  let tokens ← tokens? text.toList
  let (value, _) ← Reader.document (8 * (tokens.length + 2)) { tokens }
  return value

end CodeGraph.Yaml
