import CodeGraph.Chunk
import CodeGraph.Edge
import CodeGraph.Facts

set_option autoImplicit false

namespace CodeGraph

namespace Import

def endings : List String :=
  ["", ".ts", ".tsx", ".d.ts", ".js", ".jsx", ".mjs", ".cjs", ".py", "/index.ts", "/index.tsx",
    "/index.js", "/index.jsx", "/index.mjs", "/__init__.py"]

/-- A specifier may name the file that a source is compiled to. -/
def emitted : List (String × List String) :=
  [(".js", [".ts", ".tsx"]), (".jsx", [".tsx"]), (".mjs", [".mts"])]

def location (importing specifier : String) : String :=
  match Text.stripStart? ['/'] specifier.toList with
  | some rest => String.ofList rest
  | none =>
      match Text.splitLast '/' importing.toList with
      | some (directory, _) => String.ofList directory ++ "/" ++ specifier
      | none => specifier

def endingCandidates (place : String) : List String :=
  endings.map (fun ending =>
    String.ofList (Text.trimStartBy (· == '/') (place ++ ending).toList))

def emittedCandidates (place : String) : List String :=
  emitted.flatMap fun (ending, sources) =>
    match Text.stripEnd? ending.toList place.toList with
    | some stem => sources.map (fun source => String.ofList stem ++ source)
    | none => []

def candidates (place : String) : List String :=
  (endingCandidates place).filter (· != "") ++ emittedCandidates place

def resolve? (importing specifier : String) (known : List String) : Option String := do
  let place ← Path.normalize? (location importing specifier)
  (candidates place).find? known.contains

def firstByKey {α κ : Type} [BEq κ] (key : α → κ) (seen : List κ) : List α → List α
  | [] => []
  | item :: rest =>
      if seen.contains (key item) then firstByKey key seen rest
      else item :: firstByKey key (key item :: seen) rest

/-- The imports of a file that mean another known file, one for each target and line. -/
def targets (path : String) (imports : List Import) (known : List String) :
    List (Import × String) :=
  let resolved := imports.filterMap fun entry =>
    if entry.external then none
    else
      match resolve? path entry.source known with
      | some target => if target = path then none else some (entry, target)
      | none => none
  firstByKey (fun pair => (pair.2, pair.1.line)) [] resolved

def isNamePart (c : Char) : Bool :=
  Text.isWord c || c == '_' || c == '$'

def isWord (text : String) (start stop : Nat) : Bool :=
  match Text.before? text start, Text.after? text stop with
  | some before, some after =>
      !before.toList.getLast?.any isNamePart && !after.toList.head?.any isNamePart
  | _, _ => false

def mentions (text name : String) : Bool :=
  (Text.finds text name).any (fun start => isWord text start (start + name.utf8ByteSize))

end Import

namespace Edge

def symbol (source target name specifier : String) : Edge :=
  (({ source, target, kind := .importsSymbol } : Edge).withProperty "symbol"
    (.string name)).withProperty "specifier" (.string specifier)

/-- Whether a file that exports anything is known not to export a name. -/
def withholds (facts : Option Facts) (name : String) : Bool :=
  facts.any (fun facts => !facts.exports.isEmpty && !facts.exportsName name)

def symbolEdges (path : String) (entry : Import) (own targetChunks : List Chunk)
    (targetFacts : Option Facts) (name : String) : List Edge :=
  if name == "*" || name == "default" || withholds targetFacts name then []
  else
    match targetChunks.find? (fun chunk => chunk.type.isSymbol && chunk.symbol == some name) with
    | none => []
    | some target =>
        let users := own.filter
          (fun chunk => chunk.type != .doc && Import.mentions chunk.content name)
        if users.isEmpty then [symbol path target.id name entry.source]
        else users.map (fun chunk => symbol chunk.id target.id name entry.source)

def symbols (path : String) (entry : Import) (own targetChunks : List Chunk)
    (targetFacts : Option Facts) : List Edge :=
  entry.specifiers.flatMap (symbolEdges path entry own targetChunks targetFacts)

end Edge

end CodeGraph
