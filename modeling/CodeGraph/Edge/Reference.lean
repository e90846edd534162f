import CodeGraph.Chunk
import CodeGraph.Edge.Merge
import CodeGraph.Facts

set_option autoImplicit false

namespace CodeGraph.Edge

def definition? (chunks : List Chunk) (name : String) : Option Chunk :=
  chunks.find? (fun chunk => chunk.type.isSymbol && chunk.symbol == some name)

def narrowest? : List Chunk → Option Chunk
  | [] => none
  | chunk :: rest =>
      match narrowest? rest with
      | some other => if other.lineSpan < chunk.lineSpan then some other else some chunk
      | none => some chunk

def enclosing? (chunks : List Chunk) (line : Nat) : Option Chunk :=
  narrowest? (chunks.filter (fun chunk => chunk.type != .doc && chunk.containsLine line))

def reference? (path : String) (chunks : List Chunk) (kind : String) (site : Site) :
    Option Edge := do
  let target ← definition? chunks site.name
  let source := ((enclosing? chunks site.line).map Chunk.id).getD path
  if source = target.id then none
  return (({ source, target := target.id, kind := .references } : Edge).withProperty "kind"
    (.string kind)).withProperty "line" (.nat site.line)

def references (path : String) (facts : Facts) (chunks : List Chunk) : List Edge :=
  facts.calls.filterMap (reference? path chunks "call") ++
    facts.typeRefs.filterMap (reference? path chunks "type")

end CodeGraph.Edge
