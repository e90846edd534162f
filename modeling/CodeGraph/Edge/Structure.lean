import CodeGraph.Chunk
import CodeGraph.Edge

set_option autoImplicit false

namespace CodeGraph.Edge

def contains (path : String) (chunks : List Chunk) : List Edge :=
  chunks.mapIdx (fun order chunk =>
    ({ source := path, target := chunk.id, kind := .contains } : Edge).withProperty "order"
      (.nat order))

/-- How far a chunk is from the documentation of its name; chunks above it come last. -/
def documentDistance (doc chunk : Chunk) : Nat × Nat :=
  (if chunk.lineStart < doc.lineStart then 1 else 0,
    max chunk.lineStart doc.lineEnd - min chunk.lineStart doc.lineEnd)

def nearer (a b : Nat × Nat) : Bool :=
  a.1 < b.1 || (a.1 == b.1 && a.2 < b.2)

/-- The chunk that some documentation is about: the nearest with the same name, and of several the
first. -/
def documented? (chunks : List Chunk) (doc : Chunk) : Option Chunk := do
  let name ← doc.symbol
  let named := chunks.filter (fun chunk => chunk.type.isSymbol && chunk.symbol == some name)
  named.foldl (fun best chunk =>
    match best with
    | none => some chunk
    | some found =>
        if nearer (documentDistance doc chunk) (documentDistance doc found) then some chunk
        else best) none

def documents (chunks : List Chunk) : List Edge :=
  (chunks.filter (fun chunk => chunk.type == .doc)).filterMap (fun doc =>
    (documented? chunks doc).map (fun chunk =>
      ({ source := doc.id, target := chunk.id, kind := .documents } : Edge)))

end CodeGraph.Edge
