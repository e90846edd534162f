import CodeGraph.Edge

/-!
Merging edges with one key. The first edge stays; when later ones differ from it in the property
`kind`, it lists all of them under `kinds`.
-/

set_option autoImplicit false

namespace CodeGraph.Edge

def kindText? (edge : Edge) : Option String := do
  (← Properties.get? edge.properties "kind").string?

def kindTexts (edge : Edge) : List String :=
  match Properties.get? edge.properties "kinds" with
  | some (.array values) => values.filterMap Json.string?
  | _ => edge.kindText?.toList

def mergeKind (kept duplicate : Edge) : Edge :=
  match duplicate.kindText? with
  | none => kept
  | some kind =>
      if kept.kindTexts.contains kind then kept
      else kept.withProperty "kinds" (.array ((kept.kindTexts ++ [kind]).map .string))

def absorb (edge : Edge) : List Edge → List Edge
  | [] => [edge]
  | kept :: rest =>
      if kept.key = edge.key then mergeKind kept edge :: rest else kept :: absorb edge rest

def merge (edges : List Edge) : List Edge :=
  edges.foldl (fun kept edge => absorb edge kept) []

end CodeGraph.Edge
