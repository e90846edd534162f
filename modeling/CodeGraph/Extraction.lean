import CodeGraph.Edge.Reference
import CodeGraph.Facts.File
import CodeGraph.Package.Resolver

set_option autoImplicit false

namespace CodeGraph

structure Extraction where
  facts : Facts := {}
  /-- One for each import; `none` for imports inside the workspace. -/
  resolutions : List (Option Resolution) := []
  edges : List Edge := []
deriving Inhabited

namespace Extraction

/-- Dotted module paths become paths, so that the package is the first segment. -/
def packageSpecifier (language : Option Language) (source : String) : String :=
  if language == some .python then
    String.ofList (source.toList.map (fun c => if c == '.' then '/' else c))
  else source

def packageEdge (path : String) (entry : Import) (resolution : Resolution) : Edge :=
  let edge : Edge :=
    { source := path, target := resolution.node, kind := .importsPackage
      properties := resolution.properties }
  (edge.withProperty "specifier" (.string entry.source)).withProperty "specifiers"
    (.array (entry.specifiers.map .string))

def resolveImports (disk : Disk) (root : List String) (path : String) :
    List Import → PackageCache → List (Option Resolution) × PackageCache
  | [], cache => ([], cache)
  | entry :: rest, cache =>
      if entry.external then
        let specifier := packageSpecifier (Language.ofPath? path) entry.source
        let file := Path.components (Path.join (Path.ofComponents root) path)
        let (resolution, cache) := Resolver.resolve disk root cache specifier file
        let (resolutions, cache) := resolveImports disk root path rest cache
        (some resolution :: resolutions, cache)
      else
        let (resolutions, cache) := resolveImports disk root path rest cache
        (none :: resolutions, cache)

def packageEdges (path : String) (imports : List Import)
    (resolutions : List (Option Resolution)) : List Edge :=
  (imports.zip resolutions).filterMap
    (fun (entry, resolution) => resolution.map (packageEdge path entry))

def ofFile (disk : Disk) (root : List String) (cache : PackageCache) (path content : String)
    (chunks : List Chunk) (grammars : Grammars := Language.tree) : Extraction × PackageCache :=
  match Facts.ofFile? path content grammars with
  | none => ({}, cache)
  | some facts =>
      let (resolutions, cache) := resolveImports disk root path facts.imports cache
      let edges := packageEdges path facts.imports resolutions ++ Edge.references path facts chunks
      ({ facts, resolutions, edges := Edge.merge edges }, cache)

end Extraction

end CodeGraph
