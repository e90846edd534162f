import CodeGraph.Package.Specifier
import CodeGraph.Language

set_option autoImplicit false

namespace CodeGraph

inductive ImportKind where
  | static
  | require
  | dynamic
  | reExport
deriving DecidableEq, Repr, Inhabited

def ImportKind.name : ImportKind → String
  | .static => "static"
  | .require => "require"
  | .dynamic => "dynamic"
  | .reExport => "re_export"

structure Site where
  name : String
  line : Nat
deriving DecidableEq, Repr

inductive Occurrence where
  | imported (source : String) (specifiers : List String) (kind : ImportKind) (line : Nat)
  | exported (names : List String) (line : Nat)
  | called (site : Site)
  | typed (site : Site)
deriving DecidableEq, Repr

structure Import where
  source : String
  specifiers : List String
  kind : ImportKind
  external : Bool
  line : Nat
deriving DecidableEq, Repr

structure Facts where
  imports : List Import := []
  exports : List String := []
  calls : List Site := []
  typeRefs : List Site := []
deriving DecidableEq, Repr, Inhabited

namespace Facts

def exportsName (facts : Facts) (name : String) : Bool :=
  facts.exports.contains name

def record (facts : Facts) : Occurrence → Facts
  | .imported source specifiers kind line =>
      let entry : Import := ⟨source, specifiers, kind, Specifier.isExternal source, line⟩
      { facts with imports := facts.imports ++ [entry] }
  | .exported names _ => { facts with exports := facts.exports ++ names }
  | .called site => { facts with calls := facts.calls ++ [site] }
  | .typed site => { facts with typeRefs := facts.typeRefs ++ [site] }

def ofOccurrences (occurrences : List Occurrence) : Facts :=
  occurrences.foldl record {}

end Facts

end CodeGraph
