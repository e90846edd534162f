import CodeGraph.Json

set_option autoImplicit false

namespace CodeGraph

inductive EdgeKind where
  | contains
  | documents
  | references
  | imports
  | importsSymbol
  | importsPackage
deriving DecidableEq, Repr, Inhabited

namespace EdgeKind

def all : List EdgeKind :=
  [.contains, .documents, .references, .imports, .importsSymbol, .importsPackage]

def name : EdgeKind → String
  | .contains => "CONTAINS"
  | .documents => "DOCUMENTS"
  | .references => "REFERENCES"
  | .imports => "IMPORTS"
  | .importsSymbol => "IMPORTS_SYMBOL"
  | .importsPackage => "IMPORTS_PKG"

def ofName? (text : String) : Option EdgeKind :=
  all.find? (fun kind => kind.name == text)

@[simp] theorem ofName?_name (kind : EdgeKind) : ofName? kind.name = some kind := by
  cases kind <;> rfl

end EdgeKind

structure Edge where
  source : String
  target : String
  kind : EdgeKind
  properties : Properties := []
deriving Repr, Inhabited

namespace Edge

abbrev Key : Type := String × String × EdgeKind

def key (edge : Edge) : Key :=
  (edge.source, edge.target, edge.kind)

def withProperty (edge : Edge) (key : String) (value : Json) : Edge :=
  { edge with properties := Properties.insert key value edge.properties }

def touches (edge : Edge) (id : String) : Bool :=
  edge.source == id || edge.target == id

end Edge

def packageNode (name : String) (version : Option String) : String :=
  "pkg:" ++ name ++ "@" ++ version.getD "unknown"

def isPackageNode (id : String) : Bool :=
  Text.startsWith "pkg:".toList id.toList

@[simp] theorem isPackageNode_packageNode (name : String) (version : Option String) :
    isPackageNode (packageNode name version) = true := by
  simp [isPackageNode, packageNode, Text.startsWith, Text.stripStart?]

end CodeGraph
