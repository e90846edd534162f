import CodeGraph.Path

set_option autoImplicit false

namespace CodeGraph

inductive Language where
  | typeScript
  | tsx
  | javaScript
  | python
  | rust
  | go
deriving DecidableEq, Repr, Inhabited

namespace Language

/-- Languages of one family share the reading of imports, calls and types. -/
inductive Family where
  | ecmaScript
  | python
  | other
deriving DecidableEq, Repr

def extensions : List (String × Language) :=
  [("ts", .typeScript), ("mts", .typeScript), ("cts", .typeScript), ("tsx", .tsx),
    ("js", .javaScript), ("jsx", .javaScript), ("mjs", .javaScript), ("cjs", .javaScript),
    ("py", .python), ("pyi", .python), ("rs", .rust), ("go", .go)]

def ofExtension? (extension : String) : Option Language :=
  extensions.lookup extension

def id : Language → String
  | .typeScript => "typescript"
  | .tsx => "tsx"
  | .javaScript => "javascript"
  | .python => "python"
  | .rust => "rust"
  | .go => "go"

def family : Language → Family
  | .typeScript | .tsx | .javaScript => .ecmaScript
  | .python => .python
  | .rust | .go => .other

def hasRelationships (language : Language) : Bool :=
  language.family != .other

def importKinds : Language → List String
  | .typeScript | .tsx | .javaScript => ["import_statement"]
  | .python => ["import_statement", "import_from_statement", "future_import_statement"]
  | .rust => ["use_declaration", "extern_crate_declaration"]
  | .go => ["import_declaration", "package_clause"]

def ofPath? (path : String) : Option Language := do
  ofExtension? (← Path.extension? path)

end Language

def isSupported (path : String) : Bool :=
  (Language.ofPath? path).isSome

end CodeGraph
