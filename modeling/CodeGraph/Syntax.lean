import CodeGraph.Language
import CodeGraph.Syntax.EcmaScript.Statement
import CodeGraph.Syntax.Go
import CodeGraph.Syntax.Python.Statement
import CodeGraph.Syntax.Rust
import CodeGraph.Syntax.Walk

set_option autoImplicit false

namespace CodeGraph

open CodeGraph.Syntax

/-- What parses the texts of each language. -/
abbrev Grammars : Type := Language → List Char → Node

/-- The grammars of this library. -/
def Language.tree (language : Language) (text : List Char) : Node :=
  match language with
  | .javaScript => EcmaScript.tree false true text
  | .typeScript => EcmaScript.tree true false text
  | .tsx => EcmaScript.tree true true text
  | .python => Python.tree text
  | .rust => Rust.tree text
  | .go => Go.tree text

end CodeGraph
