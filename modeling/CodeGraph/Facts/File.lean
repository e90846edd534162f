import CodeGraph.Facts.EcmaScript
import CodeGraph.Facts.Python
import CodeGraph.Syntax

set_option autoImplicit false

namespace CodeGraph

open CodeGraph.Syntax

def Language.occurrences (language : Language) (content : String)
    (grammars : Grammars := Language.tree) : List Occurrence :=
  let source := Source.ofString content
  match language.family with
  | .ecmaScript => walk (Facts.EcmaScript.visit source) (grammars language content.toList)
  | .python => walk (Facts.Python.visit source) (grammars language content.toList)
  | .other => []

namespace Facts

/-- `none` if no language goes with the path. -/
def ofFile? (path content : String) (grammars : Grammars := Language.tree) : Option Facts := do
  let language ← Language.ofPath? path
  return ofOccurrences (language.occurrences content grammars)

end Facts

end CodeGraph
