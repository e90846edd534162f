import CodeGraph.FileIndex
import CodeGraph.Graph.Store
import CodeGraph.TaskTable

set_option autoImplicit false

namespace CodeGraph

structure Database where
  graph : GraphStore := {}
  files : FileIndex := {}
  tasks : TaskTable := {}

end CodeGraph
