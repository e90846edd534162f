import CodeGraph.Text

/-!
Concrete syntax trees. A node covers the characters `[start, stop)` of its source. Named nodes
carry grammar kinds; the others are punctuation and keywords. Comments are nodes of the tree too:
each one is a child of the smallest node that surrounds it.
-/

set_option autoImplicit false

namespace CodeGraph.Syntax

structure Node where
  kind : String
  named : Bool
  field : Option String
  start : Nat
  stop : Nat
  children : List Node
deriving Inhabited, Repr

namespace Node

def namedChildren (node : Node) : List Node :=
  node.children.filter Node.named

def childAt? (node : Node) (field : String) : Option Node :=
  node.children.find? (fun child => child.field == some field)

def childrenAt (node : Node) (field : String) : List Node :=
  node.children.filter (fun child => child.field == some field)

def inField (node : Node) (field : String) : Node :=
  { node with field := some field }

def ofKind (node : Node) (kind : String) : Node :=
  { node with kind := kind }

def branch (kind : String) (children : List Node) : Node :=
  { kind
    named := true
    field := none
    start := (children.head?.map Node.start).getD 0
    stop := (children.getLast?.map Node.stop).getD 0
    children }

def leaf (kind : String) (start stop : Nat) : Node :=
  { kind, named := true, field := none, start, stop, children := [] }

def token (text : String) (start stop : Nat) : Node :=
  { kind := text, named := false, field := none, start, stop, children := [] }

def surrounds (outer inner : Node) : Bool :=
  decide (outer.start ≤ inner.start) && decide (inner.stop ≤ outer.stop)

mutual

/-- Puts a comment into the smallest node that surrounds it. -/
def attach (comment : Node) : Node → Node
  | ⟨kind, named, field, start, stop, children⟩ =>
      ⟨kind, named, field, start, stop, attachAmong comment children⟩

def attachAmong (comment : Node) : List Node → List Node
  | [] => [comment]
  | child :: rest =>
      if child.surrounds comment then attach comment child :: rest
      else if comment.start < child.start then comment :: child :: rest
      else child :: attachAmong comment rest

end

def attachAll (root : Node) (comments : List Node) : Node :=
  comments.foldl (fun tree comment => attach comment tree) root

end Node

abbrev Source : Type := Array Char

namespace Source

def ofString (text : String) : Source :=
  text.toList.toArray

def slice (source : Source) (start stop : Nat) : String :=
  String.ofList (source.toList.drop start |>.take (stop - start))

def text (source : Source) (node : Node) : String :=
  slice source node.start node.stop

def row (source : Source) (position : Nat) : Nat :=
  Text.newlines (source.toList.take position)

/-- Lines are counted from one. -/
def line (source : Source) (node : Node) : Nat :=
  row source node.start + 1

end Source

end CodeGraph.Syntax
