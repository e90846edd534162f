import CodeGraph.Syntax.Node

/-!
Visiting the nodes of a tree from left to right, each before its children. A cursor stands at a node
and moves to the first child, the next sibling or the parent of it; the walk keeps nothing else.
-/

set_option autoImplicit false

namespace CodeGraph.Syntax

mutual

def Node.size : Node → Nat
  | ⟨_, _, _, _, _, children⟩ => 1 + sizes children

def sizes : List Node → Nat
  | [] => 0
  | node :: rest => node.size + sizes rest

end

theorem Node.size_eq (node : Node) : node.size = 1 + sizes node.children := by
  cases node
  rw [Node.size]

theorem sizes_append (nodes rest : List Node) :
    sizes (nodes ++ rest) = sizes nodes + sizes rest := by
  induction nodes with
  | nil => rw [List.nil_append, sizes, Nat.zero_add]
  | cons node nodes ih => rw [List.cons_append, sizes, sizes, ih, Nat.add_assoc]

structure Node.Cursor where
  node : Node
  behind : List Node
  above : List (Node × List Node)

namespace Node.Cursor

def start (root : Node) : Cursor :=
  ⟨root, [], []⟩

def ancestors (cursor : Cursor) : List Node :=
  cursor.above.map Prod.fst

def firstChild? (cursor : Cursor) : Option Cursor :=
  match cursor.node.children with
  | [] => none
  | child :: rest => some ⟨child, rest, (cursor.node, cursor.behind) :: cursor.above⟩

def nextSibling? (cursor : Cursor) : Option Cursor :=
  match cursor.behind with
  | [] => none
  | sibling :: rest => some ⟨sibling, rest, cursor.above⟩

def parent? (cursor : Cursor) : Option Cursor :=
  match cursor.above with
  | [] => none
  | (parent, behind) :: above => some ⟨parent, behind, above⟩

variable {cursor next : Cursor}

theorem firstChild?_eq_some (moved : cursor.firstChild? = some next) :
    cursor.node.children = next.node :: next.behind ∧
      next.above = (cursor.node, cursor.behind) :: cursor.above := by
  unfold firstChild? at moved
  split at moved
  · cases moved
  · cases moved
    exact ⟨by assumption, rfl⟩

theorem firstChild?_eq_none (stuck : cursor.firstChild? = none) : cursor.node.children = [] := by
  unfold firstChild? at stuck
  split at stuck
  · assumption
  · cases stuck

theorem nextSibling?_eq_some (moved : cursor.nextSibling? = some next) :
    cursor.behind = next.node :: next.behind ∧ next.above = cursor.above := by
  unfold nextSibling? at moved
  split at moved
  · cases moved
  · cases moved
    exact ⟨by assumption, rfl⟩

theorem nextSibling?_eq_none (stuck : cursor.nextSibling? = none) : cursor.behind = [] := by
  unfold nextSibling? at stuck
  split at stuck
  · assumption
  · cases stuck

theorem parent?_eq_some (moved : cursor.parent? = some next) :
    cursor.above = (next.node, next.behind) :: next.above := by
  unfold parent? at moved
  split at moved
  · cases moved
  · cases moved
    assumption

theorem parent?_eq_none (stuck : cursor.parent? = none) : cursor.above = [] := by
  unfold parent? at stuck
  split at stuck
  · assumption
  · cases stuck

def climb? (cursor : Cursor) : Option Cursor :=
  match cursor.nextSibling? with
  | some next => some next
  | none =>
      match _moved : cursor.parent? with
      | some parent => parent.climb?
      | none => none
termination_by cursor.above.length
decreasing_by
  rw [parent?_eq_some _moved, List.length_cons]
  exact Nat.lt_succ_self _

def advance? (cursor : Cursor) : Option Cursor :=
  match cursor.firstChild? with
  | some child => some child
  | none => cursor.climb?

/-- The number of nodes that follow the cursor and what is below it. -/
def following (cursor : Cursor) : Nat :=
  sizes (cursor.behind ++ cursor.above.flatMap Prod.snd)

def remaining (cursor : Cursor) : Nat :=
  cursor.node.size + cursor.following

theorem remaining_climb? (moved : cursor.climb? = some next) :
    next.remaining = cursor.following := by
  fun_induction climb? cursor with
  | case1 cursor sibling found =>
      cases moved
      obtain ⟨behind, above⟩ := nextSibling?_eq_some found
      simp [remaining, following, behind, above, sizes]
  | case2 cursor last parent up ih =>
      rw [ih moved]
      simp [following, nextSibling?_eq_none last, parent?_eq_some up]
  | case3 => cases moved

theorem remaining_advance? (moved : cursor.advance? = some next) :
    next.remaining < cursor.remaining := by
  unfold advance? at moved
  split at moved
  next child found =>
    cases moved
    obtain ⟨children, above⟩ := firstChild?_eq_some found
    simp only [remaining, following, Node.size_eq cursor.node, children, above, sizes,
      sizes_append, List.flatMap_cons]
    omega
  next =>
    rw [remaining_climb? moved, remaining, Node.size_eq]
    omega

end Node.Cursor

def walkFrom {α : Type} (visit : List Node → Node → List α) (cursor : Node.Cursor) : List α :=
  visit cursor.ancestors cursor.node ++
    match _moved : cursor.advance? with
    | some next => walkFrom visit next
    | none => []
termination_by cursor.remaining
decreasing_by exact Node.Cursor.remaining_advance? ‹_›

def walk {α : Type} (visit : List Node → Node → List α) (root : Node) : List α :=
  walkFrom visit (.start root)

end CodeGraph.Syntax
