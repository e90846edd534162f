set_option autoImplicit false

namespace CodeGraph

/-- Runs of `limit` items each, the last one possibly shorter; a limit of zero counts as one. -/
def batches {α : Type} (limit : Nat) (items : List α) : List (List α) :=
  match items with
  | [] => []
  | item :: rest =>
      (item :: rest).take (limit - 1 + 1) :: batches limit ((item :: rest).drop (limit - 1 + 1))
termination_by items.length
decreasing_by simp only [List.length_drop, List.length_cons]; omega

theorem batches_flatten {α : Type} (limit : Nat) (items : List α) :
    (batches limit items).flatten = items := by
  fun_induction batches limit items with
  | case1 => rfl
  | case2 item rest ih => rw [List.flatten_cons, ih, List.take_append_drop]

end CodeGraph
