import CodeGraph.Edge.Merge
import Mathlib.Data.List.Induction
import Mathlib.Data.List.Nodup

set_option autoImplicit false

namespace CodeGraph

namespace Edge

theorem key_mergeKind (kept duplicate : Edge) : (mergeKind kept duplicate).key = kept.key := by
  unfold mergeKind
  split
  · rfl
  · split <;> rfl

theorem map_key_absorb (edge : Edge) (kept : List Edge) :
    (absorb edge kept).map key =
      if edge.key ∈ kept.map key then kept.map key else kept.map key ++ [edge.key] := by
  induction kept with
  | nil => simp [absorb]
  | cons first rest ih =>
      by_cases same : first.key = edge.key
      · simp [absorb, same, key_mergeKind]
      · simp only [absorb, same, if_false, List.map_cons, ih, List.mem_cons, Ne.symm same, false_or]
        split <;> rfl

theorem merge_append (edges : List Edge) (edge : Edge) :
    merge (edges ++ [edge]) = absorb edge (merge edges) := by
  simp [merge]

theorem nodup_key_merge (edges : List Edge) : ((merge edges).map key).Nodup := by
  induction edges using List.reverseRecOn with
  | nil => exact List.nodup_nil
  | append_singleton edges edge ih =>
      rw [merge_append, map_key_absorb]
      split
      · exact ih
      next new =>
        refine List.nodup_append.mpr ⟨ih, List.nodup_singleton _, ?_⟩
        rintro key present other last rfl
        exact new (List.mem_singleton.mp last ▸ present)

theorem mem_map_key_merge (edges : List Edge) (k : Key) :
    k ∈ (merge edges).map key ↔ k ∈ edges.map key := by
  induction edges using List.reverseRecOn with
  | nil => rfl
  | append_singleton edges edge ih =>
      rw [merge_append, map_key_absorb, List.map_append, List.mem_append, ← ih]
      split
      next present =>
        refine ⟨.inl, ?_⟩
        rintro (old | last)
        · exact old
        · exact List.mem_singleton.mp last ▸ present
      next => simp

theorem exists_of_mem_merge {edges : List Edge} {edge : Edge} (member : edge ∈ merge edges) :
    ∃ original ∈ edges, original.source = edge.source ∧ original.target = edge.target ∧
      original.kind = edge.kind := by
  obtain ⟨original, inside, same⟩ :=
    List.mem_map.mp ((mem_map_key_merge edges edge.key).mp (List.mem_map_of_mem member))
  simp only [key, Prod.mk.injEq] at same
  exact ⟨original, inside, same⟩

theorem filter_absorb (p : Key → Bool) (edge : Edge) (kept : List Edge) :
    (absorb edge kept).filter (fun edge => p edge.key) =
      if p edge.key then absorb edge (kept.filter (fun edge => p edge.key))
      else kept.filter (fun edge => p edge.key) := by
  induction kept with
  | nil => by_cases keep : p edge.key = true <;> simp [absorb, keep]
  | cons first rest ih =>
      by_cases same : first.key = edge.key
      · -- Edges that are merged have one key, so that they are kept or dropped together.
        by_cases keep : p edge.key = true <;> simp [absorb, same, keep, key_mergeKind]
      · by_cases keep : p first.key = true
        · simp only [absorb, same, if_false, List.filter_cons, keep, if_true, ih]
          split <;> simp
        · simp only [absorb, same, if_false, List.filter_cons, keep, ih]
          simp

theorem filter_merge (p : Key → Bool) (edges : List Edge) :
    (merge edges).filter (fun edge => p edge.key) =
      merge (edges.filter (fun edge => p edge.key)) := by
  induction edges using List.reverseRecOn with
  | nil => rfl
  | append_singleton edges edge ih =>
      rw [merge_append, filter_absorb, List.filter_append, ih]
      by_cases keep : p edge.key = true <;> simp [keep, merge_append]

theorem filter_kind_merge (p : EdgeKind → Bool) (edges : List Edge) :
    (merge edges).filter (fun edge => p edge.kind) =
      merge (edges.filter (fun edge => p edge.kind)) :=
  filter_merge (fun key => p key.2.2) edges

theorem key_foldl_mergeKind (kept : Edge) (duplicates : List Edge) :
    (duplicates.foldl mergeKind kept).key = kept.key := by
  induction duplicates generalizing kept with
  | nil => rfl
  | cons duplicate rest ih => rw [List.foldl_cons, ih, key_mergeKind]

theorem merge_of_same_key {first : Edge} {rest : List Edge}
    (same : ∀ edge ∈ rest, edge.key = first.key) :
    merge (first :: rest) = [rest.foldl mergeKind first] := by
  induction rest using List.reverseRecOn with
  | nil => rfl
  | append_singleton rest edge ih =>
      have earlier := ih fun other inside => same other (List.mem_append_left _ inside)
      have key : (rest.foldl mergeKind first).key = edge.key := by
        rw [key_foldl_mergeKind, same edge (by simp)]
      rw [← List.cons_append, merge_append, earlier, absorb, if_pos key, List.foldl_append]
      rfl

theorem mem_merge_iff {edges : List Edge} {edge : Edge} :
    edge ∈ merge edges ↔ edge ∈ merge (edges.filter (fun other => other.key = edge.key)) := by
  rw [← filter_merge fun key => decide (key = edge.key)]
  simp

theorem mergeKind_of_known {kept duplicate : Edge} {kind : String}
    (text : duplicate.kindText? = some kind) (known : kind ∈ kept.kindTexts) :
    mergeKind kept duplicate = kept := by
  simp [mergeKind, text, known]

theorem foldl_mergeKind_of_known {kept : Edge} {duplicates : List Edge}
    (known : ∀ duplicate ∈ duplicates, ∃ kind ∈ kept.kindTexts,
      duplicate.kindText? = some kind) :
    duplicates.foldl mergeKind kept = kept := by
  induction duplicates with
  | nil => rfl
  | cons duplicate rest ih =>
      obtain ⟨⟨kind, listed, text⟩, others⟩ := List.forall_mem_cons.mp known
      rw [List.foldl_cons, mergeKind_of_known text listed, ih others]

end Edge

end CodeGraph
