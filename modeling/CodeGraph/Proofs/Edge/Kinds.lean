import CodeGraph.Proofs.Edge.Merge
import Mathlib.Data.List.Induction

set_option autoImplicit false

namespace CodeGraph

namespace Properties

variable {key other : String} {value : Json} {properties : Properties}

theorem get?_cons (name : String) (value : Json) (rest : Properties) :
    get? ((name, value) :: rest) key = if key = name then some value else get? rest key := by
  by_cases same : key = name
  · simp [get?, same]
  · simp [get?, List.lookup_cons, beq_false_of_ne same, same]

@[simp] theorem get?_insert_self : get? (insert key value properties) key = some value := by
  induction properties with
  | nil => simp [insert, get?_cons]
  | cons field rest ih =>
      obtain ⟨name, old⟩ := field
      unfold insert
      split
      · simp [get?_cons]
      next differ =>
        split
        · simp [get?_cons]
        · simp [get?_cons, differ, ih]

theorem get?_insert_of_ne (differ : other ≠ key) :
    get? (insert key value properties) other = get? properties other := by
  induction properties with
  | nil => simp [insert, get?_cons, differ]
  | cons field rest ih =>
      obtain ⟨name, old⟩ := field
      unfold insert
      split
      next same => simp [get?_cons, differ, ← same]
      next =>
        split
        · simp [get?_cons, differ]
        · simp [get?_cons, ih]

theorem insert_insert (old : Json) :
    insert key value (insert key old properties) = insert key value properties := by
  induction properties with
  | nil => simp [insert]
  | cons field rest ih =>
      obtain ⟨name, first⟩ := field
      by_cases same : key = name
      · simp [insert, same]
      · by_cases before : key < name
        · simp [insert, same, before]
        · simp [insert, same, before, ih]

end Properties

namespace Edge

section Occurrences

variable {α : Type} [BEq α] [LawfulBEq α] {values : List α} {value : α}

theorem eraseDups_concat_of_mem (known : value ∈ values) :
    (values ++ [value]).eraseDups = values.eraseDups := by
  simp [List.eraseDups_append, List.removeAll, known]

theorem eraseDups_concat_of_notMem (new : value ∉ values) :
    (values ++ [value]).eraseDups = values.eraseDups ++ [value] := by
  simp [List.eraseDups_append, List.removeAll, new, List.eraseDups_cons]

end Occurrences

def kindsOf (edges : List Edge) : List String :=
  (edges.filterMap kindText?).eraseDups

/-- Some of the edges name another kind than the first, or any if the first names none. -/
def NamesOther (first : Edge) (rest : List Edge) : Prop :=
  ∃ edge ∈ rest, ∃ kind, edge.kindText? = some kind ∧ first.kindText? ≠ some kind

def Plain (edge : Edge) : Prop :=
  Properties.get? edge.properties "kinds" = none

def listing (first : Edge) (rest : List Edge) : Edge :=
  first.withProperty "kinds" (.array ((kindsOf (first :: rest)).map .string))

variable {first edge : Edge} {rest edges : List Edge} {kind : String}

theorem kindTexts_withProperty (kinds : List String) :
    (edge.withProperty "kinds" (.array (kinds.map .string))).kindTexts = kinds := by
  have text : ∀ kind : String, (Json.string kind).string? = some kind := fun _ => rfl
  simp [kindTexts, withProperty, List.filterMap_map, text]

theorem kindsOf_concat_of_none (silent : edge.kindText? = none) :
    kindsOf (edges ++ [edge]) = kindsOf edges := by
  simp [kindsOf, silent]

theorem mem_kindsOf : kind ∈ kindsOf edges ↔ ∃ edge ∈ edges, edge.kindText? = some kind := by
  simp [kindsOf]

theorem kindsOf_concat_of_mem (named : edge.kindText? = some kind) (known : kind ∈ kindsOf edges) :
    kindsOf (edges ++ [edge]) = kindsOf edges := by
  simp only [kindsOf, List.mem_eraseDups] at known
  simp only [kindsOf, List.filterMap_append, List.filterMap_cons, named, List.filterMap_nil,
    eraseDups_concat_of_mem known]

theorem kindsOf_concat_of_notMem (named : edge.kindText? = some kind)
    (new : kind ∉ kindsOf edges) : kindsOf (edges ++ [edge]) = kindsOf edges ++ [kind] := by
  simp only [kindsOf, List.mem_eraseDups] at new
  simp only [kindsOf, List.filterMap_append, List.filterMap_cons, named, List.filterMap_nil,
    eraseDups_concat_of_notMem new]

theorem namesOther_concat :
    NamesOther first (rest ++ [edge]) ↔
      NamesOther first rest ∨
        ∃ kind, edge.kindText? = some kind ∧ first.kindText? ≠ some kind := by
  simp only [NamesOther, List.mem_append, List.mem_singleton, or_and_right, exists_or,
    exists_eq_left]

theorem kindTexts_of_not_namesOther (plain : first.Plain) (same : ¬NamesOther first rest) :
    first.kindTexts = kindsOf (first :: rest) := by
  have listed : first.kindTexts = first.kindText?.toList := by
    unfold Plain at plain
    simp [kindTexts, plain]
  induction rest using List.reverseRecOn with
  | nil => cases named : first.kindText? <;> simp [listed, kindsOf, named, List.eraseDups_cons]
  | append_singleton rest edge ih =>
      rw [namesOther_concat, not_or] at same
      rw [← List.cons_append, ih same.1]
      cases named : edge.kindText? with
      | none => rw [kindsOf_concat_of_none named]
      | some kind =>
          have of_first : first.kindText? = some kind := by
            by_contra differ
            exact same.2 ⟨kind, named, differ⟩
          have known : kind ∈ kindsOf (first :: rest) :=
            mem_kindsOf.mpr ⟨first, List.mem_cons_self .., of_first⟩
          rw [kindsOf_concat_of_mem named known]

theorem foldl_mergeKind (plain : first.Plain) (rest : List Edge) :
    (NamesOther first rest → rest.foldl mergeKind first = first.listing rest) ∧
    (¬NamesOther first rest → rest.foldl mergeKind first = first) := by
  induction rest using List.reverseRecOn with
  | nil => exact ⟨fun ⟨_, inside, _⟩ => (List.not_mem_nil inside).elim, fun _ => rfl⟩
  | append_singleton rest edge ih =>
      -- So far all kinds are known, be it that the first lists them or that it names the only one.
      have known : (rest.foldl mergeKind first).kindTexts = kindsOf (first :: rest) := by
        by_cases other : NamesOther first rest
        · rw [ih.1 other, listing, kindTexts_withProperty]
        · rw [ih.2 other, kindTexts_of_not_namesOther plain other]
      rw [List.foldl_append, List.foldl_cons, List.foldl_nil, namesOther_concat]
      cases named : edge.kindText? with
      | none =>
          have silent :
              mergeKind (rest.foldl mergeKind first) edge = rest.foldl mergeKind first := by
            simp [mergeKind, named]
          rw [silent, listing, ← List.cons_append, kindsOf_concat_of_none named]
          simpa [listing] using ih
      | some kind =>
          by_cases old : kind ∈ kindsOf (first :: rest)
          · rw [mergeKind_of_known named (known ▸ old), listing, ← List.cons_append,
              kindsOf_concat_of_mem named old]
            -- A kind that is not the first's was named by one of the edges in between.
            have nothing_new : first.kindText? ≠ some kind → NamesOther first rest := by
              intro differ
              obtain ⟨source, inside, same⟩ := mem_kindsOf.mp old
              rcases List.mem_cons.mp inside with rfl | later
              · exact absurd same differ
              · exact ⟨source, later, kind, same, differ⟩
            refine ⟨fun other => ih.1 ?_, fun none => ih.2 fun other => none (.inl other)⟩
            rcases other with other | ⟨_, ⟨⟩, differ⟩
            · exact other
            · exact nothing_new differ
          · have differ : first.kindText? ≠ some kind := fun same =>
              old (mem_kindsOf.mpr ⟨first, List.mem_cons_self .., same⟩)
            have new : mergeKind (rest.foldl mergeKind first) edge =
                (rest.foldl mergeKind first).withProperty "kinds"
                  (.array ((kindsOf (first :: rest) ++ [kind]).map .string)) := by
              simp [mergeKind, named, known, old]
            refine ⟨fun _ => ?_, fun none => absurd (.inr ⟨kind, rfl, differ⟩) none⟩
            rw [new, listing, ← List.cons_append, kindsOf_concat_of_notMem named old]
            by_cases other : NamesOther first rest
            · rw [ih.1 other]
              simp [listing, withProperty, Properties.insert_insert]
            · rw [ih.2 other]

theorem map_key_merge (edges : List Edge) :
    (merge edges).map key = (edges.map key).eraseDups := by
  induction edges using List.reverseRecOn with
  | nil => rfl
  | append_singleton edges edge ih =>
      rw [merge_append, map_key_absorb, List.map_append, List.map_singleton, ih]
      by_cases known : edge.key ∈ edges.map key
      · rw [eraseDups_concat_of_mem known, if_pos (List.mem_eraseDups.mpr known)]
      · rw [eraseDups_concat_of_notMem known, if_neg (mt List.mem_eraseDups.mp known)]

theorem absorb_of_new {kept : List Edge} (new : edge.key ∉ kept.map key) :
    absorb edge kept = kept ++ [edge] := by
  induction kept with
  | nil => rfl
  | cons first rest ih =>
      rw [List.map_cons, List.mem_cons, not_or] at new
      rw [absorb, if_neg (Ne.symm new.1), ih new.2, List.cons_append]

theorem merge_of_nodup (unique : (edges.map key).Nodup) : merge edges = edges := by
  induction edges using List.reverseRecOn with
  | nil => rfl
  | append_singleton edges edge ih =>
      rw [List.map_append, List.map_singleton, List.nodup_append] at unique
      have new : edge.key ∉ edges.map key := fun inside =>
        unique.2.2 edge.key inside edge.key (List.mem_singleton_self _) rfl
      rw [merge_append, ih unique.1, absorb_of_new new]

theorem merge_merge (edges : List Edge) : merge (merge edges) = merge edges :=
  merge_of_nodup (nodup_key_merge edges)

theorem merge_merge_append (first rest : List Edge) :
    merge (merge first ++ rest) = merge (first ++ rest) := by
  induction rest using List.reverseRecOn with
  | nil => simp [merge_merge]
  | append_singleton rest edge ih =>
      rw [← List.append_assoc, ← List.append_assoc, merge_append, merge_append, ih]

/-- An edge is the first of its key, but for the kinds, which it lists if they differ. -/
structure ComesFrom (edge first : Edge) (rest : List Edge) : Prop where
  key : edge.key = first.key
  unchanged : ∀ name, name ≠ "kinds" →
    Properties.get? edge.properties name = Properties.get? first.properties name
  listed : NamesOther first rest →
    Properties.get? edge.properties "kinds" =
      some (.array ((kindsOf (first :: rest)).map .string))
  plain : ¬NamesOther first rest → edge = first

theorem comesFrom_foldl_mergeKind (plain : first.Plain) (rest : List Edge) :
    (rest.foldl mergeKind first).ComesFrom first rest := by
  obtain ⟨different, same⟩ := foldl_mergeKind plain rest
  refine ⟨key_foldl_mergeKind first rest, ?_, ?_, same⟩
  · intro name differ
    by_cases other : NamesOther first rest
    · rw [different other]
      exact Properties.get?_insert_of_ne differ
    · rw [same other]
  · intro other
    rw [different other]
    exact Properties.get?_insert_self

theorem exists_comesFrom_of_mem_merge (plain : ∀ edge ∈ edges, edge.Plain)
    (member : edge ∈ merge edges) :
    ∃ first rest, edges.filter (fun other => other.key = edge.key) = first :: rest ∧
      edge.ComesFrom first rest := by
  rw [mem_merge_iff] at member
  cases alike : edges.filter (fun other => other.key = edge.key) with
  | nil =>
      rw [alike] at member
      cases member
  | cons first rest =>
      have of_key : ∀ other ∈ first :: rest, other ∈ edges ∧ other.key = edge.key := by
        intro other inside
        rw [← alike] at inside
        simpa using inside
      obtain ⟨inside, first_key⟩ := of_key first (List.mem_cons_self ..)
      have same : ∀ other ∈ rest, other.key = first.key := fun other later =>
        (of_key other (List.mem_cons_of_mem _ later)).2.trans first_key.symm
      rw [alike, merge_of_same_key same, List.mem_singleton] at member
      refine ⟨first, rest, rfl, ?_⟩
      rw [member]
      exact comesFrom_foldl_mergeKind (plain first inside) rest

/-- Merging leaves one edge for each key, in the order in which the keys come first; it is the first
edge of its key and lists the kinds of all if they differ. What is merged already can be merged
again, alone or with more edges behind it. -/
theorem merge_keeps_first_and_lists_kinds :
    (∀ edges : List Edge, (∀ edge ∈ edges, edge.Plain) →
      (merge edges).map key = (edges.map key).eraseDups ∧
      ((merge edges).map key).Nodup ∧
      ∀ edge ∈ merge edges, ∃ first rest,
        edges.filter (fun other => other.key = edge.key) = first :: rest ∧
          edge.ComesFrom first rest) ∧
    (∀ edges : List Edge, merge (merge edges) = merge edges) ∧
    ∀ first rest : List Edge, merge (first ++ rest) = merge (merge first ++ rest) := by
  refine ⟨fun edges plain => ⟨map_key_merge edges, nodup_key_merge edges, ?_⟩, merge_merge, ?_⟩
  · intro edge member
    exact exists_comesFrom_of_mem_merge plain member
  · intro first rest
    exact (merge_merge_append first rest).symm

def reused : List Edge :=
  let input : Edge := { source := "run", target := "Input", kind := .references }
  [input.withProperty "kind" (.string "call"),
    { source := "run", target := "Other", kind := .references },
    input.withProperty "kind" (.string "type"), input.withProperty "kind" (.string "call")]

theorem reused_lists_call_and_type :
    (∀ edge ∈ reused, edge.Plain) ∧ (merge reused).map target = ["Input", "Other"] ∧
    ∃ edge ∈ merge reused,
      Properties.get? edge.properties "kinds" = some (.array [.string "call", .string "type"]) := by
  have plain : ∀ edge ∈ reused, edge.Plain := by
    simp only [reused, List.forall_mem_cons]
    exact ⟨rfl, rfl, rfl, rfl, List.forall_mem_nil _⟩
  refine ⟨plain, rfl, _, List.mem_cons_self .., ?_⟩
  obtain ⟨first, rest, alike, comes⟩ :=
    (merge_keeps_first_and_lists_kinds.1 reused plain).2.2 _ (List.mem_cons_self ..)
  cases alike
  exact comes.listed ⟨_, List.mem_cons_self .., "type", rfl, by decide⟩

end Edge

end CodeGraph
