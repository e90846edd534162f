import CodeGraph.Proofs.Table
import Mathlib.Data.List.Dedup
import Mathlib.Data.List.Induction

set_option autoImplicit false

namespace CodeGraph.Table

variable {α κ : Type} [DecidableEq κ] {key : α → κ}

/-- Drops the rows that are not kept and puts new ones. -/
def revise (key : α → κ) (keep : α → Bool) (new rows : List α) : List α :=
  putAll key (rows.filter keep) new

theorem put_eq_revise (row : α) (rows : List α) :
    put key row rows = revise key (fun _ => true) [row] rows := by
  simp [revise, putAll]

theorem Unique.revise {rows : List α} (unique : Unique key rows) (keep : α → Bool) (new : List α) :
    Unique key (revise key keep new rows) :=
  (unique.filter keep).putAll new

theorem get?_putAll (rows new : List α) (k : κ) :
    get? key (putAll key rows new) k = (get? key (putAll key [] new) k).or (get? key rows k) := by
  induction new using List.reverseRecOn with
  | nil => rfl
  | append_singleton earlier row ih =>
      have last (start : List α) :
          putAll key start (earlier ++ [row]) = put key row (putAll key start earlier) := by
        simp [putAll]
      rw [last, last]
      by_cases same : key row = k
      · rw [← same, get?_put_self, get?_put_self, Option.some_or]
      · rw [get?_put_of_ne key row _ k same, get?_put_of_ne key row _ k same, ih]

theorem mem_iff_get? {rows : List α} (unique : Unique key rows) {row : α} :
    row ∈ rows ↔ get? key rows (key row) = some row := by
  rw [get?_eq_some_iff unique]
  simp

theorem perm_filter_put {sort : α → Bool} {row : α} {rows : List α} (own : sort row = true)
    (apart : ∀ old ∈ rows, sort old = true → key old ≠ key row) :
    ((put key row rows).filter sort).Perm (row :: rows.filter sort) := by
  induction rows with
  | nil => simp [put, own]
  | cons first rest ih =>
      have tail := ih fun old inside => apart old (List.mem_cons_of_mem _ inside)
      by_cases same : key first = key row
      · have foreign : sort first = false := by
          by_contra ours
          exact apart first (List.mem_cons_self ..) (by simpa using ours) same
        simp [put, same, own, foreign]
      · simp only [put, same, if_false, List.filter_cons]
        split
        · exact (tail.cons first).trans (List.Perm.swap ..)
        · exact tail

theorem perm_filter_putAll {sort : α → Bool} {rows new : List α}
    (own : ∀ row ∈ new, sort row = true) (unique : Unique key new)
    (apart : ∀ old ∈ rows, sort old = true → key old ∉ new.map key) :
    ((putAll key rows new).filter sort).Perm (rows.filter sort ++ new) := by
  induction new generalizing rows with
  | nil => simp [putAll]
  | cons row rest ih =>
      have once : key row ∉ rest.map key ∧ Unique key rest := List.nodup_cons.mp unique
      have ours := own row (List.mem_cons_self ..)
      have first : ((put key row rows).filter sort).Perm (row :: rows.filter sort) :=
        perm_filter_put ours fun old inside mine same =>
          apart old inside mine (same ▸ List.mem_cons_self ..)
      -- The rows of the sort are now the old ones and the first new one.
      have others := @ih (put key row rows)
        (fun other inside => own other (List.mem_cons_of_mem _ inside)) once.2
        (by
          intro old inside mine
          rcases mem_put inside with rfl | present
          · exact once.1
          · exact fun later => apart old present mine (List.mem_cons_of_mem _ later))
      exact (others.trans (first.append_right rest)).trans List.perm_middle.symm

def IsLast (key : α → κ) (items : List α) (item : α) : Prop :=
  ∃ earlier later, items = earlier ++ item :: later ∧ ∀ other ∈ later, key other ≠ key item

omit [DecidableEq κ] in
theorem isLast_concat {items : List α} {last item : α} :
    IsLast key (items ++ [last]) item ↔
      item = last ∨ IsLast key items item ∧ key item ≠ key last := by
  constructor
  · rintro ⟨earlier, later, split, apart⟩
    cases later using List.reverseRecOn with
    | nil => exact .inl (List.singleton_inj.mp (List.append_inj' split rfl).2.symm)
    | append_singleton later final =>
        rw [← List.cons_append, ← List.append_assoc] at split
        obtain ⟨rfl, same⟩ := List.append_inj' split rfl
        obtain rfl := List.singleton_inj.mp same
        refine .inr ⟨⟨earlier, later, rfl, fun other inside => ?_⟩, ?_⟩
        · exact apart other (List.mem_append_left _ inside)
        · exact (apart last (by simp)).symm
  · rintro (rfl | ⟨⟨earlier, later, rfl, apart⟩, differ⟩)
    · exact ⟨items, [], rfl, by simp⟩
    · refine ⟨earlier, later ++ [last], by simp, fun other inside => ?_⟩
      rcases List.mem_append.mp inside with old | final
      · exact apart other old
      · exact List.mem_singleton.mp final ▸ differ.symm

theorem mem_putAll_nil {new : List α} {row : α} : row ∈ putAll key [] new ↔ IsLast key new row := by
  induction new using List.reverseRecOn with
  | nil => simp [putAll, IsLast]
  | append_singleton earlier last ih =>
      have empty : Unique key [] := List.nodup_nil
      have unique := empty.putAll earlier
      have step : putAll key [] (earlier ++ [last]) = put key last (putAll key [] earlier) := by
        simp [putAll]
      rw [step, unique.mem_put_iff, isLast_concat, ih]

theorem exists_isLast {items : List α} {k : κ} (present : k ∈ items.map key) :
    ∃ item, IsLast key items item ∧ key item = k := by
  have kept : k ∈ (putAll key [] items).map key := mem_map_key_putAll.mpr (.inr present)
  obtain ⟨item, inside, same⟩ := List.mem_map.mp kept
  exact ⟨item, mem_putAll_nil.mp inside, same⟩

omit [DecidableEq κ] in
theorem IsLast.mem {items : List α} {item : α} (last : IsLast key items item) : item ∈ items := by
  obtain ⟨earlier, later, rfl, -⟩ := last
  simp

omit [DecidableEq κ] in
theorem isLast_map {β κ' : Type} {key' : β → κ'} {view : α → β}
    (same : ∀ a b, key' (view a) = key' (view b) ↔ key a = key b) {items : List α} {image : β} :
    IsLast key' (items.map view) image ↔ ∃ item, IsLast key items item ∧ image = view item := by
  constructor
  · rintro ⟨earlier, later, split, apart⟩
    obtain ⟨first, rest, rfl, -, tail⟩ := List.map_eq_append_iff.mp split
    obtain ⟨item, second, rfl, rfl, rfl⟩ := List.map_eq_cons_iff.mp tail
    refine ⟨item, ⟨first, second, rfl, fun other inside equal => ?_⟩, rfl⟩
    exact apart _ (List.mem_map_of_mem inside) ((same other item).mpr equal)
  · rintro ⟨item, ⟨earlier, later, rfl, apart⟩, rfl⟩
    refine ⟨earlier.map view, later.map view, by simp, fun other inside equal => ?_⟩
    obtain ⟨origin, listed, rfl⟩ := List.mem_map.mp inside
    exact apart origin listed ((same origin item).mp equal)

theorem mem_revise {rows : List α} (unique : Unique key rows) {keep : α → Bool} {new : List α}
    {row : α} :
    row ∈ revise key keep new rows ↔
      row ∈ putAll key [] new ∨ row ∈ rows ∧ keep row = true ∧ key row ∉ new.map key := by
  have empty : Unique key [] := List.nodup_nil
  have free : get? key (putAll key [] new) (key row) = none ↔ key row ∉ new.map key := by
    have written : key row ∈ (putAll key [] new).map key ↔ key row ∈ new.map key := by
      simp [mem_map_key_putAll]
    rw [get?_eq_none_iff, ← written]
    simp
  rw [mem_iff_get? (unique.revise keep new), revise, get?_putAll, mem_iff_get? (empty.putAll new),
    Option.or_eq_some_iff, free, ← mem_iff_get? (unique.filter keep), List.mem_filter]
  exact or_congr_right (and_comm.trans and_assoc)

omit [DecidableEq κ] in
theorem perm_of_mem_iff {rows rows' : List α} (unique : Unique key rows)
    (unique' : Unique key rows') (same : ∀ row, row ∈ rows ↔ row ∈ rows') : rows.Perm rows' :=
  (List.perm_ext_iff_of_nodup unique.of_map unique'.of_map).mpr same

theorem perm_revise {rows rows' : List α} (unique : Unique key rows) (unique' : Unique key rows')
    (perm : rows.Perm rows') (keep : α → Bool) (new : List α) :
    (revise key keep new rows).Perm (revise key keep new rows') := by
  refine perm_of_mem_iff (unique.revise keep new) (unique'.revise keep new) fun row => ?_
  rw [mem_revise unique, mem_revise unique', perm.mem_iff]

theorem perm_filter_revise {rows : List α} (unique : Unique key rows) {keep sort : α → Bool}
    {new : List α} (own : ∀ row ∈ new, sort row = true)
    (foreign : ∀ row ∈ rows, keep row = true → sort row = false) :
    ((revise key keep new rows).filter sort).Perm (putAll key [] new) := by
  have empty : Unique key [] := List.nodup_nil
  refine perm_of_mem_iff ((unique.revise keep new).filter sort) (empty.putAll new) fun row => ?_
  rw [List.mem_filter, mem_revise unique]
  constructor
  · rintro ⟨written | ⟨old, kept, -⟩, ours⟩
    · exact written
    · rw [foreign row old kept] at ours
      cases ours
  · exact fun written => ⟨.inl written, own row (mem_putAll_nil.mp written).mem⟩

theorem length_putAll_nil_eq_iff {new : List α} :
    (putAll key [] new).length = new.length ↔ (new.map key).Nodup := by
  have empty : Unique key [] := List.nodup_nil
  have keys : ((putAll key [] new).map key).Perm (new.map key).dedup := by
    refine (List.perm_ext_iff_of_nodup (empty.putAll new) (List.nodup_dedup _)).mpr fun k => ?_
    simp [mem_map_key_putAll]
  have length : (putAll key [] new).length = (new.map key).dedup.length := by
    simpa using keys.length_eq
  rw [length, ← List.dedup_eq_self]
  constructor
  · intro same
    exact (List.dedup_sublist _).eq_of_length (by simpa using same)
  · intro same
    rw [same, List.length_map]

theorem revise_comm {rows : List α} (unique : Unique key rows) {keep keep' : α → Bool}
    {new new' : List α} (kept : ∀ row ∈ new', keep row = true)
    (kept' : ∀ row ∈ new, keep' row = true)
    (apart : ∀ row ∈ new, ∀ other ∈ new', key row ≠ key other) :
    (revise key keep' new' (revise key keep new rows)).Perm
      (revise key keep new (revise key keep' new' rows)) := by
  have own {rows : List α} {row : α} (member : row ∈ putAll key [] rows) : row ∈ rows :=
    (mem_putAll member).resolve_left (by simp)
  have foreign {row : α} (member : row ∈ putAll key [] new) :
      keep' row = true ∧ key row ∉ new'.map key := by
    refine ⟨kept' row (own member), fun written => ?_⟩
    obtain ⟨other, inside, same⟩ := List.mem_map.mp written
    exact apart row (own member) other inside same.symm
  have foreign' {row : α} (member : row ∈ putAll key [] new') :
      keep row = true ∧ key row ∉ new.map key := by
    refine ⟨kept row (own member), fun written => ?_⟩
    obtain ⟨other, inside, same⟩ := List.mem_map.mp written
    exact apart other inside row (own member) same
  -- Both ways give the new rows of both and those old ones that neither drops or overwrites.
  refine perm_of_mem_iff ((unique.revise keep new).revise keep' new')
    ((unique.revise keep' new').revise keep new) fun row => ?_
  rw [mem_revise (unique.revise keep new), mem_revise unique,
    mem_revise (unique.revise keep' new'), mem_revise unique]
  constructor
  · rintro (second | ⟨first | ⟨inside, stays⟩, stays'⟩)
    · exact .inr ⟨.inl second, foreign' second⟩
    · exact .inl first
    · exact .inr ⟨.inr ⟨inside, stays'⟩, stays⟩
  · rintro (first | ⟨second | ⟨inside, stays'⟩, stays⟩)
    · exact .inr ⟨.inl first, foreign first⟩
    · exact .inl second
    · exact .inr ⟨.inr ⟨inside, stays⟩, stays'⟩

end CodeGraph.Table
