import CodeGraph.Table
import Mathlib.Data.List.Nodup
import Mathlib.Data.List.Perm.Basic

set_option autoImplicit false

namespace CodeGraph.Table

variable {α κ : Type} [DecidableEq κ] {key : α → κ}

def Unique (key : α → κ) (rows : List α) : Prop :=
  (rows.map key).Nodup

instance (rows : List α) : Decidable (Unique key rows) :=
  inferInstanceAs (Decidable (rows.map key).Nodup)

theorem get?_some {rows : List α} {k : κ} {row : α} (found : get? key rows k = some row) :
    row ∈ rows ∧ key row = k := by
  refine ⟨List.mem_of_find?_eq_some found, ?_⟩
  simpa using List.find?_some found

theorem get?_eq_none_iff {rows : List α} {k : κ} :
    get? key rows k = none ↔ ∀ row ∈ rows, key row ≠ k := by
  simp [get?]

theorem has_iff {rows : List α} {k : κ} : has key rows k = true ↔ ∃ row ∈ rows, key row = k := by
  simp [has]

theorem get?_of_mem {rows : List α} (unique : Unique key rows) {row : α} (member : row ∈ rows) :
    get? key rows (key row) = some row := by
  induction rows with
  | nil => cases member
  | cons first rest ih =>
      have apart : key first ∉ rest.map key ∧ Unique key rest := List.nodup_cons.mp unique
      rcases List.mem_cons.mp member with rfl | later
      · simp [get?]
      · have other : key first ≠ key row := by
          intro same
          exact apart.1 (same ▸ List.mem_map_of_mem later)
        simpa [get?, List.find?_cons, other] using ih apart.2 later

theorem get?_eq_some_iff {rows : List α} (unique : Unique key rows) {k : κ} {row : α} :
    get? key rows k = some row ↔ row ∈ rows ∧ key row = k := by
  constructor
  · exact get?_some
  · rintro ⟨member, rfl⟩
    exact get?_of_mem unique member

theorem map_key_update (k : κ) {change : α → α} (keeps : ∀ row, key (change row) = key row)
    (rows : List α) : (update key k change rows).map key = rows.map key := by
  simp only [update, List.map_map]
  apply List.map_congr_left
  intro row _
  by_cases same : key row = k <;> simp [same, keeps]

theorem Unique.update {rows : List α} (unique : Unique key rows) (k : κ) {change : α → α}
    (keeps : ∀ row, key (change row) = key row) : Unique key (update key k change rows) := by
  rw [Unique, map_key_update k keeps]
  exact unique

theorem get?_update_self (k : κ) {change : α → α} (keeps : ∀ row, key (change row) = key row)
    (rows : List α) : get? key (update key k change rows) k = (get? key rows k).map change := by
  induction rows with
  | nil => rfl
  | cons first rest ih =>
      by_cases same : key first = k
      · simp [update, get?, same, keeps]
      · simp only [update, get?, List.map_cons, same, if_false, List.find?_cons, decide_false]
          at ih ⊢
        exact ih

theorem get?_update_of_ne (k other : κ) (differ : other ≠ k) {change : α → α}
    (keeps : ∀ row, key (change row) = key row) (rows : List α) :
    get? key (update key k change rows) other = get? key rows other := by
  induction rows with
  | nil => rfl
  | cons first rest ih =>
      simp only [update, get?, List.map_cons, List.find?_cons] at ih ⊢
      by_cases same : key first = k
      · simp [same, keeps, Ne.symm differ, ih]
      · simp only [same, if_false, ih]

theorem mem_update {k : κ} {change : α → α} {rows : List α} {row : α} :
    row ∈ update key k change rows ↔
      ∃ before ∈ rows, (if key before = k then change before else before) = row := by
  simp [update]

theorem mem_erase {k : κ} {rows : List α} {row : α} :
    row ∈ erase key k rows ↔ row ∈ rows ∧ key row ≠ k := by
  simp [erase]

omit [DecidableEq κ] in
theorem Unique.filter {rows : List α} (unique : Unique key rows) (p : α → Bool) :
    Unique key (rows.filter p) :=
  unique.sublist (List.filter_sublist.map key)

theorem Unique.erase {rows : List α} (unique : Unique key rows) (k : κ) :
    Unique key (erase key k rows) :=
  unique.filter _

theorem get?_erase_of_ne (k other : κ) (differ : other ≠ k) (rows : List α) :
    get? key (erase key k rows) other = get? key rows other := by
  simp only [get?, erase, List.find?_filter]
  congr 1
  funext row
  by_cases hit : key row = other <;> simp [hit, differ]

theorem erase_of_absent {k : κ} {rows : List α} (absent : ∀ row ∈ rows, key row ≠ k) :
    erase key k rows = rows := by
  simpa [erase, List.filter_eq_self] using absent

theorem erase_update (k : κ) {change : α → α} (keeps : ∀ row, key (change row) = key row)
    (rows : List α) : erase key k (update key k change rows) = erase key k rows := by
  induction rows with
  | nil => rfl
  | cons first rest ih =>
      by_cases same : key first = k
      · simpa [erase, update, same, keeps] using ih
      · simpa [erase, update, same] using ih

theorem Unique.filter_key {rows : List α} (unique : Unique key rows) (k : κ) :
    rows.filter (fun row => decide (key row = k)) = (get? key rows k).toList := by
  induction rows with
  | nil => rfl
  | cons first rest ih =>
      have apart : key first ∉ rest.map key ∧ Unique key rest := List.nodup_cons.mp unique
      have tail := ih apart.2
      by_cases same : key first = k
      · -- No later row has the key of the first one.
        have none : get? key rest k = none := by
          rw [get?_eq_none_iff]
          intro row later again
          exact apart.1 (same ▸ again ▸ List.mem_map_of_mem later)
        rw [none] at tail
        simp [get?, same, tail]
      · simpa [get?, same] using tail

theorem put_of_present {row : α} {rows : List α} (found : get? key rows (key row) = some row) :
    put key row rows = rows := by
  induction rows with
  | nil => simp [get?] at found
  | cons first rest ih =>
      by_cases same : key first = key row
      · simp only [get?, List.find?_cons, same, decide_true, Option.some.injEq] at found
        simp [put, found]
      · simp only [get?, List.find?_cons, same, decide_false] at found
        simp only [put, same, if_false]
        rw [ih found]

theorem mem_put {row other : α} {rows : List α} (member : other ∈ put key row rows) :
    other = row ∨ other ∈ rows := by
  induction rows with
  | nil => exact .inl (List.mem_singleton.mp member)
  | cons first rest ih =>
      by_cases same : key first = key row
      · simp only [put, same, if_true, List.mem_cons] at member
        rcases member with rfl | later
        · exact .inl rfl
        · exact .inr (List.mem_cons_of_mem _ later)
      · simp only [put, same, if_false, List.mem_cons] at member
        rcases member with rfl | later
        · exact .inr (List.mem_cons_self ..)
        · exact (ih later).imp_right (List.mem_cons_of_mem _)

theorem map_key_put (row : α) (rows : List α) :
    (put key row rows).map key =
      if key row ∈ rows.map key then rows.map key else rows.map key ++ [key row] := by
  induction rows with
  | nil => simp [put]
  | cons first rest ih =>
      by_cases same : key first = key row
      · simp [put, same]
      · simp only [put, same, if_false, List.map_cons, ih, List.mem_cons, Ne.symm same, false_or]
        split <;> simp

theorem Unique.put {rows : List α} (unique : Unique key rows) (row : α) :
    Unique key (put key row rows) := by
  rw [Unique, map_key_put]
  split
  next => exact unique
  next new =>
    rw [List.nodup_append]
    refine ⟨unique, List.nodup_singleton _, ?_⟩
    rintro k present other last rfl
    exact new (List.mem_singleton.mp last ▸ present)

theorem Unique.mem_put_iff {rows : List α} (unique : Unique key rows) {row other : α} :
    other ∈ Table.put key row rows ↔ other = row ∨ other ∈ rows ∧ key other ≠ key row := by
  -- A row of a unique table is what a look-up of its key finds.
  have found : other ∈ Table.put key row rows ↔
      get? key (Table.put key row rows) (key other) = some other := by
    rw [get?_eq_some_iff (unique.put row)]
    simp
  rw [found]
  by_cases same : key other = key row
  · rw [same, get?_put_self]
    simp [eq_comm]
  · rw [get?_put_of_ne key row rows _ (Ne.symm same), get?_eq_some_iff unique]
    have differ : other ≠ row := fun equal => same (congrArg key equal)
    simp [same, differ]

def putAll (key : α → κ) (rows new : List α) : List α :=
  new.foldl (fun rows row => put key row rows) rows

theorem Unique.putAll {rows : List α} (unique : Unique key rows) (new : List α) :
    Unique key (putAll key rows new) := by
  induction new generalizing rows with
  | nil => exact unique
  | cons row rest ih => exact ih (unique.put row)

theorem mem_map_key_putAll {rows new : List α} {k : κ} :
    k ∈ (putAll key rows new).map key ↔ k ∈ rows.map key ∨ k ∈ new.map key := by
  induction new generalizing rows with
  | nil => simp [putAll]
  | cons first rest ih =>
      rw [putAll, List.foldl_cons, ← putAll, ih, map_key_put]
      split
      next present =>
        rw [List.map_cons, List.mem_cons]
        constructor
        · rintro (old | later)
          · exact .inl old
          · exact .inr (.inr later)
        · rintro (old | rfl | later)
          · exact .inl old
          · exact .inl present
          · exact .inr later
      next => simp [or_assoc]

theorem mem_putAll {rows new : List α} {row : α} (member : row ∈ putAll key rows new) :
    row ∈ rows ∨ row ∈ new := by
  induction new generalizing rows with
  | nil => exact .inl member
  | cons first rest ih =>
      rcases ih member with present | later
      · rcases mem_put present with rfl | old
        · exact .inr (List.mem_cons_self ..)
        · exact .inl old
      · exact .inr (List.mem_cons_of_mem _ later)

theorem mem_put_of_ne {row other : α} {rows : List α} (member : other ∈ rows)
    (differ : key other ≠ key row) : other ∈ put key row rows := by
  induction rows with
  | nil => cases member
  | cons first rest ih =>
      unfold put
      rcases List.mem_cons.mp member with rfl | later
      · rw [if_neg differ]
        exact List.mem_cons_self ..
      · split
        · exact List.mem_cons_of_mem _ later
        · exact List.mem_cons_of_mem _ (ih later)

theorem mem_putAll_of_ne {rows new : List α} {row : α} (member : row ∈ rows)
    (differ : ∀ other ∈ new, key row ≠ key other) : row ∈ putAll key rows new := by
  induction new generalizing rows with
  | nil => exact member
  | cons first rest ih =>
      have kept := mem_put_of_ne member (differ first (List.mem_cons_self ..))
      exact ih kept fun other later => differ other (List.mem_cons_of_mem _ later)

theorem put_append_right {row : α} {left right : List α} (apart : ∀ old ∈ left, key old ≠ key row) :
    put key row (left ++ right) = left ++ put key row right := by
  induction left with
  | nil => rfl
  | cons first rest ih =>
      have other : key first ≠ key row := apart first (by simp)
      simp only [List.cons_append, put, other, if_false]
      rw [ih (fun old member => apart old (List.mem_cons_of_mem _ member))]

theorem putAll_eq_append {rows new : List α}
    (apart : ∀ old ∈ rows, ∀ row ∈ new, key old ≠ key row) :
    putAll key rows new = rows ++ putAll key [] new := by
  -- Rows that were put already may be hit again, so the induction needs them on the right.
  suffices shifted : ∀ right, putAll key (rows ++ right) new = rows ++ putAll key right new by
    simpa using shifted []
  intro right
  induction new generalizing right with
  | nil => rfl
  | cons row rest ih =>
      simp only [putAll, List.foldl_cons] at ih ⊢
      rw [put_append_right (fun old member => apart old member row (by simp))]
      exact ih (fun old member later present =>
        apart old member later (List.mem_cons_of_mem _ present)) (put key row right)

theorem putAll_of_unique {new : List α} (unique : Unique key new) : putAll key [] new = new := by
  induction new with
  | nil => rfl
  | cons row rest ih =>
      have apart : key row ∉ rest.map key ∧ Unique key rest := List.nodup_cons.mp unique
      have one : putAll key [] (row :: rest) = putAll key [row] rest := rfl
      rw [one, putAll_eq_append, ih apart.2]
      · rfl
      · intro old member other later same
        rw [List.mem_singleton.mp member] at same
        exact apart.1 (same ▸ List.mem_map_of_mem later)

section Views

variable {β : Type} (key' : β → κ) {view : α → β}

theorem map_put (keeps : ∀ row, key' (view row) = key row) (row : α) (rows : List α) :
    (put key row rows).map view = put key' (view row) (rows.map view) := by
  induction rows with
  | nil => rfl
  | cons old rest ih => by_cases same : key old = key row <;> simp [put, keeps, same, ih]

theorem map_putAll (keeps : ∀ row, key' (view row) = key row) (rows new : List α) :
    (putAll key rows new).map view = putAll key' (rows.map view) (new.map view) := by
  induction new generalizing rows with
  | nil => rfl
  | cons row rest ih =>
      rw [putAll, List.foldl_cons, ← putAll, ih, map_put key' keeps]
      rfl

end Views

theorem of_bind_eq_ok {ε α β : Type} {first : Except ε α} {next : α → Except ε β} {result : β}
    (ran : (first >>= next) = .ok result) :
    ∃ value, first = .ok value ∧ next value = .ok result := by
  cases first with
  | error error => cases ran
  | ok value => exact ⟨value, rfl, ran⟩

theorem toOption_eq_some {ε α : Type} {result : Except ε α} {value : α} :
    result.toOption = some value ↔ result = .ok value := by
  cases result <;> simp [Except.toOption]

theorem mapM_eq_ok {ε α β : Type} {f : α → Except ε β} {g : α → β} {items : List α}
    (each : ∀ item ∈ items, f item = .ok (g item)) : items.mapM f = .ok (items.map g) := by
  induction items with
  | nil => rfl
  | cons first rest ih =>
      have tail := ih fun item inside => each item (List.mem_cons_of_mem _ inside)
      rw [List.mapM_cons, each first (List.mem_cons_self ..), tail]
      rfl

theorem exists_mapM_ok {ε α β : Type} {f : α → Except ε β} {good : β → Prop} {items : List α}
    (each : ∀ item ∈ items, ∃ result, f item = .ok result ∧ good result) :
    ∃ results, items.mapM f = .ok results ∧ results.length = items.length ∧
      ∀ result ∈ results, good result := by
  induction items with
  | nil => exact ⟨[], rfl, rfl, by simp⟩
  | cons first rest ih =>
      obtain ⟨result, head, found⟩ := each first (List.mem_cons_self ..)
      obtain ⟨results, tail, length, all⟩ :=
        ih fun item inside => each item (List.mem_cons_of_mem _ inside)
      refine ⟨result :: results, ?_, by simp [length], List.forall_mem_cons.mpr ⟨found, all⟩⟩
      rw [List.mapM_cons, head, tail]
      rfl

theorem exists_mapM_error {ε α β : Type} {f : α → Except ε β} {items : List α} {item : α}
    (member : item ∈ items) (fails : ∃ error, f item = .error error) :
    ∃ error, items.mapM f = .error error := by
  induction items with
  | nil => cases member
  | cons first rest ih =>
      rw [List.mapM_cons]
      cases read : f first with
      | error error => exact ⟨error, rfl⟩
      | ok value =>
          rcases List.mem_cons.mp member with rfl | later
          · obtain ⟨error, failed⟩ := fails
            cases read.symm.trans failed
          · obtain ⟨error, failed⟩ := ih later
            rw [failed]
            exact ⟨error, rfl⟩

theorem map_eq_of_mapM_ok {ε α β γ : Type} {f : α → Except ε β} {key : α → γ} {key' : β → γ}
    (keeps : ∀ a b, f a = .ok b → key' b = key a) {items : List α} {results : List β}
    (read : items.mapM f = .ok results) : results.map key' = items.map key := by
  induction items generalizing results with
  | nil =>
      cases read
      rfl
  | cons first rest ih =>
      rw [List.mapM_cons] at read
      obtain ⟨result, head, more⟩ := of_bind_eq_ok read
      obtain ⟨others, tail, made⟩ := of_bind_eq_ok more
      cases made
      rw [List.map_cons, List.map_cons, keeps first result head, ih tail]

end CodeGraph.Table
