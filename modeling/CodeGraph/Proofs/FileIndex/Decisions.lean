import CodeGraph.Proofs.FileIndex.Operations

/-!
What a walk decides about a file. Each entry that the walk found is sorted under at most one
heading, which depends on the entry and on the known entry of its path alone; so what is decided
about a file does not depend on what else the walk came by.
-/

set_option autoImplicit false

namespace CodeGraph

inductive Decision where
  | new
  | modified
  | unchanged
  | withdrawn
  | nothing
deriving DecidableEq, Repr

def Decision.isDirty : Decision → Bool
  | .new | .modified => true
  | _ => false

namespace ChangeSet

def decided (changes : ChangeSet) : Decision → List String
  | .new => changes.new.map FileEntry.path
  | .modified => changes.modified.map FileEntry.path
  | .unchanged => changes.unchanged
  | .withdrawn => changes.withdrawn
  | .nothing => []

def decision (changes : ChangeSet) (path : String) : Decision :=
  ([.new, .modified, .unchanged, .withdrawn].find?
    fun decision => decide (path ∈ changes.decided decision)).getD .nothing

def judge (previous : Option FileEntry) (entry : FileEntry) : Decision :=
  if !entry.available then
    if entry.hashStatus == .skipped && previous.any FileEntry.wasIndexed then .withdrawn
    else .nothing
  else
    match previous with
    | none => .new
    | some previous =>
        if !(entry.withHistory previous).isDirty then .unchanged
        else if !previous.wasIndexed then .new
        else .modified

variable {known : List FileEntry}

theorem decided_record (changes : ChangeSet) (entry : FileEntry) {decision : Decision}
    (some : decision ≠ .nothing) :
    (record known changes entry).decided decision = changes.decided decision ++
      if judge (Table.get? FileEntry.path known entry.path) entry = decision then [entry.path]
      else [] := by
  unfold record judge
  cases Table.get? FileEntry.path known entry.path with
  | none =>
      cases entry.available <;> cases decision <;> simp_all [decided]
  | some previous =>
      have same : (entry.withHistory previous).wasIndexed = previous.wasIndexed := rfl
      dsimp only
      rw [same]
      repeat' split
      all_goals cases decision <;> simp_all [decided, FileEntry.withHistory]

theorem decided_foldl (entries : List FileEntry) (changes : ChangeSet) {decision : Decision}
    (some : decision ≠ .nothing) :
    (entries.foldl (record known) changes).decided decision = changes.decided decision ++
      (entries.filter fun entry =>
        decide (judge (Table.get? FileEntry.path known entry.path) entry = decision)).map
          FileEntry.path := by
  induction entries generalizing changes with
  | nil => simp
  | cons entry rest ih =>
      rw [List.foldl_cons, ih, decided_record _ _ some, List.append_assoc]
      congr 1
      by_cases same : judge (Table.get? FileEntry.path known entry.path) entry = decision <;>
        simp [same]

theorem decided_diff (current : List FileEntry) {decision : Decision}
    (some : decision ≠ .nothing) :
    (diff current known).decided decision = (current.filter fun entry =>
      decide (judge (Table.get? FileEntry.path known entry.path) entry = decision)).map
        FileEntry.path := by
  have folded := @decided_foldl known current {} decision some
  cases decision <;> simpa [diff, decided] using folded

variable {current : List FileEntry} (unique : Table.Unique FileEntry.path current)

include unique

theorem mem_decided_diff {entry : FileEntry} (member : entry ∈ current) {decision : Decision}
    (some : decision ≠ .nothing) :
    entry.path ∈ (diff current known).decided decision ↔
      judge (Table.get? FileEntry.path known entry.path) entry = decision := by
  rw [decided_diff current some, List.mem_map]
  constructor
  · rintro ⟨other, inside, same⟩
    obtain ⟨listed, judged⟩ := List.mem_filter.mp inside
    obtain rfl := List.inj_on_of_nodup_map unique listed member same
    simpa using judged
  · intro judged
    exact ⟨entry, List.mem_filter.mpr ⟨member, by simpa using judged⟩, rfl⟩

theorem decision_diff {entry : FileEntry} (member : entry ∈ current) :
    (diff current known).decision entry.path =
      judge (Table.get? FileEntry.path known entry.path) entry := by
  have under (decision : Decision) (some : decision ≠ .nothing) :
      decide (entry.path ∈ (diff current known).decided decision) =
        decide (judge (Table.get? FileEntry.path known entry.path) entry = decision) :=
    decide_eq_decide.mpr (mem_decided_diff unique member some)
  simp only [decision, List.find?_cons, List.find?_nil, under, ne_eq, reduceCtorEq,
    not_false_eq_true]
  cases judge (Table.get? FileEntry.path known entry.path) entry <;> rfl

theorem mem_dirty_diff {entry : FileEntry} (member : entry ∈ current) :
    entry.path ∈ (diff current known).dirty.map FileEntry.path ↔
      (judge (Table.get? FileEntry.path known entry.path) entry).isDirty = true := by
  have new := @mem_decided_diff known current unique entry member .new (by decide)
  have modified := @mem_decided_diff known current unique entry member .modified (by decide)
  simp only [decided] at new modified
  rw [ChangeSet.dirty, List.map_append, List.mem_append, new, modified]
  cases judge (Table.get? FileEntry.path known entry.path) entry <;> simp [Decision.isDirty]

theorem unique_dirty_diff : Table.Unique FileEntry.path (diff current known).dirty := by
  have new := @decided_diff known current .new (by decide)
  have modified := @decided_diff known current .modified (by decide)
  simp only [decided] at new modified
  rw [Table.Unique, ChangeSet.dirty, List.map_append, new, modified]
  refine List.nodup_append.mpr ⟨unique.filter _, unique.filter _, ?_⟩
  -- A path under both headings would have two entries.
  rintro path first _ second rfl
  obtain ⟨entry, inside, rfl⟩ := List.mem_map.mp first
  obtain ⟨other, inside', same⟩ := List.mem_map.mp second
  obtain ⟨listed, judged⟩ := List.mem_filter.mp inside
  obtain ⟨listed', judged'⟩ := List.mem_filter.mp inside'
  obtain rfl := List.inj_on_of_nodup_map unique listed' listed same
  rw [decide_eq_true_iff] at judged judged'
  rw [judged] at judged'
  cases judged'

theorem nodup_withdrawn_diff : (diff current known).withdrawn.Nodup := by
  have withdrawn := @decided_diff known current .withdrawn (by decide)
  simp only [decided] at withdrawn
  rw [withdrawn]
  exact unique.filter _

end ChangeSet

end CodeGraph
