import CodeGraph.Proofs.FileIndex.Decisions
import Mathlib.Data.List.Count
import Mathlib.Data.List.Nodup

/-!
The comparison of a walk with the known entries sorts every file once. Files that are available are
new, modified or unchanged, files that are not are withdrawn or left alone, and the known files that
the walk did not come by are gone.

What is to be indexed agrees with the table of entries: it is what the table gives back for an entry
of the walk, once that is recorded, as far as it is dirty.
-/

set_option autoImplicit false

namespace CodeGraph

structure FileEntry.Inspected (entry : FileEntry) : Prop where
  lastIndexedAt : entry.lastIndexedAt = none
  lastIndexedHash : entry.lastIndexedHash = none
  lastFailedHash : entry.lastFailedHash = none
  size : entry.size ≤ maxInteger

theorem FileEntry.Inspected.eq_self {entry : FileEntry} (inspected : entry.Inspected) :
    { entry with lastIndexedAt := none, lastIndexedHash := none, lastFailedHash := none } =
      entry := by
  obtain ⟨indexedAt, indexedHash, failedHash, -⟩ := inspected
  cases entry
  simp_all

namespace FileIndex

def givesBack (files : FileIndex) (entry : FileEntry) : Except IndexError (Option FileEntry) :=
  files.upsert entry >>= fun after => after.get entry.path

def Keeps (files : FileIndex) (known : List FileEntry) : Prop :=
  ∀ path, files.get path = .ok (Table.get? FileEntry.path known path)

end FileIndex

namespace ChangeSet

theorem judge_of_available (previous : Option FileEntry) {entry : FileEntry}
    (available : entry.available = true) :
    judge previous entry = .new ∨ judge previous entry = .modified ∨
      judge previous entry = .unchanged := by
  cases previous with
  | none => exact .inl (by simp [judge, available])
  | some previous =>
      simp only [judge, available, Bool.not_true, Bool.false_eq_true, if_false]
      split
      · exact .inr (.inr rfl)
      · split
        · exact .inl rfl
        · exact .inr (.inl rfl)

theorem judge_of_unavailable (previous : Option FileEntry) {entry : FileEntry}
    (unavailable : entry.available = false) :
    judge previous entry =
      if entry.hashStatus = .skipped ∧ previous.any FileEntry.wasIndexed = true then .withdrawn
      else .nothing := by
  simp [judge, unavailable]

variable {current known : List FileEntry}

theorem count_decided (unique : Table.Unique FileEntry.path current) {entry : FileEntry}
    (member : entry ∈ current) {decision : Decision} (some : decision ≠ .nothing) :
    ((diff current known).decided decision).count entry.path =
      if judge (Table.get? FileEntry.path known entry.path) entry = decision then 1 else 0 := by
  have once : ((diff current known).decided decision).Nodup := by
    rw [decided_diff current some]
    exact unique.filter _
  rw [once.count]
  simp only [mem_decided_diff unique member some]

theorem sorted_deleted (keyed : Table.Unique FileEntry.path known) :
    (diff current known).deleted.Pairwise (· < ·) := by
  have sorted : (diff current known).deleted.Pairwise (fun a b => decide (a ≤ b) = true) := by
    apply List.pairwise_mergeSort
    · intro a b c first second
      exact decide_eq_true (String.le_trans (of_decide_eq_true first) (of_decide_eq_true second))
    · intro a b
      simpa using String.le_total a b
  have distinct : (diff current known).deleted.Nodup :=
    (List.mergeSort_perm _ _).nodup_iff.mpr (keyed.sublist List.filter_sublist)
  -- Neighbours in order that are not the same are strictly in order.
  refine (sorted.and distinct).imp ?_
  intro a b ⟨below, differ⟩
  by_contra above
  exact differ (String.le_antisymm (of_decide_eq_true below) (String.not_lt.mp above))

theorem isDirty_of_inspected {entry : FileEntry} (inspected : entry.Inspected)
    (available : entry.available = true) : entry.isDirty = true := by
  simp [FileEntry.isDirty, FileEntry.wasIndexed, available, inspected.lastIndexedAt,
    inspected.lastFailedHash]

theorem dirty_record_eq {entry : FileEntry} (inspected : entry.Inspected) :
    (record known {} entry).dirty =
      if entry.available = true ∧ (merged known entry).isDirty = true then [merged known entry]
      else [] := by
  cases available : entry.available with
  | false =>
      simp only [record, available, Bool.not_false, if_true]
      split <;> simp [ChangeSet.dirty]
  | true =>
      cases found : Table.get? FileEntry.path known entry.path with
      | none =>
          have isDirty := isDirty_of_inspected inspected available
          simp [record, merged, available, found, isDirty, ChangeSet.dirty]
      | some previous =>
          -- A dirty entry stands under one of the two headings, which its history decides.
          cases isDirty : (entry.withHistory previous).isDirty with
          | false => simp [record, merged, available, found, isDirty, ChangeSet.dirty]
          | true =>
              cases indexed : (entry.withHistory previous).wasIndexed <;>
                simp [record, merged, available, found, isDirty, indexed, ChangeSet.dirty]

theorem mem_dirty_iff (inspected : ∀ entry ∈ current, entry.Inspected) {dirty : FileEntry} :
    dirty ∈ (diff current known).dirty ↔ ∃ entry ∈ current, entry.available = true ∧
      merged known entry = dirty ∧ dirty.isDirty = true := by
  have folded := @dirty_foldl known current {} dirty
  have none : dirty ∉ ({} : ChangeSet).dirty := List.not_mem_nil
  rw [or_iff_right none] at folded
  refine folded.trans (exists_congr fun entry => and_congr_right fun member => ?_)
  rw [dirty_record_eq (inspected entry member)]
  constructor
  · intro recorded
    split at recorded
    next both =>
      rw [List.mem_singleton.mp recorded]
      exact ⟨both.1, rfl, both.2⟩
    next => cases recorded
  · rintro ⟨available, rfl, isDirty⟩
    rw [if_pos ⟨available, isDirty⟩]
    exact List.mem_singleton_self _

theorem hasChanges_eq_false :
    (diff current known).hasChanges = false ↔ (diff current known).dirty = [] ∧
      (diff current known).deleted = [] ∧ (diff current known).withdrawn = [] := by
  simp [hasChanges, ChangeSet.dirty, and_assoc]

end ChangeSet

namespace FileRow

theorem history_of_entry {row : FileRow} {entry : FileEntry} (read : row.entry = .ok entry) :
    entry.lastIndexedAt = row.lastIndexedAt ∧ entry.lastIndexedHash = row.lastIndexedHash ∧
      entry.lastFailedHash = row.lastFailedHash := by
  unfold FileRow.entry at read
  split at read
  · obtain ⟨size, -, made⟩ := Table.of_bind_eq_ok read
    cases made
    exact ⟨rfl, rfl, rfl⟩
  · cases read

theorem value_ofEntry (entry : FileEntry) (old : Option FileRow) :
    (ofEntry entry old).value =
      { entry with
        lastIndexedAt := old.bind lastIndexedAt, lastIndexedHash := old.bind lastIndexedHash
        lastFailedHash := old.bind lastFailedHash } := by
  simp [ofEntry, value]

end FileRow

namespace FileIndex

variable {files : FileIndex} {known : List FileEntry}

theorem Keeps.value_ofEntry (keeps : files.Keeps known) {entry : FileEntry}
    (inspected : entry.Inspected) :
    (FileRow.ofEntry entry (files.row? entry.path)).value = ChangeSet.merged known entry := by
  have kept := keeps entry.path
  unfold FileIndex.get at kept
  unfold ChangeSet.merged
  rw [FileRow.value_ofEntry]
  cases found : files.row? entry.path with
  | none =>
      rw [found] at kept
      rw [← Except.ok.inj kept]
      exact inspected.eq_self
  | some row =>
      simp only [found] at kept
      cases read : row.entry with
      | error error =>
          rw [read] at kept
          cases kept
      | ok previous =>
          obtain ⟨indexedAt, indexedHash, failedHash⟩ := FileRow.history_of_entry read
          rw [read] at kept
          rw [← Except.ok.inj kept]
          simp [FileEntry.withHistory, indexedAt, indexedHash, failedHash]

def ofEntries (known : List FileEntry) : FileIndex :=
  { rows := known.map fun entry =>
      { FileRow.ofEntry entry none with
        lastIndexedAt := entry.lastIndexedAt, lastIndexedHash := entry.lastIndexedHash
        lastFailedHash := entry.lastFailedHash } }

theorem keeps_ofEntries (known : List FileEntry) : (ofEntries known).Keeps known := by
  intro path
  unfold FileIndex.get row? Table.get? ofEntries
  rw [List.find?_map]
  simp only [Function.comp_def, FileRow.ofEntry]
  cases known.find? (fun entry => decide (entry.path = path)) with
  | none => rfl
  | some entry =>
      simp [FileRow.entry, ofTableInteger, Except.mapError, bind, Except.bind, pure, Except.pure]

theorem Keeps.givesBack_eq (keeps : files.Keeps known) {entry : FileEntry}
    (inspected : entry.Inspected) :
    files.givesBack entry = .ok (some (ChangeSet.merged known entry)) := by
  have written := files.upsert_eq inspected.size
  have found := row?_upsert written entry.path
  rw [if_pos rfl] at found
  unfold givesBack
  rw [written]
  simp only [bind, Except.bind, FileIndex.get, found, (FileRow.sound_ofEntry ..).entry_eq,
    keeps.value_ofEntry inspected]
  rfl

end FileIndex

section Partition

variable {current known : List FileEntry}

open ChangeSet

theorem count_sorted (distinct : Table.Unique FileEntry.path current) {entry : FileEntry}
    (member : entry ∈ current) :
    ((diff current known).new.map FileEntry.path ++
      (diff current known).modified.map FileEntry.path ++
      (diff current known).unchanged).count entry.path =
        if entry.available = true then 1 else 0 := by
  have new := @count_decided current known distinct entry member .new (by decide)
  have modified := @count_decided current known distinct entry member .modified (by decide)
  have unchanged := @count_decided current known distinct entry member .unchanged (by decide)
  simp only [decided] at new modified unchanged
  rw [List.count_append, List.count_append, new, modified, unchanged]
  cases available : entry.available with
  | true =>
      rcases judge_of_available (Table.get? FileEntry.path known entry.path) available with
        judged | judged | judged <;> simp [judged]
  | false =>
      rw [judge_of_unavailable _ available]
      split <;> simp

instance (known : List FileEntry) (entry : FileEntry) : Decidable (Withdraws known entry) :=
  inferInstanceAs (Decidable (_ ∧ _ ∧ _))

theorem count_withdrawn (distinct : Table.Unique FileEntry.path current) {entry : FileEntry}
    (member : entry ∈ current) :
    (diff current known).withdrawn.count entry.path =
      if Withdraws known entry then 1 else 0 := by
  have withdrawn := @count_decided current known distinct entry member .withdrawn (by decide)
  simp only [decided] at withdrawn
  rw [withdrawn]
  cases available : entry.available with
  | true =>
      rw [if_neg (not_withdraws available)]
      rcases judge_of_available (Table.get? FileEntry.path known entry.path) available with
        judged | judged | judged <;> simp [judged]
  | false =>
      rw [judge_of_unavailable _ available]
      simp [Withdraws, available]

theorem not_mem_deleted {entry : FileEntry} (member : entry ∈ current) :
    entry.path ∉ (diff current known).deleted :=
  fun gone => (mem_deleted_diff.mp gone).2 (List.mem_map_of_mem member)

theorem of_mem_decided {decision : Decision} {path : String}
    (member : path ∈ (diff current known).decided decision) :
    ∃ entry ∈ current, entry.path = path := by
  by_cases none : decision = .nothing
  · rw [none] at member
    cases member
  · rw [decided_diff current none] at member
    obtain ⟨entry, inside, same⟩ := List.mem_map.mp member
    exact ⟨entry, List.mem_of_mem_filter inside, same⟩

theorem mem_dirty_iff_givesBack (inspected : ∀ entry ∈ current, entry.Inspected)
    {files : FileIndex} (keeps : files.Keeps known) {dirty : FileEntry} :
    dirty ∈ (diff current known).dirty ↔ ∃ entry ∈ current, entry.available = true ∧
      files.givesBack entry = .ok (some dirty) ∧ dirty.isDirty = true := by
  rw [mem_dirty_iff inspected]
  refine exists_congr fun entry => and_congr_right fun member => ?_
  rw [keeps.givesBack_eq (inspected entry member)]
  simp

theorem unchanged_iff (inspected : ∀ entry ∈ current, entry.Inspected) {files : FileIndex}
    (keeps : files.Keeps known) :
    (diff current known).hasChanges = false ↔
      (∀ entry ∈ current, entry.available = true →
        ∃ stored, files.givesBack entry = .ok (some stored) ∧ stored.isDirty = false) ∧
      (∀ previous ∈ known, ∃ entry ∈ current, entry.path = previous.path) ∧
      ∀ entry ∈ current, entry.available = false → entry.hashStatus = .skipped →
        (Table.get? FileEntry.path known entry.path).any FileEntry.wasIndexed = false := by
  simp only [hasChanges_eq_false, List.eq_nil_iff_forall_not_mem,
    mem_dirty_iff_givesBack inspected keeps, mem_deleted_diff, mem_withdrawn_diff, Withdraws]
  refine and_congr ?_ (and_congr ?_ ?_)
  · constructor
    · intro clean entry member available
      have back := keeps.givesBack_eq (inspected entry member)
      refine ⟨merged known entry, back, ?_⟩
      by_contra isDirty
      exact clean _ ⟨entry, member, available, back, by simpa using isDirty⟩
    · rintro clean dirty ⟨entry, member, available, back, isDirty⟩
      obtain ⟨stored, again, unclean⟩ := clean entry member available
      rw [back] at again
      obtain rfl := Option.some.inj (Except.ok.inj again)
      rw [isDirty] at unclean
      cases unclean
  · constructor
    · intro none previous member
      by_contra missing
      refine none previous.path ⟨List.mem_map_of_mem member, fun found => missing ?_⟩
      obtain ⟨entry, inside, same⟩ := List.mem_map.mp found
      exact ⟨entry, inside, same⟩
    · rintro all path ⟨known, missing⟩
      obtain ⟨previous, member, rfl⟩ := List.mem_map.mp known
      obtain ⟨entry, inside, same⟩ := all previous member
      exact missing (List.mem_map.mpr ⟨entry, inside, same⟩)
  · constructor
    · intro none entry member unavailable skipped
      by_contra indexed
      exact none entry.path ⟨entry, member, rfl, unavailable, skipped, by simpa using indexed⟩
    · rintro none path ⟨entry, member, -, unavailable, skipped, indexed⟩
      rw [none entry member unavailable skipped] at indexed
      cases indexed

/-- What a walk finds is sorted once, the known files that it missed are gone, in order, and what is
to be indexed, with its history, is what a table of the known entries gives back as dirty. -/
theorem diff_is_partition (current known : List FileEntry)
    (distinct : Table.Unique FileEntry.path current)
    (inspected : ∀ entry ∈ current, entry.Inspected)
    (keyed : Table.Unique FileEntry.path known) :
    let changes := diff current known
    (∀ entry ∈ current, entry.available = true →
      (changes.new.map FileEntry.path ++ changes.modified.map FileEntry.path ++
        changes.unchanged).count entry.path = 1 ∧
      entry.path ∉ changes.deleted ∧ entry.path ∉ changes.withdrawn) ∧
    (∀ entry ∈ current, entry.available = false →
      (changes.new.map FileEntry.path ++ changes.modified.map FileEntry.path ++
        changes.unchanged).count entry.path = 0 ∧
      entry.path ∉ changes.deleted ∧
      changes.withdrawn.count entry.path =
        if entry.hashStatus = .skipped ∧
          (Table.get? FileEntry.path known entry.path).any FileEntry.wasIndexed = true then 1
        else 0) ∧
    (∀ path, path ∈ changes.unchanged ∨ path ∈ changes.withdrawn →
      ∃ entry ∈ current, entry.path = path) ∧
    changes.deleted.Pairwise (· < ·) ∧
    (∀ path, path ∈ changes.deleted ↔
      path ∈ known.map FileEntry.path ∧ path ∉ current.map FileEntry.path) ∧
    ∀ files : FileIndex, files.Keeps known →
      (∀ dirty, dirty ∈ changes.dirty ↔ ∃ entry ∈ current, entry.available = true ∧
        files.givesBack entry = .ok (some dirty) ∧ dirty.isDirty = true) ∧
      (∀ dirty ∈ changes.dirty, ∀ stored, files.get dirty.path = .ok (some stored) →
        dirty.lastIndexedAt = stored.lastIndexedAt ∧
        dirty.lastIndexedHash = stored.lastIndexedHash ∧
        dirty.lastFailedHash = stored.lastFailedHash) ∧
      (changes.hasChanges = false ↔
        (∀ entry ∈ current, entry.available = true →
          ∃ stored, files.givesBack entry = .ok (some stored) ∧ stored.isDirty = false) ∧
        (∀ previous ∈ known, ∃ entry ∈ current, entry.path = previous.path) ∧
        ∀ entry ∈ current, entry.available = false → entry.hashStatus = .skipped →
          (Table.get? FileEntry.path known entry.path).any FileEntry.wasIndexed = false) := by
  -- Each entry stands under the heading that the comparison decides on for it alone.
  refine ⟨fun entry member available => ?_, fun entry member unavailable => ?_, ?_,
    sorted_deleted keyed, fun path => mem_deleted_diff,
    fun files keeps => ⟨fun dirty => ?_, ?_, ?_⟩⟩
  · have withdrawn := @count_withdrawn current known distinct entry member
    rw [if_neg (not_withdraws available)] at withdrawn
    refine ⟨?_, not_mem_deleted member, List.count_eq_zero.mp withdrawn⟩
    rw [count_sorted distinct member, if_pos available]
  · refine ⟨?_, not_mem_deleted member, ?_⟩
    · rw [count_sorted distinct member, unavailable, if_neg (by decide)]
    · rw [count_withdrawn distinct member]
      simp [Withdraws, unavailable]
  · rintro path (unchanged | withdrawn)
    · exact @of_mem_decided current known .unchanged path unchanged
    · exact @of_mem_decided current known .withdrawn path withdrawn
  · exact mem_dirty_iff_givesBack inspected keeps
  · intro dirty member stored read
    obtain ⟨entry, inside, -, rfl, -⟩ := (mem_dirty_iff inspected).mp member
    rw [path_merged, keeps] at read
    simp [merged, Except.ok.inj read, FileEntry.withHistory]
  · exact unchanged_iff inspected keeps

def knownFiles : List FileEntry :=
  [{ path := "blank.js", hash := "h", lastIndexedAt := some "t", lastIndexedHash := some "h" },
   { path := "failed.js", hash := "h", lastFailedHash := some "h" },
   { path := "gone.js", hash := "h" },
   { path := "old.js", hash := "h", lastIndexedAt := some "t", lastIndexedHash := some "h" }]

def walkedFiles : List FileEntry :=
  [{ path := "blank.js", hash := "", available := false, hashStatus := .skipped },
   { path := "failed.js", hash := "h", size := 1 },
   { path := "new.js", hash := "h", size := 1 },
   { path := "old.js", hash := "h'", size := 2 }]

theorem knownFiles_are_sorted :
    Table.Unique FileEntry.path walkedFiles ∧ (∀ entry ∈ walkedFiles, entry.Inspected) ∧
    Table.Unique FileEntry.path knownFiles ∧ (FileIndex.ofEntries knownFiles).Keeps knownFiles ∧
    (diff walkedFiles knownFiles).unchanged = ["failed.js"] ∧
    (diff walkedFiles knownFiles).withdrawn = ["blank.js"] ∧
    "gone.js" ∈ (diff walkedFiles knownFiles).deleted ∧
    (diff walkedFiles knownFiles).hasChanges = true ∧
    (∀ dirty, dirty ∈ (diff walkedFiles knownFiles).dirty ↔
      ∃ entry ∈ walkedFiles, entry.available = true ∧
        (FileIndex.ofEntries knownFiles).givesBack entry = .ok (some dirty) ∧
        dirty.isDirty = true) := by
  have distinct : Table.Unique FileEntry.path walkedFiles := by
    simp [Table.Unique, walkedFiles]
  have keyed : Table.Unique FileEntry.path knownFiles := by
    simp [Table.Unique, knownFiles]
  have inspected : ∀ entry ∈ walkedFiles, entry.Inspected := by
    intro entry member
    simp only [walkedFiles, List.mem_cons, List.not_mem_nil, or_false] at member
    rcases member with rfl | rfl | rfl | rfl <;> exact ⟨rfl, rfl, rfl, by decide⟩
  have keeps := FileIndex.keeps_ofEntries knownFiles
  obtain ⟨-, -, -, -, gone, table⟩ :=
    diff_is_partition walkedFiles knownFiles distinct inspected keyed
  exact ⟨distinct, inspected, keyed, keeps, by decide, by decide, (gone _).mpr (by decide),
    by decide, (table _ keeps).1⟩

end Partition

end CodeGraph
