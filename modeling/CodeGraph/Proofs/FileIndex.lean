import CodeGraph.FileIndex
import CodeGraph.Proofs.Table

set_option autoImplicit false

namespace CodeGraph

namespace FileRow

structure Sound (row : FileRow) : Prop where
  status : ∃ status : HashStatus, row.hashStatus = status.name
  size : 0 ≤ row.size

def value (row : FileRow) : FileEntry :=
  { path := row.path, available := row.available, deleted := row.deleted, size := row.size.toNat
    modified := row.modified, hashAlgorithm := row.hashAlgorithm, hash := row.hash
    hashStatus := (HashStatus.ofName? row.hashStatus).getD .computed, language := row.language
    lastIndexedAt := row.lastIndexedAt, lastIndexedHash := row.lastIndexedHash
    lastFailedHash := row.lastFailedHash }

theorem Sound.entry_eq {row : FileRow} (sound : row.Sound) : row.entry = .ok row.value := by
  obtain ⟨status, named⟩ := sound.status
  simp only [entry, value, named, HashStatus.ofName?_name, ofTableInteger, sound.size, if_true]
  rfl

/-- The row for an entry, with the history of the row that was there. -/
def ofEntry (entry : FileEntry) (old : Option FileRow) : FileRow :=
  { path := entry.path, available := entry.available, deleted := entry.deleted, size := entry.size
    modified := entry.modified, hashAlgorithm := entry.hashAlgorithm, hash := entry.hash
    hashStatus := entry.hashStatus.name, language := entry.language
    lastIndexedAt := old.bind lastIndexedAt, lastIndexedHash := old.bind lastIndexedHash
    lastFailedHash := old.bind lastFailedHash }

theorem sound_ofEntry (entry : FileEntry) (old : Option FileRow) : (ofEntry entry old).Sound :=
  ⟨⟨entry.hashStatus, rfl⟩, Int.natCast_nonneg _⟩

def indexed (now hash : String) (row : FileRow) : FileRow :=
  { row with lastIndexedAt := some now, lastIndexedHash := some hash, lastFailedHash := none }

def failed (hash : String) (row : FileRow) : FileRow :=
  { row with lastFailedHash := some hash }

end FileRow

namespace FileIndex

structure Sound (files : FileIndex) : Prop where
  unique : Table.Unique FileRow.path files.rows
  rows : ∀ row ∈ files.rows, row.Sound

theorem sound_empty : Sound {} :=
  ⟨List.nodup_nil, by simp⟩

variable {files : FileIndex}

def known (files : FileIndex) : List FileEntry :=
  (files.rows.mergeSort (fun a b => decide (a.path ≤ b.path))).map FileRow.value

theorem Sound.list_eq (sound : files.Sound) : files.list = .ok files.known :=
  Table.mapM_eq_ok fun row member => (sound.rows row (List.mem_mergeSort.mp member)).entry_eq

theorem mem_known {entry : FileEntry} :
    entry ∈ files.known ↔ ∃ row ∈ files.rows, row.value = entry := by
  simp [known, List.mem_map]

theorem Sound.row?_eq_some (sound : files.Sound) {path : String} {row : FileRow} :
    files.row? path = some row ↔ row ∈ files.rows ∧ row.path = path :=
  Table.get?_eq_some_iff sound.unique

theorem Sound.unique_known (sound : files.Sound) : Table.Unique FileEntry.path files.known := by
  have perm := (List.mergeSort_perm files.rows (fun a b => decide (a.path ≤ b.path))).map
    FileRow.path
  have paths : files.known.map FileEntry.path =
      (files.rows.mergeSort (fun a b => decide (a.path ≤ b.path))).map FileRow.path := by
    simp [known, FileRow.value]
  rw [Table.Unique, paths]
  exact perm.nodup_iff.mpr sound.unique

theorem Sound.get?_known (sound : files.Sound) (path : String) :
    Table.get? FileEntry.path files.known path = (files.row? path).map FileRow.value := by
  apply Option.ext
  intro entry
  rw [Table.get?_eq_some_iff sound.unique_known, mem_known, Option.map_eq_some_iff]
  constructor
  · rintro ⟨⟨row, member, rfl⟩, same⟩
    exact ⟨row, sound.row?_eq_some.mpr ⟨member, same⟩, rfl⟩
  · rintro ⟨row, found, rfl⟩
    obtain ⟨member, same⟩ := sound.row?_eq_some.mp found
    exact ⟨⟨row, member, rfl⟩, same⟩

theorem mem_paths_known {path : String} :
    path ∈ files.known.map FileEntry.path ↔ (files.row? path).isSome = true := by
  rw [row?, Option.isSome_iff_ne_none, ne_eq, Table.get?_eq_none_iff]
  simp only [List.mem_map, mem_known]
  constructor
  · rintro ⟨entry, ⟨row, member, rfl⟩, same⟩ none
    exact none row member same
  · intro some
    by_contra missing
    apply some
    intro row member same
    exact missing ⟨row.value, ⟨row, member, rfl⟩, same⟩

theorem row?_remove (files : FileIndex) (path other : String) :
    (files.remove path).row? other = if other = path then none else files.row? other := by
  split
  next same => exact same ▸ Table.get?_erase_self FileRow.path path files.rows
  next differ => exact Table.get?_erase_of_ne path other differ files.rows

theorem row?_change (files : FileIndex) (path other : String) {f : FileRow → FileRow}
    (keeps : ∀ row, (f row).path = row.path) :
    (files.change path f).row? other =
      if other = path then (files.row? path).map f else files.row? other := by
  split
  next same => exact same ▸ Table.get?_update_self path keeps files.rows
  next differ => exact Table.get?_update_of_ne path other differ keeps files.rows

theorem row?_markIndexed (files : FileIndex) (now path hash other : String) :
    (files.markIndexed now path hash).row? other =
      if other = path then (files.row? path).map (FileRow.indexed now hash)
      else files.row? other :=
  row?_change files path other fun _ => rfl

theorem row?_markFailed (files : FileIndex) (path hash other : String) :
    (files.markFailed path hash).row? other =
      if other = path then (files.row? path).map (FileRow.failed hash) else files.row? other :=
  row?_change files path other fun _ => rfl

theorem row?_clearIndexed (files : FileIndex) (path other : String) :
    (files.clearIndexed path).row? other =
      if other = path then (files.row? path).map forget else files.row? other :=
  row?_change files path other fun _ => rfl

theorem Sound.remove (sound : files.Sound) (path : String) : (files.remove path).Sound :=
  ⟨sound.unique.erase path, fun row member => sound.rows row (Table.mem_erase.mp member).1⟩

theorem Sound.change (sound : files.Sound) (path : String) {f : FileRow → FileRow}
    (keeps : ∀ row, (f row).path = row.path) (rows : ∀ row, row.Sound → (f row).Sound) :
    (files.change path f).Sound := by
  refine ⟨sound.unique.update path keeps, ?_⟩
  intro row member
  obtain ⟨before, present, rfl⟩ := Table.mem_update.mp member
  split
  · exact rows before (sound.rows before present)
  · exact sound.rows before present

theorem Sound.markIndexed (sound : files.Sound) (now path hash : String) :
    (files.markIndexed now path hash).Sound :=
  sound.change path (fun _ => rfl) fun _ row => ⟨row.status, row.size⟩

theorem Sound.markFailed (sound : files.Sound) (path hash : String) :
    (files.markFailed path hash).Sound :=
  sound.change path (fun _ => rfl) fun _ row => ⟨row.status, row.size⟩

theorem Sound.clearIndexed (sound : files.Sound) (path : String) :
    (files.clearIndexed path).Sound :=
  sound.change path (fun _ => rfl) fun _ row => ⟨row.status, row.size⟩

theorem upsert_ok {files' : FileIndex} {entry : FileEntry}
    (written : files.upsert entry = .ok files') :
    files' =
      { rows := Table.put FileRow.path (.ofEntry entry (files.row? entry.path)) files.rows } := by
  unfold upsert tableInteger at written
  split at written
  · cases written
    rfl
  · cases written

theorem upsert_eq (files : FileIndex) {entry : FileEntry} (fits : entry.size ≤ maxInteger) :
    files.upsert entry = .ok
      { rows := Table.put FileRow.path (.ofEntry entry (files.row? entry.path)) files.rows } := by
  unfold upsert tableInteger
  rw [if_pos fits]
  rfl

theorem Sound.upsert (sound : files.Sound) {files' : FileIndex} {entry : FileEntry}
    (written : files.upsert entry = .ok files') : files'.Sound := by
  rw [upsert_ok written]
  refine ⟨sound.unique.put _, ?_⟩
  intro row member
  rcases Table.mem_put member with rfl | old
  · exact FileRow.sound_ofEntry _ _
  · exact sound.rows row old

theorem row?_upsert {files' : FileIndex} {entry : FileEntry}
    (written : files.upsert entry = .ok files') (other : String) :
    files'.row? other =
      if other = entry.path then some (.ofEntry entry (files.row? entry.path))
      else files.row? other := by
  rw [upsert_ok written]
  split
  next same =>
    rw [same]
    exact Table.get?_put_self FileRow.path (.ofEntry entry (files.row? entry.path)) files.rows
  next differ =>
    exact Table.get?_put_of_ne FileRow.path _ files.rows other (Ne.symm differ)

end FileIndex

namespace ChangeSet

def Unrecorded (known : List FileEntry) (entry : FileEntry) : Prop :=
  entry.available = true ∧ ∀ previous, Table.get? FileEntry.path known entry.path = some previous →
    (entry.withHistory previous).isDirty = true

def Withdraws (known : List FileEntry) (entry : FileEntry) : Prop :=
  entry.available = false ∧ entry.hashStatus = .skipped ∧
    (Table.get? FileEntry.path known entry.path).any FileEntry.wasIndexed = true

structure SameContent (entry dirty : FileEntry) : Prop where
  path : dirty.path = entry.path
  hash : dirty.hash = entry.hash
  size : dirty.size = entry.size

variable {known : List FileEntry}

theorem not_withdraws {entry : FileEntry} (available : entry.available = true) :
    ¬Withdraws known entry :=
  fun withdraws => absurd (available.symm.trans withdraws.1) (by decide)

theorem dirty_record (changes : ChangeSet) (entry : FileEntry) :
    ∀ dirty, dirty ∈ (record known changes entry).dirty ↔
      dirty ∈ changes.dirty ∨ dirty ∈ (record known {} entry).dirty := by
  -- What an entry adds does not depend on what was recorded before.
  intro dirty
  dsimp only [record]
  split
  · split <;> simp [ChangeSet.dirty]
  · split
    · simp [ChangeSet.dirty, or_comm, or_left_comm]
    · split
      · simp [ChangeSet.dirty]
      · split <;> simp [ChangeSet.dirty, or_assoc, or_comm]

theorem withdrawn_record (changes : ChangeSet) (entry : FileEntry) (path : String) :
    path ∈ (record known changes entry).withdrawn ↔
      path ∈ changes.withdrawn ∨ entry.path = path ∧ Withdraws known entry := by
  dsimp only [record, Withdraws]
  by_cases available : entry.available = true
  · rw [if_neg (by simp [available])]
    split
    · simp [available]
    · split
      · simp [available]
      · split <;> simp [available]
  · rw [if_pos (by simpa using available)]
    split
    next skipped =>
      simp only [Bool.and_eq_true, beq_iff_eq] at skipped
      simp [available, skipped.1, skipped.2, eq_comm]
    next kept =>
      simp only [Bool.and_eq_true, beq_iff_eq, not_and] at kept
      simp only [iff_self_or, and_imp]
      intro _ _ skipped indexed
      exact absurd indexed (kept skipped)

theorem dirty_record_empty (entry dirty : FileEntry)
    (member : dirty ∈ (record known {} entry).dirty) :
    Unrecorded known entry ∧ SameContent entry dirty := by
  dsimp only [record] at member
  split at member
  · split at member <;> simp [ChangeSet.dirty] at member
  next available =>
    have isAvailable : entry.available = true := by simpa using available
    split at member
    next missing =>
      obtain rfl : dirty = entry := by simpa [ChangeSet.dirty] using member
      refine ⟨⟨isAvailable, ?_⟩, rfl, rfl, rfl⟩
      intro previous found
      rw [missing] at found
      cases found
    next previous found =>
      split at member
      · simp [ChangeSet.dirty] at member
      next unclean =>
        have isDirty : (entry.withHistory previous).isDirty = true := by simpa using unclean
        obtain rfl : dirty = entry.withHistory previous := by
          split at member <;> simpa [ChangeSet.dirty] using member
        refine ⟨⟨isAvailable, ?_⟩, rfl, rfl, rfl⟩
        intro other again
        rw [found] at again
        rwa [← Option.some.inj again]

theorem exists_dirty_record (entry : FileEntry) (unrecorded : Unrecorded known entry) :
    ∃ dirty ∈ (record known {} entry).dirty, SameContent entry dirty := by
  obtain ⟨available, dirty⟩ := unrecorded
  dsimp only [record]
  rw [if_neg (by simp [available])]
  split
  · exact ⟨entry, by simp [ChangeSet.dirty], rfl, rfl, rfl⟩
  next previous found =>
    refine ⟨entry.withHistory previous, ?_, rfl, rfl, rfl⟩
    have isDirty := dirty previous found
    simp only [isDirty, Bool.not_true, Bool.false_eq_true, if_false]
    split <;> simp [ChangeSet.dirty]

theorem dirty_foldl (entries : List FileEntry) (changes : ChangeSet) (dirty : FileEntry) :
    dirty ∈ (entries.foldl (record known) changes).dirty ↔
      dirty ∈ changes.dirty ∨ ∃ entry ∈ entries, dirty ∈ (record known {} entry).dirty := by
  induction entries generalizing changes with
  | nil => simp
  | cons first rest ih =>
      rw [List.foldl_cons, ih, dirty_record]
      simp [or_assoc]

theorem withdrawn_foldl (entries : List FileEntry) (changes : ChangeSet) (path : String) :
    path ∈ (entries.foldl (record known) changes).withdrawn ↔
      path ∈ changes.withdrawn ∨
        ∃ entry ∈ entries, entry.path = path ∧ Withdraws known entry := by
  induction entries generalizing changes with
  | nil => simp
  | cons first rest ih =>
      rw [List.foldl_cons, ih, withdrawn_record]
      simp [or_assoc]

end ChangeSet

section Diff

open ChangeSet

variable {current known : List FileEntry}

theorem of_mem_dirty_diff {dirty : FileEntry} (member : dirty ∈ (diff current known).dirty) :
    ∃ entry ∈ current, Unrecorded known entry ∧ SameContent entry dirty := by
  rcases (dirty_foldl current {} dirty).mp member with none | ⟨entry, inside, recorded⟩
  · simp [ChangeSet.dirty] at none
  · exact ⟨entry, inside, dirty_record_empty entry dirty recorded⟩

theorem exists_dirty_diff {entry : FileEntry} (member : entry ∈ current)
    (unrecorded : Unrecorded known entry) :
    ∃ dirty ∈ (diff current known).dirty, SameContent entry dirty := by
  obtain ⟨dirty, recorded, same⟩ := exists_dirty_record entry unrecorded
  exact ⟨dirty, (dirty_foldl current {} dirty).mpr (.inr ⟨entry, member, recorded⟩), same⟩

theorem mem_withdrawn_diff {path : String} :
    path ∈ (diff current known).withdrawn ↔
      ∃ entry ∈ current, entry.path = path ∧ Withdraws known entry := by
  have folded := @withdrawn_foldl known current {} path
  simpa [diff] using folded

theorem mem_deleted_diff {path : String} :
    path ∈ (diff current known).deleted ↔
      path ∈ known.map FileEntry.path ∧ path ∉ current.map FileEntry.path := by
  simp only [diff, gone, List.mem_mergeSort, List.mem_filter, Bool.not_eq_true',
    List.contains_eq_mem, decide_eq_false_iff_not]

end Diff

namespace FileIndex

open ChangeSet

theorem Sound.unrecorded_iff {files : FileIndex} (sound : files.Sound) (entry : FileEntry) :
    Unrecorded files.known entry ↔ entry.available = true ∧
      ∀ row, files.row? entry.path = some row → (entry.withHistory row.value).isDirty = true := by
  unfold Unrecorded
  rw [sound.get?_known]
  cases files.row? entry.path <;> simp

theorem Sound.withdraws_iff {files : FileIndex} (sound : files.Sound) (entry : FileEntry) :
    Withdraws files.known entry ↔ entry.available = false ∧ entry.hashStatus = .skipped ∧
      ∃ row, files.row? entry.path = some row ∧ row.lastIndexedAt.isSome = true := by
  unfold Withdraws
  rw [sound.get?_known]
  cases files.row? entry.path with
  | none => simp
  | some row => simp [FileEntry.wasIndexed, FileRow.value]

end FileIndex

end CodeGraph
