import CodeGraph.Proofs.FileIndex

/-!
Tables of entries that operations lead to, in any order and with any arguments. All of them are
sound.

Once the history of every entry was cleared, a walk makes each file that is available a new one, and
withdraws none.
-/

set_option autoImplicit false

namespace CodeGraph

namespace FileIndex

inductive Operation where
  | upsert (entry : FileEntry)
  | markIndexed (now path hash : String)
  | markFailed (path hash : String)
  | clearFailed
  | clearIndexed (path : String)
  | clearAllIndexed
  | markDeleted (path : String)
  | remove (path : String)

def apply (files : FileIndex) : Operation → FileIndex
  | .upsert entry =>
      match files.upsert entry with
      | .ok after => after
      | .error _ => files
  | .markIndexed now path hash => files.markIndexed now path hash
  | .markFailed path hash => files.markFailed path hash
  | .clearFailed => files.clearFailed
  | .clearIndexed path => files.clearIndexed path
  | .clearAllIndexed => files.clearAllIndexed
  | .markDeleted path => files.markDeleted path
  | .remove path => files.remove path

def run (operations : List Operation) : FileIndex :=
  operations.foldl apply {}

variable {files : FileIndex}

theorem Sound.map (sound : files.Sound) {f : FileRow → FileRow}
    (keeps : ∀ row, (f row).path = row.path) (rows : ∀ row, row.Sound → (f row).Sound) :
    Sound { files with rows := files.rows.map f } := by
  refine ⟨?_, ?_⟩
  · have paths : (files.rows.map f).map FileRow.path = files.rows.map FileRow.path := by
      simp [Function.comp_def, keeps]
    rw [Table.Unique, paths]
    exact sound.unique
  · intro row member
    obtain ⟨before, present, rfl⟩ := List.mem_map.mp member
    exact rows before (sound.rows before present)

theorem Sound.clearAllIndexed (sound : files.Sound) : files.clearAllIndexed.Sound := by
  apply sound.map
  · intro row
    split <;> rfl
  · intro row known
    split
    · exact ⟨known.status, known.size⟩
    · exact known

theorem Sound.markDeleted (sound : files.Sound) (path : String) :
    (files.markDeleted path).Sound :=
  sound.change path (fun _ => rfl) fun _ row => ⟨row.status, row.size⟩

theorem Sound.apply (sound : files.Sound) (operation : Operation) :
    (files.apply operation).Sound := by
  cases operation with
  | upsert entry =>
      simp only [FileIndex.apply]
      split
      next written => exact sound.upsert written
      · exact sound
  | markIndexed now path hash => exact sound.markIndexed now path hash
  | markFailed path hash => exact sound.markFailed path hash
  | clearFailed => exact sound.map (fun _ => rfl) fun _ row => ⟨row.status, row.size⟩
  | clearIndexed path => exact sound.clearIndexed path
  | clearAllIndexed => exact sound.clearAllIndexed
  | markDeleted path => exact sound.markDeleted path
  | remove path => exact sound.remove path

theorem sound_run (operations : List Operation) : (run operations).Sound := by
  suffices all : ∀ files : FileIndex, files.Sound → (operations.foldl apply files).Sound from
    all {} sound_empty
  induction operations with
  | nil => exact fun _ sound => sound
  | cons operation rest ih => exact fun files sound => ih _ (sound.apply operation)

end FileIndex

def FileEntry.Unmarked (entry : FileEntry) : Prop :=
  entry.lastIndexedAt = none ∧ entry.lastFailedHash = none

theorem FileIndex.unmarked_of_cleared {files : FileIndex} {entry : FileEntry}
    (member : entry ∈ files.clearAllIndexed.known) : entry.Unmarked := by
  obtain ⟨row, inside, rfl⟩ := mem_known.mp member
  obtain ⟨before, -, rfl⟩ := List.mem_map.mp inside
  -- Rows that are left as they are have neither a time nor a failed hash.
  by_cases history : hasHistory before = true
  · simp only [history, if_true]
    exact ⟨rfl, rfl⟩
  · simp only [history, FileEntry.Unmarked, FileRow.value]
    simpa [hasHistory] using history

namespace ChangeSet

/-- The entry as it is sorted in, with the history of the known one. -/
def merged (known : List FileEntry) (entry : FileEntry) : FileEntry :=
  (Table.get? FileEntry.path known entry.path).elim entry entry.withHistory

@[simp] theorem path_merged (known : List FileEntry) (entry : FileEntry) :
    (merged known entry).path = entry.path := by
  unfold merged
  cases Table.get? FileEntry.path known entry.path <;> rfl

@[simp] theorem hash_merged (known : List FileEntry) (entry : FileEntry) :
    (merged known entry).hash = entry.hash := by
  unfold merged
  cases Table.get? FileEntry.path known entry.path <;> rfl

variable {known : List FileEntry} (unmarked : ∀ entry ∈ known, entry.Unmarked)

include unmarked

theorem record_unmarked (changes : ChangeSet) (entry : FileEntry) :
    record known changes entry =
      if entry.available then { changes with new := changes.new ++ [merged known entry] }
      else changes := by
  unfold record merged
  cases found : Table.get? FileEntry.path known entry.path with
  | none => cases entry.available <;> simp
  | some previous =>
      obtain ⟨indexed, failed⟩ := unmarked previous (Table.get?_some found).1
      cases available : entry.available with
      | false => simp [FileEntry.wasIndexed, indexed]
      | true => simp [FileEntry.isDirty, FileEntry.wasIndexed, FileEntry.withHistory, available,
          indexed, failed]

theorem foldl_record_unmarked (entries : List FileEntry) (changes : ChangeSet) :
    entries.foldl (record known) changes =
      { changes with
        new := changes.new ++ (entries.filter FileEntry.available).map (merged known) } := by
  induction entries generalizing changes with
  | nil => simp
  | cons entry rest ih =>
      rw [List.foldl_cons, record_unmarked unmarked, ih]
      cases available : entry.available <;> simp [available]

theorem dirty_diff_unmarked (current : List FileEntry) :
    (diff current known).dirty = (current.filter FileEntry.available).map (merged known) := by
  simp [diff, foldl_record_unmarked unmarked, ChangeSet.dirty]

theorem withdrawn_diff_unmarked (current : List FileEntry) :
    (diff current known).withdrawn = [] := by
  simp [diff, foldl_record_unmarked unmarked]

end ChangeSet

end CodeGraph
