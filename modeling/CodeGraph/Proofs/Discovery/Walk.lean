import CodeGraph.Proofs.Discovery

set_option autoImplicit false

namespace CodeGraph

theorem map_filterMap_sublist {α β γ : Type} {f : α → Option β} {g : β → γ} {h : α → γ}
    {items : List α} (keeps : ∀ item ∈ items, ∀ value, f item = some value → g value = h item) :
    ((items.filterMap f).map g).Sublist (items.map h) := by
  induction items with
  | nil => exact .slnil
  | cons first rest ih =>
      have later := ih fun item inside => keeps item (List.mem_cons_of_mem _ inside)
      cases found : f first with
      | none =>
          rw [List.filterMap_cons_none found, List.map_cons]
          exact later.cons _
      | some value =>
          rw [List.filterMap_cons_some found, List.map_cons, List.map_cons,
            keeps first (List.mem_cons_self ..) value found]
          exact later.cons_cons _

theorem Disk.nodup_filesBelow {disk : Disk} (proper : disk.Proper) (location : Location) :
    (disk.filesBelow location).Nodup := by
  refine List.Nodup.of_map (location ++ ·) (List.Sublist.nodup ?_ proper.unique)
  refine map_filterMap_sublist ?_
  rintro ⟨place, content⟩ - parts below
  cases content with
  | directory => cases below
  | file bytes => exact (Path.below?_eq_some.mp below).symm

theorem Disk.mem_filesBelow {disk : Disk} {location parts : List String} :
    parts ∈ disk.filesBelow location ↔
      ∃ bytes, (location ++ parts, DiskEntry.file bytes) ∈ disk.entries := by
  simp only [Disk.filesBelow, List.mem_filterMap]
  constructor
  · rintro ⟨⟨place, content⟩, inside, below⟩
    cases content with
    | directory => cases below
    | file bytes => exact ⟨bytes, Path.below?_eq_some.mp below ▸ inside⟩
  · rintro ⟨bytes, inside⟩
    exact ⟨_, inside, Path.below?_eq_some.mpr rfl⟩

namespace Discovery

variable {disk : Disk} {discovery : Discovery}

theorem inspect_cases {path : String} {entry : FileEntry}
    (inspected : discovery.inspect disk path = .ok (some entry)) :
    discovery.relative? path = some entry.path ∧ (Language.ofPath? path).isSome = true ∧
      (entry.available = true ∨ entry.hashStatus = .skipped ∨ entry.hashStatus = .failed) := by
  unfold Discovery.inspect at inspected
  split at inspected
  next relative language below known =>
    rw [below, known]
    split at inspected
    · cases inspected
    · dsimp only at inspected
      repeat' split at inspected
      all_goals cases inspected; simp
  next => cases inspected

variable (isRoot : Path.IsRoot discovery.root)

include isRoot

theorem path_of_inspect {parts : List String} (areParts : ∀ part ∈ parts, Path.IsPart part)
    {entry : FileEntry}
    (inspected : discovery.inspect disk (Path.ofComponents (discovery.root ++ parts)) =
      .ok (some entry)) : entry.path = Path.ofParts parts := by
  obtain ⟨rest, -, place, named⟩ := relative?_eq_some (inspect_cases inspected).1
  rw [(isRoot.append areParts).components_ofComponents] at place
  rw [← named, List.append_cancel_left place]

theorem inspect_ok {parts : List String} (areParts : ∀ part ∈ parts, Path.IsPart part)
    (solid : parts ≠ []) (supported : isSupported (Path.ofParts parts) = true)
    {content : DiskEntry} (there : disk.lookup (discovery.root ++ parts) = .ok content) :
    ∃ entry, discovery.inspect disk (Path.ofComponents (discovery.root ++ parts)) =
      .ok (some entry) := by
  have absolute := isRoot.append areParts
  have components := absolute.components_ofComponents
  have relative : discovery.relative? (Path.ofComponents (discovery.root ++ parts)) =
      some (Path.ofParts parts) := by
    have below : Path.below? discovery.root (discovery.root ++ parts) = some parts :=
      Path.below?_eq_some.mpr rfl
    rw [relative?, components, below]
    cases parts with
    | nil => exact absurd rfl solid
    | cons first rest => rfl
  obtain ⟨language, known⟩ := Option.isSome_iff_exists.mp supported
  have same : Language.ofPath? (Path.ofComponents (discovery.root ++ parts)) = some language := by
    rw [← known]
    simp only [Language.ofPath?, extension?_eq solid areParts (isRoot.parts_eq components)]
  simp only [inspect, relative, same, components, there]
  split
  · exact ⟨_, rfl⟩
  · rcases content with _ | (bytes | _)
    · exact ⟨_, rfl⟩
    · dsimp only
      split <;> exact ⟨_, rfl⟩
    · exact ⟨_, rfl⟩

omit isRoot

def inspected? (disk : Disk) (discovery : Discovery) (parts : List String) : Option FileEntry :=
  (discovery.inspect disk (Path.ofComponents (discovery.root ++ parts))).toOption.join

theorem inspected?_eq_some {parts : List String} {entry : FileEntry} :
    discovery.inspected? disk parts = some entry ↔
      discovery.inspect disk (Path.ofComponents (discovery.root ++ parts)) = .ok (some entry) := by
  unfold inspected?
  cases discovery.inspect disk (Path.ofComponents (discovery.root ++ parts)) with
  | error error => simp [Except.toOption]
  | ok answer => simp [Except.toOption]

theorem entries_foldl_collect (paths : List (List String)) (found : Discovered) :
    (paths.foldl (fun found parts =>
      let path := Path.ofComponents (discovery.root ++ parts)
      collect found path (discovery.inspect disk path)) found).entries =
      found.entries ++ paths.filterMap (discovery.inspected? disk) := by
  induction paths generalizing found with
  | nil => simp
  | cons parts rest ih =>
      rw [List.foldl_cons, ih]
      unfold inspected?
      cases result : discovery.inspect disk (Path.ofComponents (discovery.root ++ parts)) with
      | error error => simp [collect, result, Except.toOption]
      | ok answer => cases answer <;> simp [collect, result, Except.toOption]

theorem discover_ok {location : Location}
    (located : disk.locate discovery.root = .ok (location, .directory)) :
    ∃ found, discovery.discover disk = .ok found ∧
      found.entries.Perm (((disk.filesBelow location).filter
        (discovery.reaches disk location)).filterMap (discovery.inspected? disk)) := by
  simp only [discover, located]
  refine ⟨_, rfl, (List.mergeSort_perm ..).trans ?_⟩
  rw [entries_foldl_collect]
  simp

theorem names_filesBelow (proper : disk.Proper) {location parts : List String}
    (member : parts ∈ disk.filesBelow location) :
    ∀ part ∈ parts, Path.IsPart part ∧ part ≠ ".." := by
  obtain ⟨bytes, inside⟩ := Disk.mem_filesBelow.mp member
  exact fun part named => proper.names _ inside part (List.mem_append_right _ named)

theorem unique_discover (proper : disk.Proper) (isRoot : Path.IsRoot discovery.root)
    {found : Discovered} (discovered : discovery.discover disk = .ok found) :
    Table.Unique FileEntry.path found.entries := by
  have start := discovered
  unfold discover at start
  split at start
  next location located =>
    obtain ⟨found', again, perm⟩ := discover_ok located
    rw [discovered] at again
    obtain rfl := Except.ok.inj again
    have names {parts : List String} (member : parts ∈ (disk.filesBelow location).filter
        (discovery.reaches disk location)) : ∀ part ∈ parts, Path.IsPart part :=
      fun part inside => (names_filesBelow proper (List.mem_of_mem_filter member) part inside).1
    refine ((perm.map FileEntry.path).nodup_iff).mpr (List.Sublist.nodup
      (map_filterMap_sublist (h := Path.ofParts) ?_) (List.Nodup.map_on ?_ ?_))
    · intro parts member entry inspected
      exact path_of_inspect isRoot (names member) (inspected?_eq_some.mp inspected)
    · intro a first b second same
      rw [← Path.parts_ofParts (names first), same, Path.parts_ofParts (names second)]
    · exact (Disk.nodup_filesBelow proper location).filter _
  next => cases start

theorem lists_iff_reaches (proper : disk.Proper) (isRoot : Path.IsRoot discovery.root)
    {location : Location} (located : disk.locate discovery.root = .ok (location, .directory))
    {parts : List String} (names : ∀ part ∈ parts, Path.IsPart part ∧ part ≠ "..")
    (isFile : disk.isFile (discovery.root ++ parts) = true)
    (supported : isSupported (Path.ofParts parts) = true) {found : Discovered}
    (discovered : discovery.discover disk = .ok found) :
    (∃ entry ∈ found.entries, entry.path = Path.ofParts parts) ↔
      discovery.reaches disk location parts = true := by
  obtain ⟨found', again, perm⟩ := discover_ok located
  rw [discovered] at again
  obtain rfl := Except.ok.inj again
  have areParts : ∀ part ∈ parts, Path.IsPart part := fun part inside => (names part inside).1
  simp only [perm.mem_iff, List.mem_filterMap, List.mem_filter, inspected?_eq_some]
  constructor
  · rintro ⟨entry, ⟨other, ⟨listed, reached⟩, inspected⟩, named⟩
    have others : ∀ part ∈ other, Path.IsPart part :=
      fun part inside => (names_filesBelow proper listed part inside).1
    have same := congrArg Path.parts ((path_of_inspect isRoot others inspected).symm.trans named)
    rw [Path.parts_ofParts others, Path.parts_ofParts areParts] at same
    exact same ▸ reached
  · -- The file lies below the root, and inspecting it finds an entry of its path.
    intro reached
    obtain ⟨bytes, there⟩ : ∃ bytes, disk.lookup (discovery.root ++ parts) = .ok (.file bytes) := by
      unfold Disk.isFile at isFile
      split at isFile
      next bytes found => exact ⟨bytes, found⟩
      next => cases isFile
    have solid : parts ≠ [] := by
      rintro rfl
      rw [List.append_nil, Disk.lookup, located] at there
      cases there
    have stored := at?_of_lookup isRoot located (fun part inside => (names part inside).2) there
    have listed : parts ∈ disk.filesBelow location := by
      refine Disk.mem_filesBelow.mpr ⟨bytes, ?_⟩
      simp only [Disk.at?, List.isEmpty_iff, List.append_eq_nil_iff, solid, and_false, if_false,
        Option.map_eq_some_iff] at stored
      obtain ⟨⟨place, content⟩, present, rfl⟩ := stored
      obtain ⟨inside, rfl⟩ := Table.get?_some present
      exact inside
    obtain ⟨entry, inspected⟩ := inspect_ok isRoot areParts solid supported there
    exact ⟨entry, ⟨parts, ⟨listed, reached⟩, inspected⟩,
      path_of_inspect isRoot areParts inspected⟩

end Discovery

end CodeGraph
