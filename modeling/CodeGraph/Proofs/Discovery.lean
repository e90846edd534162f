import CodeGraph.Discovery
import CodeGraph.Proofs.Path
import CodeGraph.Proofs.Table

set_option autoImplicit false

namespace CodeGraph

namespace Disk

/-- A tree of directories and files: every location is there once, and its parts are names. -/
structure Proper (disk : Disk) : Prop where
  unique : Table.Unique Prod.fst disk.entries
  names : ∀ entry ∈ disk.entries, ∀ part ∈ entry.1, Path.IsPart part ∧ part ≠ ".."

def contentAt (disk : Disk) (root : List String) (path : String) :
    Except ReadError (List UInt8) :=
  disk.readBytes (Path.components (Path.join (Path.ofComponents root) path))

end Disk

namespace Discovery

def describe (discovery : Discovery) (path : String) (language : Language) (found : DiskEntry) :
    FileEntry :=
  let entry : FileEntry :=
    { path, available := false, size := found.size, hash := "", hashStatus := .skipped
      language := some language.id }
  if found.size = 0 ∨ discovery.maxFileSize < found.size then entry
  else
    match found with
    | .directory | .file (.unreadable _) => { entry with hashStatus := .failed }
    | .file (.bytes bytes) =>
        if bytes.all isSpace then entry
        else
          { entry with
            hash := Digest.hex (Digest.blake3 bytes), hashStatus := .computed, available := true }

inductive Finds (disk : Disk) (discovery : Discovery) : FileEntry → Prop
  | at (rest : List String) (language : Language) (content : DiskEntry)
      (areParts : ∀ part ∈ rest, Path.IsPart part)
      (present : disk.lookup (discovery.root ++ rest) = .ok content)
      (known : Language.ofPath? (Path.ofParts rest) = some language) :
      Finds disk discovery (discovery.describe (Path.ofParts rest) language content)

section Describe

variable (discovery : Discovery) (path : String) (language : Language) (found : DiskEntry)

@[simp] theorem describe_path : (discovery.describe path language found).path = path := by
  unfold describe
  repeat' split
  all_goals rfl

theorem describe_available (available : (discovery.describe path language found).available = true) :
    ∃ bytes, found = .file (.bytes bytes) ∧ bytes ≠ [] ∧ bytes.length ≤ discovery.maxFileSize ∧
      (discovery.describe path language found).hash = Digest.hex (Digest.blake3 bytes) := by
  unfold describe at available ⊢
  split at available
  · cases available
  next fits =>
    match found with
    | .directory | .file (.unreadable _) => cases available
    | .file (.bytes bytes) =>
        dsimp only at available ⊢
        split at available
        · cases available
        next solid =>
          rw [if_neg fits, if_neg solid]
          simp only [DiskEntry.size, FileContent.size, not_or, Nat.not_lt] at fits
          exact ⟨bytes, rfl, fun empty => fits.1 (by simp [empty]), fits.2, rfl⟩

theorem describe_computed (available : (discovery.describe path language found).available = true) :
    (discovery.describe path language found).hashStatus = .computed := by
  unfold describe at available ⊢
  split at available
  · cases available
  next fits =>
    rw [if_neg fits]
    match found with
    | .directory | .file (.unreadable _) => cases available
    | .file (.bytes bytes) =>
        dsimp only at available ⊢
        split at available
        · cases available
        next solid => rw [if_neg solid]

theorem describe_status
    (unavailable : (discovery.describe path language found).available = false) :
    (discovery.describe path language found).hashStatus = .skipped ∨
      (discovery.describe path language found).hashStatus = .failed := by
  unfold describe at unavailable ⊢
  split
  · exact .inl rfl
  next fits =>
    rw [if_neg fits] at unavailable
    match found with
    | .directory | .file (.unreadable _) => exact .inr rfl
    | .file (.bytes bytes) =>
        dsimp only at unavailable ⊢
        split
        · exact .inl rfl
        next solid =>
          rw [if_neg solid] at unavailable
          cases unavailable

end Describe

variable {disk : Disk} {discovery : Discovery}

theorem extension?_eq {path rest : List String} {text : String} (solid : rest ≠ [])
    (areParts : ∀ part ∈ rest, Path.IsPart part) (parts : Path.parts text = path ++ rest) :
    Path.extension? text = Path.extension? (Path.ofParts rest) := by
  have name : Path.fileName? text = Path.fileName? (Path.ofParts rest) := by
    simp only [Path.fileName?, parts, Path.parts_ofParts areParts, List.getLast?_append,
      List.getLast?_eq_some_getLast solid, Option.some_or]
  simp only [Path.extension?, name]

theorem relative?_eq_some {path relative : String}
    (below : discovery.relative? path = some relative) :
    ∃ rest, rest ≠ [] ∧ Path.components path = discovery.root ++ rest ∧
      Path.ofParts rest = relative := by
  unfold relative? at below
  split at below
  · cases below
  · cases below
  next rest nonempty found =>
    exact ⟨rest, nonempty, Path.below?_eq_some.mp found, Option.some.inj below⟩

theorem finds_of_inspect (isRoot : Path.IsRoot discovery.root) {path : String} {entry : FileEntry}
    (inspected : discovery.inspect disk path = .ok (some entry)) : Finds disk discovery entry := by
  unfold inspect at inspected
  split at inspected
  next relative language below known =>
    obtain ⟨rest, solid, place, rfl⟩ := relative?_eq_some below
    have areParts := isRoot.isPart_below place
    have same : Language.ofPath? (Path.ofParts rest) = some language := by
      rw [← known]
      simp only [Language.ofPath?, extension?_eq solid areParts (isRoot.parts_eq place)]
    rw [place] at inspected
    cases present : disk.lookup (discovery.root ++ rest) with
    | error error => rw [present] at inspected; cases inspected
    | ok content =>
        have described := Finds.at rest language content areParts present same
        simp only [present] at inspected
        have result : entry = discovery.describe (Path.ofParts rest) language content := by
          unfold describe
          split at inspected
          next out =>
            cases inspected
            rw [if_pos out]
          next fits =>
            rw [if_neg fits]
            rcases content with _ | (bytes | size)
            · cases inspected
              rfl
            · dsimp only at inspected ⊢
              split at inspected <;> cases inspected <;> simp_all
            · cases inspected
              rfl
        exact result ▸ described
  · cases inspected

theorem mem_collect (paths : List (List String)) (found : Discovered) {entry : FileEntry}
    (member : entry ∈ (paths.foldl (fun found parts =>
      let path := Path.ofComponents (discovery.root ++ parts)
      collect found path (discovery.inspect disk path)) found).entries) :
    entry ∈ found.entries ∨ ∃ parts ∈ paths,
      discovery.inspect disk (Path.ofComponents (discovery.root ++ parts)) = .ok (some entry) := by
  induction paths generalizing found with
  | nil => exact .inl member
  | cons parts rest ih =>
      rcases ih _ member with earlier | inspected
      · cases result : discovery.inspect disk (Path.ofComponents (discovery.root ++ parts)) with
        | error error =>
            simp only [result, collect] at earlier
            exact .inl earlier
        | ok answer =>
            simp only [result, collect, List.mem_append, Option.mem_toList] at earlier
            rcases earlier with old | new
            · exact .inl old
            · exact .inr ⟨parts, List.mem_cons_self .., result.trans (by rw [new])⟩
      · obtain ⟨parts, inside, inspected⟩ := inspected
        exact .inr ⟨parts, List.mem_cons_of_mem _ inside, inspected⟩

theorem finds_of_discover (isRoot : Path.IsRoot discovery.root) {found : Discovered}
    (discovered : discovery.discover disk = .ok found) {entry : FileEntry}
    (member : entry ∈ found.entries) : Finds disk discovery entry := by
  unfold discover at discovered
  split at discovered
  next root _ =>
    cases discovered
    rw [List.mem_mergeSort] at member
    rcases mem_collect _ {} member with none | ⟨parts, -, inspected⟩
    · cases none
    · exact finds_of_inspect isRoot inspected
  next => cases discovered

theorem foldlM_follow {names start final : List String} (plain : ∀ part ∈ names, part ≠ "..")
    (followed : names.foldlM disk.follow start = .ok final) : final = names.reverse ++ start := by
  induction names generalizing start with
  | nil =>
      cases followed
      rfl
  | cons part rest ih =>
      rw [List.foldlM_cons] at followed
      obtain ⟨next, step, later⟩ := Table.of_bind_eq_ok followed
      have forward : next = part :: start := by
        unfold Disk.follow at step
        split at step
        · cases step
        · cases step
        · rw [if_neg (by simpa using plain part (List.mem_cons_self ..))] at step
          cases step
          rfl
      rw [ih (fun part inside => plain part (List.mem_cons_of_mem _ inside)) later, forward]
      simp

theorem at?_of_lookup {root names : List String} (isRoot : Path.IsRoot root) {place : Location}
    {top content : DiskEntry} (located : disk.locate root = .ok (place, top))
    (plain : ∀ part ∈ names, part ≠ "..") (there : disk.lookup (root ++ names) = .ok content) :
    disk.at? (place ++ names) = some content := by
  -- The walk to the file starts with the walk to the root and goes on without a step back.
  rw [← isRoot.cons_tail] at located there
  simp only [Disk.lookup, Disk.locate, List.cons_append, List.head?_cons, BEq.rfl, if_true,
    List.tail_cons, List.foldlM_append, bind, Except.bind] at located there
  cases first : root.tail.foldlM disk.follow [] with
  | error error =>
      rw [first] at located
      cases located
  | ok start =>
      rw [first] at located there
      dsimp only at located there
      have begun : start.reverse = place := by
        split at located
        · cases located
          rfl
        · cases located
      cases second : names.foldlM disk.follow start with
      | error error =>
          rw [second] at there
          cases there
      | ok final =>
          rw [second] at there
          rw [foldlM_follow plain second] at there
          simp only [List.reverse_append, List.reverse_reverse, begun] at there
          split at there
          next entry present =>
            cases there
            exact present
          next => cases there

theorem Finds.eq_of_path {a b : FileEntry} (first : Finds disk discovery a)
    (second : Finds disk discovery b) (same : a.path = b.path) : a = b := by
  obtain ⟨rest, language, content, areParts, present, known⟩ := first
  obtain ⟨rest', language', content', areParts', present', known'⟩ := second
  -- A path has the parts that it was put together from, so both look at one place.
  rw [describe_path, describe_path] at same
  have parts := congrArg Path.parts same
  rw [Path.parts_ofParts areParts, Path.parts_ofParts areParts'] at parts
  subst parts
  rw [present] at present'
  rw [known] at known'
  cases present'
  cases known'
  rfl

theorem Finds.supported {entry : FileEntry} (finds : Finds disk discovery entry) :
    isSupported entry.path = true := by
  obtain ⟨rest, language, content, areParts, present, known⟩ := finds
  simp [isSupported, known]

theorem Finds.computed {entry : FileEntry} (finds : Finds disk discovery entry)
    (available : entry.available = true) : entry.hashStatus = .computed := by
  obtain ⟨rest, language, content, -, -, -⟩ := finds
  exact describe_computed _ _ _ _ available

theorem Finds.status {entry : FileEntry} (finds : Finds disk discovery entry)
    (unavailable : entry.available = false) :
    entry.hashStatus = .skipped ∨ entry.hashStatus = .failed := by
  obtain ⟨rest, language, content, -, -, -⟩ := finds
  exact describe_status _ _ _ _ unavailable

theorem Finds.content {entry : FileEntry} (isRoot : Path.IsRoot discovery.root)
    (finds : Finds disk discovery entry) (available : entry.available = true) :
    ∃ bytes, disk.contentAt discovery.root entry.path = .ok bytes ∧ bytes ≠ [] ∧
      bytes.length ≤ discovery.maxFileSize ∧ entry.hash = Digest.hex (Digest.blake3 bytes) := by
  obtain ⟨rest, language, content, areParts, present, known⟩ := finds
  obtain ⟨bytes, rfl, solid, fits, hash⟩ := describe_available _ _ _ _ available
  refine ⟨bytes, ?_, solid, fits, hash⟩
  rw [describe_path, Disk.contentAt, isRoot.components_join areParts]
  simp only [Disk.readBytes, present]
  rfl

end Discovery

end CodeGraph
