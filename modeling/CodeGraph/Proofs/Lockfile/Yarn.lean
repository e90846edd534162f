import CodeGraph.Proofs.Lockfile.Yarn.Line
import Mathlib.Data.Bool.AllAny

/-!
A yarn lockfile in the classic layout, written from its entries and read back. Indentation does not
count for the reader, so that it takes a dependency that is called like a field for that field; all
else reads back.
-/

set_option autoImplicit false

namespace CodeGraph.Lockfile.Yarn

structure Dependency where
  name : Written
  range : Written
deriving DecidableEq, Repr

structure Entry where
  above : List String := []
  descriptors : List Descriptor
  version : Written
  resolved : Option Written := none
  integrity : Option Written := none
  dependencies : List Dependency := []
deriving DecidableEq, Repr

def Entry.fields (entry : Entry) : List (String × Written) :=
  ("version", entry.version) :: (entry.resolved.toList.map (Prod.mk "resolved") ++
    entry.integrity.toList.map (Prod.mk "integrity"))

def Entry.block (entry : Entry) : List (List Char) :=
  if entry.dependencies.isEmpty then []
  else "  dependencies:".toList ::
    entry.dependencies.map (fun dependency => indented 4 dependency.name dependency.range)

def Entry.lines (entry : Entry) : List (List Char) :=
  entry.above.map String.toList ++ header entry.descriptors ::
    (entry.fields.map (fun field => indented 2 ⟨field.1, false⟩ field.2) ++ entry.block)

def render (entries : List Entry) : String :=
  String.ofList ((entries.flatMap Entry.lines).flatMap (· ++ ['\n']))

structure Dependency.Formed (dependency : Dependency) : Prop where
  name : '\n' ∉ dependency.name.text.toList
  range : '\n' ∉ dependency.range.text.toList
  bare : dependency.name.quoted = false → dependency.name.IsBare

def IsGap (line : String) : Prop :=
  '\n' ∉ line.toList ∧
    (Text.trim line.toList = [] ∨ (Text.trim line.toList).head? = some '#')

structure Entry.Formed (entry : Entry) : Prop where
  above : ∀ line ∈ entry.above, IsGap line
  described : entry.descriptors ≠ []
  descriptors : ∀ descriptor ∈ entry.descriptors, descriptor.Formed
  values : ∀ field ∈ entry.fields, field.2.IsValue
  dependencies : ∀ dependency ∈ entry.dependencies, dependency.Formed

def Entry.names (entry : Entry) : List String :=
  entry.descriptors.map Descriptor.name

def Entry.describes (entry : Entry) (name : String) : Bool :=
  entry.names.contains name

def Entry.locked (entry : Entry) : LockedPackage :=
  { version := entry.version.text
    integrity := entry.integrity.map Written.text
    resolved := entry.resolved.map Written.text }

def Dependency.overwrite (locked : LockedPackage) (dependency : Dependency) : LockedPackage :=
  if dependency.name.quoted then locked
  else
    match dependency.range.value? with
    | some value => withField dependency.name.text value locked
    | none => locked

def Entry.read (entry : Entry) : LockedPackage :=
  entry.dependencies.foldl Dependency.overwrite entry.locked

def scan (state : YarnState) (lines : List (List Char)) : YarnState :=
  lines.foldl (fun state line => state.line (Text.withoutReturn line)) state

theorem scan_cons (state : YarnState) (line : List Char) (lines : List (List Char)) :
    scan state (line :: lines) = scan (state.line (Text.withoutReturn line)) lines :=
  rfl

theorem scan_append (state : YarnState) (before after : List (List Char)) :
    scan state (before ++ after) = scan (scan state before) after :=
  List.foldl_append

section Lines

variable {entry : Entry} (formed : entry.Formed) (state : YarnState)

theorem line_gap {line : List Char}
    (gap : Text.trim line = [] ∨ (Text.trim line).head? = some '#') :
    state.line (Text.withoutReturn line) = state := by
  have trimmed : Text.trim (Text.withoutReturn line) = Text.trim line :=
    Text.trimBy_withoutReturn (by decide) line
  unfold YarnState.line
  rw [trimmed]
  rcases gap with empty | comment
  · simp [empty]
  · simp [comment]

theorem line_field {key : String} (known : key ∈ fieldNames) {value : Written}
    (formed : value.IsValue) :
    state.line (Text.withoutReturn (indented 2 ⟨key, false⟩ value)) =
      state.field key value.text := by
  have all_bare : fieldNames.all (fun key =>
      key != "" && key.toList.all (fun c => c != ':' && !Text.isBlank c)) = true := by decide
  have bare : Written.IsBare ⟨key, false⟩ := by
    simpa [Written.IsBare] using List.all_eq_true.mp all_bare key known
  rw [line_indented (by decide) fun _ => bare, if_neg Bool.false_ne_true, value?_of_isValue formed]

theorem line_dependency {dependency : Dependency} (formed : dependency.Formed)
    {locked : LockedPackage} (current : state.current = some locked) :
    state.line (Text.withoutReturn (indented 4 dependency.name dependency.range)) =
      { state with current := some (dependency.overwrite locked) } := by
  have unchanged : state = { state with current := some locked } := by rw [← current]
  rw [line_indented (by decide) formed.bare, Dependency.overwrite]
  cases dependency.name.quoted with
  | true => exact unchanged
  | false =>
      cases dependency.range.value? with
      | none => exact unchanged
      | some value => exact field_eq current _ _

theorem line_block : state.line (Text.withoutReturn "  dependencies:".toList) = state := by
  have nothing : yarnField? (Text.trim "  dependencies:".toList) = none := by decide
  rw [line_of_blank state (by decide)]
  refine say_of_other (fun key value found => ?_) state
  rw [nothing] at found
  cases found

theorem scan_gaps {above : List String} (gaps : ∀ line ∈ above, IsGap line) :
    scan state (above.map String.toList) = state := by
  induction above with
  | nil => rfl
  | cons line rest ih =>
      obtain ⟨first, later⟩ := List.forall_mem_cons.mp gaps
      rw [List.map_cons, scan_cons, line_gap state first.2, ih later]

theorem scan_dependencies {dependencies : List Dependency}
    (formed : ∀ dependency ∈ dependencies, dependency.Formed) (locked : LockedPackage) :
    scan { state with current := some locked }
        (dependencies.map (fun dependency => indented 4 dependency.name dependency.range)) =
      { state with current := some (dependencies.foldl Dependency.overwrite locked) } := by
  induction dependencies generalizing locked with
  | nil => rfl
  | cons dependency rest ih =>
      obtain ⟨first, later⟩ := List.forall_mem_cons.mp formed
      rw [List.map_cons, scan_cons, line_dependency _ first rfl, ih later]
      rfl

theorem known_of_mem_fields {field : String × Written} (listed : field ∈ entry.fields) :
    field.1 ∈ fieldNames := by
  simp only [Entry.fields, List.mem_cons, List.mem_append, List.mem_map] at listed
  rcases listed with rfl | ⟨_, _, rfl⟩ | ⟨_, _, rfl⟩ <;> simp [fieldNames]

include formed

theorem line_of_mem_fields {field : String × Written} (listed : field ∈ entry.fields) :
    state.line (Text.withoutReturn (indented 2 ⟨field.1, false⟩ field.2)) =
      state.field field.1 field.2.text :=
  line_field state (known_of_mem_fields listed) (formed.values field listed)

theorem scan_fields :
    scan state (entry.fields.map (fun field => indented 2 ⟨field.1, false⟩ field.2)) =
      { state with current := some entry.locked } := by
  rw [scan, List.foldl_map, List.foldl_ext _ (fun state field => state.field field.1 field.2.text)
    state fun state field listed => line_of_mem_fields formed state listed]
  -- The version comes first and opens the entry.
  unfold Entry.fields Entry.locked
  cases entry.resolved <;> cases entry.integrity <;> simp [YarnState.field]

theorem scan_block (locked : LockedPackage) :
    scan { state with current := some locked } entry.block =
      { state with current := some (entry.dependencies.foldl Dependency.overwrite locked) } := by
  have all := formed.dependencies
  unfold Entry.block
  cases dependencies : entry.dependencies with
  | nil => rfl
  | cons first others =>
      rw [dependencies] at all
      rw [List.isEmpty_cons, if_neg Bool.false_ne_true, scan_cons, line_block,
        scan_dependencies state all]

theorem scan_lines :
    scan state entry.lines =
      { packages := state.flush.packages, names := entry.names, current := some entry.read } := by
  rw [Entry.lines, scan_append, scan_gaps state formed.above, scan_cons,
    line_header formed.described formed.descriptors, scan_append, scan_fields formed,
    scan_block formed]
  rfl

end Lines

theorem newline_notMem_of_isBlank {text : List Char}
    (solid : ∀ c ∈ text, Text.isBlank c = false) : '\n' ∉ text := fun inside =>
  absurd (solid _ inside) (by decide)

theorem newline_notMem_enclosed {text : List Char} (whole : '\n' ∉ text) (quoted : Bool) :
    '\n' ∉ enclosed quoted text := by
  unfold enclosed
  split <;> simp [whole]

theorem newline_notMem_indented {indent : Nat} {key value : Written}
    (key_whole : '\n' ∉ key.text.toList) (value_whole : '\n' ∉ value.text.toList) :
    '\n' ∉ indented indent key value := by
  have key_chars := newline_notMem_enclosed key_whole key.quoted
  have value_chars := newline_notMem_enclosed value_whole value.quoted
  simp [indented, Written.chars, key_chars, value_chars, List.mem_replicate]

theorem newline_notMem_header {descriptors : List Descriptor}
    (formed : ∀ descriptor ∈ descriptors, descriptor.Formed) : '\n' ∉ header descriptors := by
  unfold header
  induction descriptors with
  | nil => decide
  | cons descriptor rest ih =>
      obtain ⟨first, later⟩ := List.forall_mem_cons.mp formed
      have name := newline_notMem_of_isBlank fun c inside => (first.solid c inside).2.2
      have range : '\n' ∉ descriptor.range.toList := fun inside => (first.range _ inside).2.2 rfl
      have chars : '\n' ∉ descriptor.chars := newline_notMem_enclosed (by simp [name, range]) _
      cases rest with
      | nil => simp [Text.joinWith, chars]
      | cons second others => simpa [Text.joinWith, chars] using ih later

theorem Entry.Formed.newline_notMem {entry : Entry} (formed : entry.Formed) :
    ∀ line ∈ entry.lines, '\n' ∉ line := by
  intro line listed
  unfold Entry.lines Entry.block at listed
  rw [List.mem_append, List.mem_cons, List.mem_append] at listed
  rcases listed with above | rfl | field | block
  · obtain ⟨line, listed, rfl⟩ := List.mem_map.mp above
    exact (formed.above line listed).1
  · exact newline_notMem_header formed.descriptors
  · obtain ⟨⟨key, value⟩, listed, rfl⟩ := List.mem_map.mp field
    have value := newline_notMem_of_isBlank fun c inside =>
      ((formed.values _ listed).solid c inside).2
    have key : '\n' ∉ key.toList := fun inside =>
      notMem_fieldNames_of_mem inside (by decide) (known_of_mem_fields listed)
    exact newline_notMem_indented key value
  · split at block
    · cases block
    · rcases List.mem_cons.mp block with rfl | listed
      · decide
      · obtain ⟨dependency, member, rfl⟩ := List.mem_map.mp listed
        have whole := formed.dependencies dependency member
        exact newline_notMem_indented whole.name whole.range

def Entry.add (packages : LockedPackages) (entry : Entry) : LockedPackages :=
  entry.names.foldl (fun packages name => addNew packages name entry.read) packages

theorem scan_entries {entries : List Entry} (formed : ∀ entry ∈ entries, entry.Formed)
    (state : YarnState) :
    (scan state (entries.flatMap Entry.lines)).flush.packages =
      entries.foldl Entry.add state.flush.packages := by
  induction entries generalizing state with
  | nil => rfl
  | cons entry rest ih =>
      obtain ⟨first, later⟩ := List.forall_mem_cons.mp formed
      rw [List.flatMap_cons, scan_append, scan_lines first, ih later, List.foldl_cons]
      rfl

theorem packages_of_render {entries : List Entry} (formed : ∀ entry ∈ entries, entry.Formed) :
    (ofYarn (render entries)).packages = entries.foldl Entry.add [] := by
  have whole : ∀ line ∈ entries.flatMap Entry.lines, '\n' ∉ line := by
    intro line listed
    obtain ⟨entry, member, inside⟩ := List.mem_flatMap.mp listed
    exact (formed entry member).newline_notMem line inside
  unfold ofYarn render
  rw [String.toList_ofList, Text.lines_flatMap_concat whole, List.foldl_map]
  exact scan_entries formed {}

theorem lookup_add (name : String) (packages : LockedPackages) (entry : Entry) :
    (entry.add packages).lookup name =
      (packages.lookup name).or (if entry.describes name then some entry.read else none) := by
  unfold Entry.add Entry.describes
  rw [lookup_foldl_of_adds fun packages other => lookup_addNew packages name other entry.read]
  congr 1
  induction entry.names with
  | nil => rfl
  | cons first rest ih =>
      rw [List.findSome?_cons, ih, List.contains_cons]
      by_cases same : name = first <;> simp [same]

theorem get?_render {entries : List Entry} (formed : ∀ entry ∈ entries, entry.Formed)
    (name : String) :
    (ofYarn (render entries)).get? name =
      (entries.find? (·.describes name)).map Entry.read := by
  unfold get?
  rw [packages_of_render formed, lookup_foldl_of_adds (lookup_add name), List.lookup_nil,
    Option.none_or]
  clear formed
  induction entries with
  | nil => rfl
  | cons entry rest ih =>
      rw [List.findSome?_cons, ih, List.find?_cons]
      cases entry.describes name <;> rfl

/-- Dependencies that are called like no field, or stand in quotes, are passed over. -/
theorem foldl_overwrite {dependencies : List Dependency}
    (apart : ∀ dependency ∈ dependencies,
      dependency.name.quoted = true ∨ dependency.name.text ∉ fieldNames)
    (locked : LockedPackage) : dependencies.foldl Dependency.overwrite locked = locked := by
  induction dependencies with
  | nil => rfl
  | cons dependency rest ih =>
      obtain ⟨first, later⟩ := List.forall_mem_cons.mp apart
      have kept : dependency.overwrite locked = locked := by
        unfold Dependency.overwrite
        rcases first with quoted | other
        · rw [if_pos quoted]
        · split
          · rfl
          · split
            next value _ => exact withField_of_notMem other value _
            next => rfl
      rw [List.foldl_cons, kept]
      exact ih later

/-- Every described name has what the first entry that describes it says, unless a dependency of
that entry says otherwise in the place of a field. -/
theorem entries_read_back_iff {entries : List Entry} (formed : ∀ entry ∈ entries, entry.Formed) :
    (∀ name, (ofYarn (render entries)).get? name =
      (entries.find? (·.describes name)).map Entry.read) ∧
    ((∀ name, (ofYarn (render entries)).get? name =
        (entries.find? (·.describes name)).map Entry.locked) ↔
      ∀ name entry, entries.find? (·.describes name) = some entry → entry.read = entry.locked) ∧
    ((∀ entry ∈ entries, ∀ dependency ∈ entry.dependencies,
        dependency.name.quoted = true ∨ dependency.name.text ∉ fieldNames) →
      ∀ name, (ofYarn (render entries)).get? name =
        (entries.find? (·.describes name)).map Entry.locked) := by
  have whole : (∀ name, (ofYarn (render entries)).get? name =
        (entries.find? (·.describes name)).map Entry.locked) ↔
      ∀ name entry, entries.find? (·.describes name) = some entry →
        entry.read = entry.locked := by
    refine forall_congr' fun name => ?_
    rw [get?_render formed name]
    cases entries.find? (·.describes name) with
    | none => simp
    | some entry => simp
  refine ⟨get?_render formed, whole, fun apart => whole.mpr fun name entry found => ?_⟩
  exact foldl_overwrite (apart entry (List.mem_of_find?_eq_some found)) _

def misread : Entry where
  descriptors := [⟨"a", "1", false⟩]
  version := ⟨"1.0.0", true⟩
  dependencies := [⟨⟨"version", false⟩, ⟨"^2.0.0", true⟩⟩]

theorem misread_formed : misread.Formed where
  above := by simp [misread]
  described := by simp [misread]
  descriptors := by
    intro descriptor listed
    obtain rfl : descriptor = ⟨"a", "1", false⟩ := by simpa [misread] using listed
    exact ⟨by decide, List.all_iff_forall_prop.mp (by decide), by decide,
      List.all_iff_forall_prop.mp (by decide), by decide, List.all_iff_forall_prop.mp (by decide)⟩
  values := by
    intro field listed
    obtain rfl : field = ("version", ⟨"1.0.0", true⟩) := by
      simpa [misread, Entry.fields] using listed
    exact ⟨by decide, List.all_iff_forall_prop.mp (by decide)⟩
  dependencies := by
    intro dependency listed
    obtain rfl : dependency = ⟨⟨"version", false⟩, ⟨"^2.0.0", true⟩⟩ := by
      simpa [misread] using listed
    exact ⟨by decide, by decide, fun _ => ⟨by decide, List.all_iff_forall_prop.mp (by decide)⟩⟩

theorem dependency_replaces_version :
    (∀ entry ∈ [misread], entry.Formed) ∧
    (ofYarn (render [misread])).get? "a" = some { version := "^2.0.0" } ∧
    ¬∀ name, (ofYarn (render [misread])).get? name =
      (List.find? (·.describes name) [misread]).map Entry.locked := by
  have formed : ∀ entry ∈ [misread], entry.Formed := by
    intro entry listed
    rw [List.mem_singleton.mp listed]
    exact misread_formed
  have result := entries_read_back_iff formed
  have value := result.1 "a"
  refine ⟨formed, value.trans (by decide), fun back => ?_⟩
  have same := result.2.1.mp back "a" misread (by decide)
  exact absurd same (by decide)

end CodeGraph.Lockfile.Yarn
