import CodeGraph.Facts.Python
import CodeGraph.Proofs.Edge.Resolution
import CodeGraph.Proofs.Specifier
import Mathlib.Data.List.Find

/-!
Relative imports of Python: the dots in front of a module climb from the package of the importing
file, the first one not at all and each further one by a level, and the names lead down from there
to the module.
-/

set_option autoImplicit false

namespace CodeGraph.Facts.Python

structure IsName (name : String) : Prop where
  written : name ≠ ""
  plain : '.' ∉ name.toList
  whole : '/' ∉ name.toList

instance (name : String) : Decidable (IsName name) :=
  decidable_of_iff (name ≠ "" ∧ '.' ∉ name.toList ∧ '/' ∉ name.toList)
    ⟨fun ⟨written, plain, whole⟩ => ⟨written, plain, whole⟩,
      fun isName => ⟨isName.written, isName.plain, isName.whole⟩⟩

/-- The text of a relative module some levels above the package of the file. -/
def relativeText (levels : Nat) (names : List String) : List Char :=
  List.replicate (levels + 1) '.' ++ (".".intercalate names).toList

def climb (levels : Nat) : List String :=
  if levels = 0 then ["."] else List.replicate levels ".."

variable {levels : Nat} {name : String} {names directory : List String}

theorem IsName.descends (isName : IsName name) : Path.Descends name := by
  refine ⟨isName.written, ?_, ?_⟩ <;>
  · rintro rfl
    exact isName.plain (by decide)

theorem map_slashed (plain : '.' ∉ name.toList) : name.toList.map slashed = name.toList := by
  refine (List.map_congr_left fun c inside => ?_).trans (List.map_id _)
  have other : c ≠ '.' := by
    rintro rfl
    exact plain inside
  simp [slashed, other]

theorem map_slashed_intercalate (areNames : ∀ name ∈ names, IsName name) :
    (".".intercalate names).toList.map slashed = (Path.ofParts names).toList := by
  unfold Path.ofParts
  induction names with
  | nil => simp
  | cons first rest ih =>
      obtain ⟨isName, later⟩ := List.forall_mem_cons.mp areNames
      cases rest with
      | nil => simpa using map_slashed isName.plain
      | cons second others =>
          rw [String.intercalate_cons_cons, String.intercalate_cons_cons]
          simp only [String.toList_append, List.map_append, map_slashed isName.plain, ih later]
          rfl

theorem head?_intercalate_ne_dot (areNames : ∀ name ∈ names, IsName name) :
    (".".intercalate names).toList.head? ≠ some '.' := by
  cases names with
  | nil => simp
  | cons first rest =>
      obtain ⟨isName, -⟩ := List.forall_mem_cons.mp areNames
      cases chars : first.toList with
      | nil => exact absurd (String.toList_eq_nil_iff.mp chars) isName.written
      | cons c others =>
          have other : c ≠ '.' := by
            rintro rfl
            exact isName.plain (chars ▸ List.mem_cons_self ..)
          cases rest <;> simp [chars, other]

theorem relativeText_split (levels : Nat) (areNames : ∀ name ∈ names, IsName name) :
    (relativeText levels names).takeWhile (· == '.') = List.replicate (levels + 1) '.' ∧
      (relativeText levels names).dropWhile (· == '.') = (".".intercalate names).toList := by
  have dots : ∀ c ∈ List.replicate (levels + 1) '.', (c == '.') = true := by
    intro c inside
    rw [List.eq_of_mem_replicate inside, beq_self_eq_true]
  have first := head?_intercalate_ne_dot areNames
  rw [relativeText, List.takeWhile_append_of_pos dots, List.dropWhile_append_of_pos dots]
  cases chars : (".".intercalate names).toList with
  | nil => simp
  | cons c rest =>
      have other : (c == '.') = false := by simpa [chars] using first
      simp [other]

theorem climb_ne_nil (levels : Nat) : climb levels ≠ [] := by
  unfold climb
  split <;> simp [*]

theorem climb_cases (levels : Nat) :
    ∃ first rest, climb levels = first :: rest ∧ (first = "." ∨ first = "..") := by
  cases levels with
  | zero => exact ⟨".", [], rfl, .inl rfl⟩
  | succ more => exact ⟨"..", List.replicate more "..", rfl, .inr rfl⟩

theorem relativeSpecifier_relativeText (levels : Nat) (areNames : ∀ name ∈ names, IsName name) :
    String.ofList (relativeSpecifier (relativeText levels names)) =
      Path.ofParts (climb levels ++ names) := by
  obtain ⟨dots, rest⟩ := relativeText_split levels areNames
  have start : (if levels + 1 ≤ 1 then ['.']
      else Text.joinWith ['/'] (List.replicate (levels + 1 - 1) ['.', '.'])) =
        (Path.ofParts (climb levels)).toList := by
    cases levels with
    | zero => decide
    | succ more =>
        have pieces : List.replicate (more + 1) ['.', '.'] =
            (List.replicate (more + 1) "..").map String.toList := by
          rw [List.map_replicate]
          rfl
        rw [if_neg (by omega), Nat.add_sub_cancel, pieces, climb, if_neg (Nat.succ_ne_zero more)]
        exact Text.joinWith_toList "/" _
  simp only [relativeSpecifier, dots, rest, List.length_replicate, start,
    map_slashed_intercalate areNames]
  cases names with
  | nil =>
      have none : (Path.ofParts []).toList.isEmpty = true := by decide
      rw [none, if_pos rfl, String.ofList_toList, List.append_nil]
  | cons first others =>
      obtain ⟨isName, -⟩ := List.forall_mem_cons.mp areNames
      have written : (Path.ofParts (first :: others)).toList.isEmpty = false := by
        cases others <;> simp [Path.ofParts, isName.written]
      have solid : first :: others ≠ [] := by simp
      rw [written, if_neg Bool.false_ne_true, ← String.toList_inj]
      simp [Path.ofParts, String.intercalate_append_of_ne_nil (climb_ne_nil levels) solid]

theorem isAbsolute_relative (levels : Nat) (names : List String) :
    Path.isAbsolute (Path.ofParts (climb levels ++ names)) = false := by
  obtain ⟨first, rest, climb, dots⟩ := climb_cases levels
  rw [climb, List.cons_append]
  cases rest ++ names <;> rcases dots with rfl | rfl <;> simp [Path.ofParts, Path.isAbsolute]

theorem isExternal_relative (levels : Nat) (names : List String) :
    Specifier.isExternal (Path.ofParts (climb levels ++ names)) = false := by
  obtain ⟨first, rest, climb, dots⟩ := climb_cases levels
  rw [climb, List.cons_append]
  cases rest ++ names with
  | nil => rcases dots with rfl | rfl <;> decide
  | cons second others =>
      have start : Specifier.startsWith (first ++ "/")
          (Path.ofParts (first :: second :: others)) = true :=
        Specifier.startsWith_iff.mpr ⟨("/".intercalate (second :: others)).toList, by
          rw [Path.ofParts, String.intercalate_cons_cons, String.toList_append]⟩
      rcases dots with rfl | rfl <;> simp_all [Specifier.isExternal, Specifier.isPath]

theorem route_relative (importing : String) (levels : Nat)
    (areNames : ∀ name ∈ names, IsName name) :
    Import.route importing (Path.ofParts (climb levels ++ names)) =
      (Path.segments importing).dropLast ++ (climb levels ++ names) := by
  have whole : ∀ segment ∈ climb levels ++ names, '/' ∉ segment.toList := by
    intro segment inside
    rcases List.mem_append.mp inside with dots | name
    · unfold climb at dots
      split at dots
      · rw [List.mem_singleton.mp dots]
        decide
      · rw [List.eq_of_mem_replicate dots]
        decide
    · exact (areNames segment name).whole
  have solid : climb levels ++ names ≠ [] := by simp [climb_ne_nil]
  rw [Import.route, isAbsolute_relative, if_neg Bool.false_ne_true,
    Path.segments_ofParts_of_whole solid whole]

theorem leads_climb (low : levels ≤ directory.length) :
    Path.Leads directory (climb levels) (directory.take (directory.length - levels)) := by
  unfold climb
  split
  next none =>
    rw [none, Nat.sub_zero, List.take_length]
    exact .stay (.inr rfl) (.arrived directory)
  next =>
    have up := Path.Leads.ascend (directory.take (directory.length - levels))
      (directory.drop (directory.length - levels))
    rwa [List.take_append_drop, List.length_drop, Nat.sub_sub_self low] at up

theorem climbs_climb {segments : List String} (leads : Path.Leads [] segments directory)
    (high : directory.length < levels) (names : List String) :
    Path.Climbs (segments ++ (climb levels ++ names)) := by
  obtain ⟨more, rfl⟩ := Nat.exists_eq_add_of_lt high
  have up := Path.Leads.ascend [] directory
  refine ⟨segments ++ List.replicate directory.length "..", List.replicate more ".." ++ names, ?_,
    leads.append up⟩
  rw [climb, if_neg (by omega), Nat.add_assoc, ← List.replicate_append_replicate,
    List.replicate_succ]
  simp

theorem leads_module {importing : String}
    (leads : Path.Leads [] (Path.segments importing).dropLast directory)
    (areNames : ∀ name ∈ names, IsName name) (low : levels ≤ directory.length) :
    Path.Leads [] (Import.route importing (Path.ofParts (climb levels ++ names)))
      (directory.take (directory.length - levels) ++ names) := by
  rw [route_relative importing levels areNames]
  exact leads.append ((leads_climb low).append
    (.descend (fun name inside => (areNames name inside).descends) _))

def IsPython (file : String) : Prop :=
  ∃ stem, file = stem ++ ".py"

def formEnding : Import.Form → String
  | .extended ending => ending
  | .inside file => file
  | .compiled _ source => source

theorem ends_of_gives {form : Import.Form} {place : List String} {target : String}
    (gives : form.Gives place target) : ∃ start, target = start ++ formEnding form := by
  cases gives with
  | extended => exact ⟨_, rfl⟩
  | inside file =>
      cases place with
      | nil => exact ⟨"", by simp [Path.ofParts, formEnding]⟩
      | cons first rest =>
          have solid : first :: rest ≠ [] := by simp
          exact ⟨_, Path.ofParts_concat solid file⟩
  | compiled => exact ⟨_, rfl⟩

def pythonForms : List Import.Form :=
  [.extended ".py", .inside "__init__.py"]

theorem mem_pythonForms {form : Import.Form} {place : List String} {target : String}
    (inside : form ∈ Import.forms) (gives : form.Gives place target) (python : IsPython target)
    (other : target ≠ Path.ofParts place) : form ∈ pythonForms := by
  obtain ⟨start, ending⟩ := ends_of_gives gives
  obtain ⟨stem, same⟩ := python
  have last : (start ++ formEnding form).toList.getLast? = some 'y' := by
    rw [← ending, same]
    simp
  have among : ∀ form ∈ Import.forms, form = .extended "" ∨ form ∈ pythonForms ∨
      (formEnding form).toList.getLast?.any (fun last => last != 'y') = true := by decide
  rcases among form inside with rfl | found | differs
  · cases gives
    simp at other
  · exact found
  · obtain ⟨c, found, differ⟩ := (Option.any_eq_true ..).mp differs
    rw [String.toList_append, List.getLast?_append, found] at last
    exact absurd (Option.some.inj last) (bne_iff_ne.mp differ)

/-- Of Python files only the module and the package stand for a place, besides the place itself. -/
theorem find?_forms_of_isPython {place known : List String}
    (python : ∀ file ∈ known, IsPython file) (other : Path.ofParts place ∉ known) :
    (Import.forms.filterMap (Import.Form.file? place)).find? known.contains =
      [Path.ofParts place ++ ".py", Path.ofParts (place ++ ["__init__.py"])].find?
        known.contains := by
  have only : pythonForms = Import.forms.filter (· ∈ pythonForms) := by decide
  have files : pythonForms.filterMap (Import.Form.file? place) =
      [Path.ofParts place ++ ".py", Path.ofParts (place ++ ["__init__.py"])] := by
    simp [pythonForms, Import.Form.file?, Option.guard]
  rw [← files, List.find?_filterMap, List.find?_filterMap]
  congr 1
  rw [only, List.find?_filter]
  refine List.find?_congr fun form inside => ?_
  cases given : Import.Form.file? place form with
  | none => simp
  | some target =>
      rw [Option.any_some]
      by_cases present : target ∈ known
      · have differ : target ≠ Path.ofParts place := fun same => other (same ▸ present)
        simp [mem_pythonForms inside (Import.Form.file?_eq_some_iff.mp given)
          (python target present) differ]
      · simp [present]

/-- A relative import of some names means what lies below the directory that is as many levels up as
there are dots behind the first one. It is a path of the workspace, and it means nothing if there
are not so many levels. -/
theorem relative_imports_mean_modules (importing : String) (levels : Nat)
    {directory names : List String}
    (leads : Path.Leads [] (Path.segments importing).dropLast directory)
    (areNames : ∀ name ∈ names, IsName name) :
    let specifier := String.ofList (relativeSpecifier (relativeText levels names))
    let place := directory.take (directory.length - levels) ++ names
    Specifier.isExternal specifier = false ∧
    (levels ≤ directory.length →
      Path.normalize? (Import.location importing specifier) = some (Path.ofParts place) ∧
      ∀ known,
        (∀ target, Import.resolve? importing specifier known = some target ↔
          Import.IsTarget known place target) ∧
        ((∀ file ∈ known, IsPython file) → Path.ofParts place ∉ known →
          Import.resolve? importing specifier known =
            [Path.ofParts place ++ ".py", Path.ofParts (place ++ ["__init__.py"])].find?
              known.contains)) ∧
    (directory.length < levels →
      Path.normalize? (Import.location importing specifier) = none ∧
      ∀ known, Import.resolve? importing specifier known = none) := by
  intro specifier place
  -- Read as a path, the dots climb and the names lead down.
  have written : specifier = Path.ofParts (climb levels ++ names) :=
    relativeSpecifier_relativeText levels areNames
  rw [written]
  refine ⟨isExternal_relative levels names, fun low => ?_, fun high => ?_⟩
  · have leads' := leads_module leads areNames low
    refine ⟨Import.normalize?_location leads', fun known => ?_⟩
    refine ⟨fun target => ?_, fun python other => ?_⟩
    · exact Import.resolve?_eq_some_iff leads'
    · rw [Import.resolve?_of_leads leads', find?_forms_of_isPython python other]
  · have climbs := climbs_climb leads high names
    rw [← route_relative importing levels areNames] at climbs
    exact ⟨Import.normalize?_location_eq_none climbs, Import.resolve?_of_climbs climbs⟩

theorem package_beside_parent_is_found :
    let known := ["pkg/models/__init__.py", "pkg/models/user/__init__.py", "pkg/sub/mod.py"]
    Path.Leads [] (Path.segments "pkg/./sub/mod.py").dropLast ["pkg", "sub"] ∧
      relativeText 1 ["models", "user"] = "..models.user".toList ∧
      Import.resolve? "pkg/./sub/mod.py"
        (String.ofList (relativeSpecifier (relativeText 1 ["models", "user"]))) known =
          some "pkg/models/user/__init__.py" ∧
      Import.resolve? "pkg/./sub/mod.py" (String.ofList (relativeSpecifier (relativeText 3 [])))
        known = none := by
  intro known
  have leads : Path.Leads [] (Path.segments "pkg/./sub/mod.py").dropLast ["pkg", "sub"] :=
    Path.place?_eq_some_iff.mp (by decide +kernel)
  have named : ∀ name ∈ ["models", "user"], IsName name := by decide
  have python : ∀ file ∈ known, IsPython file := by
    simp only [known, List.forall_mem_cons]
    exact ⟨⟨"pkg/models/__init__", rfl⟩, ⟨"pkg/models/user/__init__", rfl⟩, ⟨"pkg/sub/mod", rfl⟩,
      by simp⟩
  obtain ⟨-, found, -⟩ := relative_imports_mean_modules "pkg/./sub/mod.py" 1 leads named
  obtain ⟨-, -, above⟩ := relative_imports_mean_modules "pkg/./sub/mod.py" 3 leads
    (by simp : ∀ name ∈ [], IsName name)
  refine ⟨leads, by decide +kernel, ?_, (above (by decide)).2 known⟩
  rw [((found (by decide)).2 known).2 python (by decide +kernel)]
  decide +kernel

end CodeGraph.Facts.Python
