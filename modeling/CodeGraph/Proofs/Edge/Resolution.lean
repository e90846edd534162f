import CodeGraph.Edge.Import
import CodeGraph.Proofs.Path.Normal
import CodeGraph.Proofs.Text
import Mathlib.Data.List.Basic

/-!
Relative imports are resolved by place: the segments of the specifier, behind those of the directory
of the importing file, lead to a place, and the import means the first known file that stands for
this place.
-/

set_option autoImplicit false

namespace CodeGraph.Import

def route (importing specifier : String) : List String :=
  if Path.isAbsolute specifier then Path.segments specifier
  else (Path.segments importing).dropLast ++ Path.segments specifier

/-- How a file stands for a place. -/
inductive Form where
  | extended (ending : String)
  | inside (file : String)
  | compiled (ending source : String)
deriving DecidableEq

def extensions : List String :=
  ["", ".ts", ".tsx", ".d.ts", ".js", ".jsx", ".mjs", ".cjs", ".py"]

def mainFiles : List String :=
  ["index.ts", "index.tsx", "index.js", "index.jsx", "index.mjs", "__init__.py"]

def forms : List Form :=
  extensions.map .extended ++ mainFiles.map .inside ++
    [.compiled ".js" ".ts", .compiled ".js" ".tsx", .compiled ".jsx" ".tsx",
      .compiled ".mjs" ".mts"]

/-- The file that stands for a place in some form: the text of the place with an ending, a file in
the place, or the source of the file that the place is called like. -/
inductive Form.Gives (place : List String) : Form → String → Prop
  | extended {ending : String} (solid : Path.ofParts place ++ ending ≠ "") :
      Gives place (.extended ending) (Path.ofParts place ++ ending)
  | inside (file : String) : Gives place (.inside file) (Path.ofParts (place ++ [file]))
  | compiled {ending source stem : String} (built : Path.ofParts place = stem ++ ending) :
      Gives place (.compiled ending source) (stem ++ source)

/-- The first known file that stands for a place. -/
def IsTarget (known : List String) (place : List String) (target : String) : Prop :=
  ∃ before form after, forms = before ++ form :: after ∧ form.Gives place target ∧ target ∈ known ∧
    ∀ earlier ∈ before, ∀ other, earlier.Gives place other → other ∉ known

variable {importing specifier target : String} {place known : List String} {form : Form}

theorem place?_segments_location (importing specifier : String) :
    Path.place? (Path.segments (location importing specifier)) =
      Path.place? (route importing specifier) := by
  unfold location route
  cases stripped : Text.stripStart? ['/'] specifier.toList with
  | some rest =>
      obtain rfl : specifier = "" ++ "/" ++ String.ofList rest := by
        rw [← String.toList_inj, Text.stripStart?_eq_some_iff.mp stripped]
        simp
      have absolute : Path.isAbsolute ("" ++ "/" ++ String.ofList rest) = true := by
        simp [Path.isAbsolute]
      rw [absolute, if_pos rfl, Path.segments_append]
      rfl
  | none =>
      have relative : Path.isAbsolute specifier = false := by
        rw [Path.isAbsolute, beq_eq_false_iff_ne, ne_eq, List.head?_eq_some_iff]
        rintro ⟨rest, absolute⟩
        rw [absolute] at stripped
        cases stripped
      rw [relative, if_neg Bool.false_ne_true]
      -- The directory of the importing file is what stands before its last slash.
      cases cut : Text.splitLast '/' importing.toList with
      | some parts =>
          obtain ⟨directory, name⟩ := parts
          obtain ⟨whole, clean⟩ := Text.splitLast_eq_some_iff.mp cut
          obtain rfl : importing = String.ofList directory ++ "/" ++ String.ofList name := by
            rw [← String.toList_inj, whole]
            simp
          have last : Path.segments (String.ofList name) = [String.ofList name] :=
            Path.segments_of_whole (by simpa using clean)
          rw [Path.segments_append, Path.segments_append, last, List.dropLast_concat]
      | none =>
          rw [Path.segments_of_whole (Text.splitLast_eq_none_iff.mp cut)]
          rfl

def Form.file? (place : List String) : Form → Option String
  | .extended ending => Option.guard (· != "") (Path.ofParts place ++ ending)
  | .inside file => some (Path.ofParts (place ++ [file]))
  | .compiled ending source =>
      (Text.stripEnd? ending.toList (Path.ofParts place).toList).map
        (fun stem => String.ofList stem ++ source)

theorem Form.file?_eq_some_iff : form.file? place = some target ↔ form.Gives place target := by
  cases form with
  | extended ending =>
      rw [file?, Option.guard_eq_some_iff]
      constructor
      · rintro ⟨rfl, solid⟩
        exact .extended (by simpa using solid)
      · rintro ⟨solid⟩
        exact ⟨rfl, by simpa using solid⟩
  | inside file =>
      rw [file?, Option.some_inj]
      constructor
      · rintro rfl
        exact .inside file
      · rintro ⟨⟩
        rfl
  | compiled ending source =>
      simp only [file?, Option.map_eq_some_iff, Text.stripEnd?_eq_some_iff]
      constructor
      · rintro ⟨stem, built, rfl⟩
        refine .compiled (String.toList_inj.mp ?_)
        simpa using built
      · rintro (_ | _ | @⟨_, _, stem, built⟩)
        exact ⟨stem.toList, by rw [built, String.toList_append], by rw [String.ofList_toList]⟩

theorem trimStart_slash {text : String} (relative : Path.isAbsolute text = false) :
    String.ofList (Text.trimStartBy (· == '/') text.toList) = text := by
  rw [Text.trimStartBy_of_head, String.ofList_toList]
  intro c first
  rw [beq_eq_false_iff_ne]
  rintro rfl
  simp [Path.isAbsolute, Option.mem_def.mp first] at relative

theorem isAbsolute_append {text ending : String} (relative : Path.isAbsolute text = false)
    (relative' : Path.isAbsolute ending = false) : Path.isAbsolute (text ++ ending) = false := by
  unfold Path.isAbsolute at *
  rw [String.toList_append]
  cases chars : text.toList with
  | nil => simpa using relative'
  | cons c rest => simpa [chars] using relative

def tried (place : List String) (ending : String) : String :=
  String.ofList (Text.trimStartBy (· == '/') (Path.ofParts place ++ ending).toList)

theorem tried_extended (areParts : ∀ part ∈ place, Path.IsPart part) {ending : String}
    (relative : Path.isAbsolute ending = false) :
    Option.guard (· != "") (tried place ending) = Form.file? place (.extended ending) := by
  rw [tried, trimStart_slash (isAbsolute_append (Path.isAbsolute_ofParts areParts) relative)]
  rfl

theorem tried_inside (areParts : ∀ part ∈ place, Path.IsPart part) {file : String}
    (isPart : Path.IsPart file) :
    Option.guard (· != "") (tried place ("/" ++ file)) = Form.file? place (.inside file) := by
  have within : ∀ part ∈ place ++ [file], Path.IsPart part := by
    simpa [or_imp, forall_and, isPart] using areParts
  have relative := Path.isAbsolute_ofParts within
  have same : tried place ("/" ++ file) = Path.ofParts (place ++ [file]) := by
    rw [← trimStart_slash relative, tried]
    cases place with
    | nil => simp [Path.ofParts, Text.trimStartBy]
    | cons first rest =>
        have solid : first :: rest ≠ [] := by simp
        rw [Path.ofParts_concat solid, String.append_assoc]
  have solid : Path.ofParts (place ++ [file]) ≠ "" := by
    intro empty
    have parts := Path.parts_ofParts within
    rw [empty, Path.parts_empty] at parts
    simp at parts
  rw [same, Form.file?, Option.guard_eq_some_iff]
  exact ⟨rfl, by simpa using solid⟩

theorem emittedCandidates_ofParts (place : List String) :
    emittedCandidates (Path.ofParts place) = (emitted.flatMap fun (ending, sources) =>
      sources.map (.compiled ending)).filterMap (Form.file? place) := by
  rw [List.filterMap_flatMap, emittedCandidates]
  congr 1
  funext ⟨ending, sources⟩
  cases stripped : Text.stripEnd? ending.toList (Path.ofParts place).toList <;>
    simp [Form.file?, stripped, Function.comp_def]

theorem candidates_ofParts (areParts : ∀ part ∈ place, Path.IsPart part) :
    candidates (Path.ofParts place) = forms.filterMap (Form.file? place) := by
  have endings : endings = extensions.map id ++ mainFiles.map ("/" ++ ·) := by decide
  have relative : ∀ ending ∈ extensions, Path.isAbsolute ending = false := by decide
  have named : ∀ file ∈ mainFiles, Path.IsPart file := by decide
  have family (texts : List String) (form : String → Form) (written : String → String)
      (each : ∀ text ∈ texts, Option.guard (· != "") (tried place (written text)) =
        Form.file? place (form text)) :
      ((texts.map written).map (tried place)).filter (· != "") =
        (texts.map form).filterMap (Form.file? place) := by
    rw [← List.filterMap_eq_filter, List.filterMap_map, List.filterMap_map, List.filterMap_map]
    exact List.filterMap_congr each
  have extended := family extensions Form.extended id fun ending inside =>
    tried_extended areParts (relative ending inside)
  have inside := family mainFiles Form.inside ("/" ++ ·) fun file inside =>
    tried_inside areParts (named file inside)
  have split : (Import.endings.map (tried place)).filter (· != "") =
      (extensions.map Form.extended ++ mainFiles.map Form.inside).filterMap
        (Form.file? place) := by
    rw [endings, List.map_append, List.filter_append, extended, inside, List.filterMap_append]
  calc
    _ = (Import.endings.map (tried place)).filter (· != "") ++
          emittedCandidates (Path.ofParts place) := rfl
    _ = forms.filterMap (Form.file? place) := by
      rw [split, emittedCandidates_ofParts, ← List.filterMap_append]
      rfl

theorem find?_forms_eq_some_iff :
    (forms.filterMap (Form.file? place)).find? known.contains = some target ↔
      IsTarget known place target := by
  have unknown (form : Form) : (!(form.file? place).any known.contains) = true ↔
      ∀ other, form.Gives place other → other ∉ known := by
    simp only [← Form.file?_eq_some_iff]
    cases form.file? place <;> simp
  rw [List.find?_filterMap, Option.bind_eq_some_iff]
  constructor
  · rintro ⟨form, found, given⟩
    obtain ⟨present, before, after, split, earlier⟩ := List.find?_eq_some_iff_append.mp found
    rw [given, Option.any_some, List.contains_iff_mem] at present
    exact ⟨before, form, after, split, Form.file?_eq_some_iff.mp given, present,
      fun other inside => (unknown other).mp (earlier other inside)⟩
  · rintro ⟨before, form, after, split, gives, present, earlier⟩
    have given := Form.file?_eq_some_iff.mpr gives
    refine ⟨form, List.find?_eq_some_iff_append.mpr ⟨?_, before, after, split, fun other inside =>
      (unknown other).mpr (earlier other inside)⟩, given⟩
    rwa [given, Option.any_some, List.contains_iff_mem]

theorem find?_forms_eq_none_iff :
    (forms.filterMap (Form.file? place)).find? known.contains = none ↔
      ∀ form ∈ forms, ∀ target, form.Gives place target → target ∉ known := by
  simp only [List.find?_eq_none, List.mem_filterMap, Form.file?_eq_some_iff,
    List.contains_iff_mem]
  constructor
  · exact fun none form inside target gives => none target ⟨form, inside, gives⟩
  · rintro none target ⟨form, inside, gives⟩
    exact none form inside target gives

theorem slash_not_mem_of_mem_route {segment : String}
    (member : segment ∈ route importing specifier) : '/' ∉ segment.toList := by
  unfold route at member
  split at member
  · exact Path.slash_not_mem_of_mem_segments member
  · rcases List.mem_append.mp member with directory | own
    · exact Path.slash_not_mem_of_mem_segments ((List.dropLast_sublist _).mem directory)
    · exact Path.slash_not_mem_of_mem_segments own

theorem normalize?_location (leads : Path.Leads [] (route importing specifier) place) :
    Path.normalize? (location importing specifier) = some (Path.ofParts place) := by
  rw [Path.normalize?, place?_segments_location, Path.place?_eq_some_iff.mpr leads, Option.map_some,
    List.reverse_reverse]

theorem normalize?_location_eq_none (climbs : Path.Climbs (route importing specifier)) :
    Path.normalize? (location importing specifier) = none := by
  rw [Path.normalize?, place?_segments_location, Path.place?_eq_none_iff.mpr climbs,
    Option.map_none]

theorem resolve?_of_leads (leads : Path.Leads [] (route importing specifier) place)
    (known : List String) : resolve? importing specifier known =
      (forms.filterMap (Form.file? place)).find? known.contains := by
  have areParts := leads.areParts (fun _ => slash_not_mem_of_mem_route) (by simp)
  rw [resolve?, normalize?_location leads, ← candidates_ofParts areParts]
  rfl

theorem resolve?_of_climbs (climbs : Path.Climbs (route importing specifier))
    (known : List String) : resolve? importing specifier known = none := by
  rw [resolve?, normalize?_location_eq_none climbs]
  rfl

theorem resolve?_eq_some_iff (leads : Path.Leads [] (route importing specifier) place) :
    resolve? importing specifier known = some target ↔ IsTarget known place target := by
  rw [resolve?_of_leads leads, find?_forms_eq_some_iff]

theorem resolve?_eq_none_iff (leads : Path.Leads [] (route importing specifier) place) :
    resolve? importing specifier known = none ↔
      ∀ form ∈ forms, ∀ target, form.Gives place target → target ∉ known := by
  rw [resolve?_of_leads leads, find?_forms_eq_none_iff]

/-- An import means the first known file that stands for the place that its specifier leads to. It
means none if this is above the root or no such file is known, and specifiers of one place mean the
same file wherever they are written. -/
theorem imports_resolve_by_place (importing specifier : String) (known : List String) :
    (∀ target, resolve? importing specifier known = some target ↔
      ∃ place, Path.Leads [] (route importing specifier) place ∧ IsTarget known place target) ∧
    (resolve? importing specifier known = none ↔
      Path.Climbs (route importing specifier) ∨
        ∃ place, Path.Leads [] (route importing specifier) place ∧
          ∀ form ∈ forms, ∀ target, form.Gives place target → target ∉ known) ∧
    ∀ importing' specifier', Path.normalize? (location importing' specifier') =
        Path.normalize? (location importing specifier) →
      resolve? importing' specifier' known = resolve? importing specifier known := by
  -- Segments lead to one place, or they climb above the root.
  refine ⟨fun target => ?_, ?_, fun importing' specifier' same => ?_⟩
  · rcases Path.leads_or_climbs (route importing specifier) with ⟨place, leads⟩ | climbs
    · rw [resolve?_eq_some_iff leads]
      constructor
      · exact fun isTarget => ⟨place, leads, isTarget⟩
      · rintro ⟨other, leads', isTarget⟩
        rwa [leads.unique leads'] at isTarget
    · rw [resolve?_of_climbs climbs]
      constructor
      · rintro ⟨⟩
      · rintro ⟨place, leads, -⟩
        exact absurd climbs leads.not_climbs
  · rcases Path.leads_or_climbs (route importing specifier) with ⟨place, leads⟩ | climbs
    · rw [resolve?_eq_none_iff leads]
      constructor
      · exact fun unknown => .inr ⟨place, leads, unknown⟩
      · rintro (climbs | ⟨other, leads', unknown⟩)
        · exact absurd climbs leads.not_climbs
        · rwa [leads.unique leads'] at unknown
    · exact iff_of_true (resolve?_of_climbs climbs known) (.inl climbs)
  · rw [resolve?, resolve?, same]

/-- A specifier from the root and one from a directory lead to the same place. A module may be named
by the file that its source is compiled to, and its plain source comes first. -/
theorem compiled_name_resolves_to_source :
    let known := ["src/esm.tsx", "src/esm.ts"]
    Path.Leads [] (route "src/deep/b.ts" ".././esm.js") ["src", "esm.js"] ∧
      IsTarget known ["src", "esm.js"] "src/esm.ts" ∧
      Path.normalize? (location "a.ts" "/src//esm.js") =
        Path.normalize? (location "src/deep/b.ts" ".././esm.js") ∧
      resolve? "a.ts" "/src//esm.js" known = some "src/esm.ts" ∧
      resolve? "src/deep/b.ts" "../../../esm.js" known = none := by
  intro known
  obtain ⟨found, -, moved⟩ := imports_resolve_by_place "src/deep/b.ts" ".././esm.js" known
  have same : Path.normalize? (location "a.ts" "/src//esm.js") =
      Path.normalize? (location "src/deep/b.ts" ".././esm.js") := by decide +kernel
  have resolved : resolve? "src/deep/b.ts" ".././esm.js" known = some "src/esm.ts" := by
    decide +kernel
  have leads : Path.Leads [] (route "src/deep/b.ts" ".././esm.js") ["src", "esm.js"] :=
    Path.place?_eq_some_iff.mp (by decide +kernel)
  have climbs : Path.Climbs (route "src/deep/b.ts" "../../../esm.js") :=
    Path.place?_eq_none_iff.mp (by decide +kernel)
  obtain ⟨-, none, -⟩ := imports_resolve_by_place "src/deep/b.ts" "../../../esm.js" known
  refine ⟨leads, ?_, same, (moved _ _ same).trans resolved, none.mpr (.inl climbs)⟩
  obtain ⟨place, leads', isTarget⟩ := (found _).mp resolved
  rwa [leads.unique leads'] at isTarget

end CodeGraph.Import
