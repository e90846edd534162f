import CodeGraph.Edge.Import
import Mathlib.Data.List.Basic

/-!
The imports of a file that are linked. Of the imports of one target only the first of each line is
kept, so that the names of the others on the line are lost if no kept import of the target has them:
which names are linked depends on how a file is laid out.
-/

set_option autoImplicit false

namespace CodeGraph

namespace Import

section Key

variable {α κ : Type} [BEq κ] [LawfulBEq κ] {key : α → κ} {seen : List κ} {items : List α} {item : α}

theorem mem_firstByKey_iff : item ∈ firstByKey key seen items ↔
    key item ∉ seen ∧ ∃ before after, items = before ++ item :: after ∧
      ∀ other ∈ before, key other ≠ key item := by
  induction items generalizing seen with
  | nil => simp [firstByKey]
  | cons first rest ih =>
      -- The first item of its key is the head, or it comes behind a head of another key.
      have split : (∃ before after, first :: rest = before ++ item :: after ∧
            ∀ other ∈ before, key other ≠ key item) ↔
          first = item ∨ key first ≠ key item ∧
            ∃ before after, rest = before ++ item :: after ∧
              ∀ other ∈ before, key other ≠ key item := by
        constructor
        · rintro ⟨_ | ⟨head, before⟩, after, shape, earlier⟩
          · exact .inl (List.cons.inj shape).1
          · obtain ⟨rfl, rfl⟩ := List.cons.inj shape
            obtain ⟨differ, earlier⟩ := List.forall_mem_cons.mp earlier
            exact .inr ⟨differ, before, after, rfl, earlier⟩
        · rintro (rfl | ⟨differ, before, after, rfl, earlier⟩)
          · exact ⟨[], rest, rfl, by simp⟩
          · exact ⟨first :: before, after, rfl, List.forall_mem_cons.mpr ⟨differ, earlier⟩⟩
      rw [split, firstByKey]
      split
      next present =>
        have present := List.contains_iff_mem.mp present
        rw [ih]
        constructor
        · rintro ⟨absent, found⟩
          exact ⟨absent, .inr ⟨fun same => absent (same ▸ present), found⟩⟩
        · rintro ⟨absent, rfl | ⟨-, found⟩⟩
          · exact absurd present absent
          · exact ⟨absent, found⟩
      next new =>
        have new : key first ∉ seen := fun present => new (List.contains_iff_mem.mpr present)
        rw [List.mem_cons, ih, List.mem_cons, not_or]
        constructor
        · rintro (rfl | ⟨⟨differ, absent⟩, found⟩)
          · exact ⟨new, .inl rfl⟩
          · exact ⟨absent, .inr ⟨Ne.symm differ, found⟩⟩
        · rintro ⟨absent, rfl | ⟨differ, found⟩⟩
          · exact .inl rfl
          · exact .inr ⟨⟨Ne.symm differ, absent⟩, found⟩

end Key

structure Means (path : String) (known : List String) (target : String) (entry : Import) : Prop where
  relative : entry.external = false
  resolved : resolve? path entry.source known = some target

def IsFirst (path : String) (known : List String) (target : String) (imports : List Import)
    (entry : Import) : Prop :=
  ∃ before after, imports = before ++ entry :: after ∧ Means path known target entry ∧
    ∀ other ∈ before, Means path known target other → other.line ≠ entry.line

def IsRepeated (path : String) (known : List String) (target : String) (imports : List Import)
    (entry : Import) : Prop :=
  ∃ before after, imports = before ++ entry :: after ∧ Means path known target entry ∧
    ∃ other ∈ before, Means path known target other ∧ other.line = entry.line

def Names (path : String) (known : List String) (target : String) (imports : List Import)
    (name : String) : Prop :=
  ∃ entry ∈ imports, Means path known target entry ∧ name ∈ entry.specifiers

def Keeps (path : String) (known : List String) (target : String) (imports : List Import)
    (name : String) : Prop :=
  ∃ entry, (entry, target) ∈ targets path imports known ∧ name ∈ entry.specifiers

variable {path target name : String} {known : List String} {imports others : List Import}
  {entry : Import} {pair : Import × String}

theorem resolve?_mem {specifier : String}
    (resolved : resolve? path specifier known = some target) : target ∈ known := by
  obtain ⟨place, -, found⟩ := Option.bind_eq_some_iff.mp resolved
  simpa using List.find?_some found

def aim? (path : String) (known : List String) (entry : Import) : Option (Import × String) :=
  if entry.external then none
  else
    match resolve? path entry.source known with
    | some target => if target = path then none else some (entry, target)
    | none => none

theorem targets_eq : targets path imports known =
    firstByKey (fun pair => (pair.2, pair.1.line)) [] (imports.filterMap (aim? path known)) := rfl

theorem aim?_eq_some_iff : aim? path known entry = some pair ↔
    pair.1 = entry ∧ pair.2 ≠ path ∧ Means path known pair.2 entry := by
  constructor
  · intro found
    unfold aim? at found
    split at found
    · cases found
    next relative =>
      split at found
      next target resolved =>
        split at found
        · cases found
        next differ =>
          cases found
          exact ⟨rfl, differ, by simpa using relative, resolved⟩
      · cases found
  · rintro ⟨rfl, differ, relative, resolved⟩
    simp [aim?, relative, resolved, differ]

theorem mem_targets_iff : pair ∈ targets path imports known ↔
    pair.2 ≠ path ∧ IsFirst path known pair.2 imports pair.1 := by
  rw [targets_eq, mem_firstByKey_iff]
  constructor
  · rintro ⟨-, earlier, later, shape, first⟩
    obtain ⟨before, rest, rfl, rfl, tail⟩ := List.filterMap_eq_append_iff.mp shape
    obtain ⟨skipped, entry, after, rfl, none, found, rfl⟩ := List.filterMap_eq_cons_iff.mp tail
    obtain ⟨rfl, differ, means⟩ := aim?_eq_some_iff.mp found
    refine ⟨differ, before ++ skipped, after, by simp, means, fun other inside held same => ?_⟩
    have found := aim?_eq_some_iff.mpr ⟨(rfl : (other, pair.2).1 = other), differ, held⟩
    rcases List.mem_append.mp inside with early | late
    · exact first _ (List.mem_filterMap.mpr ⟨other, early, found⟩) (by rw [same])
    · rw [none other late] at found
      cases found
  · rintro ⟨differ, before, after, rfl, means, first⟩
    refine ⟨List.not_mem_nil, before.filterMap (aim? path known), after.filterMap (aim? path known),
      ?_, fun other inside same => ?_⟩
    · rw [List.filterMap_append, List.filterMap_cons, aim?_eq_some_iff.mpr ⟨rfl, differ, means⟩]
    · obtain ⟨entry, early, found⟩ := List.mem_filterMap.mp inside
      obtain ⟨rfl, -, held⟩ := aim?_eq_some_iff.mp found
      obtain ⟨target, line⟩ := Prod.mk.inj same
      exact first _ early (target ▸ held) line

theorem of_mem_targets (member : pair ∈ targets path imports known) :
    pair.2 ∈ known ∧ pair.2 ≠ path := by
  obtain ⟨differ, _, _, _, means, _⟩ := mem_targets_iff.mp member
  exact ⟨resolve?_mem means.resolved, differ⟩

theorem targets_congr {known known' : List String} (same : ∀ path, path ∈ known ↔ path ∈ known')
    (path : String) (imports : List Import) :
    targets path imports known = targets path imports known' := by
  have contains : known.contains = known'.contains := by
    funext path
    simp [same path]
  have resolve (specifier : String) :
      resolve? path specifier known = resolve? path specifier known' := by
    simp only [resolve?, contains]
  simp only [targets, resolve]

theorem keeps_iff (differ : target ≠ path) : Keeps path known target imports name ↔
    ∃ entry, IsFirst path known target imports entry ∧ name ∈ entry.specifiers := by
  simp only [Keeps, mem_targets_iff, differ, ne_eq, not_false_eq_true, true_and]

theorem names_iff : Names path known target imports name ↔
    ∃ entry, (IsFirst path known target imports entry ∨
      IsRepeated path known target imports entry) ∧ name ∈ entry.specifiers := by
  constructor
  · rintro ⟨entry, member, means, listed⟩
    obtain ⟨before, after, rfl⟩ := List.append_of_mem member
    refine ⟨entry, ?_, listed⟩
    by_cases earlier : ∃ other ∈ before, Means path known target other ∧ other.line = entry.line
    · exact .inr ⟨before, after, rfl, means, earlier⟩
    · exact .inl ⟨before, after, rfl, means, fun other inside held same =>
        earlier ⟨other, inside, held, same⟩⟩
  · rintro ⟨entry, ⟨before, after, rfl, means, -⟩ | ⟨before, after, rfl, means, -⟩, listed⟩ <;>
      exact ⟨entry, by simp, means, listed⟩

theorem keeps_all_iff (differ : target ≠ path) :
    (∀ name, Keeps path known target imports name ↔ Names path known target imports name) ↔
      ∀ entry, IsRepeated path known target imports entry → ∀ name ∈ entry.specifiers,
        ∃ first, IsFirst path known target imports first ∧ name ∈ first.specifiers := by
  simp only [keeps_iff differ, names_iff]
  constructor
  · intro same entry repeated name listed
    exact (same name).mpr ⟨entry, .inr repeated, listed⟩
  · intro covered name
    constructor
    · rintro ⟨entry, first, listed⟩
      exact ⟨entry, .inl first, listed⟩
    · rintro ⟨entry, first | repeated, listed⟩
      · exact ⟨entry, first, listed⟩
      · exact covered entry repeated name listed

theorem not_isRepeated_of_lines_differ (lines : imports.Pairwise (fun a b => a.line ≠ b.line)) :
    ¬IsRepeated path known target imports entry := by
  rintro ⟨before, after, rfl, -, other, inside, -, same⟩
  exact (List.pairwise_append.mp lines).2.2 other inside entry (List.mem_cons_self ..) same

def unplaced (entry : Import) : Import :=
  { entry with line := 0 }

theorem means_unplaced : Means path known target entry.unplaced ↔ Means path known target entry :=
  ⟨fun means => ⟨means.relative, means.resolved⟩, fun means => ⟨means.relative, means.resolved⟩⟩

theorem names_congr (same : others.map unplaced = imports.map unplaced) :
    Names path known target others name ↔ Names path known target imports name := by
  have unplace (imports : List Import) : Names path known target imports name ↔
      ∃ placeless ∈ imports.map unplaced,
        Means path known target placeless ∧ name ∈ placeless.specifiers := by
    constructor
    · rintro ⟨entry, member, means, listed⟩
      exact ⟨_, List.mem_map_of_mem member, means_unplaced.mpr means, listed⟩
    · rintro ⟨placeless, image, means, listed⟩
      obtain ⟨entry, member, rfl⟩ := List.mem_map.mp image
      exact ⟨entry, member, means_unplaced.mp means, listed⟩
  rw [unplace others, same, ← unplace imports]

end Import

namespace Edge

variable {path source target name : String} {known : List String} {imports others : List Import}
  {entry : Import} {own targetChunks : List Chunk} {facts : Option Facts} {edge : Edge}

def Mentions (path : String) (own : List Chunk) (name source : String) : Prop :=
  (∃ chunk ∈ own, chunk.type ≠ .doc ∧ Import.mentions chunk.content name = true ∧
      chunk.id = source) ∨
    (∀ chunk ∈ own, chunk.type ≠ .doc → Import.mentions chunk.content name = false) ∧ path = source

structure Uses (path : String) (own targetChunks : List Chunk) (facts : Option Facts)
    (name source target : String) : Prop where
  proper : name ≠ "*" ∧ name ≠ "default"
  offered : withholds facts name = false
  user : Mentions path own name source
  definition : ∃ chunk, chunk.id = target ∧
    targetChunks.find? (fun chunk => chunk.type.isSymbol && chunk.symbol == some name) = some chunk

theorem mem_symbols_of_users {specifier : String} {users : List Chunk}
    (eq : users = own.filter fun chunk =>
      chunk.type != .doc && Import.mentions chunk.content name) :
    edge ∈ (if users.isEmpty then [symbol path target name specifier]
      else users.map (fun chunk => symbol chunk.id target name specifier)) ↔
      ∃ source, Mentions path own name source ∧ symbol source target name specifier = edge := by
  subst eq
  split
  next unused =>
    have unused : ∀ chunk ∈ own, chunk.type ≠ .doc →
        Import.mentions chunk.content name = false := by
      simpa using unused
    constructor
    · intro member
      exact ⟨path, .inr ⟨unused, rfl⟩, (List.mem_singleton.mp member).symm⟩
    · rintro ⟨source, ⟨user, inside, code, mentions, -⟩ | ⟨-, rfl⟩, rfl⟩
      · rw [unused user inside code] at mentions
        cases mentions
      · exact List.mem_singleton_self _
  next used =>
    rw [List.mem_map]
    constructor
    · rintro ⟨user, member, rfl⟩
      obtain ⟨inside, held⟩ := List.mem_filter.mp member
      obtain ⟨code, mentions⟩ := Bool.and_eq_true_iff.mp held
      exact ⟨user.id, .inl ⟨user, inside, by simpa using code, mentions, rfl⟩, rfl⟩
    · rintro ⟨source, ⟨user, inside, code, mentions, rfl⟩ | ⟨unused, -⟩, rfl⟩
      · exact ⟨user, List.mem_filter.mpr ⟨inside, by simp [code, mentions]⟩, rfl⟩
      · exact absurd (by simpa using unused) used

theorem mem_symbolEdges_iff : edge ∈ symbolEdges path entry own targetChunks facts name ↔
    ∃ source target, Uses path own targetChunks facts name source target ∧
      symbol source target name entry.source = edge := by
  unfold symbolEdges
  split
  next refused =>
    refine ⟨fun member => absurd member List.not_mem_nil, ?_⟩
    rintro ⟨source, target, uses, -⟩
    simp [uses.proper, uses.offered] at refused
  next accepted =>
    simp only [Bool.or_eq_true, beq_iff_eq, not_or, Bool.not_eq_true] at accepted
    split
    next missing =>
      refine ⟨fun member => absurd member List.not_mem_nil, ?_⟩
      rintro ⟨source, target, uses, -⟩
      obtain ⟨chunk, -, found⟩ := uses.definition
      rw [missing] at found
      cases found
    next chunk found =>
      refine (mem_symbols_of_users rfl).trans ?_
      constructor
      · rintro ⟨source, user, rfl⟩
        exact ⟨source, chunk.id, ⟨accepted.1, accepted.2, user, chunk, rfl, found⟩, rfl⟩
      · rintro ⟨source, target, ⟨-, -, user, other, rfl, same⟩, rfl⟩
        obtain rfl : chunk = other := Option.some.inj (found.symm.trans same)
        exact ⟨source, user, rfl⟩

def LinksName (path : String) (known : List String) (own : List Chunk)
    (chunks : String → List Chunk) (facts : String → Option Facts) (imports : List Import)
    (source target name : String) : Prop :=
  ∃ pair ∈ Import.targets path imports known,
    ∃ edge ∈ symbols path pair.1 own (chunks pair.2) (facts pair.2),
      edge.source = source ∧ edge.target = target ∧ ("symbol", .string name) ∈ edge.properties

theorem properties_symbol (source target name specifier : String) :
    (symbol source target name specifier).properties =
      [("specifier", .string specifier), ("symbol", .string name)] := by
  simp only [symbol, withProperty, Properties.insert, String.reduceEq, String.reduceLT, reduceIte]

theorem linksName_iff {chunks : String → List Chunk} {facts : String → Option Facts} :
    LinksName path known own chunks facts imports source target name ↔
      ∃ file, Import.Keeps path known file imports name ∧
        Uses path own (chunks file) (facts file) name source target := by
  constructor
  · rintro ⟨⟨entry, file⟩, member, edge, made, rfl, rfl, property⟩
    obtain ⟨listed, inside, symbol⟩ := List.mem_flatMap.mp made
    obtain ⟨source, target, uses, rfl⟩ := mem_symbolEdges_iff.mp symbol
    obtain rfl : name = listed := by simpa [properties_symbol] using property
    exact ⟨file, ⟨entry, member, inside⟩, uses⟩
  · rintro ⟨file, ⟨entry, member, inside⟩, uses⟩
    exact ⟨(entry, file), member, symbol source target name entry.source,
      List.mem_flatMap.mpr ⟨name, inside, mem_symbolEdges_iff.mpr ⟨source, target, uses, rfl⟩⟩,
      rfl, rfl, by simp [properties_symbol]⟩

def definitionOf (path name : String) : Chunk :=
  .make "" path 1 1 .function (some name) none

theorem uses_definitionOf_iff {file other : String} (proper : name ≠ "*" ∧ name ≠ "default") :
    Uses path [] (if other = file then [definitionOf file name] else []) none name path
      (definitionOf file name).id ↔ other = file := by
  constructor
  · rintro ⟨-, -, -, chunk, -, found⟩
    by_contra differ
    rw [if_neg differ] at found
    cases found
  · rintro rfl
    rw [if_pos rfl]
    refine ⟨proper, rfl, .inr ⟨by simp, rfl⟩, definitionOf other name, rfl, ?_⟩
    simp [definitionOf, Chunk.make, ChunkType.isSymbol]

theorem linksName_congr_iff :
    (∀ own chunks facts source target name,
      LinksName path known own chunks facts imports source target name ↔
        LinksName path known own chunks facts others source target name) ↔
    ∀ target name, name ≠ "*" ∧ name ≠ "default" →
      (Import.Keeps path known target imports name ↔ Import.Keeps path known target others name) := by
  simp only [linksName_iff]
  constructor
  · intro same target name proper
    have alike := same [] (fun other => if other = target then [definitionOf target name] else [])
      (fun _ => none) path (definitionOf target name).id name
    simpa only [uses_definitionOf_iff proper, exists_eq_right] using alike
  · intro same own chunks facts source target name
    constructor <;>
    · rintro ⟨file, keeps, uses⟩
      have kept := same file name uses.proper
      exact ⟨file, by tauto, uses⟩

/-- The names that are imported from another file are all linked if each import behind another one
on its line names nothing that the first ones on the lines do not. What is imported does not depend
on the layout, and neither do the links as far as the same names are kept. -/
theorem imported_names_are_kept_iff (path : String) (known : List String) (imports : List Import) :
    (∀ target ≠ path,
      (∀ entry, (entry, target) ∈ Import.targets path imports known ↔
        Import.IsFirst path known target imports entry) ∧
      ((∀ name, Import.Keeps path known target imports name ↔
          Import.Names path known target imports name) ↔
        ∀ entry, Import.IsRepeated path known target imports entry → ∀ name ∈ entry.specifiers,
          ∃ first, Import.IsFirst path known target imports first ∧ name ∈ first.specifiers)) ∧
    ∀ others : List Import, others.map Import.unplaced = imports.map Import.unplaced →
      (∀ target name, Import.Names path known target others name ↔
        Import.Names path known target imports name) ∧
      ((∀ own chunks facts source target name,
          LinksName path known own chunks facts imports source target name ↔
            LinksName path known own chunks facts others source target name) ↔
        ∀ target name, name ≠ "*" ∧ name ≠ "default" →
          (Import.Keeps path known target imports name ↔
            Import.Keeps path known target others name)) :=
  ⟨fun _ differ => ⟨fun _ => Import.mem_targets_iff.trans (and_iff_right differ),
    Import.keeps_all_iff differ⟩, fun _ same =>
    ⟨fun _ _ => Import.names_congr same, linksName_congr_iff⟩⟩

def importsOf (line : Nat) : List Import :=
  [⟨"./b", ["f"], .static, false, 1⟩, ⟨"./b", ["g"], .static, false, line⟩]

theorem second_import_of_line_is_lost :
    let known := ["a.js", "b.js"]
    (¬∀ name, Import.Keeps "a.js" known "b.js" (importsOf 1) name ↔
      Import.Names "a.js" known "b.js" (importsOf 1) name) ∧
    (∀ name, Import.Keeps "a.js" known "b.js" (importsOf 2) name ↔
      Import.Names "a.js" known "b.js" (importsOf 2) name) ∧
    (importsOf 2).map Import.unplaced = (importsOf 1).map Import.unplaced ∧
    ¬∀ own chunks facts source target name,
      LinksName "a.js" known own chunks facts (importsOf 1) source target name ↔
        LinksName "a.js" known own chunks facts (importsOf 2) source target name := by
  intro known
  have lost : ¬Import.Keeps "a.js" known "b.js" (importsOf 1) "g" := by
    rintro ⟨entry, member, listed⟩
    have only : Import.targets "a.js" (importsOf 1) known =
        [(⟨"./b", ["f"], .static, false, 1⟩, "b.js")] := by decide +kernel
    rw [only, List.mem_singleton] at member
    cases member
    exact absurd listed (by decide)
  have found : Import.Keeps "a.js" known "b.js" (importsOf 2) "g" :=
    ⟨⟨"./b", ["g"], .static, false, 2⟩, by decide +kernel, by decide⟩
  have moved : (importsOf 2).map Import.unplaced = (importsOf 1).map Import.unplaced := rfl
  have named : Import.Names "a.js" known "b.js" (importsOf 1) "g" :=
    ⟨⟨"./b", ["g"], .static, false, 1⟩, by decide, ⟨rfl, by decide +kernel⟩, by decide⟩
  obtain ⟨-, all⟩ := (imported_names_are_kept_iff "a.js" known (importsOf 2)).1 "b.js" (by decide)
  obtain ⟨-, links⟩ := (imported_names_are_kept_iff "a.js" known (importsOf 1)).2 _ moved
  refine ⟨fun same => lost ((same "g").mpr named), ?_, moved, fun same => ?_⟩
  · refine all.mpr fun entry repeated => absurd repeated ?_
    exact Import.not_isRepeated_of_lines_differ (by decide)
  · exact lost ((links.mp same "b.js" "g" (by decide)).mpr found)

end Edge

end CodeGraph
