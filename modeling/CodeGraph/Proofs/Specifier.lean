import CodeGraph.Package.Specifier
import CodeGraph.Proofs.Text

set_option autoImplicit false

namespace CodeGraph.Specifier

inductive IsName : List Char → Prop
  | alone {name : List Char} (unscoped : name.head? ≠ some '@') (whole : '/' ∉ name) : IsName name
  | inScope {scope package : List Char} (whole : '/' ∉ scope) (whole' : '/' ∉ package) :
      IsName ('@' :: scope ++ '/' :: package)

variable {text name : List Char} {specifier : String}

theorem IsName.count_slash (isName : IsName name) :
    name.count '/' ≤ if name.head? = some '@' then 1 else 0 := by
  cases isName with
  | alone unscoped whole => simp [unscoped, List.count_eq_zero_of_not_mem whole]
  | inScope whole whole' =>
      simp [List.count_eq_zero_of_not_mem whole, List.count_eq_zero_of_not_mem whole']

theorem parseChars_of_whole (whole : '/' ∉ text) :
    parseChars text = ⟨String.ofList text, none⟩ := by
  rw [parseChars, Text.splitOnce_of_notMem whole]

theorem IsName.parseChars (isName : IsName name) :
    Specifier.parseChars name = ⟨String.ofList name, none⟩ := by
  cases isName with
  | alone _ whole => exact parseChars_of_whole whole
  | @inScope scope package whole whole' =>
      have clean : '/' ∉ '@' :: scope := by simpa using whole
      rw [Specifier.parseChars, Text.splitOnce_append_cons clean]
      simp [Text.splitOnce_of_notMem whole']

theorem IsName.parseChars_append (isName : IsName name) (rest : List Char) :
    Specifier.parseChars (name ++ '/' :: rest) = ⟨String.ofList name, nonEmpty rest⟩ := by
  cases isName with
  | alone unscoped whole =>
      rw [Specifier.parseChars, Text.splitOnce_append_cons whole]
      simp [unscoped]
  | @inScope scope package whole whole' =>
      have clean : '/' ∉ '@' :: scope := by simpa using whole
      have apart : '@' :: scope ++ '/' :: package ++ '/' :: rest =
          '@' :: scope ++ '/' :: (package ++ '/' :: rest) := by simp
      rw [apart, Specifier.parseChars, Text.splitOnce_append_cons clean]
      simp [Text.splitOnce_append_cons whole']

theorem exists_isName (text : List Char) :
    '/' ∉ text ∨ IsName text ∨ ∃ name rest, IsName name ∧ text = name ++ '/' :: rest := by
  by_cases slash : '/' ∈ text
  · obtain ⟨first, rest, rfl, whole⟩ := List.eq_append_cons_of_mem slash
    by_cases marked : first.head? = some '@'
    · obtain ⟨scope, rfl⟩ := List.head?_eq_some_iff.mp marked
      have whole : '/' ∉ scope := by simpa using whole
      by_cases more : '/' ∈ rest
      · obtain ⟨package, path, rfl, whole'⟩ := List.eq_append_cons_of_mem more
        exact .inr (.inr ⟨_, path, .inScope whole whole', by simp⟩)
      · exact .inr (.inl (.inScope whole more))
    · exact .inr (.inr ⟨first, rest, .alone marked whole, rfl⟩)
  · exact .inl slash

structure Parsed.Of (parsed : Parsed) (text : List Char) : Prop where
  whole : ∀ subpath, parsed.subpath = some subpath →
    text = parsed.name.toList ++ '/' :: subpath.toList ∧ subpath ≠ ""
  bare : parsed.subpath = none → text = parsed.name.toList ∨ text = parsed.name.toList ++ ['/']
  slashes : parsed.name.toList.count '/' ≤ if text.head? = some '@' then 1 else 0
  again : parseChars parsed.name.toList = ⟨parsed.name, none⟩

theorem of_parseChars (text : List Char) : (parseChars text).Of text := by
  rcases exists_isName text with whole | isName | ⟨name, rest, isName, rfl⟩
  · rw [parseChars_of_whole whole]
    refine ⟨by simp, by simp, ?_, by simpa using parseChars_of_whole whole⟩
    simp [List.count_eq_zero_of_not_mem whole]
  · rw [isName.parseChars]
    exact ⟨by simp, by simp, by simpa using isName.count_slash, by simpa using isName.parseChars⟩
  · rw [isName.parseChars_append]
    have again : parseChars (String.ofList name).toList = ⟨String.ofList name, none⟩ := by
      simpa using isName.parseChars
    have slashes : (String.ofList name).toList.count '/' ≤
        if (name ++ '/' :: rest).head? = some '@' then 1 else 0 := by
      have count := isName.count_slash
      cases name with
      | nil => simp
      | cons => simpa using count
    cases rest with
    | nil => exact ⟨by simp [nonEmpty], by simp [nonEmpty], slashes, again⟩
    | cons c others => exact ⟨by simp [nonEmpty], by simp [nonEmpty], slashes, again⟩

theorem startsWith_iff {start : String} :
    startsWith start specifier = true ↔ ∃ rest, specifier.toList = start.toList ++ rest := by
  rw [startsWith, Text.startsWith, Option.isSome_iff_exists]
  exact exists_congr fun rest => Text.stripStart?_eq_some_iff

theorem parse_of_plain (plain : startsWith "node:" specifier = false) :
    parse specifier = parseChars specifier.toList := by
  have absent : Text.stripStart? "node:".toList specifier.toList = none := by
    simpa [startsWith, Text.startsWith] using plain
  rw [parse, absent, Option.getD_none]

theorem parse_of_builtin {rest : List Char} (builtin : specifier.toList = "node:".toList ++ rest) :
    parse specifier = parseChars rest := by
  rw [parse, builtin, Text.stripStart?_append, Option.getD_some]

/-- A specifier that is no built-in module is split without loss, and a name with a path behind it
into these two. -/
theorem parse_splits_without_loss :
    (∀ specifier, startsWith "node:" specifier = false →
      (∀ subpath, (parse specifier).subpath = some subpath →
        specifier = (parse specifier).name ++ "/" ++ subpath ∧ subpath ≠ "") ∧
      ((parse specifier).subpath = none →
        specifier = (parse specifier).name ∨ specifier = (parse specifier).name ++ "/") ∧
      (parse specifier).name.toList.count '/' ≤ (if startsWith "@" specifier then 1 else 0) ∧
      parse (parse specifier).name = ⟨(parse specifier).name, none⟩) ∧
    ∀ name rest : String, IsName name.toList → rest ≠ "" →
      (parse (name ++ "/" ++ rest) = ⟨name, some rest⟩ ↔
        startsWith "node:" (name ++ "/" ++ rest) = false) := by
  constructor
  · intro specifier plain
    have of := of_parseChars specifier.toList
    rw [← parse_of_plain plain] at of
    have text {other : String} : specifier = other ↔ specifier.toList = other.toList :=
      String.toList_inj.symm
    refine ⟨fun subpath found => ?_, fun absent => ?_, ?_, ?_⟩
    · simpa [text] using of.whole subpath found
    · simpa [text] using of.bare absent
    · have marked : specifier.toList.head? = some '@' ↔ startsWith "@" specifier = true := by
        rw [startsWith_iff, List.head?_eq_some_iff]
        rfl
      simpa [marked] using of.slashes
    · -- The name stands at the start, where the specifier has no mark of built-in modules.
      have start : ∃ rest, specifier.toList = (parse specifier).name.toList ++ rest := by
        cases found : (parse specifier).subpath with
        | some subpath => exact ⟨_, (of.whole subpath found).1⟩
        | none =>
            rcases of.bare found with same | slash
            · exact ⟨[], by simpa using same⟩
            · exact ⟨_, slash⟩
      have plain' : startsWith "node:" (parse specifier).name = false := by
        rw [Bool.eq_false_iff, ne_eq, startsWith_iff]
        rintro ⟨others, builtin⟩
        obtain ⟨rest, whole⟩ := start
        rw [Bool.eq_false_iff, ne_eq, startsWith_iff] at plain
        exact plain ⟨others ++ rest, by rw [whole, builtin, List.append_assoc]⟩
      rw [parse_of_plain plain', of.again]
  · intro name rest isName solid
    have chars : (name ++ "/" ++ rest).toList = name.toList ++ '/' :: rest.toList := by simp
    constructor
    · intro split
      by_contra marked
      obtain ⟨others, builtin⟩ := startsWith_iff.mp (by simpa using marked)
      have of := of_parseChars others
      rw [← parse_of_builtin builtin, split] at of
      -- The path would be longer than what is left behind the mark.
      have same : others = "node:".toList ++ others :=
        (of.whole rest rfl).1.trans (chars.symm.trans builtin)
      have longer := congrArg List.length same
      have mark : "node:".toList.length = 5 := rfl
      rw [List.length_append] at longer
      omega
    · intro plain
      have solid : rest.toList ≠ [] := by simpa using solid
      rw [parse_of_plain plain, chars, isName.parseChars_append]
      simp [nonEmpty, solid]

theorem scoped_path_is_split :
    let name := "@scope/pkg"
    let path := "/lib/"
    startsWith "node:" (name ++ "/" ++ path) = false ∧ IsName name.toList ∧ path ≠ "" ∧
      parse (name ++ "/" ++ path) = ⟨name, some path⟩ ∧ parse name = ⟨name, none⟩ ∧
      name.toList.count '/' ≤ 1 := by
  intro name path
  have plain : startsWith "node:" (name ++ "/" ++ path) = false := by decide
  have isName : IsName name.toList := by
    have scope : '/' ∉ "scope".toList := by decide
    have package : '/' ∉ "pkg".toList := by decide
    exact cast (congrArg IsName (by decide)) (IsName.inScope scope package)
  have split := (parse_splits_without_loss.2 name path isName (by decide)).mpr plain
  obtain ⟨-, -, slashes, again⟩ := parse_splits_without_loss.1 (name ++ "/" ++ path) plain
  rw [split] at slashes again
  exact ⟨plain, isName, by decide, split, again, slashes.trans (by decide)⟩

end CodeGraph.Specifier
