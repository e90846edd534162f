import CodeGraph.Disk

set_option autoImplicit false

namespace CodeGraph

namespace Text

theorem not_cut_of_mem_splitBy {cut : Char → Bool} {text piece : List Char}
    (member : piece ∈ splitBy cut text) : ∀ c ∈ piece, cut c = false := by
  induction text generalizing piece with
  | nil =>
      obtain rfl := List.mem_singleton.mp member
      simp
  | cons first rest ih =>
      by_cases stop : cut first = true
      · simp only [splitBy, stop, if_true] at member
        rcases List.mem_cons.mp member with rfl | later
        · simp
        · exact ih later
      · simp only [splitBy, stop] at member
        cases pieces : splitBy cut rest with
        | nil => exact absurd pieces (splitBy_ne_nil cut rest)
        | cons head others =>
            simp only [pieces, Bool.false_eq_true, if_false] at member
            rcases List.mem_cons.mp member with rfl | later
            · intro c inside
              rcases List.mem_cons.mp inside with rfl | inside
              · simpa using stop
              · exact ih (pieces ▸ List.mem_cons_self ..) c inside
            · exact ih (pieces ▸ List.mem_cons_of_mem _ later)

theorem splitBy_of_not_cut {cut : Char → Bool} {text : List Char}
    (clean : ∀ c ∈ text, cut c = false) : splitBy cut text = [text] := by
  induction text with
  | nil => rfl
  | cons first rest ih =>
      have tail := ih fun c inside => clean c (List.mem_cons_of_mem _ inside)
      simp [splitBy, clean first (List.mem_cons_self ..), tail]

theorem splitOn_append (separator : Char) (before after : List Char) :
    splitOn separator (before ++ separator :: after) =
      splitOn separator before ++ splitOn separator after := by
  -- The piece that the first text ends with is complete, as a separator follows it.
  unfold splitOn
  induction before with
  | nil => simp [splitBy]
  | cons first rest ih =>
      by_cases stop : (first == separator) = true
      · simp only [List.cons_append, splitBy, stop, if_true, ih]
      · simp only [List.cons_append, splitBy, stop, Bool.false_eq_true, if_false, ih]
        cases pieces : splitBy (fun c => c == separator) rest with
        | nil => exact absurd pieces (splitBy_ne_nil _ rest)
        | cons head others => rfl

end Text

namespace Path

structure IsPart (part : String) : Prop where
  named : part ≠ "" ∧ part ≠ "."
  whole : '/' ∉ part.toList

instance (part : String) : Decidable (IsPart part) :=
  decidable_of_iff ((part ≠ "" ∧ part ≠ ".") ∧ '/' ∉ part.toList)
    ⟨fun both => ⟨both.1, both.2⟩, fun isPart => ⟨isPart.named, isPart.whole⟩⟩

theorem slash_not_mem_of_mem_segments {path segment : String} (member : segment ∈ segments path) :
    '/' ∉ segment.toList := by
  obtain ⟨piece, inside, rfl⟩ := List.mem_map.mp member
  intro slash
  rw [String.toList_ofList] at slash
  have := Text.not_cut_of_mem_splitBy inside '/' slash
  simp at this

theorem isPart_of_mem_parts {path part : String} (member : part ∈ parts path) : IsPart part := by
  obtain ⟨segment, named⟩ := List.mem_filter.mp member
  simp only [Bool.and_eq_true, bne_iff_ne] at named
  exact ⟨named, slash_not_mem_of_mem_segments segment⟩

theorem segments_append (before after : String) :
    segments (before ++ "/" ++ after) = segments before ++ segments after := by
  simp [segments, Text.splitOn_append]

theorem parts_append (before after : String) :
    parts (before ++ "/" ++ after) = parts before ++ parts after := by
  simp only [parts, segments_append, List.filter_append]

theorem parts_empty : parts "" = [] := by
  decide

theorem segments_of_whole {segment : String} (whole : '/' ∉ segment.toList) :
    segments segment = [segment] := by
  have clean : ∀ c ∈ segment.toList, (c == '/') = false := by
    intro c inside
    rw [beq_eq_false_iff_ne]
    rintro rfl
    exact whole inside
  simp [segments, Text.splitOn, Text.splitBy_of_not_cut clean]

theorem segments_of_isPart {part : String} (isPart : IsPart part) : segments part = [part] :=
  segments_of_whole isPart.whole

theorem parts_of_isPart {part : String} (isPart : IsPart part) : parts part = [part] := by
  simp [parts, segments_of_isPart isPart, isPart.named.1, isPart.named.2]

theorem parts_ofParts {names : List String} (areParts : ∀ part ∈ names, IsPart part) :
    parts (ofParts names) = names := by
  unfold ofParts
  induction names with
  | nil => exact parts_empty
  | cons first rest ih =>
      have head := parts_of_isPart (areParts first (List.mem_cons_self ..))
      have tail := ih fun part inside => areParts part (List.mem_cons_of_mem _ inside)
      cases rest with
      | nil => simpa using head
      | cons second others =>
          rw [String.intercalate_cons_cons, parts_append, head, tail]
          rfl

theorem isAbsolute_ofParts {names : List String} (areParts : ∀ part ∈ names, IsPart part) :
    isAbsolute (ofParts names) = false := by
  cases names with
  | nil => decide
  | cons first rest =>
      have isPart := areParts first (List.mem_cons_self ..)
      obtain ⟨start, others, chars⟩ : ∃ c cs, first.toList = c :: cs := by
        cases chars : first.toList with
        | nil => exact absurd (String.toList_eq_nil_iff.mp chars) isPart.named.1
        | cons c cs => exact ⟨c, cs, rfl⟩
      have other : start ≠ '/' := by
        rintro rfl
        exact isPart.whole (chars ▸ List.mem_cons_self ..)
      cases rest <;> simp [isAbsolute, ofParts, chars, other]

theorem eq_append_slash_of_endsWith {path : String} (ending : path.endsWith "/" = true) :
    ∃ start, path = start ++ "/" ++ "" := by
  obtain ⟨start, written⟩ : "/".toList <:+ path.toList := by
    rw [String.endsWith_eq_endsWith_toSlice] at ending
    simpa using String.Slice.endsWith_string_iff.mp ending
  refine ⟨String.ofList start, ?_⟩
  rw [← String.toList_inj, ← written]
  simp

theorem parts_join {base path : String} (relative : isAbsolute path = false) :
    parts (join base path) = parts base ++ parts path := by
  unfold join
  rw [relative, if_neg Bool.false_ne_true]
  split
  next empty =>
    rw [beq_iff_eq.mp empty, parts_empty]
    rfl
  next =>
    split
    next ending =>
      -- The base has its slash already, which may be taken for the one of the join.
      obtain ⟨start, same⟩ := eq_append_slash_of_endsWith ending
      have before : parts base = parts start := by
        rw [same, parts_append, parts_empty, List.append_nil]
      have whole : base ++ path = start ++ "/" ++ path := by
        rw [same]
        simp
      rw [whole, parts_append, before]
    next => exact parts_append base path

theorem segments_ofParts_of_whole {names : List String} (solid : names ≠ [])
    (whole : ∀ name ∈ names, '/' ∉ name.toList) : segments (ofParts names) = names := by
  unfold ofParts
  induction names with
  | nil => exact absurd rfl solid
  | cons first rest ih =>
      obtain ⟨clean, later⟩ := List.forall_mem_cons.mp whole
      have head := segments_of_whole clean
      cases rest with
      | nil => simpa using head
      | cons second others =>
          rw [String.intercalate_cons_cons, segments_append, head, ih (by simp) later]
          rfl

theorem segments_ofParts {names : List String} (solid : names ≠ [])
    (areParts : ∀ part ∈ names, IsPart part) : segments (ofParts names) = names :=
  segments_ofParts_of_whole solid fun part inside => (areParts part inside).whole

theorem components_ofParts {names : List String} (areParts : ∀ part ∈ names, IsPart part) :
    components (ofParts names) = names := by
  have plain : ((segments (ofParts names)).head? == some ".") = false := by
    cases names with
    | nil => decide
    | cons first rest =>
        rw [segments_ofParts (by simp) areParts]
        simpa using (areParts first (List.mem_cons_self ..)).named.2
  rw [components, isAbsolute_ofParts areParts, plain, if_neg Bool.false_ne_true,
    if_neg Bool.false_ne_true, parts_ofParts areParts]

theorem ofComponents_of_areParts {names : List String} (areParts : ∀ part ∈ names, IsPart part) :
    ofComponents names = ofParts names := by
  unfold ofComponents
  split
  next => exact absurd (by decide) (areParts "/" (List.mem_cons_self ..)).whole
  next => rfl

theorem mem_tail_ancestors {names directory : List String} (solid : names ≠ [])
    (areParts : ∀ part ∈ names, IsPart part) :
    directory ∈ (ancestors names).tail ↔
      directory = [] ∨ ∃ count, count + 1 < names.length ∧ names.take (count + 1) = directory := by
  obtain ⟨first, rest, rfl⟩ := List.exists_cons_of_ne_nil solid
  have relative : ((first :: rest).head? == some "/") = false := by
    rw [List.head?_cons, beq_eq_false_iff_ne]
    rintro ⟨⟩
    exact (areParts "/" (List.mem_cons_self ..)).whole (by decide)
  rw [ancestors, relative, if_neg Bool.false_ne_true, List.length_cons, List.range_succ_eq_map]
  simp only [List.map_cons, List.cons_append, List.tail_cons, List.mem_append, List.mem_map,
    List.mem_range, List.mem_singleton]
  constructor
  · rintro (⟨-, ⟨count, short, rfl⟩, rfl⟩ | root)
    · refine .inr ⟨rest.length - count - 1, by omega, ?_⟩
      rw [show rest.length - count - 1 + 1 = rest.length + 1 - count.succ by omega]
    · exact .inl root
  · rintro (root | ⟨count, short, rfl⟩)
    · exact .inr root
    · refine .inl ⟨_, ⟨rest.length - count - 1, by omega, rfl⟩, ?_⟩
      rw [show rest.length + 1 - (rest.length - count - 1).succ = count + 1 by omega]

theorem ofParts_concat {names : List String} (solid : names ≠ []) (part : String) :
    ofParts (names ++ [part]) = ofParts names ++ "/" ++ part := by
  rw [ofParts, ofParts, String.intercalate_append_of_ne_nil solid (by simp),
    String.intercalate_singleton]

theorem join_ofParts {names : List String} (solid : names ≠ [])
    (areParts : ∀ part ∈ names, IsPart part) {part : String} (isPart : IsPart part) :
    join (ofParts names) part = ofParts (names ++ [part]) := by
  have relative : isAbsolute part = false := by
    simpa [ofParts] using @isAbsolute_ofParts [part] (by simpa using isPart)
  have segments := segments_ofParts solid areParts
  have written : (ofParts names == "") = false := by
    rw [beq_eq_false_iff_ne]
    intro empty
    have parts := parts_ofParts areParts
    rw [empty, parts_empty] at parts
    exact solid parts.symm
  -- A slash at the end would leave an empty segment behind it.
  have unfinished : (ofParts names).endsWith "/" = false := by
    rw [Bool.eq_false_iff]
    intro ending
    obtain ⟨start, same⟩ := eq_append_slash_of_endsWith ending
    rw [same, segments_append] at segments
    have last : "" ∈ names := segments ▸ List.mem_append_right _ (by decide)
    exact (areParts "" last).named.1 rfl
  rw [join, relative, written, unfinished, if_neg Bool.false_ne_true, if_neg Bool.false_ne_true,
    if_neg Bool.false_ne_true, ofParts_concat solid]

theorem foldl_join {names rest : List String} (solid : names ≠ [])
    (areParts : ∀ part ∈ names ++ rest, IsPart part) :
    rest.foldl join (ofParts names) = ofParts (names ++ rest) := by
  induction rest generalizing names with
  | nil => rw [List.append_nil, List.foldl_nil]
  | cons part rest ih =>
      have first : ∀ part ∈ names, IsPart part :=
        fun part inside => areParts part (List.mem_append_left _ inside)
      rw [List.foldl_cons, join_ofParts solid first (areParts part (by simp)), ih (by simp),
        List.append_assoc]
      · rfl
      · simpa using areParts

theorem foldl_join_empty {names : List String} (areParts : ∀ part ∈ names, IsPart part) :
    names.foldl join "" = ofParts names := by
  cases names with
  | nil => rfl
  | cons first rest =>
      have start : join "" first = ofParts [first] := by
        unfold join
        split <;> simp [ofParts]
      rw [List.foldl_cons, start]
      exact foldl_join (by simp) areParts

theorem isAbsolute_join {base path : String} (absolute : isAbsolute base = true) :
    isAbsolute (join base path) = true := by
  have start : ∃ rest, base.toList = '/' :: rest := by
    cases chars : base.toList with
    | nil => simp [isAbsolute, chars] at absolute
    | cons c rest =>
        simp only [isAbsolute, chars, List.head?_cons, beq_iff_eq, Option.some.injEq] at absolute
        exact ⟨rest, by rw [absolute]⟩
  obtain ⟨rest, chars⟩ := start
  have solid : (base == "") = false := by
    rw [beq_eq_false_iff_ne]
    rintro rfl
    cases chars
  unfold join
  split
  · assumption
  · rw [solid, if_neg Bool.false_ne_true]
    split <;> simp [isAbsolute, chars]

structure IsRoot (root : List String) : Prop where
  absolute : root.head? = some "/"
  parts : ∀ part ∈ root.tail, IsPart part

theorem IsRoot.ofComponents_eq {root : List String} (isRoot : IsRoot root) :
    ofComponents root = "" ++ "/" ++ ofParts root.tail := by
  cases root with
  | nil => cases isRoot.absolute
  | cons first rest =>
      obtain rfl : first = "/" := by simpa using isRoot.absolute
      simp [ofComponents, ofParts]

theorem IsRoot.isAbsolute {root : List String} (isRoot : IsRoot root) :
    isAbsolute (ofComponents root) = true := by
  rw [isRoot.ofComponents_eq]
  simp [Path.isAbsolute]

theorem IsRoot.parts_ofComponents {root : List String} (isRoot : IsRoot root) :
    Path.parts (ofComponents root) = root.tail := by
  rw [isRoot.ofComponents_eq, parts_append, parts_empty, parts_ofParts isRoot.parts]
  rfl

theorem IsRoot.cons_tail {root : List String} (isRoot : IsRoot root) : "/" :: root.tail = root := by
  cases root with
  | nil => cases isRoot.absolute
  | cons first rest =>
      obtain rfl : first = "/" := by simpa using isRoot.absolute
      rfl

theorem IsRoot.components_ofComponents {root : List String} (isRoot : IsRoot root) :
    components (ofComponents root) = root := by
  rw [components, isRoot.isAbsolute, if_pos rfl, isRoot.parts_ofComponents, isRoot.cons_tail]

theorem IsRoot.append {root names : List String} (isRoot : IsRoot root)
    (areParts : ∀ part ∈ names, IsPart part) : IsRoot (root ++ names) := by
  have same : root ++ names = "/" :: (root.tail ++ names) := by
    rw [← List.cons_append, isRoot.cons_tail]
  rw [same]
  exact ⟨rfl, fun part member => (List.mem_append.mp member).elim (isRoot.parts part)
    (areParts part)⟩

theorem IsRoot.components_join {root names : List String} (isRoot : IsRoot root)
    (areParts : ∀ part ∈ names, IsPart part) :
    components (join (ofComponents root) (ofParts names)) = root ++ names := by
  have absolute := @isAbsolute_join _ (ofParts names) isRoot.isAbsolute
  rw [components, absolute, if_pos rfl, parts_join (isAbsolute_ofParts areParts),
    isRoot.parts_ofComponents, parts_ofParts areParts, ← List.cons_append, isRoot.cons_tail]

theorem below?_eq_some {base path rest : List String} :
    below? base path = some rest ↔ path = base ++ rest := by
  induction base generalizing path with
  | nil => simp [below?]
  | cons first others ih =>
      cases path with
      | nil => simp [below?]
      | cons head tail =>
          by_cases same : first = head
          · simp [below?, same, ih]
          · simp [below?, same, Ne.symm same]

theorem parts_of_components {path : String} {rest : List String}
    (absolute : components path = "/" :: rest) : parts path = rest := by
  unfold components at absolute
  split at absolute
  · exact (List.cons.inj absolute).2
  · split at absolute
    · exact absurd (List.cons.inj absolute).1 (by decide)
    · -- Only an absolute path has a component that is a slash.
      have first : "/" ∈ parts path := absolute ▸ List.mem_cons_self ..
      exact absurd (by decide : '/' ∈ "/".toList) (isPart_of_mem_parts first).whole

theorem IsRoot.parts_eq {root rest : List String} {path : String} (isRoot : IsRoot root)
    (below : components path = root ++ rest) : Path.parts path = root.tail ++ rest := by
  rw [← isRoot.cons_tail, List.cons_append] at below
  exact parts_of_components below

theorem IsRoot.isPart_below {root rest : List String} {path : String} (isRoot : IsRoot root)
    (below : components path = root ++ rest) : ∀ part ∈ rest, IsPart part := by
  intro part member
  have inside : part ∈ Path.parts path := by
    rw [isRoot.parts_eq below]
    exact List.mem_append_right _ member
  exact isPart_of_mem_parts inside

end Path

end CodeGraph
