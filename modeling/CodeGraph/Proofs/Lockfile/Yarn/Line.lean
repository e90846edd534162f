import CodeGraph.Proofs.Lockfile
import CodeGraph.Proofs.Text
import Mathlib.Data.List.Basic

set_option autoImplicit false

namespace CodeGraph.Lockfile.Yarn

def enclosed (quoted : Bool) (text : List Char) : List Char :=
  if quoted then '"' :: (text ++ ['"']) else text

structure Written where
  text : String
  quoted : Bool := false
deriving DecidableEq, Repr

def Written.chars (written : Written) : List Char :=
  enclosed written.quoted written.text.toList

structure Descriptor where
  name : String
  range : String
  quoted : Bool := false
deriving DecidableEq, Repr

def Descriptor.chars (descriptor : Descriptor) : List Char :=
  enclosed descriptor.quoted (descriptor.name.toList ++ '@' :: descriptor.range.toList)

def header (descriptors : List Descriptor) : List Char :=
  Text.joinWith [',', ' '] (descriptors.map Descriptor.chars) ++ [':']

def indented (indent : Nat) (key value : Written) : List Char :=
  List.replicate indent ' ' ++ key.chars ++ ' ' :: value.chars

structure Descriptor.Formed (descriptor : Descriptor) : Prop where
  name : descriptor.name ≠ ""
  ascii : ∀ c ∈ descriptor.name.toList, c.toNat < 128
  no_comment : descriptor.name.toList.head? ≠ some '#'
  solid : ∀ c ∈ descriptor.name.toList, c ≠ ',' ∧ c ≠ '"' ∧ Text.isBlank c = false
  mark : '@' ∉ descriptor.name.toList.tail
  range : ∀ c ∈ descriptor.range.toList, c ≠ ',' ∧ c ≠ '"' ∧ c ≠ '\n'

structure Written.IsValue (written : Written) : Prop where
  text : written.text ≠ ""
  solid : ∀ c ∈ written.text.toList, c ≠ '"' ∧ Text.isBlank c = false

/-- A key that can stand without quotes. -/
def Written.IsBare (key : Written) : Prop :=
  key.text ≠ "" ∧ ∀ c ∈ key.text.toList, c ≠ ':' ∧ Text.isBlank c = false

def fieldNames : List String :=
  ["version", "integrity", "checksum", "resolved", "resolution"]

def withField (key value : String) (locked : LockedPackage) : LockedPackage :=
  match key with
  | "version" => { version := value }
  | "integrity" | "checksum" => { locked with integrity := some value }
  | "resolved" | "resolution" => { locked with resolved := some value }
  | _ => locked

/-- What stands behind a name on its line, as the value of a field. A colon with a blank behind it
would end the name of the field there. -/
def Written.value? (written : Written) : Option String :=
  let trimmed := Text.trim written.chars
  let bare := Text.trimBy isQuote trimmed
  if (Text.splitOnceAt [':', ' '] trimmed).isSome || bare.isEmpty then none
  else some (String.ofList bare)

theorem withField_of_notMem {key : String} (other : key ∉ fieldNames) (value : String)
    (locked : LockedPackage) : withField key value locked = locked := by
  unfold withField
  split <;> first | rfl | exact absurd (by decide) other

theorem field_of_notMem {key : String} (other : key ∉ fieldNames) (value : String)
    (state : YarnState) : state.field key value = state := by
  unfold YarnState.field
  split <;> first | rfl | exact absurd (by decide) other

theorem isLower_of_mem_fieldNames {key : String} (known : key ∈ fieldNames) {c : Char}
    (inside : c ∈ key.toList) : c.isLower = true := by
  have lower : fieldNames.all (fun key => key.toList.all Char.isLower) = true := by decide
  exact List.all_eq_true.mp (List.all_eq_true.mp lower key known) c inside

theorem notMem_fieldNames_of_mem {key : String} {c : Char} (inside : c ∈ key.toList)
    (other : c.isLower = false) : key ∉ fieldNames := fun known => by
  rw [isLower_of_mem_fieldNames known inside] at other
  cases other

theorem field_eq {state : YarnState} {locked : LockedPackage}
    (current : state.current = some locked) (key value : String) :
    state.field key value = { state with current := some (withField key value locked) } := by
  cases state
  subst current
  by_cases known : key ∈ fieldNames
  · simp only [fieldNames, List.mem_cons, List.not_mem_nil, or_false] at known
    rcases known with rfl | rfl | rfl | rfl | rfl <;> rfl
  · rw [field_of_notMem known, withField_of_notMem known]

theorem trimColons_append_cons {c : Char} (kept : c ≠ ':') (before after : List Char) :
    Text.trimEndBy (· == ':') (before ++ c :: after) =
      before ++ c :: Text.trimEndBy (· == ':') after :=
  Text.trimEndBy_append_cons (by simpa using kept) before after

theorem yarnField?_of_key {key rest : List Char} (clean : ':' ∉ key) (solid : ' ' ∉ key)
    (whole : Text.splitOnceAt [':', ' '] rest = none) :
    yarnField? (key ++ ' ' :: rest) =
      if (Text.trimBy isQuote (Text.trim rest)).isEmpty then none
      else some (String.ofList key, String.ofList (Text.trimBy isQuote (Text.trim rest))) := by
  have uncut : Text.splitOnceAt [':', ' '] (key ++ ' ' :: rest) = none := by
    have clean' : ':' ∉ key ++ [' '] := by simpa using clean
    rw [List.append_cons, Text.splitOnceAt_append clean', whole]
    rfl
  have bare : Text.trimEndBy (· == ':') key = key :=
    Text.trimEndBy_of_last fun c last => beq_eq_false_iff_ne.mpr fun same =>
      clean (same ▸ List.mem_of_mem_getLast? last)
  unfold yarnField?
  rw [uncut, Text.splitOnce_append_cons solid]
  simp only [Option.none_or, bind, Option.bind_some, bare]
  split <;> rfl

theorem key_of_yarnField? {text : List Char} {key value : String}
    (found : yarnField? text = some (key, value)) :
    ∃ parts, (Text.splitOnceAt [':', ' '] text).or (Text.splitOnce ' ' text) = some parts ∧
      key.toList = Text.trimEndBy (· == ':') parts.1 := by
  obtain ⟨parts, cut, rest⟩ := Option.bind_eq_some_iff.mp found
  refine ⟨parts, cut, ?_⟩
  dsimp only at rest
  split at rest
  · cases rest
  · cases rest
    exact String.toList_ofList

theorem head?_of_yarnField? {c : Char} {rest : List Char} {key value : String} (mark : c ≠ ':')
    (solid : c ≠ ' ') (found : yarnField? (c :: rest) = some (key, value)) :
    key.toList.head? = some c := by
  obtain ⟨parts, cut, same⟩ := key_of_yarnField? found
  have start : ∃ front, parts.1 = c :: front := by
    have clean : ':' ∉ [c] := by simpa using Ne.symm mark
    have cut_later := Text.splitOnceAt_append clean [' '] rest
    rw [List.singleton_append] at cut_later
    rw [cut_later, Text.splitOnce] at cut
    rcases Option.or_eq_some_iff.mp cut with first | ⟨-, second⟩
    · obtain ⟨later, -, rfl⟩ := Option.map_eq_some_iff.mp first
      exact ⟨later.1, rfl⟩
    · rw [if_neg (by simpa using solid)] at second
      obtain ⟨later, -, rfl⟩ := Option.map_eq_some_iff.mp second
      exact ⟨later.1, rfl⟩
  obtain ⟨front, starts⟩ := start
  rw [same, starts, ← List.nil_append (c :: front), trimColons_append_cons mark]
  rfl

/-- A colon with a blank behind it leaves an earlier blank in the key. -/
theorem mem_of_yarnField? {before rest : List Char} {key value : String} (clean : ':' ∉ before)
    (cut : (Text.splitOnceAt [':', ' '] rest).isSome)
    (found : yarnField? (before ++ ' ' :: rest) = some (key, value)) : ' ' ∈ key.toList := by
  obtain ⟨parts, split, same⟩ := key_of_yarnField? found
  obtain ⟨later, first⟩ := Option.isSome_iff_exists.mp cut
  have clean' : ':' ∉ before ++ [' '] := by simpa using clean
  rw [List.append_cons, Text.splitOnceAt_append clean', first] at split
  cases split
  dsimp only at same
  rw [same, List.append_assoc, List.singleton_append, trimColons_append_cons (by decide)]
  simp

def say (state : YarnState) (text : List Char) : YarnState :=
  if text.isEmpty || text.head? == some '#' then state
  else
    match yarnField? text with
    | some (key, value) => state.field key value
    | none => state

theorem line_of_blank (state : YarnState) {line : List Char} (start : line.head? = some ' ') :
    state.line (Text.withoutReturn line) = say state (Text.trim line) := by
  have same : Text.trim (Text.withoutReturn line) = Text.trim line :=
    Text.trimBy_withoutReturn (by decide) line
  have starts : (Text.withoutReturn line).head? = some ' ' := by
    obtain ⟨rest, rfl⟩ := List.head?_eq_some_iff.mp start
    unfold Text.withoutReturn
    cases rest with
    | nil => rfl
    | cons c rest => split <;> rfl
  unfold YarnState.line say
  rw [same, starts]
  rfl

theorem say_of_other {text : List Char}
    (other : ∀ key value, yarnField? text = some (key, value) → key ∉ fieldNames)
    (state : YarnState) : say state text = state := by
  unfold say
  split
  · rfl
  · split
    next key value found => exact field_of_notMem (other key value found) value state
    next => rfl

theorem say_of_quote (state : YarnState) (rest : List Char) : say state ('"' :: rest) = state := by
  refine say_of_other (fun key value found => ?_) state
  have start := head?_of_yarnField? (by decide) (by decide) found
  exact notMem_fieldNames_of_mem (List.mem_of_mem_head? start) (by decide)

section Key

variable {key before core after : List Char} (solid : key ≠ [])
  (bare : ∀ c ∈ key, c ≠ ':' ∧ Text.isBlank c = false)

include bare

theorem colon_notMem : ':' ∉ key := fun inside => (bare _ inside).1 rfl

theorem blank_notMem : ' ' ∉ key := fun inside => absurd (bare _ inside).2 (by decide)

theorem say_of_key_alone (state : YarnState) : say state key = state := by
  refine say_of_other (fun other text found => ?_) state
  obtain ⟨parts, cut, -⟩ := key_of_yarnField? found
  rw [Text.splitOnceAt_of_notMem (List.mem_cons_self ..) (colon_notMem bare),
    Text.splitOnce_of_notMem (blank_notMem bare)] at cut
  cases cut

include solid

theorem trim_key_append (blank : ∀ c ∈ after, Text.isBlank c = true) (full : core ≠ [])
    (last : ∀ c ∈ core.getLast?, Text.isBlank c = false) :
    Text.trim (key ++ ' ' :: (before ++ core ++ after)) = key ++ ' ' :: (before ++ core) := by
  have ends := Text.trimBy_append [] (key ++ ' ' :: (before ++ core)) after (by simp) blank
    (fun c start => ?_) (fun c ending => ?_)
  · rw [← ends]
    simp [Text.trim]
  · refine (bare c (List.mem_of_mem_head? ?_)).2
    rwa [List.head?_append_of_ne_nil _ solid] at start
  · refine last c ?_
    rwa [List.append_cons, ← List.append_assoc, List.getLast?_append_of_ne_nil _ full] at ending

theorem say_of_key (blank : ∀ c ∈ before, Text.isBlank c = true)
    (first : ∀ c ∈ core.head?, Text.isBlank c = false)
    (last : ∀ c ∈ core.getLast?, Text.isBlank c = false) (state : YarnState) :
    say state (key ++ ' ' :: (before ++ core)) =
      if (Text.splitOnceAt [':', ' '] core).isSome || (Text.trimBy isQuote core).isEmpty then state
      else state.field (String.ofList key) (String.ofList (Text.trimBy isQuote core)) := by
  have before_colon : ':' ∉ before := fun inside => absurd (blank _ inside) (by decide)
  have same_cut : (Text.splitOnceAt [':', ' '] (before ++ core)).isSome =
      (Text.splitOnceAt [':', ' '] core).isSome := by
    rw [Text.splitOnceAt_append before_colon, Option.isSome_map]
  -- A colon and a blank in the value move the cut behind it, so that the key is no field.
  by_cases cut : (Text.splitOnceAt [':', ' '] core).isSome
  · rw [cut, Bool.true_or, if_pos rfl]
    refine say_of_other (fun other text found => ?_) state
    have inside := mem_of_yarnField? (colon_notMem bare) (same_cut.trans cut) found
    exact notMem_fieldNames_of_mem inside (by decide)
  · have alone : Text.trim (before ++ core) = core := by
      simpa [Text.trim] using Text.trimBy_append before core [] blank (by simp) first last
    have uncut : Text.splitOnceAt [':', ' '] (before ++ core) = none := by
      simpa [Option.isSome_eq_false_iff] using same_cut.trans (Bool.eq_false_iff.mpr cut)
    have read := yarnField?_of_key (colon_notMem bare) (blank_notMem bare) uncut
    have head : (key ++ ' ' :: (before ++ core)).head? = key.head? :=
      List.head?_append_of_ne_nil _ solid
    have full : (key ++ ' ' :: (before ++ core)).isEmpty = false := by simp
    rw [say, read, alone, full, head, Bool.eq_false_iff.mpr cut]
    by_cases nothing : (Text.trimBy isQuote core).isEmpty
    · simp [nothing]
    · by_cases comment : key.head? = some '#'
      · have other : String.ofList key ∉ fieldNames := by
          refine notMem_fieldNames_of_mem (?_ : '#' ∈ _) (by decide)
          rw [String.toList_ofList]
          exact List.mem_of_mem_head? comment
        simp [nothing, comment, field_of_notMem other]
      · simp [nothing, comment]

theorem say_trim (value : Written) (state : YarnState) :
    say state (Text.trim (key ++ ' ' :: value.chars)) =
      match value.value? with
      | some text => state.field (String.ofList key) text
      | none => state := by
  obtain ⟨before, core, after, whole, trimmed, blank_before, blank_after, first, last⟩ :=
    Text.exists_trimBy Text.isBlank value.chars
  change Text.trim value.chars = core at trimmed
  rw [Written.value?, trimmed, whole]
  by_cases empty : core = []
  · subst empty
    have line : Text.trim (key ++ ' ' :: (before ++ [] ++ after)) = key := by
      refine Text.trimBy_append_of_kept (fun c inside => (bare c inside).2) fun c inside => ?_
      rw [List.append_nil, List.mem_cons, List.mem_append] at inside
      rcases inside with rfl | inside | inside
      · decide
      · exact blank_before c inside
      · exact blank_after c inside
    rw [line, say_of_key_alone bare]
    rfl
  · rw [trim_key_append solid bare blank_after empty last,
      say_of_key solid bare blank_before first last]
    split <;> rfl

end Key

theorem line_indented {indent : Nat} (deep : indent ≠ 0) {key : Written}
    (bare : key.quoted = false → key.IsBare) (value : Written) (state : YarnState) :
    state.line (Text.withoutReturn (indented indent key value)) =
      match if key.quoted then none else value.value? with
      | some text => state.field key.text text
      | none => state := by
  obtain ⟨more, rfl⟩ := Nat.exists_eq_succ_of_ne_zero deep
  have trimmed : Text.trim (indented (more + 1) key value) =
      Text.trim (key.chars ++ ' ' :: value.chars) := by
    unfold indented
    rw [List.append_assoc]
    refine Text.trimBy_append_of_drop (fun c inside => ?_) _
    rw [List.eq_of_mem_replicate inside]
    decide
  rw [line_of_blank state rfl, trimmed]
  cases quoted : key.quoted with
  | true =>
      have chars : key.chars = '"' :: (key.text.toList ++ ['"']) := by
        simp [Written.chars, enclosed, quoted]
      rw [chars, List.cons_append, Text.trim, Text.trimBy_cons (by decide)]
      exact say_of_quote state _
  | false =>
      obtain ⟨solid, kept⟩ := bare quoted
      have chars : key.chars = key.text.toList := by simp [Written.chars, enclosed, quoted]
      rw [chars, say_trim (by simpa using solid) kept, String.ofList_toList]
      rfl

theorem quotes : ∀ c ∈ ['"'], isQuote c = true :=
  List.forall_mem_singleton.mpr rfl

theorem value?_of_isValue {value : Written} (formed : value.IsValue) :
    value.value? = some value.text := by
  have no_quote : ∀ c ∈ value.text.toList, isQuote c = false := fun c inside =>
    beq_eq_false_iff_ne.mpr (formed.solid c inside).1
  have solid : ∀ c ∈ value.chars, Text.isBlank c = false := by
    intro c inside
    unfold Written.chars enclosed at inside
    split at inside
    · rw [List.mem_cons, List.mem_append, List.mem_singleton] at inside
      rcases inside with rfl | inside | rfl
      · decide
      · exact (formed.solid c inside).2
      · decide
    · exact (formed.solid c inside).2
  have trimmed : Text.trim value.chars = value.chars := Text.trimBy_of_kept solid
  have bare : Text.trimBy isQuote value.chars = value.text.toList := by
    unfold Written.chars enclosed
    split
    · exact Text.trimBy_append ['"'] value.text.toList ['"'] quotes quotes
        (fun c first => no_quote c (List.mem_of_mem_head? first))
        (fun c last => no_quote c (List.mem_of_mem_getLast? last))
    · exact Text.trimBy_of_kept no_quote
  have uncut : Text.splitOnceAt [':', ' '] value.chars = none :=
    Text.splitOnceAt_of_notMem (List.mem_cons_of_mem _ (List.mem_cons_self ..)) fun inside =>
      absurd (solid _ inside) (by decide)
  rw [Written.value?, trimmed, bare, uncut, String.ofList_toList]
  simp [formed.text]

def pieceName? (piece : List Char) : Option String :=
  descriptorName? (Text.trimBy isQuote (Text.trim piece))

theorem Descriptor.Formed.exists_cons {descriptor : Descriptor} (formed : descriptor.Formed) :
    ∃ c rest, descriptor.name.toList = c :: rest := by
  have solid : descriptor.name.toList ≠ [] := by simpa using formed.name
  exact List.exists_cons_of_ne_nil solid

theorem descriptorName?_of_formed {descriptor : Descriptor} (formed : descriptor.Formed)
    (range : List Char) :
    descriptorName? (descriptor.name.toList ++ '@' :: range) = some descriptor.name := by
  obtain ⟨c, rest, name⟩ := formed.exists_cons
  have mark := formed.mark
  have ascii := formed.ascii c (name ▸ List.mem_cons_self ..)
  rw [name, List.tail_cons] at mark
  rw [name, List.cons_append, descriptorName?, if_pos ascii, Text.splitOnce_append_cons mark,
    Option.map_some, ← name, String.ofList_toList]

theorem pieceName?_of_formed {descriptor : Descriptor} (formed : descriptor.Formed)
    {before range : List Char} (blank : ∀ c ∈ before, Text.isBlank c = true)
    (clean : '"' ∉ range) :
    pieceName? (before ++ enclosed descriptor.quoted (descriptor.name.toList ++ '@' :: range)) =
      some descriptor.name := by
  obtain ⟨c, rest, name⟩ := formed.exists_cons
  have no_quote : ∀ tail : List Char, '"' ∉ tail → ∀ c ∈ descriptor.name.toList ++ '@' :: tail,
      isQuote c = false := by
    intro tail clean c inside
    rw [List.mem_append, List.mem_cons] at inside
    refine beq_eq_false_iff_ne.mpr ?_
    rcases inside with inside | rfl | inside
    · exact (formed.solid c inside).2.1
    · decide
    · rintro rfl
      exact clean inside
  unfold pieceName?
  rw [Text.trim, Text.trimBy_append_of_drop blank]
  -- With quotes only they are cut off; without them blanks at the end of the range are.
  cases descriptor.quoted with
  | true =>
      have kept := no_quote range clean
      have trimmed : Text.trimBy Text.isBlank
          (enclosed true (descriptor.name.toList ++ '@' :: range)) =
            enclosed true (descriptor.name.toList ++ '@' :: range) := by
        rw [enclosed, if_pos rfl, Text.trimBy_cons (by decide),
          Text.trimEndBy_append_cons (by decide)]
        rfl
      have bare : Text.trimBy isQuote (enclosed true (descriptor.name.toList ++ '@' :: range)) =
          descriptor.name.toList ++ '@' :: range :=
        Text.trimBy_append ['"'] _ ['"'] quotes quotes
          (fun c first => kept c (List.mem_of_mem_head? first))
          (fun c last => kept c (List.mem_of_mem_getLast? last))
      rw [trimmed, bare, descriptorName?_of_formed formed]
  | false =>
      have first : Text.isBlank c = false := (formed.solid c (name ▸ List.mem_cons_self ..)).2.2
      have trimmed : Text.trimBy Text.isBlank
          (enclosed false (descriptor.name.toList ++ '@' :: range)) =
            descriptor.name.toList ++ '@' :: Text.trimEndBy Text.isBlank range := by
        rw [enclosed, if_neg Bool.false_ne_true, name, List.cons_append, Text.trimBy_cons first,
          Text.trimEndBy_append_cons (by decide)]
        rfl
      have short : '"' ∉ Text.trimEndBy Text.isBlank range := fun inside =>
        clean (Text.mem_of_mem_trimEndBy inside)
      have bare := Text.trimBy_of_kept (no_quote _ short)
      rw [trimmed, bare, descriptorName?_of_formed formed]

/-- The colons at the end of a header may take characters of the last range along. -/
theorem trimColons_chars {descriptor : Descriptor} (formed : descriptor.Formed)
    (before : List Char) :
    ∃ range : List Char, (∀ c ∈ range, c ≠ ',' ∧ c ≠ '"') ∧
      Text.trimEndBy (· == ':') (before ++ (descriptor.chars ++ [':'])) =
        before ++ enclosed descriptor.quoted (descriptor.name.toList ++ '@' :: range) := by
  unfold Descriptor.chars enclosed
  cases descriptor.quoted with
  | true =>
      refine ⟨descriptor.range.toList,
        fun c inside => ⟨(formed.range c inside).1, (formed.range c inside).2.1⟩, ?_⟩
      have ending := trimColons_append_cons (c := '"') (by decide)
        (before ++ '"' :: (descriptor.name.toList ++ '@' :: descriptor.range.toList)) [':']
      have nothing : Text.trimEndBy (· == ':') [':'] = [] := rfl
      simpa [nothing] using ending
  | false =>
      refine ⟨Text.trimEndBy (· == ':') (descriptor.range.toList ++ [':']), fun c inside => ?_, ?_⟩
      · rcases List.mem_append.mp (Text.mem_of_mem_trimEndBy inside) with written | colon
        · exact ⟨(formed.range c written).1, (formed.range c written).2.1⟩
        · rw [List.mem_singleton.mp colon]
          decide
      · have ending := trimColons_append_cons (c := '@') (by decide)
          (before ++ descriptor.name.toList) (descriptor.range.toList ++ [':'])
        simpa using ending

theorem splitOn_piece {descriptor : Descriptor} (formed : descriptor.Formed)
    {before range : List Char} (blank : ∀ c ∈ before, Text.isBlank c = true)
    (clean : ',' ∉ range) :
    Text.splitOn ',' (before ++
        enclosed descriptor.quoted (descriptor.name.toList ++ '@' :: range)) =
      [before ++ enclosed descriptor.quoted (descriptor.name.toList ++ '@' :: range)] := by
  have before_comma : ',' ∉ before := fun inside => absurd (blank _ inside) (by decide)
  have name : ',' ∉ descriptor.name.toList := fun inside => (formed.solid _ inside).1 rfl
  have piece : ',' ∉ before ++
      enclosed descriptor.quoted (descriptor.name.toList ++ '@' :: range) := by
    unfold enclosed
    split <;> simp [before_comma, name, clean]
  refine Text.splitBy_of_not_cut fun c inside => ?_
  rw [beq_eq_false_iff_ne]
  rintro rfl
  exact piece inside

theorem headerNames_header {descriptors : List Descriptor} (described : descriptors ≠ [])
    (formed : ∀ descriptor ∈ descriptors, descriptor.Formed) {before : List Char}
    (blank : ∀ c ∈ before, Text.isBlank c = true) :
    headerNames (before ++ header descriptors) = descriptors.map Descriptor.name := by
  change List.filterMap pieceName? (Text.splitOn ','
    (Text.trimEndBy (· == ':') (before ++ header descriptors))) = _
  -- Behind a comma stands a blank; that is what `before` is for in the induction.
  induction descriptors generalizing before with
  | nil => exact absurd rfl described
  | cons descriptor rest ih =>
      obtain ⟨first, later⟩ := List.forall_mem_cons.mp formed
      cases rest with
      | nil =>
          obtain ⟨range, kept, trimmed⟩ := trimColons_chars first before
          have name := pieceName?_of_formed first blank fun inside => (kept _ inside).2 rfl
          have cut := splitOn_piece first blank fun inside => (kept _ inside).1 rfl
          rw [header, List.map_singleton, Text.joinWith, trimmed, cut, List.filterMap_cons, name]
          rfl
      | cons second others =>
          have name := pieceName?_of_formed first blank fun inside => (first.range _ inside).2.1 rfl
          have cut := splitOn_piece first blank fun inside => (first.range _ inside).1 rfl
          have whole : before ++ header (descriptor :: second :: others) =
              before ++ descriptor.chars ++ ',' :: ([' '] ++ header (second :: others)) := by
            simp [header, Text.joinWith]
          have space : ∀ c ∈ [' '], Text.isBlank c = true := List.forall_mem_singleton.mpr rfl
          rw [whole, trimColons_append_cons (by decide), Text.splitOn_append, Descriptor.chars, cut,
            List.filterMap_append, ih (List.cons_ne_nil second others) later space,
            List.filterMap_cons, name]
          rfl

theorem header_starts {descriptors : List Descriptor} (described : descriptors ≠ [])
    (formed : ∀ descriptor ∈ descriptors, descriptor.Formed) :
    ∃ c rest, header descriptors = c :: rest ∧ c ≠ '#' ∧ Text.isBlank c = false := by
  obtain ⟨descriptor, others, rfl⟩ := List.exists_cons_of_ne_nil described
  have first := formed descriptor (List.mem_cons_self ..)
  have start : ∃ c rest, descriptor.chars = c :: rest ∧ c ≠ '#' ∧ Text.isBlank c = false := by
    obtain ⟨c, rest, name⟩ := first.exists_cons
    unfold Descriptor.chars enclosed
    cases descriptor.quoted with
    | true => exact ⟨'"', _, rfl, by decide, by decide⟩
    | false =>
        refine ⟨c, rest ++ '@' :: descriptor.range.toList, by simp [name], fun comment => ?_, ?_⟩
        · exact first.no_comment (by simp [name, comment])
        · exact (first.solid c (name ▸ List.mem_cons_self ..)).2.2
  obtain ⟨c, rest, chars, other, kept⟩ := start
  unfold header
  cases others with
  | nil => exact ⟨c, rest ++ [':'], by simp [Text.joinWith, chars], other, kept⟩
  | cons second others =>
      refine ⟨c, rest ++ [',', ' '] ++ header (second :: others), ?_, other, kept⟩
      simp [header, Text.joinWith, chars]

theorem line_header {descriptors : List Descriptor} (described : descriptors ≠ [])
    (formed : ∀ descriptor ∈ descriptors, descriptor.Formed) (state : YarnState) :
    state.line (Text.withoutReturn (header descriptors)) =
      { state.flush with names := descriptors.map Descriptor.name } := by
  have whole : Text.withoutReturn (header descriptors) = header descriptors := by
    simp [Text.withoutReturn, header]
  have nothing : ∀ c ∈ ([] : List Char), Text.isBlank c = true := by simp
  have names : headerNames (header descriptors) = descriptors.map Descriptor.name :=
    headerNames_header described formed nothing
  obtain ⟨c, rest, written, other, kept⟩ := header_starts described formed
  have solid : c ≠ ' ' := by
    rintro rfl
    exact absurd kept (by decide)
  unfold YarnState.line
  rw [whole, names, written, Text.trim, Text.trimBy_cons kept]
  simp [other, solid]

end CodeGraph.Lockfile.Yarn
