import CodeGraph.Proofs.Path
import Mathlib.Data.List.TakeWhile

/-!
Lines, cut and trimmed texts: what is written line by line is read as these lines, a text is cut
behind what has no mark in it, and trimming takes off what stands around a text whose ends stay.
The lines of a text are the same whether its characters are counted or its bytes.
-/

set_option autoImplicit false

namespace CodeGraph.Text

variable {drop : Char → Bool} {text before after : List Char} {c : Char}

def withoutReturn (line : List Char) : List Char :=
  if line.getLast? == some '\r' then line.dropLast else line

theorem splitOn_flatMap_concat {separator : Char} {pieces : List (List Char)}
    (whole : ∀ piece ∈ pieces, separator ∉ piece) :
    splitOn separator (pieces.flatMap (· ++ [separator])) = pieces ++ [[]] := by
  induction pieces with
  | nil => rfl
  | cons piece rest ih =>
      obtain ⟨clean, later⟩ := List.forall_mem_cons.mp whole
      have alone : splitOn separator piece = [piece] := by
        refine splitBy_of_not_cut fun c inside => ?_
        rw [beq_eq_false_iff_ne]
        rintro rfl
        exact clean inside
      rw [List.flatMap_cons, List.append_assoc, List.singleton_append, splitOn_append, alone,
        ih later]
      rfl

theorem lines_flatMap_concat {written : List (List Char)} (whole : ∀ line ∈ written, '\n' ∉ line) :
    lines (written.flatMap (· ++ ['\n'])) = written.map withoutReturn := by
  unfold lines
  rw [splitOn_flatMap_concat whole]
  simp [withoutReturn]

theorem length_splitOn_newline (text : List Char) :
    (splitOn '\n' text).length = newlines text + 1 := by
  unfold splitOn newlines
  induction text with
  | nil => rfl
  | cons c rest ih =>
      rw [splitBy, List.countP_cons]
      split
      · rw [List.length_cons, ih]
      · cases pieces : splitBy (fun c => c == '\n') rest with
        | nil => exact absurd pieces (splitBy_ne_nil _ rest)
        | cons piece others =>
            rw [pieces] at ih
            simpa using ih

theorem getLast?_splitBy_concat (cut : Char → Bool) {last : Char} (kept : cut last = false)
    (front : List Char) :
    ∃ piece, (splitBy cut (front ++ [last])).getLast? = some (piece ++ [last]) := by
  induction front with
  | nil => exact ⟨[], by simp [splitBy, kept]⟩
  | cons c rest ih =>
      obtain ⟨piece, found⟩ := ih
      rw [List.cons_append, splitBy]
      split
      · exact ⟨piece, by rw [List.getLast?_cons, found, Option.getD_some]⟩
      · cases pieces : splitBy cut (rest ++ [last]) with
        | nil => exact absurd pieces (splitBy_ne_nil cut _)
        | cons head others =>
            rw [pieces, List.getLast?_cons] at found
            simp only [List.getLast?_cons]
            cases ending : others.getLast? with
            | none =>
                rw [ending] at found
                exact ⟨c :: piece, by simpa using found⟩
            | some other =>
                rw [ending] at found
                exact ⟨piece, found⟩

/-- A text has as many lines as breaks before its last character, and one more. -/
theorem max_length_lines (text : List Char) :
    max 1 (lines text).length = newlines text.dropLast + 1 := by
  rcases List.eq_nil_or_concat text with rfl | ⟨front, last, rfl⟩
  · rfl
  · rw [List.concat_eq_append, List.dropLast_concat]
    by_cases broken : last = '\n'
    · have pieces : splitOn '\n' (front ++ [last]) = splitOn '\n' front ++ [[]] := by
        rw [broken, splitOn_append]
        rfl
      have length := length_splitOn_newline front
      simp [lines, pieces, length]
    · have kept : (last == '\n') = false := beq_false_of_ne broken
      obtain ⟨piece, ending⟩ := getLast?_splitBy_concat (· == '\n') kept front
      have length := length_splitOn_newline (front ++ [last])
      rw [newlines, List.countP_append, List.countP_singleton, kept] at length
      change (splitOn '\n' (front ++ [last])).length = newlines front + 0 + 1 at length
      have counted : (lines (front ++ [last])).length =
          (splitOn '\n' (front ++ [last])).length - 1 + 1 := by
        simp only [lines, splitOn, ending]
        cases piece <;> simp
      omega

theorem take_append_drop_take (text : List Char) {start stop : Nat} (ordered : start ≤ stop) :
    text.take start ++ (text.take stop).drop start = text.take stop := by
  have front : (text.take stop).take start = text.take start := by
    rw [List.take_take, Nat.min_eq_left ordered]
  rw [← front, List.take_append_drop]

theorem newlines_take_of_le (text : List Char) {start stop : Nat} (ordered : start ≤ stop) :
    newlines (text.take stop) =
      newlines (text.take start) + newlines ((text.take stop).drop start) := by
  rw [newlines, newlines, newlines, ← List.countP_append, take_append_drop_take text ordered]

def innerNewlines (text : List Char) : Nat :=
  newlines (if text.getLast? = some '\n' then text.dropLast else text)

theorem innerNewlines_eq (text : List Char) : innerNewlines text = newlines text.dropLast := by
  unfold innerNewlines
  split
  · rfl
  next other =>
    rcases List.eq_nil_or_concat text with rfl | ⟨front, last, rfl⟩
    · rfl
    · rw [List.concat_eq_append, List.getLast?_concat, Option.some.injEq] at other
      rw [List.concat_eq_append, List.dropLast_concat, newlines, newlines, List.countP_append,
        List.countP_singleton, beq_false_of_ne other]
      rfl

/-- Up to the last character of a range there are the breaks above the range and those in it. -/
theorem newlines_up_to_last {text : List Char} {start stop : Nat} (ordered : start ≤ stop)
    (inside : stop ≤ text.length) :
    newlines (text.take (max (stop - 1) start)) =
      newlines (text.take start) + innerNewlines ((text.take stop).drop start) := by
  rcases Nat.eq_or_lt_of_le ordered with rfl | filled
  · have nothing : (text.take start).drop start = [] :=
      List.drop_eq_nil_of_le (List.length_take_le _ _)
    rw [Nat.max_eq_right (Nat.sub_le _ _), nothing]
    rfl
  · have shorter : ((text.take stop).drop start).dropLast = (text.take (stop - 1)).drop start := by
      rw [List.dropLast_eq_take, List.drop_take, List.drop_take, List.take_take, List.length_take,
        List.length_drop]
      congr 1
      omega
    rw [Nat.max_eq_left (by omega), newlines_take_of_le text (Nat.le_sub_one_of_lt filled),
      innerNewlines_eq, shorter]

theorem joinWith_toList (separator : String) (pieces : List String) :
    joinWith separator.toList (pieces.map String.toList) =
      (separator.intercalate pieces).toList := by
  induction pieces with
  | nil => simp [joinWith]
  | cons first rest ih =>
      cases rest with
      | nil => simp [joinWith]
      | cons second others =>
          rw [String.intercalate_cons_cons, String.toList_append, ← ih]
          simp [joinWith]

variable {separator first : Char} {mark : List Char}

theorem splitOnce_append_cons (clean : separator ∉ before) (after : List Char) :
    splitOnce separator (before ++ separator :: after) = some (before, after) := by
  induction before with
  | nil => simp [splitOnce]
  | cons c rest ih =>
      rw [List.mem_cons, not_or] at clean
      simp [splitOnce, Ne.symm clean.1, ih clean.2]

theorem splitOnce_of_notMem (clean : separator ∉ text) : splitOnce separator text = none := by
  induction text with
  | nil => rfl
  | cons c rest ih =>
      rw [List.mem_cons, not_or] at clean
      simp [splitOnce, Ne.symm clean.1, ih clean.2]

theorem splitOnce_eq_some_iff : splitOnce separator text = some (before, after) ↔
    text = before ++ separator :: after ∧ separator ∉ before := by
  constructor
  · intro split
    induction text generalizing before with
    | nil => cases split
    | cons c rest ih =>
        rw [splitOnce] at split
        split at split
        next same =>
          cases split
          exact ⟨by rw [beq_iff_eq.mp same, List.nil_append], List.not_mem_nil⟩
        next differ =>
          obtain ⟨parts, later, same⟩ := Option.map_eq_some_iff.mp split
          cases same
          obtain ⟨rfl, clean⟩ := ih later
          refine ⟨rfl, ?_⟩
          rw [List.mem_cons, not_or]
          exact ⟨fun same => differ (by simp [same]), clean⟩
  · rintro ⟨rfl, clean⟩
    exact splitOnce_append_cons clean after

theorem splitOnce_eq_none_iff : splitOnce separator text = none ↔ separator ∉ text := by
  refine ⟨fun whole inside => ?_, splitOnce_of_notMem⟩
  obtain ⟨before, after, rfl, clean⟩ := List.eq_append_cons_of_mem inside
  rw [splitOnce_append_cons clean] at whole
  cases whole

theorem splitLast_eq_some_iff : splitLast separator text = some (before, after) ↔
    text = before ++ separator :: after ∧ separator ∉ after := by
  have split : splitLast separator text = some (before, after) ↔
      splitOnce separator text.reverse = some (after.reverse, before.reverse) := by
    rw [splitLast, Option.map_eq_some_iff]
    constructor
    · rintro ⟨parts, found, same⟩
      cases same
      rw [found, List.reverse_reverse, List.reverse_reverse]
    · intro found
      exact ⟨_, found, by simp⟩
  rw [split, splitOnce_eq_some_iff, List.reverse_eq_iff]
  simp

theorem splitLast_eq_none_iff : splitLast separator text = none ↔ separator ∉ text := by
  rw [splitLast, Option.map_eq_none_iff, splitOnce_eq_none_iff, List.mem_reverse]

theorem stripStart?_eq_some_iff : stripStart? mark text = some after ↔ text = mark ++ after := by
  constructor
  · intro stripped
    induction mark generalizing text with
    | nil => exact Option.some.inj stripped
    | cons c rest ih =>
        cases text with
        | nil => cases stripped
        | cons d others =>
            rw [stripStart?] at stripped
            split at stripped
            next same => rw [beq_iff_eq.mp same, ih stripped, List.cons_append]
            next => cases stripped
  · rintro rfl
    exact stripStart?_append mark after

theorem stripEnd?_eq_some_iff : stripEnd? mark text = some before ↔ text = before ++ mark := by
  rw [stripEnd?, Option.map_eq_some_iff]
  constructor
  · rintro ⟨rest, stripped, rfl⟩
    simpa using congrArg List.reverse (stripStart?_eq_some_iff.mp stripped)
  · rintro rfl
    exact ⟨before.reverse, stripStart?_eq_some_iff.mpr (by simp), by simp⟩

theorem splitOnceAt_append (clean : first ∉ before) (mark text : List Char) :
    splitOnceAt (first :: mark) (before ++ text) =
      (splitOnceAt (first :: mark) text).map (fun parts => (before ++ parts.1, parts.2)) := by
  induction before with
  | nil => simp
  | cons c rest ih =>
      rw [List.mem_cons, not_or] at clean
      simp [splitOnceAt, stripStart?, clean.1, ih clean.2, Function.comp_def]

theorem stripStart?_of_notMem (inside : c ∈ mark) (clean : c ∉ text) :
    stripStart? mark text = none := by
  induction mark generalizing text with
  | nil => cases inside
  | cons d rest ih =>
      cases text with
      | nil => rfl
      | cons e others =>
          rw [List.mem_cons, not_or] at clean
          rcases List.mem_cons.mp inside with rfl | later
          · simp [stripStart?, clean.1]
          · simp [stripStart?, ih later clean.2]

theorem splitOnceAt_of_notMem (inside : c ∈ mark) (clean : c ∉ text) :
    splitOnceAt mark text = none := by
  induction text with
  | nil => rw [splitOnceAt, stripStart?_of_notMem inside clean, Option.map_none]
  | cons d rest ih =>
      rw [splitOnceAt, stripStart?_of_notMem inside clean, ih fun later =>
        clean (List.mem_cons_of_mem _ later)]
      rfl

theorem trimEndBy_append_cons (kept : drop c = false) (before after : List Char) :
    trimEndBy drop (before ++ c :: after) = before ++ c :: trimEndBy drop after := by
  unfold trimEndBy
  rw [List.reverse_append, List.reverse_cons, List.append_assoc, List.dropWhile_append]
  split
  next gone =>
    rw [List.isEmpty_iff] at gone
    simp [gone, kept]
  next => simp

theorem trimEndBy_append_of_drop (gone : ∀ c ∈ after, drop c = true) (text : List Char) :
    trimEndBy drop (text ++ after) = trimEndBy drop text := by
  unfold trimEndBy
  rw [List.reverse_append, List.dropWhile_append_of_pos]
  simpa using gone

theorem trimEndBy_of_last (last : ∀ c ∈ text.getLast?, drop c = false) :
    trimEndBy drop text = text := by
  rcases List.eq_nil_or_concat text with rfl | ⟨front, c, rfl⟩
  · rfl
  · rw [List.concat_eq_append] at last ⊢
    rw [trimEndBy_append_cons (last c (by simp))]
    rfl

theorem trimStartBy_append_of_drop (gone : ∀ c ∈ before, drop c = true) (text : List Char) :
    trimStartBy drop (before ++ text) = trimStartBy drop text :=
  List.dropWhile_append_of_pos gone

theorem trimStartBy_of_head (first : ∀ c ∈ text.head?, drop c = false) :
    trimStartBy drop text = text := by
  cases text with
  | nil => rfl
  | cons c rest => simp [trimStartBy, first c rfl]

theorem mem_of_mem_trimEndBy (inside : c ∈ trimEndBy drop text) : c ∈ text :=
  List.mem_reverse.mp ((List.dropWhile_sublist drop).mem (List.mem_reverse.mp inside))

theorem trimBy_append_of_drop (gone : ∀ c ∈ before, drop c = true) (text : List Char) :
    trimBy drop (before ++ text) = trimBy drop text := by
  rw [trimBy, trimStartBy_append_of_drop gone, trimBy]

theorem trimBy_cons (kept : drop c = false) (rest : List Char) :
    trimBy drop (c :: rest) = c :: trimEndBy drop rest := by
  rw [trimBy, trimStartBy_of_head (by simpa using kept)]
  exact trimEndBy_append_cons kept [] rest

theorem trimBy_append (before text after : List Char) (gone_before : ∀ c ∈ before, drop c = true)
    (gone_after : ∀ c ∈ after, drop c = true) (first : ∀ c ∈ text.head?, drop c = false)
    (last : ∀ c ∈ text.getLast?, drop c = false) :
    trimBy drop (before ++ text ++ after) = text := by
  unfold trimBy
  rw [List.append_assoc, trimStartBy_append_of_drop gone_before]
  cases text with
  | nil =>
      have nothing : trimStartBy drop after = [] := List.dropWhile_eq_nil_iff.mpr gone_after
      rw [List.nil_append, nothing]
      rfl
  | cons c rest =>
      rw [trimStartBy_of_head (by simpa using first c rfl), trimEndBy_append_of_drop gone_after,
        trimEndBy_of_last last]

theorem trimBy_append_of_kept (kept : ∀ c ∈ text, drop c = false)
    (gone : ∀ c ∈ after, drop c = true) : trimBy drop (text ++ after) = text := by
  have trimmed := trimBy_append [] text after (by simp) gone
    (fun c first => kept c (List.mem_of_mem_head? first))
    (fun c last => kept c (List.mem_of_mem_getLast? last))
  rwa [List.nil_append] at trimmed

theorem trimBy_of_kept (kept : ∀ c ∈ text, drop c = false) : trimBy drop text = text := by
  have nothing : ∀ c ∈ ([] : List Char), drop c = true := by simp
  simpa using trimBy_append_of_kept kept nothing

theorem not_drop_of_head?_dropWhile {first : Char}
    (found : (text.dropWhile drop).head? = some first) : drop first = false := by
  have kept := List.head?_dropWhile_not drop text
  rwa [found] at kept

theorem exists_trimBy (drop : Char → Bool) (text : List Char) :
    ∃ before core after, text = before ++ core ++ after ∧ trimBy drop text = core ∧
      (∀ c ∈ before, drop c = true) ∧ (∀ c ∈ after, drop c = true) ∧
      (∀ c ∈ core.head?, drop c = false) ∧ (∀ c ∈ core.getLast?, drop c = false) := by
  have start := List.takeWhile_append_dropWhile (p := drop) (l := text)
  have ending := congrArg List.reverse
    (List.takeWhile_append_dropWhile (p := drop) (l := (text.dropWhile drop).reverse))
  rw [List.reverse_append, List.reverse_reverse] at ending
  refine ⟨text.takeWhile drop, trimBy drop text,
    ((text.dropWhile drop).reverse.takeWhile drop).reverse, ?_, rfl, ?_, ?_, ?_, ?_⟩
  · rw [List.append_assoc, trimBy, trimEndBy, trimStartBy, ending, start]
  · intro c inside
    exact List.mem_takeWhile_imp inside
  · intro c inside
    exact List.mem_takeWhile_imp (List.mem_reverse.mp inside)
  · intro c first
    refine not_drop_of_head?_dropWhile (?_ : (text.dropWhile drop).head? = some c)
    rw [← ending, List.head?_append]
    rw [Option.mem_def, trimBy, trimEndBy, trimStartBy] at first
    rw [first, Option.some_or]
  · intro c last
    rw [Option.mem_def, trimBy, trimEndBy, List.getLast?_reverse] at last
    exact not_drop_of_head?_dropWhile last

theorem trimBy_eq_nil_iff : trimBy drop text = [] ↔ ∀ c ∈ text, drop c = true := by
  constructor
  · intro gone
    obtain ⟨before, core, after, rfl, trimmed, gone_before, gone_after, -, -⟩ :=
      exists_trimBy drop text
    obtain rfl : core = [] := trimmed.symm.trans gone
    simpa [or_imp, forall_and] using ⟨gone_before, gone_after⟩
  · intro gone
    have nothing : trimStartBy drop text = [] := List.dropWhile_eq_nil_iff.mpr gone
    rw [trimBy, nothing]
    rfl

theorem trimBy_withoutReturn (gone : drop '\r' = true) (line : List Char) :
    trimBy drop (withoutReturn line) = trimBy drop line := by
  unfold withoutReturn
  split
  next returned =>
    obtain ⟨front, rfl⟩ := List.getLast?_eq_some_iff.mp (by simpa using returned)
    obtain ⟨before, core, after, rfl, trimmed, gone_before, gone_after, first, last⟩ :=
      exists_trimBy drop front
    have longer : ∀ c ∈ after ++ ['\r'], drop c = true := by
      simpa [or_imp, forall_and, gone] using gone_after
    rw [List.dropLast_concat, trimmed, List.append_assoc,
      trimBy_append before core _ gone_before longer first last]
  next => rfl

theorem bytes_eq_flatMap (text : String) :
    bytes text = text.toList.flatMap String.utf8EncodeChar := by
  obtain ⟨chars, rfl⟩ := text.exists_eq_ofList
  rw [bytes, String.toUTF8_eq_toByteArray, String.toByteArray_ofList, String.toList_ofList,
    List.utf8Encode, List.data_toByteArray]

theorem utf8EncodeChar_of_lt {c : Char} (ascii : c.toNat < 128) :
    String.utf8EncodeChar c = [UInt8.ofNat c.toNat] := by
  unfold String.utf8EncodeChar
  exact if_pos (Nat.le_of_lt_succ ascii)

theorem utf8EncodeChar_ne_nil (c : Char) : String.utf8EncodeChar c ≠ [] :=
  List.ne_nil_of_length_pos (String.length_utf8EncodeChar c ▸ c.utf8Size_pos)

/-- No byte of a character outside of ASCII is in ASCII. -/
theorem le_of_mem_utf8EncodeChar {c : Char} (far : 128 ≤ c.toNat) {byte : UInt8}
    (inside : byte ∈ String.utf8EncodeChar c) : 128 ≤ byte.toNat := by
  have high (code : Nat) (large : 128 ≤ code) (fits : code < 256) :
      128 ≤ (UInt8.ofNat code).toNat := by
    rwa [UInt8.toNat_ofNat_of_lt' fits]
  change 128 ≤ c.val.toNat at far
  simp only [String.utf8EncodeChar, if_neg (show ¬c.val.toNat ≤ 127 by omega)] at inside
  split at inside
  · simp only [List.mem_cons, List.not_mem_nil, or_false] at inside
    rcases inside with rfl | rfl <;> exact high _ (by omega) (by omega)
  split at inside
  · simp only [List.mem_cons, List.not_mem_nil, or_false] at inside
    rcases inside with rfl | rfl | rfl <;> exact high _ (by omega) (by omega)
  · simp only [List.mem_cons, List.not_mem_nil, or_false] at inside
    rcases inside with rfl | rfl | rfl | rfl <;> exact high _ (by omega) (by omega)

theorem count_utf8EncodeChar_of_le {c : Char} (far : 128 ≤ c.toNat) :
    (String.utf8EncodeChar c).count 10 = 0 :=
  List.count_eq_zero.mpr fun inside => absurd (le_of_mem_utf8EncodeChar far inside) (by decide)

theorem count_utf8EncodeChar (c : Char) :
    (String.utf8EncodeChar c).count 10 = if c = '\n' then 1 else 0 := by
  by_cases ascii : c.toNat < 128
  · have fits : c.toNat < 256 := by omega
    rw [utf8EncodeChar_of_lt ascii, List.count_singleton]
    simp only [beq_iff_eq, ← UInt8.toNat_inj, UInt8.toNat_ofNat_of_lt' fits, ← Char.toNat_inj]
    rfl
  · have other : c ≠ '\n' := by
      rintro rfl
      exact ascii (by decide)
    rw [count_utf8EncodeChar_of_le (Nat.le_of_not_lt ascii), if_neg other]

theorem count_dropLast_utf8EncodeChar (c : Char) :
    (String.utf8EncodeChar c).dropLast.count 10 = 0 := by
  by_cases ascii : c.toNat < 128
  · rw [utf8EncodeChar_of_lt ascii]
    rfl
  · have none := count_utf8EncodeChar_of_le (Nat.le_of_not_lt ascii)
    exact Nat.le_zero.mp (none ▸ (List.dropLast_sublist _).count_le 10)

/-- The breaks of a text are bytes of their own, and no part of another character looks like one. -/
theorem count_flatMap_utf8EncodeChar (text : List Char) :
    (text.flatMap String.utf8EncodeChar).count 10 = newlines text := by
  induction text with
  | nil => rfl
  | cons c rest ih =>
      rw [List.flatMap_cons, List.count_append, ih, count_utf8EncodeChar, newlines, newlines,
        List.countP_cons, Nat.add_comm]
      simp only [beq_iff_eq]

def byteOffset (text : String) (position : Nat) : Nat :=
  (bytes (String.ofList (text.toList.take position))).length

def lineOfByte (text : String) (byte : Nat) : Nat :=
  ((bytes text).take byte).count 10 + 1

section Offset

variable {text : String} {position stop : Nat}

theorem byteOffset_eq (text : String) (position : Nat) :
    byteOffset text position =
      ((text.toList.take position).flatMap String.utf8EncodeChar).length := by
  rw [byteOffset, bytes_eq_flatMap, String.toList_ofList]

theorem take_byteOffset (text : String) (position : Nat) :
    (bytes text).take (byteOffset text position) =
      (text.toList.take position).flatMap String.utf8EncodeChar := by
  have split := congrArg (List.flatMap String.utf8EncodeChar)
    (List.take_append_drop position text.toList)
  rw [List.flatMap_append] at split
  rw [bytes_eq_flatMap, byteOffset_eq, ← split, List.take_left]

theorem flatMap_take_of_le (text : String) (ordered : position ≤ stop) :
    (text.toList.take stop).flatMap String.utf8EncodeChar =
      (text.toList.take position).flatMap String.utf8EncodeChar ++
        ((text.toList.take stop).drop position).flatMap String.utf8EncodeChar := by
  rw [← List.flatMap_append, take_append_drop_take _ ordered]

theorem byteOffset_mono (text : String) (ordered : position ≤ stop) :
    byteOffset text position ≤ byteOffset text stop := by
  rw [byteOffset_eq, byteOffset_eq, flatMap_take_of_le text ordered, List.length_append]
  exact Nat.le_add_right _ _

theorem bytes_range (text : String) (ordered : position ≤ stop) :
    bytes (String.ofList ((text.toList.take stop).drop position)) =
      ((bytes text).take (byteOffset text stop)).drop (byteOffset text position) := by
  rw [take_byteOffset, flatMap_take_of_le text ordered, byteOffset_eq, List.drop_left,
    bytes_eq_flatMap, String.toList_ofList]

theorem lineOfByte_byteOffset (text : String) (position : Nat) :
    lineOfByte text (byteOffset text position) = newlines (text.toList.take position) + 1 := by
  rw [lineOfByte, take_byteOffset, count_flatMap_utf8EncodeChar]

theorem lineOfByte_pred (inside : position < text.toList.length) :
    byteOffset text position < byteOffset text (position + 1) ∧
    lineOfByte text (byteOffset text (position + 1) - 1) =
      newlines (text.toList.take position) + 1 := by
  -- A break is a byte of its own, so the bytes before the last one of a character hold none.
  let code := String.utf8EncodeChar text.toList[position]
  have written : code ≠ [] := utf8EncodeChar_ne_nil _
  have encoded : (text.toList.take (position + 1)).flatMap String.utf8EncodeChar =
      (text.toList.take position).flatMap String.utf8EncodeChar ++ code := by
    rw [List.take_add_one, List.getElem?_eq_getElem inside, Option.toList_some,
      List.flatMap_append, List.flatMap_singleton]
  have front : (bytes text).take (byteOffset text (position + 1) - 1) =
      (text.toList.take position).flatMap String.utf8EncodeChar ++ code.dropLast := by
    rw [← Nat.min_eq_left (Nat.sub_le (byteOffset text (position + 1)) 1), ← List.take_take,
      take_byteOffset, byteOffset_eq, ← List.dropLast_eq_take, encoded,
      List.dropLast_append_of_ne_nil written]
  refine ⟨?_, ?_⟩
  · rw [byteOffset_eq, byteOffset_eq, encoded, List.length_append]
    exact Nat.lt_add_of_pos_right (List.length_pos_iff.mpr written)
  · rw [lineOfByte, front, List.count_append, count_flatMap_utf8EncodeChar,
      count_dropLast_utf8EncodeChar, Nat.add_zero]

end Offset

end CodeGraph.Text
