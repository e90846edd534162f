import CodeGraph.Proofs.Text

/-!
Searching a text by its bytes. The bytes of a text that is not empty are found only where the text
itself stands, so no find starts or ends inside a character. Every place where the text stands is
found, unless it overlaps a find in front of it.
-/

set_option autoImplicit false

namespace CodeGraph.Text

variable {text part before after : String} {position : Nat}

theorem bytes_append (before after : String) :
    bytes (before ++ after) = bytes before ++ bytes after := by
  rw [bytes_eq_flatMap, String.toList_append, List.flatMap_append, ← bytes_eq_flatMap,
    ← bytes_eq_flatMap]

theorem bytes_inj : bytes text = bytes part ↔ text = part := by
  constructor
  · intro same
    exact String.toByteArray_inj.mp (ByteArray.ext (Array.toList_inj.mp same))
  · exact congrArg bytes

theorem length_bytes (text : String) : (bytes text).length = text.utf8ByteSize :=
  rfl

theorem isValid_iff : String.Pos.Raw.IsValid text ⟨position⟩ ↔
    ∃ before after, text = before ++ after ∧ before.utf8ByteSize = position := by
  rw [String.Pos.Raw.isValid_iff_exists_append]
  refine exists₂_congr fun before after => and_congr_right fun _ => ?_
  rw [String.Pos.Raw.ext_iff, eq_comm]
  rfl

theorem before?_append (before after : String) :
    before? (before ++ after) before.utf8ByteSize = some before := by
  have boundary : String.Pos.Raw.IsValid (before ++ after) ⟨before.utf8ByteSize⟩ :=
    isValid_iff.mpr ⟨before, after, rfl, rfl⟩
  rw [before?, dif_pos boundary, Option.some.injEq, ← String.toByteArray_inj,
    String.toByteArray_extract, String.toByteArray_append]
  exact ByteArray.extract_append_eq_left rfl

theorem after?_append (before after : String) :
    after? (before ++ after) before.utf8ByteSize = some after := by
  have boundary : String.Pos.Raw.IsValid (before ++ after) ⟨before.utf8ByteSize⟩ :=
    isValid_iff.mpr ⟨before, after, rfl, rfl⟩
  rw [after?, dif_pos boundary, Option.some.injEq, ← String.toByteArray_inj,
    String.toByteArray_extract, String.toByteArray_append]
  exact ByteArray.extract_append_eq_right rfl String.utf8ByteSize_append

theorem utf8ByteSize_pos (solid : part ≠ "") : 0 < part.utf8ByteSize := by
  rw [Nat.pos_iff_ne_zero]
  exact fun zero => solid (String.utf8ByteSize_eq_zero_iff.mp zero)

theorem exists_of_bytes_eq {front back : List UInt8} (solid : part ≠ "")
    (split : bytes text = front ++ bytes part ++ back) :
    ∃ before after, text = before ++ part ++ after ∧ bytes before = front := by
  have inside : front.length + part.utf8ByteSize ≤ text.utf8ByteSize := by
    rw [← length_bytes text, split, ← length_bytes part, List.length_append, List.length_append]
    exact Nat.le_add_right _ _
  have size := utf8ByteSize_pos solid
  have range : text.toByteArray.extract front.length (front.length + part.utf8ByteSize) =
      part.toByteArray := by
    apply ByteArray.ext
    apply Array.toList_inj.mp
    change _ = bytes part
    rw [ByteArray.data_extract, Array.toList_extract, List.extract_eq_take_drop]
    change ((bytes text).drop front.length).take _ = bytes part
    rw [split, List.append_assoc, List.drop_left, Nat.add_sub_cancel_left, ← length_bytes part,
      List.take_left]
  have valid := part.isValidUTF8
  rw [← range, String.Pos.Raw.isValidUTF8_extract_iff ⟨front.length⟩
    ⟨front.length + part.utf8ByteSize⟩ (Nat.le_add_right _ _) inside] at valid
  have differ : (⟨front.length⟩ : String.Pos.Raw) ≠ ⟨front.length + part.utf8ByteSize⟩ := by
    intro same
    have := congrArg String.Pos.Raw.byteIdx same
    simp only at this
    omega
  obtain ⟨start, stop⟩ := valid.resolve_left differ
  obtain ⟨before, rest, cut, start⟩ := isValid_iff.mp start
  obtain ⟨upTo, after, cut', stop⟩ := isValid_iff.mp stop
  -- Both cuts are cuts of the same bytes.
  have first : bytes before = front := by
    rw [cut, bytes_append, List.append_assoc] at split
    exact (List.append_inj split start).1
  have last : bytes after = back := by
    rw [cut', bytes_append] at split
    refine (List.append_inj split ?_).2
    rw [length_bytes, stop, List.length_append, length_bytes]
  refine ⟨before, after, bytes_inj.mp ?_, first⟩
  rw [split, bytes_append, bytes_append, first, last]

theorem isPrefix_drop_bytes_iff (solid : part ≠ "") :
    bytes part <+: (bytes text).drop position ↔
      ∃ before after, text = before ++ part ++ after ∧ before.utf8ByteSize = position := by
  constructor
  · rintro ⟨back, rest⟩
    have split := List.take_append_drop position (bytes text)
    rw [← rest, ← List.append_assoc] at split
    obtain ⟨before, after, cut, front⟩ := exists_of_bytes_eq solid split.symm
    have size := utf8ByteSize_pos solid
    have lengths := congrArg List.length rest
    rw [List.length_append, length_bytes, List.length_drop] at lengths
    refine ⟨before, after, cut, ?_⟩
    rw [← length_bytes, front, List.length_take]
    omega
  · rintro ⟨before, after, rfl, rfl⟩
    rw [bytes_append, bytes_append, List.append_assoc, ← length_bytes, List.drop_left]
    exact List.prefix_append _ _

variable {start skip offset : Nat} {piece rest : List UInt8}

theorem of_mem_findsFrom (found : position ∈ findsFrom piece start skip rest) :
    ∃ offset, position = start + offset ∧ piece <+: rest.drop offset := by
  induction rest generalizing start skip with
  | nil => cases found
  | cons byte rest ih =>
      have later {skip : Nat} (found : position ∈ findsFrom piece (start + 1) skip rest) :
          ∃ offset, position = start + offset ∧ piece <+: (byte :: rest).drop offset := by
        obtain ⟨offset, rfl, stands⟩ := ih found
        exact ⟨offset + 1, by omega, stands⟩
      rw [findsFrom] at found
      split at found
      · exact later found
      · split at found
        next stands =>
          rcases List.mem_cons.mp found with rfl | found
          · exact ⟨0, rfl, List.isPrefixOf_iff_prefix.mp stands⟩
          · exact later found
        next => exact later found

/-- A place that is not found lies in a find in front of it. -/
theorem found_or_overlapped (start : Nat) (inside : offset < rest.length)
    (stands : piece <+: rest.drop offset) (free : skip ≤ offset) :
    start + offset ∈ findsFrom piece start skip rest ∨
      ∃ earlier < offset, offset < earlier + piece.length ∧
        start + earlier ∈ findsFrom piece start skip rest := by
  induction rest generalizing start skip offset with
  | nil => cases inside
  | cons byte rest ih =>
      have later {skip offset : Nat} (inside : offset < rest.length)
          (stands : piece <+: rest.drop offset) (free : skip ≤ offset) :
          start + (offset + 1) ∈ findsFrom piece (start + 1) skip rest ∨
            ∃ earlier < offset + 1, offset + 1 < earlier + piece.length ∧
              start + earlier ∈ findsFrom piece (start + 1) skip rest := by
        rcases ih (start + 1) inside stands free with found | ⟨earlier, less, beyond, found⟩
        · exact .inl (by rwa [Nat.add_right_comm] at found)
        · refine .inr ⟨earlier + 1, by omega, by omega, ?_⟩
          rwa [Nat.add_right_comm] at found
      rw [findsFrom]
      cases offset with
      | zero =>
          have first : piece.isPrefixOf (byte :: rest) = true :=
            List.isPrefixOf_iff_prefix.mpr stands
          simp [Nat.le_zero.mp free, first]
      | succ offset =>
          have inside : offset < rest.length := Nat.lt_of_succ_lt_succ inside
          split
          next skipping => exact later inside stands (by omega)
          next =>
            split
            next =>
              -- What lies behind the find is searched on; what lies in it overlaps.
              by_cases behind : piece.length - 1 ≤ offset
              · rcases later inside stands behind with found | ⟨earlier, less, beyond, found⟩
                · exact .inl (List.mem_cons_of_mem _ found)
                · exact .inr ⟨earlier, less, beyond, List.mem_cons_of_mem _ found⟩
              · exact .inr ⟨0, Nat.succ_pos _, by omega, List.mem_cons_self ..⟩
            next => exact later inside stands (Nat.zero_le _)

theorem finds_eq (solid : part ≠ "") :
    finds text part = findsFrom (bytes part) 0 0 (bytes text) := by
  rw [finds, if_neg]
  rwa [String.isEmpty_iff]

theorem of_mem_finds (solid : part ≠ "") (found : position ∈ finds text part) :
    ∃ before after, text = before ++ part ++ after ∧ before.utf8ByteSize = position := by
  rw [finds_eq solid] at found
  obtain ⟨offset, rfl, stands⟩ := of_mem_findsFrom found
  rw [Nat.zero_add]
  exact (isPrefix_drop_bytes_iff solid).mp stands

/-- A text is found wherever it stands, unless it overlaps a find in front of it. -/
theorem mem_finds_or_overlapped (solid : part ≠ "") (cut : text = before ++ part ++ after) :
    before.utf8ByteSize ∈ finds text part ∨
      ∃ position ∈ finds text part, position < before.utf8ByteSize ∧
        before.utf8ByteSize < position + part.utf8ByteSize := by
  have stands := (isPrefix_drop_bytes_iff solid).mpr ⟨before, after, cut, rfl⟩
  have inside : before.utf8ByteSize < (bytes text).length := by
    rw [length_bytes, cut, String.utf8ByteSize_append, String.utf8ByteSize_append]
    have := utf8ByteSize_pos solid
    omega
  rw [finds_eq solid]
  rcases found_or_overlapped 0 inside stands (Nat.zero_le _) with found | overlapped
  · exact .inl (by rwa [Nat.zero_add] at found)
  · obtain ⟨earlier, less, beyond, found⟩ := overlapped
    exact .inr ⟨earlier, by rwa [Nat.zero_add] at found, less, beyond⟩

theorem utf8ByteSize_eq (text : String) :
    text.utf8ByteSize = (text.toList.flatMap String.utf8EncodeChar).length := by
  rw [← bytes_eq_flatMap, length_bytes]

theorem exists_getLast?_of_overlap {before' after' : String} (cut : text = before ++ part ++ after)
    (cut' : text = before' ++ part ++ after') (less : before'.utf8ByteSize < before.utf8ByteSize)
    (beyond : before.utf8ByteSize < before'.utf8ByteSize + part.utf8ByteSize) :
    ∃ c ∈ part.toList, before.toList.getLast? = some c := by
  have same : before.toList ++ (part.toList ++ after.toList) =
      before'.toList ++ (part.toList ++ after'.toList) := by
    have both := congrArg String.toList (cut.symm.trans cut')
    simpa only [String.toList_append, List.append_assoc] using both
  rw [utf8ByteSize_eq, utf8ByteSize_eq] at less
  rw [utf8ByteSize_eq, utf8ByteSize_eq, utf8ByteSize_eq] at beyond
  rcases List.append_eq_append_iff.mp same with ⟨middle, longer, -⟩ | ⟨middle, longer, shared⟩
  · rw [longer, List.flatMap_append, List.length_append] at less
    omega
  · rw [longer, List.flatMap_append, List.length_append] at less beyond
    rcases List.append_eq_append_iff.mp shared with ⟨more, covers, -⟩ | ⟨more, inside, -⟩
    · rw [covers, List.flatMap_append, List.length_append] at beyond
      omega
    · cases last : middle.getLast? with
      | none =>
          rw [List.getLast?_eq_none_iff.mp last] at less
          exact absurd less (Nat.lt_irrefl _)
      | some c =>
          refine ⟨c, inside ▸ List.mem_append_left _ (List.mem_of_getLast? last), ?_⟩
          rw [longer, List.getLast?_append, last, Option.some_or]

end CodeGraph.Text
