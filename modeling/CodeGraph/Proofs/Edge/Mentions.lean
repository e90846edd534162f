import CodeGraph.Edge.Import
import CodeGraph.Proofs.Text.Finds

/-!
Names that a text mentions. Only finds that do not overlap are looked at, and that is enough: in
front of a place that overlaps a find stands a character of the name, so the name is no word there.
-/

set_option autoImplicit false

namespace CodeGraph.Import

variable {text name : String}

/-- A name stands somewhere in a text with no other character of a name next to it. -/
def IsWordOf (text name : String) : Prop :=
  ∃ before after, text = before ++ name ++ after ∧
    (∀ c ∈ before.toList.getLast?, isNamePart c = false) ∧
      ∀ c ∈ after.toList.head?, isNamePart c = false

theorem cuts_around (before name after : String) :
    Text.before? (before ++ name ++ after) before.utf8ByteSize = some before ∧
      Text.after? (before ++ name ++ after) (before.utf8ByteSize + name.utf8ByteSize) =
        some after := by
  refine ⟨?_, ?_⟩
  · rw [String.append_assoc]
    exact Text.before?_append before _
  · rw [← String.utf8ByteSize_append]
    exact Text.after?_append _ after

theorem isWord_iff (before name after : String) :
    isWord (before ++ name ++ after) before.utf8ByteSize
        (before.utf8ByteSize + name.utf8ByteSize) = true ↔
      (∀ c ∈ before.toList.getLast?, isNamePart c = false) ∧
        ∀ c ∈ after.toList.head?, isNamePart c = false := by
  obtain ⟨front, back⟩ := cuts_around before name after
  simp only [isWord, front, back, Bool.and_eq_true, Bool.not_eq_true', Option.any_eq_false,
    Option.mem_def]

/-- A name is mentioned just if it stands somewhere in the text as a word of its own, and no search
for it cuts a character in two. -/
theorem mentions_iff_isWordOf (text name : String) (solid : name ≠ "")
    (plain : ∀ c ∈ name.toList, isNamePart c = true) :
    (mentions text name = true ↔ IsWordOf text name) ∧
    ∀ position ∈ Text.finds text name, ∃ before after, text = before ++ name ++ after ∧
      Text.before? text position = some before ∧
      Text.after? text (position + name.utf8ByteSize) = some after := by
  have found {position : Nat} (member : position ∈ Text.finds text name) :=
    Text.of_mem_finds solid member
  refine ⟨?_, fun position member => ?_⟩
  · rw [mentions, List.any_eq_true]
    constructor
    · rintro ⟨position, member, word⟩
      obtain ⟨before, after, rfl, rfl⟩ := found member
      exact ⟨before, after, rfl, (isWord_iff before name after).mp word⟩
    · rintro ⟨before, after, cut, alone⟩
      rcases Text.mem_finds_or_overlapped solid cut with member | overlapped
      · refine ⟨_, member, ?_⟩
        rw [cut]
        exact (isWord_iff before name after).mpr alone
      · -- A character of the name would stand in front of this place.
        obtain ⟨position, member, less, beyond⟩ := overlapped
        obtain ⟨before', after', cut', rfl⟩ := found member
        obtain ⟨c, inside, last⟩ := Text.exists_getLast?_of_overlap cut cut' less beyond
        have foreign := alone.1 c last
        rw [plain c inside] at foreign
        cases foreign
  · obtain ⟨before, after, rfl, rfl⟩ := found member
    exact ⟨before, after, rfl, cuts_around before name after⟩

theorem mentions_behind_overlap :
    Text.finds "ééé+éé" "éé" = [0, 7] ∧ mentions "ééé+éé" "éé" = true := by
  have plain : ∀ c ∈ "éé".toList, isNamePart c = true := List.all_eq_true.mp (by decide +kernel)
  have word : IsWordOf "ééé+éé" "éé" := by
    refine ⟨"ééé+", "", rfl, ?_, by simp⟩
    suffices isNamePart '+' = false by simpa
    decide
  exact ⟨by decide +kernel, (mentions_iff_isWordOf "ééé+éé" "éé" (by decide) plain).1.mpr word⟩

end CodeGraph.Import
