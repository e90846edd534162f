import CodeGraph.Chunking
import CodeGraph.Discovery
import CodeGraph.Proofs.Syntax.Blank.Bracketed
import CodeGraph.Proofs.Syntax.Blank.EcmaScript
import CodeGraph.Proofs.Syntax.Blank.Python
import CodeGraph.Proofs.Text

/-!
Blank files. Discovery offers a file that has a byte other than the spaces of ASCII, and the
chunker finds something in a file that has a character other than a blank. A space is a blank, but
not every blank is a space: a file of blanks that are not all spaces is offered, and nothing is
found in it.
-/

set_option autoImplicit false

namespace CodeGraph

open CodeGraph.Syntax

namespace Discovery

def spaces : List Char :=
  [' ', '\t', '\n', '\x0c', '\r']

theorem isSpace_iff {byte : UInt8} : isSpace byte = true ↔ byte.toNat ∈ spaces.map Char.toNat := by
  simp only [isSpace, Bool.or_eq_true, beq_iff_eq, ← UInt8.toNat_inj, spaces, List.map_cons,
    List.map_nil, List.mem_cons, List.not_mem_nil, or_false, or_assoc]
  rfl

theorem mem_spaces_iff {c : Char} : c ∈ spaces ↔ c.toNat ∈ spaces.map Char.toNat := by
  refine ⟨List.mem_map_of_mem, fun listed => ?_⟩
  obtain ⟨space, known, same⟩ := List.mem_map.mp listed
  exact Char.toNat_inj.mp same ▸ known

theorem lt_of_mem_spaces {code : Nat} (space : code ∈ spaces.map Char.toNat) : code < 128 := by
  revert code
  decide

theorem isBlank_of_mem_spaces {c : Char} (space : c ∈ spaces) : Text.isBlank c = true :=
  List.all_eq_true.mp (by decide : spaces.all Text.isBlank = true) c space

theorem all_isSpace_utf8EncodeChar (c : Char) :
    (String.utf8EncodeChar c).all isSpace = true ↔ c ∈ spaces := by
  rw [mem_spaces_iff]
  by_cases ascii : c.toNat < 128
  · rw [Text.utf8EncodeChar_of_lt ascii, List.all_cons, List.all_nil, Bool.and_true, isSpace_iff,
      UInt8.toNat_ofNat_of_lt' (Nat.lt_trans ascii (by decide))]
  · obtain ⟨byte, inside⟩ := List.exists_mem_of_ne_nil _ (Text.utf8EncodeChar_ne_nil c)
    have high := Text.le_of_mem_utf8EncodeChar (Nat.le_of_not_lt ascii) inside
    refine iff_of_false (fun all => ?_) fun space => ascii (lt_of_mem_spaces space)
    exact Nat.not_lt.mpr high (lt_of_mem_spaces (isSpace_iff.mp (List.all_eq_true.mp all _ inside)))

theorem all_isSpace_bytes (text : String) :
    (Text.bytes text).all isSpace = true ↔ ∀ c ∈ text.toList, c ∈ spaces := by
  rw [Text.bytes_eq_flatMap, List.all_flatMap, List.all_eq_true]
  exact forall₂_congr fun c _ => all_isSpace_utf8EncodeChar c

theorem available_inspect {disk : Disk} {discovery : Discovery} {path relative content : String}
    {language : Language} (below : discovery.relative? path = some relative)
    (known : Language.ofPath? path = some language)
    (stored : disk.lookup (Path.components path) = .ok (.file (.bytes (Text.bytes content))))
    (solid : 0 < (Text.bytes content).length)
    (fits : (Text.bytes content).length ≤ discovery.maxFileSize) :
    ∃ entry, discovery.inspect disk path = .ok (some entry) ∧
      (entry.available = false ↔ ∀ c ∈ content.toList, c ∈ spaces) := by
  have sized : ¬((DiskEntry.file (.bytes (Text.bytes content))).size = 0 ∨
      discovery.maxFileSize < (DiskEntry.file (.bytes (Text.bytes content))).size) := by
    simp only [DiskEntry.size, FileContent.size]
    omega
  simp only [inspect, below, known, stored, if_neg sized]
  rw [← all_isSpace_bytes]
  by_cases spaced : (Text.bytes content).all isSpace = true
  · rw [if_pos spaced]
    exact ⟨_, rfl, iff_of_true rfl spaced⟩
  · rw [if_neg spaced]
    exact ⟨_, rfl, iff_of_false nofun spaced⟩

end Discovery

namespace Chunking

theorem solidLength_eq_zero {text : String} :
    solidLength text = 0 ↔ ∀ c ∈ text.toList, Text.isBlank c = true := by
  simp [solidLength, List.countP_eq_zero]

/-- A file in which nothing else is found is a chunk itself if it has something solid. -/
theorem chunksOfTree_eq_nil_iff {context : Context} {content : String} {tree : Node} :
    chunksOfTree context content tree = [] ↔
      scopeChunks context tree.namedChildren = [] ∧ solidLength content = 0 := by
  rw [← List.length_eq_zero_iff, chunksOfTree, List.length_mergeSort, List.length_eq_zero_iff]
  by_cases empty : scopeChunks context tree.namedChildren = []
  · by_cases blank : solidLength content = 0
    · simp [empty, blank]
    · simp [empty, blank, Nat.pos_of_ne_zero blank]
  · simp [empty]

theorem chunks_flush_of_blank {context : Context}
    (blank : ∀ c ∈ context.source.toList, Text.isBlank c = true) (positive : 0 < context.minBlockSize)
    (scan : Scan) : (flush context scan).chunks = scan.chunks := by
  have short (start stop : Nat) : solidLength (context.source.slice start stop) = 0 := by
    refine solidLength_eq_zero.mpr fun c inside => blank c ?_
    rw [Source.slice, String.toList_ofList] at inside
    exact List.mem_of_mem_drop (List.mem_of_mem_take inside)
  unfold flush
  split
  · simp only [short, Nat.not_le_of_lt positive, if_false]
  · rfl

theorem scopeChunks_eq_nil {context : Context}
    (blank : ∀ c ∈ context.source.toList, Text.isBlank c = true) (positive : 0 < context.minBlockSize)
    {children : List Node}
    (bare : ∀ child ∈ children, Entity.ofNode? context.language context.source child = none) :
    scopeChunks context children = [] := by
  have scanned (scan : Scan) : (children.foldl (step context) scan).chunks = scan.chunks := by
    induction children generalizing scan with
    | nil => rfl
    | cons child rest ih =>
        rw [List.foldl_cons, ih fun other inside => bare other (List.mem_cons_of_mem _ inside)]
        simp only [step, bare child (List.mem_cons_self ..)]
        split
        · rfl
        · split
          · exact chunks_flush_of_blank blank positive _
          · rfl
  exact (chunks_flush_of_blank blank positive _).trans (scanned {})

end Chunking

/-- No declaration is found in a text of blanks. -/
def Grammars.PassBlanks (grammars : Grammars) : Prop :=
  ∀ language (text : String), (∀ c ∈ text.toList, Text.isBlank c = true) →
    ∀ child ∈ (grammars language text.toList).namedChildren,
      Entity.ofNode? language (Source.ofString text) child = none

theorem Language.passBlanks_tree : Grammars.PassBlanks Language.tree := by
  intro language text blank child member
  have bare : (language.tree text.toList).namedChildren = [] := by
    cases language with
    | javaScript | typeScript | tsx => exact EcmaScript.namedChildren_tree _ _ blank
    | python => exact Python.namedChildren_tree blank
    | rust => exact Rust.namedChildren_tree blank
    | go => exact Go.namedChildren_tree blank
  rw [bare] at member
  cases member

theorem Chunking.ofFile?_eq_nil_iff {grammars : Grammars} (passing : grammars.PassBlanks)
    {minBlockSize : Nat} (positive : 0 < minBlockSize) {path content : String}
    {language : Language} (known : Language.ofPath? path = some language) :
    ∃ chunks, ofFile? minBlockSize path content grammars = some chunks ∧
      (chunks = [] ↔ ∀ c ∈ content.toList, Text.isBlank c = true) := by
  refine ⟨_, by rw [ofFile?, known]; rfl, ?_⟩
  rw [chunksOfTree_eq_nil_iff, solidLength_eq_zero]
  refine and_iff_right_of_imp fun blank => ?_
  exact scopeChunks_eq_nil (by simpa [Source.ofString] using blank) positive
    (passing language content blank)

namespace Discovery

/-- A file in which chunks are found is offered. The converse fails exactly for files of blanks that
are not all spaces. -/
theorem offered_iff_has_chunks_iff {grammars : Grammars} (passing : grammars.PassBlanks)
    {disk : Disk} {discovery : Discovery}
    {path relative content : String} {language : Language}
    (below : discovery.relative? path = some relative)
    (known : Language.ofPath? path = some language)
    (stored : disk.lookup (Path.components path) = .ok (.file (.bytes (Text.bytes content))))
    (solid : 0 < (Text.bytes content).length)
    (fits : (Text.bytes content).length ≤ discovery.maxFileSize) :
    ∃ entry chunks, discovery.inspect disk path = .ok (some entry) ∧
      Chunking.ofFile? Chunking.defaultBlockSize path content grammars = some chunks ∧
      (chunks ≠ [] → entry.available = true) ∧
      ((entry.available = true ↔ chunks ≠ []) ↔
        ((∀ c ∈ content.toList, Text.isBlank c = true) → ∀ c ∈ content.toList, c ∈ spaces)) := by
  obtain ⟨entry, inspected, spaced⟩ := available_inspect below known stored solid fits
  have positive : 0 < Chunking.defaultBlockSize := by decide
  obtain ⟨chunks, cut, blank⟩ := Chunking.ofFile?_eq_nil_iff passing positive known
  refine ⟨entry, chunks, inspected, cut, ?_⟩
  rw [← Bool.not_eq_false, Ne, spaced, blank]
  have covers : (∀ c ∈ content.toList, c ∈ spaces) → ∀ c ∈ content.toList, Text.isBlank c = true :=
    fun spaced c inside => isBlank_of_mem_spaces (spaced c inside)
  refine ⟨mt covers, fun same blank => ?_, fun covered => not_congr ⟨covers, covered⟩⟩
  exact Classical.not_not.mp fun unspaced => same.mp unspaced blank

def unbroken : Disk :=
  { entries := [(["w"], .directory), (["w", "a.js"], .file (.bytes (Text.bytes "\u00a0\n")))] }

theorem file_of_blanks_is_offered :
    let discovery : Discovery := ⟨["/", "w"], [], [], 100⟩
    ∃ entry, discovery.inspect unbroken "/w/a.js" = .ok (some entry) ∧ entry.available = true ∧
      Chunking.ofFile? Chunking.defaultBlockSize "/w/a.js" "\u00a0\n" = some [] := by
  intro discovery
  obtain ⟨entry, chunks, inspected, cut, offered, agree⟩ :=
    @offered_iff_has_chunks_iff _ Language.passBlanks_tree unbroken discovery "/w/a.js" "a.js"
      "\u00a0\n" .javaScript (by decide) (by decide) rfl (by decide) (by decide)
  have blank : "\u00a0\n".toList.all Text.isBlank = true := by decide
  have unspaced : '\u00a0' ∉ spaces := by decide
  have differ : ¬(entry.available = true ↔ chunks ≠ []) := fun same =>
    unspaced (agree.mp same (List.all_eq_true.mp blank) _ (by decide))
  have empty : chunks = [] :=
    Classical.byContradiction fun found => differ ⟨fun _ => found, offered⟩
  refine ⟨entry, inspected, ?_, empty ▸ cut⟩
  exact Classical.byContradiction fun hidden => differ (iff_of_false hidden (mt offered hidden))

end Discovery

end CodeGraph
