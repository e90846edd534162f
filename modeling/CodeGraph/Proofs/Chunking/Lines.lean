import CodeGraph.Proofs.Chunking.Identity
import CodeGraph.Proofs.Facts.Sites
import CodeGraph.Proofs.Text

/-!
The lines of chunks and the lines of references. A chunk counts the breaks among the bytes of the
file up to its ends, a reference has the line on which its node starts; so a node that starts in the
range of a chunk is on one of its lines, and a reference in code never leads from the file itself.
-/

set_option autoImplicit false

namespace CodeGraph

open CodeGraph.Syntax

namespace Text

theorem row_succ (text : String) (position : Nat) :
    (Source.ofString text).row position + 1 = lineOfByte text (byteOffset text position) :=
  (lineOfByte_byteOffset text position).symm

theorem row_last (text : String) {start stop : Nat} (ordered : start ≤ stop)
    (inside : stop ≤ text.toList.length) :
    (Source.ofString text).row (max (stop - 1) start) + 1 =
      lineOfByte text (max (byteOffset text stop - 1) (byteOffset text start)) := by
  -- An empty range is on the line on which it starts.
  rcases Nat.eq_or_lt_of_le ordered with rfl | filled
  · rw [Nat.max_eq_right (Nat.sub_le _ _), Nat.max_eq_right (Nat.sub_le _ _), row_succ]
  · obtain ⟨last, rfl⟩ : ∃ last, stop = last + 1 := ⟨stop - 1, by omega⟩
    obtain ⟨wide, line⟩ := lineOfByte_pred (Nat.lt_of_succ_le inside)
    have before := byteOffset_mono text (Nat.le_of_lt_succ filled)
    rw [Nat.max_eq_left (by omega), Nat.max_eq_left (by omega), line]
    rfl

end Text

namespace Chunking

structure Covers (content : String) (start stop : Nat) (chunk : Chunk) : Prop where
  bytes : Text.bytes chunk.content = ((Text.bytes content).take stop).drop start
  lineStart : chunk.lineStart = Text.lineOfByte content start
  lineEnd : chunk.lineEnd = Text.lineOfByte content (max (stop - 1) start)
  ordered : 1 ≤ chunk.lineStart ∧ chunk.lineStart ≤ chunk.lineEnd
  breaks : chunk.lineEnd - chunk.lineStart = Text.innerNewlines chunk.content.toList

theorem slice_eq (content : String) (start stop : Nat) :
    (Source.ofString content).slice start stop =
      String.ofList ((content.toList.take stop).drop start) := by
  rw [Source.slice, Source.ofString, List.drop_take]

theorem covers_chunk {context : Context} {content : String} {piece : Piece}
    (written : context.source = Source.ofString content) (ordered : piece.start ≤ piece.stop)
    (inside : piece.stop ≤ content.toList.length) :
    Covers content (Text.byteOffset content piece.start) (Text.byteOffset content piece.stop)
      (piece.chunk context) := by
  have text : (piece.chunk context).content =
      String.ofList ((content.toList.take piece.stop).drop piece.start) := by
    rw [← slice_eq, ← written]
    rfl
  refine ⟨?_, ?_, ?_, ⟨Nat.le_add_left _ _, piece.lineStart_le_lineEnd context⟩, ?_⟩
  · rw [text, Text.bytes_range content ordered]
  · rw [← Text.row_succ, ← written]
    rfl
  · rw [← Text.row_last content ordered inside, ← written]
    rfl
  · have counted := Text.newlines_up_to_last ordered inside
    have lines : (piece.chunk context).lineEnd - (piece.chunk context).lineStart =
        context.source.row (max (piece.stop - 1) piece.start) - context.source.row piece.start :=
      Nat.succ_sub_succ_eq_sub _ _
    rw [lines, text, String.toList_ofList, written]
    exact Nat.sub_eq_of_eq_add' counted

theorem containsLine_chunk {context : Context} {piece : Piece} {node : Node}
    (low : piece.start ≤ node.start) (high : node.start < piece.stop) :
    (piece.chunk context).containsLine (context.source.line node) = true := by
  rw [Chunk.containsLine, Bool.and_eq_true, decide_eq_true_eq, decide_eq_true_eq]
  exact ⟨Nat.succ_le_succ (row_mono context.source low),
    Nat.succ_le_succ (row_mono context.source (by omega))⟩

def Piece.whole (content : String) : Piece :=
  ⟨0, content.toList.length, .file, none, none⟩

def piecesOfTree (context : Context) (content : String) (tree : Node) : List Piece :=
  let found := scopePieces context tree.namedChildren
  if found.isEmpty && 0 < solidLength content then [.whole content] else found

theorem chunk_whole {context : Context} {content : String}
    (written : context.source = Source.ofString content) :
    (Piece.whole content).chunk context = fileChunk context.filePath content := by
  have lines : context.source.row (max (content.toList.length - 1) 0) + 1 =
      max 1 (Text.lines content.toList).length := by
    rw [Text.max_length_lines, List.dropLast_eq_take, Nat.max_eq_left (Nat.zero_le _), written]
    rfl
  have text : context.source.slice 0 content.toList.length = content := by
    rw [written, slice_eq, List.take_length, List.drop_zero, String.ofList_toList]
  rw [Piece.chunk, spanChunk, Piece.whole, lines, text]
  rfl

theorem chunksOfTree_eq {context : Context} {content : String} {tree : Node}
    (written : context.source = Source.ofString content) :
    chunksOfTree context content tree =
      ((piecesOfTree context content tree).map (Piece.chunk context)).mergeSort lineLe := by
  simp only [chunksOfTree, piecesOfTree, scopeChunks_eq, List.isEmpty_map]
  split
  · rw [List.map_singleton, chunk_whole written]
  · rfl

/-- The lines of chunks go up, with longer chunks first, and chunks on the same lines stay in the
order in which they were found. -/
structure Listed (found chunks : List Chunk) : Prop where
  perm : chunks.Perm found
  sorted : chunks.Pairwise fun a b =>
    a.lineStart < b.lineStart ∨ a.lineStart = b.lineStart ∧ b.lineEnd ≤ a.lineEnd
  stable (start stop : Nat) :
    chunks.filter (fun chunk => chunk.lineStart = start ∧ chunk.lineEnd = stop) =
      found.filter (fun chunk => chunk.lineStart = start ∧ chunk.lineEnd = stop)

theorem lineLe_iff {a b : Chunk} : lineLe a b = true ↔
    a.lineStart < b.lineStart ∨ a.lineStart = b.lineStart ∧ b.lineEnd ≤ a.lineEnd := by
  simp [lineLe]

theorem listed_mergeSort (found : List Chunk) : Listed found (found.mergeSort lineLe) := by
  have trans (a b c : Chunk) : lineLe a b = true → lineLe b c = true → lineLe a c = true := by
    simp only [lineLe_iff]
    omega
  have total (a b : Chunk) : (lineLe a b || lineLe b a) = true := by
    simp only [Bool.or_eq_true, lineLe_iff]
    omega
  have perm := List.mergeSort_perm found lineLe
  refine ⟨perm, (List.pairwise_mergeSort trans total found).imp lineLe_iff.mp, fun start stop => ?_⟩
  let same (chunk : Chunk) : Bool := decide (chunk.lineStart = start ∧ chunk.lineEnd = stop)
  change (found.mergeSort lineLe).filter same = found.filter same
  have equal : (found.filter same).Pairwise (fun a b => lineLe a b = true) := by
    refine List.pairwise_of_forall_mem_list fun a first b second => ?_
    have here := (List.mem_filter.mp first).2
    have there := (List.mem_filter.mp second).2
    simp only [same, decide_eq_true_eq] at here there
    exact lineLe_iff.mpr (by omega)
  -- Chunks on the same lines are in order as they are, so the sort keeps them as a sublist.
  have kept := (List.sublist_mergeSort trans total equal List.filter_sublist).filter same
  rw [List.filter_filter] at kept
  simp only [Bool.and_self] at kept
  exact (kept.eq_of_length (perm.filter same).length_eq.symm).symm

end Chunking

namespace Edge

theorem source_ne_path {path kind : String} {chunks : List Chunk} {chunk : Chunk} {site : Site}
    {edge : Edge} (own : ∀ chunk ∈ chunks, chunk.id ≠ path) (listed : chunk ∈ chunks)
    (surrounds : Surrounds site.line chunk)
    (made : reference? path chunks kind site = some edge) : edge.source ≠ path := by
  obtain ⟨source, target, refers, rfl⟩ := reference?_eq_some_iff.mp made
  rcases refers.user with ⟨around, isAround, rfl⟩ | ⟨nowhere, -⟩
  · exact own around isAround.member.1
  · exact absurd surrounds (nowhere chunk listed)

end Edge

namespace Chunking

def InCode (pieces : List Piece) (node : Node) : Prop :=
  ∃ piece ∈ pieces, piece.type ≠ .doc ∧ piece.start ≤ node.start ∧ node.start < piece.stop

instance (pieces : List Piece) (node : Node) : Decidable (InCode pieces node) :=
  inferInstanceAs (Decidable (∃ piece ∈ pieces, _))

/-- A chunk has the text and the lines of its range, also counted in bytes, and the line of each
node that starts in the range; so what is used in code leads from a chunk and not from the file. The
chunks of a file are listed by their lines. -/
theorem lines_agree_with_references {path : String} {language : Language}
    (known : Language.ofPath? path = some language) (size : Nat) (content : String) (tree : Node) :
    let source := Source.ofString content
    let context : Context := ⟨source, path, language, size⟩
    let pieces := piecesOfTree context content tree
    let chunks := chunksOfTree context content tree
    let facts := Facts.ofTree language source tree
    (∀ piece : Piece, piece.start ≤ piece.stop → piece.stop ≤ content.toList.length →
      Covers content (Text.byteOffset content piece.start) (Text.byteOffset content piece.stop)
          (piece.chunk context) ∧
        ∀ node : Node, piece.start ≤ node.start → node.start < piece.stop →
          (piece.chunk context).containsLine (source.line node) = true) ∧
    (∀ node : Node,
      source.line node = Text.lineOfByte content (Text.byteOffset content node.start)) ∧
    (∀ use ∈ facts.uses, (∃ place, tree.Below place ∧ use.2.line = source.line place) ∧
      ∀ place : Node, use.2.line = source.line place → InCode pieces place →
        ∀ edge, Edge.reference? path chunks use.1 use.2 = some edge → edge.source ≠ path) ∧
    Listed (pieces.map (Piece.chunk context)) chunks ∧
    ∀ grammars : Grammars, tree = grammars language content.toList →
      ofFile? size path content grammars = some chunks ∧
        Facts.ofFile? path content grammars = some facts := by
  intro source context pieces chunks facts
  have written : context.source = Source.ofString content := rfl
  have listing : chunks = (pieces.map (Piece.chunk context)).mergeSort lineLe :=
    chunksOfTree_eq written
  -- No chunk goes by the path, so an edge from a chunk is not one from the file.
  have own (chunk : Chunk) (listed : chunk ∈ chunks) : chunk.id ≠ path :=
    (allBelong_chunksOfTree context content tree chunk listed).id_ne_path
      (by rw [isSupported, known]; rfl)
  refine ⟨fun piece ordered inside => ⟨covers_chunk written ordered inside, fun node low high =>
    containsLine_chunk low high⟩, fun node => Text.row_succ content node.start, ?_, ?_, ?_⟩
  · intro use used
    refine ⟨Facts.exists_place_of_mem_uses used, ?_⟩
    rintro place line ⟨piece, found, code, low, high⟩ edge made
    have listed : piece.chunk context ∈ chunks := by
      rw [listing, List.mem_mergeSort]
      exact List.mem_map_of_mem found
    have contains : (piece.chunk context).containsLine (source.line place) = true :=
      containsLine_chunk low high
    rw [← line, Chunk.containsLine, Bool.and_eq_true, decide_eq_true_eq,
      decide_eq_true_eq] at contains
    exact Edge.source_ne_path own listed ⟨code, contains⟩ made
  · rw [listing]
    exact listed_mergeSort _
  · rintro grammars rfl
    constructor
    · rw [ofFile?, known]
      rfl
    · rw [Facts.ofFile?_eq, known]
      rfl

theorem call_leads_from_its_function :
    let content := "/** é */\nfunction f() \x7b\n  g();\n\x7d\nfunction g() \x7b\x7d\n"
    let source := Source.ofString content
    let tree := Language.javaScript.tree content.toList
    let context : Context := ⟨source, "a.js", .javaScript, 40⟩
    let function : Piece := ⟨9, 32, .function, some "f", some "function_declaration"⟩
    ("call", ⟨"g", 3⟩) ∈ (Facts.ofTree .javaScript source tree).uses ∧
      Covers content 10 33 (function.chunk context) ∧
      ∃ edge, Edge.reference? "a.js" (chunksOfTree context content tree) "call" ⟨"g", 3⟩ =
        some edge ∧ edge.source ≠ "a.js" := by
  intro content source tree context function
  have known : Language.ofPath? "a.js" = some .javaScript := by decide +kernel
  obtain ⟨covers, -, uses, -, -⟩ := lines_agree_with_references known 40 content tree
  have used : ("call", ⟨"g", 3⟩) ∈ (Facts.ofTree .javaScript source tree).uses := by decide +kernel
  have sorted : (scopeChunks context tree.namedChildren).Pairwise
      (fun a b => lineLe a b = true) := by decide +kernel
  have made : (Edge.reference? "a.js" (scopeChunks context tree.namedChildren) "call"
      ⟨"g", 3⟩).isSome = true := by decide +kernel
  rw [← chunksOfTree_of_sorted content (by rintro empty; rw [empty] at made; cases made) sorted]
    at made
  obtain ⟨edge, made⟩ := Option.isSome_iff_exists.mp made
  have start : Text.byteOffset content function.start = 10 := by decide +kernel
  have stop : Text.byteOffset content function.stop = 33 := by decide +kernel
  have covered := (covers function (by decide) (by decide +kernel)).1
  rw [start, stop] at covered
  have inside : InCode (piecesOfTree context content tree) (.leaf "call_expression" 26 29) := by
    decide +kernel
  exact ⟨used, covered, edge, made, (uses _ used).2 _ (by decide +kernel) inside edge made⟩

end Chunking

end CodeGraph
