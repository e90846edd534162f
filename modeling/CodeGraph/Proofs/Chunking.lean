import CodeGraph.Chunking
import CodeGraph.Proofs.Path

/-!
Every chunk that a file is cut into is made for the path of the file. As identifiers of chunks are
written in hexadecimal digits and dashes, and a path with a language has a dot, no chunk has the
path of a file as its identifier.
-/

set_option autoImplicit false

namespace CodeGraph

open CodeGraph.Syntax

inductive Chunk.Belongs (path : String) : Chunk → Prop
  | make (content : String) (lineStart lineEnd : Nat) (type : ChunkType)
      (symbol kind : Option String) :
      Belongs path (Chunk.make content path lineStart lineEnd type symbol kind)

theorem Chunk.Belongs.filePath {path : String} {chunk : Chunk} (belongs : chunk.Belongs path) :
    chunk.filePath = path := by
  cases belongs
  rfl

namespace Chunking

def AllBelong (path : String) (chunks : List Chunk) : Prop :=
  ∀ chunk ∈ chunks, chunk.Belongs path

variable {context : Context}

theorem AllBelong.append {path : String} {first second : List Chunk}
    (left : AllBelong path first) (right : AllBelong path second) :
    AllBelong path (first ++ second) := by
  intro chunk member
  rcases List.mem_append.mp member with inside | inside
  · exact left chunk inside
  · exact right chunk inside

theorem allBelong_spanChunk {start stop : Nat} {type : ChunkType} {symbol kind : Option String} :
    AllBelong context.filePath [spanChunk context start stop type symbol kind] := by
  intro chunk member
  rw [List.mem_singleton.mp member]
  exact .make ..

theorem allBelong_nil (path : String) : AllBelong path [] := by
  intro chunk member
  cases member

theorem allBelong_entityChunks {entity : Entity} {decorations : List Node} {type : ChunkType} :
    AllBelong context.filePath (entityChunks context entity decorations type) := by
  dsimp only [entityChunks]
  rw [← List.singleton_append]
  refine AllBelong.append ?_ (allBelong_spanChunk.append ?_)
  · split
    · exact allBelong_spanChunk
    · exact allBelong_nil _
  · split
    · exact allBelong_spanChunk
    · exact allBelong_nil _

theorem allBelong_memberStep (scan : MemberScan) (child : Node)
    (known : AllBelong context.filePath scan.chunks) :
    AllBelong context.filePath (memberStep context scan child).chunks := by
  unfold memberStep
  split
  · exact known
  · dsimp only
    split
    · exact known.append allBelong_entityChunks
    · exact known

theorem allBelong_memberChunks {container : Node} :
    AllBelong context.filePath (memberChunks context container) := by
  unfold memberChunks
  split
  next body _ =>
    -- The invariant of both folds is that all chunks so far belong to the path.
    suffices kept : ∀ (children : List Node) (scan : MemberScan),
        AllBelong context.filePath scan.chunks →
          AllBelong context.filePath (children.foldl (memberStep context) scan).chunks from
      kept _ {} (allBelong_nil _)
    intro children
    induction children with
    | nil => exact fun scan known => known
    | cons child rest ih => exact fun scan known => ih _ (allBelong_memberStep scan child known)
  · exact allBelong_nil _

theorem allBelong_flush (scan : Scan) (known : AllBelong context.filePath scan.chunks) :
    AllBelong context.filePath (flush context scan).chunks := by
  unfold flush
  split
  · dsimp only
    split
    · exact known.append allBelong_spanChunk
    · exact known
  · exact known

theorem allBelong_step (scan : Scan) (child : Node)
    (known : AllBelong context.filePath scan.chunks) :
    AllBelong context.filePath (step context scan child).chunks := by
  unfold step
  split
  · exact known
  · split
    · exact allBelong_flush _ known
    · split
      · exact known
      · dsimp only
        refine AllBelong.append (AllBelong.append ?_ allBelong_entityChunks) allBelong_memberChunks
        exact allBelong_flush _ known

theorem allBelong_scopeChunks (context : Context) (children : List Node) :
    AllBelong context.filePath (scopeChunks context children) := by
  suffices kept : ∀ (children : List Node) (scan : Scan),
      AllBelong context.filePath scan.chunks →
        AllBelong context.filePath (children.foldl (step context) scan).chunks from
    allBelong_flush _ (kept children {} (allBelong_nil _))
  intro children
  induction children with
  | nil => exact fun scan known => known
  | cons child rest ih => exact fun scan known => ih _ (allBelong_step scan child known)

theorem allBelong_chunksOfTree (context : Context) (content : String) (tree : Node) :
    AllBelong context.filePath (chunksOfTree context content tree) := by
  intro chunk member
  rw [chunksOfTree, List.mem_mergeSort] at member
  split at member
  · rw [List.mem_singleton.mp member]
    exact .make ..
  · exact allBelong_scopeChunks _ _ chunk member

theorem belongs_of_ofFile? {grammars : Grammars} {size : Nat} {path content : String}
    {chunks : List Chunk} (cut : ofFile? size path content grammars = some chunks) :
    AllBelong path chunks := by
  unfold ofFile? at cut
  cases language : Language.ofPath? path with
  | none =>
      rw [language] at cut
      cases cut
  | some known =>
      rw [language] at cut
      cases cut
      exact allBelong_chunksOfTree _ content _

end Chunking

namespace Digest

theorem hexDigit_ne_dot {value : Nat} (small : value < 16) : hexDigit value ≠ '.' := by
  have all : ∀ digit : Fin 16, hexDigit digit ≠ '.' := by decide
  exact all ⟨value, small⟩

theorem dot_not_mem_hex (bytes : List UInt8) : '.' ∉ (hex bytes).toList := by
  intro member
  rw [hex, String.toList_ofList] at member
  obtain ⟨byte, -, inside⟩ := List.mem_flatMap.mp member
  have high : byte.toNat / 16 < 16 := by
    have := byte.toNat_lt
    omega
  have low : byte.toNat % 16 < 16 := Nat.mod_lt _ (by decide)
  simp only [hexByte, List.mem_cons, List.not_mem_nil, or_false] at inside
  rcases inside with same | same
  · exact hexDigit_ne_dot high same.symm
  · exact hexDigit_ne_dot low same.symm

theorem dot_not_mem_uuidText (bytes : List UInt8) : '.' ∉ (uuidText bytes).toList := by
  simp [uuidText, dot_not_mem_hex]

end Digest

theorem Chunk.Belongs.dot_not_mem_id {path : String} {chunk : Chunk}
    (belongs : chunk.Belongs path) : '.' ∉ chunk.id.toList := by
  cases belongs
  exact Digest.dot_not_mem_uuidText _

namespace Text

theorem mem_of_splitOnce {separator : Char} {text : List Char} {parts : List Char × List Char}
    (split : splitOnce separator text = some parts) : separator ∈ text := by
  induction text generalizing parts with
  | nil => cases split
  | cons first rest ih =>
      by_cases same : first = separator
      · rw [same]
        exact List.mem_cons_self ..
      · simp only [splitOnce, beq_iff_eq, same, if_false] at split
        obtain ⟨tail, found, -⟩ := Option.map_eq_some_iff.mp split
        exact List.mem_cons_of_mem _ (ih found)

theorem mem_of_mem_splitBy {cut : Char → Bool} {text piece : List Char} {c : Char}
    (member : piece ∈ splitBy cut text) (inside : c ∈ piece) : c ∈ text := by
  induction text generalizing piece with
  | nil =>
      rw [List.mem_singleton.mp member] at inside
      cases inside
  | cons first rest ih =>
      by_cases stop : cut first = true
      · simp only [splitBy, stop, if_true] at member
        rcases List.mem_cons.mp member with rfl | later
        · cases inside
        · exact List.mem_cons_of_mem _ (ih later inside)
      · simp only [splitBy, stop] at member
        cases pieces : splitBy cut rest with
        | nil => exact absurd pieces (splitBy_ne_nil cut rest)
        | cons head others =>
            simp only [pieces, Bool.false_eq_true, if_false] at member
            rcases List.mem_cons.mp member with rfl | later
            · rcases List.mem_cons.mp inside with rfl | inside
              · exact List.mem_cons_self ..
              · exact List.mem_cons_of_mem _ (ih (pieces ▸ List.mem_cons_self ..) inside)
            · exact List.mem_cons_of_mem _ (ih (pieces ▸ List.mem_cons_of_mem _ later) inside)

end Text

theorem dot_mem_of_isSupported {path : String} (supported : isSupported path = true) :
    '.' ∈ path.toList := by
  obtain ⟨language, known⟩ := Option.isSome_iff_exists.mp supported
  obtain ⟨extension, found, -⟩ := Option.bind_eq_some_iff.mp known
  obtain ⟨name, last, split⟩ := Option.bind_eq_some_iff.mp found
  obtain ⟨parts, cut, -⟩ := Option.bind_eq_some_iff.mp split
  obtain ⟨reversed, once, -⟩ := Option.map_eq_some_iff.mp cut
  -- The extension follows a dot in the file name, which is a segment of the path.
  have dot : '.' ∈ name.toList := List.mem_reverse.mp (Text.mem_of_splitOnce once)
  have segment : name ∈ Path.parts path :=
    List.mem_of_getLast? (Option.filter_eq_some_iff.mp last).1
  obtain ⟨piece, inside, rfl⟩ := List.mem_map.mp (List.mem_filter.mp segment).1
  rw [String.toList_ofList] at dot
  exact Text.mem_of_mem_splitBy inside dot

theorem Chunk.Belongs.id_ne_path {path other : String} {chunk : Chunk}
    (belongs : chunk.Belongs path) (supported : isSupported other = true) : chunk.id ≠ other := by
  rintro rfl
  exact belongs.dot_not_mem_id (dot_mem_of_isSupported supported)

end CodeGraph
