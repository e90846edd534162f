import CodeGraph.Chunking.Entity
import CodeGraph.Syntax

/-!
Cutting a file into chunks. The statements of a file are read from left to right: an entity
becomes a chunk, with a chunk for the comment right above it and chunks for its methods; what
stands between entities is gathered into blocks, which imports cut and leave out.
-/

set_option autoImplicit false

namespace CodeGraph

open CodeGraph.Syntax

namespace Chunking

/-- Runs of statements with fewer characters than this, blanks not counted, are dropped. -/
def defaultBlockSize : Nat := 40

structure Context where
  source : Source
  filePath : String
  language : Language
  minBlockSize : Nat

def solidLength (text : String) : Nat :=
  text.toList.countP (fun c => !Text.isBlank c)

/-- The chunk over a range of the source. A range that is not empty ends on the line of its last
character. -/
def spanChunk (context : Context) (start stop : Nat) (type : ChunkType)
    (symbol kind : Option String) : Chunk :=
  Chunk.make (context.source.slice start stop) context.filePath
    (context.source.row start + 1) (context.source.row (max (stop - 1) start) + 1) type symbol kind

def isComment (node : Node) : Bool :=
  node.kind == "comment" || node.kind == "line_comment" || node.kind == "block_comment"

def isAttribute (node : Node) : Bool :=
  node.kind == "attribute_item"

/-- How many of the nodes, nearest first, stand right above `row` with no blank line between. -/
def attachedFrom (source : Source) : Nat → List Node → Nat
  | _, [] => 0
  | row, node :: above =>
      if source.row node.stop + 1 < row then 0
      else attachedFrom source (source.row node.start) above + 1

def attachedCount (source : Source) (pending : List Node) (next : Node) : Nat :=
  attachedFrom source (source.row next.start) pending.reverse

def docstring? (language : Language) (node : Node) : Option Node := do
  if language != .python then none
  let body ← node.childAt? "body"
  let first ← body.namedChildren.head?
  if first.kind != "expression_statement" then none
  let value ← first.namedChildren.head?
  if value.kind == "string" then some first else none

def entityStart (entity : Entity) (decorations : List Node) : Nat :=
  ((decorations.filter isAttribute).map Node.start).foldl min entity.outer.start

def entityChunks (context : Context) (entity : Entity) (decorations : List Node)
    (type : ChunkType) : List Chunk :=
  let comments := decorations.filter isComment
  let above := match comments.head?, comments.getLast? with
    | some first, some last =>
        [spanChunk context first.start last.stop .doc (some entity.name) (some "doc_comment")]
    | _, _ => []
  let code := spanChunk context (entityStart entity decorations) entity.outer.stop type
    (some entity.name) (some entity.inner.kind)
  let inside := match docstring? context.language entity.inner with
    | some doc => [spanChunk context doc.start doc.stop .doc (some entity.name) (some "docstring")]
    | none => []
  above ++ code :: inside

structure MemberScan where
  pending : List Node := []
  chunks : List Chunk := []

def memberStep (context : Context) (scan : MemberScan) (child : Node) : MemberScan :=
  if isComment child || isAttribute child then
    { scan with pending := scan.pending ++ [child] }
  else
    let attached := attachedCount context.source scan.pending child
    let decorations := scan.pending.drop (scan.pending.length - attached)
    match Entity.member? context.language context.source child with
    | some member =>
        { pending := [], chunks := scan.chunks ++ entityChunks context member decorations .method }
    | none => { scan with pending := [] }

def memberChunks (context : Context) (container : Node) : List Chunk :=
  match container.childAt? "body" with
  | some body => (body.namedChildren.foldl (memberStep context) {}).chunks
  | none => []

structure Scan where
  block : List Node := []
  /-- Comments and attributes that may belong to the next statement. -/
  pending : List Node := []
  chunks : List Chunk := []

def flush (context : Context) (scan : Scan) : Scan :=
  match scan.block.head?, scan.block.getLast? with
  | some first, some last =>
      let code := context.source.slice first.start last.stop
      if context.minBlockSize ≤ solidLength code then
        let chunk := spanChunk context first.start last.stop .block none none
        { scan with block := [], chunks := scan.chunks ++ [chunk] }
      else { scan with block := [] }
  | _, _ => scan

def step (context : Context) (scan : Scan) (child : Node) : Scan :=
  if isComment child || isAttribute child then
    { scan with pending := scan.pending ++ [child] }
  else if context.language.importKinds.contains child.kind then
    flush context { scan with block := scan.block ++ scan.pending, pending := [] }
  else
    match Entity.ofNode? context.language context.source child with
    | none => { scan with block := scan.block ++ scan.pending ++ [child], pending := [] }
    | some entity =>
        let attached := attachedCount context.source scan.pending child
        let detached := scan.pending.length - attached
        let flushed := flush context
          { scan with block := scan.block ++ scan.pending.take detached, pending := [] }
        { flushed with
          chunks := flushed.chunks ++
            entityChunks context entity (scan.pending.drop detached) entity.type ++
            memberChunks context entity.inner }

def scopeChunks (context : Context) (children : List Node) : List Chunk :=
  let scan := children.foldl (step context) {}
  (flush context { scan with block := scan.block ++ scan.pending, pending := [] }).chunks

/-- Chunks are listed by first line, longer ones first. -/
def lineLe (a b : Chunk) : Bool :=
  decide (a.lineStart < b.lineStart) ||
    (a.lineStart == b.lineStart && decide (b.lineEnd ≤ a.lineEnd))

def fileChunk (filePath content : String) : Chunk :=
  Chunk.make content filePath 1 (max 1 (Text.lines content.toList).length) .file none none

def chunksOfTree (context : Context) (content : String) (tree : Node) : List Chunk :=
  let found := scopeChunks context tree.namedChildren
  let chunks :=
    if found.isEmpty && 0 < solidLength content then [fileChunk context.filePath content] else found
  chunks.mergeSort lineLe

def ofFile? (minBlockSize : Nat) (path content : String) (grammars : Grammars := Language.tree) :
    Option (List Chunk) := do
  let language ← Language.ofPath? path
  let source := Source.ofString content
  return chunksOfTree ⟨source, path, language, minBlockSize⟩ content
    (grammars language content.toList)

end Chunking

end CodeGraph
