import CodeGraph.Chunking

/-!
How a list of siblings is cut. The siblings fall into segments, in their order and with none left
out: runs of statements, imports, and declarations with the comments and attributes above them. Each
segment is cut for itself, and every chunk covers a piece of the source.
-/

set_option autoImplicit false

namespace CodeGraph.Chunking

open CodeGraph.Syntax

structure Piece where
  start : Nat
  stop : Nat
  type : ChunkType
  symbol : Option String := none
  kind : Option String := none

def Piece.chunk (context : Context) (piece : Piece) : Chunk :=
  spanChunk context piece.start piece.stop piece.type piece.symbol piece.kind

def startOf (nodes : List Node) : Nat :=
  (nodes.head?.map Node.start).getD 0

def stopOf (nodes : List Node) : Nat :=
  (nodes.getLast?.map Node.stop).getD 0

def overNodes (nodes : List Node) (type : ChunkType) (symbol kind : Option String) : List Piece :=
  if nodes.isEmpty then [] else [⟨startOf nodes, stopOf nodes, type, symbol, kind⟩]

theorem overNodes_eq (nodes : List Node) (type : ChunkType) (symbol kind : Option String) :
    overNodes nodes type symbol kind =
      match nodes.head?, nodes.getLast? with
      | some first, some last => [⟨first.start, last.stop, type, symbol, kind⟩]
      | _, _ => [] := by
  cases nodes with
  | nil => rfl
  | cons first rest => simp [overNodes, startOf, stopOf, List.getLast?_cons]

theorem of_mem_overNodes {nodes : List Node} {type : ChunkType} {symbol kind : Option String}
    {piece : Piece} (member : piece ∈ overNodes nodes type symbol kind) :
    nodes ≠ [] ∧ piece = ⟨startOf nodes, stopOf nodes, type, symbol, kind⟩ := by
  unfold overNodes at member
  split at member
  next => cases member
  next some => exact ⟨by simpa using some, List.mem_singleton.mp member⟩

structure Declared where
  decorations : List Node
  entity : Entity
  type : ChunkType

namespace Declared

def nodes (item : Declared) : List Node :=
  item.decorations ++ [item.entity.outer]

def comment (item : Declared) : List Piece :=
  overNodes (item.decorations.filter isComment) .doc (some item.entity.name) (some "doc_comment")

def code (item : Declared) : Piece where
  start := entityStart item.entity item.decorations
  stop := item.entity.outer.stop
  type := item.type
  symbol := some item.entity.name
  kind := some item.entity.inner.kind

def docstring (language : Language) (item : Declared) : List Piece :=
  (docstring? language item.entity.inner).toList.map fun doc =>
    ⟨doc.start, doc.stop, .doc, some item.entity.name, some "docstring"⟩

def pieces (language : Language) (item : Declared) : List Piece :=
  item.comment ++ item.code :: item.docstring language

end Declared

theorem entityChunks_eq (context : Context) (item : Declared) :
    entityChunks context item.entity item.decorations item.type =
      (item.pieces context.language).map (Piece.chunk context) := by
  have above : item.comment.map (Piece.chunk context) =
      match (item.decorations.filter isComment).head?,
        (item.decorations.filter isComment).getLast? with
      | some first, some last =>
          [spanChunk context first.start last.stop .doc (some item.entity.name)
            (some "doc_comment")]
      | _, _ => [] := by
    rw [Declared.comment, overNodes_eq]
    split <;> rfl
  simp only [entityChunks, Declared.pieces, List.map_append, List.map_cons, above]
  congr 2
  rw [Declared.docstring]
  cases docstring? context.language item.entity.inner <;> rfl

def isDecoration (node : Node) : Bool :=
  isComment node || isAttribute node

def attachedTo (context : Context) (pending : List Node) (node : Node) : List Node :=
  pending.drop (pending.length - attachedCount context.source pending node)

def membersFrom (context : Context) (pending : List Node) : List Node → List Declared
  | [] => []
  | child :: rest =>
      if isDecoration child then membersFrom context (pending ++ [child]) rest
      else
        match Entity.member? context.language context.source child with
        | some member =>
            ⟨attachedTo context pending child, member, .method⟩ :: membersFrom context [] rest
        | none => membersFrom context [] rest

def members (context : Context) (container : Node) : List Declared :=
  match container.childAt? "body" with
  | some body => membersFrom context [] body.namedChildren
  | none => []

def memberPieces (context : Context) (container : Node) : List Piece :=
  (members context container).flatMap (Declared.pieces context.language)

theorem foldl_memberStep (context : Context) (rest : List Node) (scan : MemberScan) :
    (rest.foldl (memberStep context) scan).chunks =
      scan.chunks ++ ((membersFrom context scan.pending rest).flatMap
        (Declared.pieces context.language)).map (Piece.chunk context) := by
  induction rest generalizing scan with
  | nil => simp [membersFrom]
  | cons child rest ih =>
      rw [List.foldl_cons, ih, memberStep, membersFrom, isDecoration]
      by_cases decoration : (isComment child || isAttribute child) = true
      · simp only [decoration, if_true]
      · simp only [decoration]
        cases found : Entity.member? context.language context.source child with
        | none => rfl
        | some member =>
            have chunks := entityChunks_eq context
              ⟨attachedTo context scan.pending child, member, .method⟩
            dsimp only [attachedTo] at chunks
            simp [chunks, attachedTo]

theorem memberChunks_eq (context : Context) (container : Node) :
    memberChunks context container =
      (memberPieces context container).map (Piece.chunk context) := by
  unfold memberChunks memberPieces members
  cases container.childAt? "body" with
  | none => rfl
  | some body => exact foldl_memberStep context body.namedChildren {}

inductive Segment where
  | run (nodes : List Node)
  | imported (node : Node)
  | declared (item : Declared)

namespace Segment

def nodes : Segment → List Node
  | .run nodes => nodes
  | .imported node => [node]
  | .declared item => item.nodes

def ofRun (nodes : List Node) : List Segment :=
  if nodes.isEmpty then [] else [.run nodes]

end Segment

def isImport (context : Context) (node : Node) : Bool :=
  context.language.importKinds.contains node.kind

def segmentsFrom (context : Context) (block pending : List Node) : List Node → List Segment
  | [] => Segment.ofRun (block ++ pending)
  | child :: rest =>
      if isDecoration child then segmentsFrom context block (pending ++ [child]) rest
      else if isImport context child then
        Segment.ofRun (block ++ pending) ++ .imported child :: segmentsFrom context [] [] rest
      else
        match Entity.ofNode? context.language context.source child with
        | none => segmentsFrom context (block ++ pending ++ [child]) [] rest
        | some entity =>
            let detached := pending.length - attachedCount context.source pending child
            Segment.ofRun (block ++ pending.take detached) ++
              .declared ⟨attachedTo context pending child, entity, entity.type⟩ ::
                segmentsFrom context [] [] rest

def segments (context : Context) (children : List Node) : List Segment :=
  segmentsFrom context [] [] children

def runText (context : Context) (nodes : List Node) : String :=
  context.source.slice (startOf nodes) (stopOf nodes)

def blockPieces (context : Context) (nodes : List Node) : List Piece :=
  if context.minBlockSize ≤ solidLength (runText context nodes) then
    overNodes nodes .block none none
  else []

def Segment.pieces (context : Context) : Segment → List Piece
  | .run nodes => blockPieces context nodes
  | .imported _ => []
  | .declared item => item.pieces context.language ++ memberPieces context item.entity.inner

theorem flush_eq (context : Context) (scan : Scan) :
    flush context scan =
      { scan with
        block := []
        chunks := scan.chunks ++ (blockPieces context scan.block).map (Piece.chunk context) } := by
  unfold flush blockPieces
  rw [overNodes_eq]
  cases scan with
  | mk block pending chunks =>
      cases block with
      | nil => simp
      | cons first rest =>
          have ends : runText context (first :: rest) =
              context.source.slice first.start (rest.getLast?.getD first).stop := by
            simp [runText, startOf, stopOf, List.getLast?_cons]
          simp only [List.head?_cons, List.getLast?_cons, ends]
          split
          · rfl
          · simp

theorem pieces_ofRun (context : Context) (nodes : List Node) :
    (Segment.ofRun nodes).flatMap (Segment.pieces context) = blockPieces context nodes := by
  cases nodes with
  | nil => simp [Segment.ofRun, blockPieces, overNodes]
  | cons first rest => simp [Segment.ofRun, Segment.pieces]

def finish (context : Context) (scan : Scan) : Scan :=
  flush context { scan with block := scan.block ++ scan.pending, pending := [] }

theorem finish_foldl_step (context : Context) (rest : List Node) (scan : Scan) :
    (finish context (rest.foldl (step context) scan)).chunks =
      scan.chunks ++ ((segmentsFrom context scan.block scan.pending rest).flatMap
        (Segment.pieces context)).map (Piece.chunk context) := by
  -- Each step either moves a node between the buffers or closes segments, and emits their chunks.
  induction rest generalizing scan with
  | nil => simp only [List.foldl_nil, finish, flush_eq, segmentsFrom, pieces_ofRun]
  | cons child rest ih =>
      rw [List.foldl_cons, ih, step, segmentsFrom, isDecoration, isImport]
      by_cases decoration : (isComment child || isAttribute child) = true
      · simp only [decoration, if_true]
      · by_cases imported : context.language.importKinds.contains child.kind = true
        · simp only [decoration, imported, if_true, flush_eq]
          simp [pieces_ofRun, Segment.pieces]
        · simp only [decoration, imported]
          cases found : Entity.ofNode? context.language context.source child with
          | none => simp
          | some entity =>
              have chunks := entityChunks_eq context
                ⟨attachedTo context scan.pending child, entity, entity.type⟩
              dsimp only [attachedTo] at chunks
              simp [flush_eq, pieces_ofRun, Segment.pieces, memberChunks_eq, chunks, attachedTo]

def scopePieces (context : Context) (children : List Node) : List Piece :=
  (segments context children).flatMap (Segment.pieces context)

theorem scopeChunks_eq (context : Context) (children : List Node) :
    scopeChunks context children = (scopePieces context children).map (Piece.chunk context) :=
  finish_foldl_step context children {}

end CodeGraph.Chunking
