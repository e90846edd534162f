import CodeGraph.Digest.Uuid
import CodeGraph.Language

/-!
Chunks: the semantic units a source file is cut into. The identifier of a chunk depends on its
file, symbol, kind and lines alone, so indexing an unchanged symbol again stores the same row.
-/

set_option autoImplicit false

namespace CodeGraph

inductive ChunkType where
  | function
  | method
  | classLike
  | interface
  | typeAlias
  | enum
  | binding
  | module
  | doc
  | block
  | file
deriving DecidableEq, Repr, Inhabited

namespace ChunkType

def all : List ChunkType :=
  [.function, .method, .classLike, .interface, .typeAlias, .enum, .binding, .module, .doc, .block,
    .file]

def name : ChunkType → String
  | .function => "function"
  | .method => "method"
  | .classLike => "class"
  | .interface => "interface"
  | .typeAlias => "type_alias"
  | .enum => "enum"
  | .binding => "variable"
  | .module => "module"
  | .doc => "doc"
  | .block => "block"
  | .file => "file"

def ofName? (text : String) : Option ChunkType :=
  all.find? (fun kind => kind.name == text)

@[simp] theorem ofName?_name (kind : ChunkType) : ofName? kind.name = some kind := by
  cases kind <;> rfl

/-- Reads a stored name; a name nobody knows is a block. -/
def ofName (text : String) : ChunkType :=
  (ofName? text).getD .block

@[simp] theorem ofName_name (kind : ChunkType) : ofName kind.name = kind := by
  simp [ofName]

def isSymbol : ChunkType → Bool
  | .doc | .block | .file => false
  | _ => true

end ChunkType

structure Chunk where
  id : String
  content : String
  filePath : String
  lineStart : Nat
  lineEnd : Nat
  type : ChunkType
  symbol : Option String
  kind : Option String
deriving DecidableEq, Repr, Inhabited

namespace Chunk

def idSpace : List UInt8 :=
  [0x6C, 0x0D, 0xE3, 0xA1, 0x9B, 0x7E, 0x4F, 0x52, 0xA1, 0xC4, 0x5D, 0x2E, 0x8F, 0x90, 0xB3, 0x17]

def idKey (filePath symbol : String) (type : ChunkType) (lineStart lineEnd : Nat) : String :=
  filePath ++ "\x00" ++ symbol ++ "\x00" ++ type.name ++ "\x00" ++ toString lineStart ++ "-" ++
    toString lineEnd

def idOf (filePath symbol : String) (type : ChunkType) (lineStart lineEnd : Nat) : String :=
  Digest.namedUuid idSpace (Text.bytes (idKey filePath symbol type lineStart lineEnd))

def label (chunk : Chunk) : String :=
  chunk.symbol.getD chunk.type.name

def make (content filePath : String) (lineStart lineEnd : Nat) (type : ChunkType)
    (symbol kind : Option String) : Chunk :=
  { id := idOf filePath (symbol.getD type.name) type lineStart lineEnd
    content, filePath, lineStart, lineEnd, type, symbol, kind }

def containsLine (chunk : Chunk) (line : Nat) : Bool :=
  decide (chunk.lineStart ≤ line) && decide (line ≤ chunk.lineEnd)

def lineSpan (chunk : Chunk) : Nat :=
  chunk.lineEnd - chunk.lineStart

def placeLe (a b : Chunk) : Bool :=
  if a.filePath ≠ b.filePath then decide (a.filePath < b.filePath)
  else if a.lineStart ≠ b.lineStart then decide (a.lineStart < b.lineStart)
  else if a.lineEnd ≠ b.lineEnd then decide (a.lineEnd < b.lineEnd)
  else decide (a.id ≤ b.id)

def header (chunk : Chunk) : String :=
  chunk.filePath ++ " :: " ++ chunk.label ++ " (lines " ++ toString chunk.lineStart ++ "-" ++
    toString chunk.lineEnd ++ ")"

def embeddingText (chunk : Chunk) (language : Option Language) : String :=
  "# " ++ chunk.filePath ++ "\n" ++
    (match chunk.symbol with
      | some name => "# Symbol: " ++ chunk.type.name ++ " " ++ name ++ "\n"
      | none => "") ++
    (match language with
      | some language => "# Language: " ++ language.id ++ "\n"
      | none => "") ++
    chunk.content

end Chunk

end CodeGraph
