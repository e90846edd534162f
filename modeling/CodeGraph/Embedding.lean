import CodeGraph.Batch
import CodeGraph.Digest.Blake3
import CodeGraph.Text
import CodeGraph.Text.Case

/-!
Hashed embeddings: the words of a text, and the parts of words in camel case, are counted with a
sign in buckets that their digests choose, and the counts are scaled to length one.
-/

set_option autoImplicit false

namespace CodeGraph

abbrev Embedding : Type := List Float32

namespace Embedding

/-- The parts of a word. A part ends before an upper-case letter that follows a lower-case letter or
a digit. `part` holds the characters of the current part, last first. -/
def camelParts (part : List Char) (afterLower : Bool) : List Char → List (List Char)
  | [] => [part.reverse]
  | c :: rest =>
      let lower := Text.isLowercase c || Text.isDigit c
      if Text.isUppercase c && afterLower then part.reverse :: camelParts [c] lower rest
      else camelParts (c :: part) lower rest

def wordTokens (word : List Char) : List (List Char) :=
  let parts := camelParts [] false word
  (if 1 < parts.length then parts.map Text.lowercase else []) ++ [Text.lowercase word]

def tokens (text : String) : List (List Char) :=
  let words := (Text.splitBy (fun c => !Text.isWord c) text.toList).filter (fun w => !w.isEmpty)
  words.flatMap wordTokens

def littleEndian (bytes : List UInt8) : Nat :=
  bytes.foldr (fun byte value => byte.toNat + 256 * value) 0

def bucket (dimensions : Nat) (token : List Char) : Nat × Bool :=
  let digest := Digest.blake3 (Text.bytes (String.ofList token))
  (littleEndian (digest.take 8) % dimensions, (digest.getD 8 0) &&& 1 == 0)

def count (vector : Array Float32) (slot : Nat × Bool) : Array Float32 :=
  vector.modify slot.1 (fun value => if slot.2 then value + 1 else value - 1)

def magnitude (vector : Embedding) : Float32 :=
  (vector.foldl (fun sum x => sum + x * x) 0).sqrt

def normalize (vector : Embedding) : Embedding :=
  let norm := magnitude vector
  if 0 < norm then vector.map (· / norm) else vector

def ofText (dimensions : Nat) (text : String) : Embedding :=
  let counts := (tokens text).foldl (fun vector token => count vector (bucket dimensions token))
    (Array.replicate dimensions (0 : Float32))
  normalize counts.toList

def cosine (a b : Embedding) : Float32 :=
  let (dot, squaresA, squaresB) := (a.zip b).foldl
    (fun (dot, squaresA, squaresB) (x, y) => (dot + x * y, squaresA + x * x, squaresB + y * y))
    ((0, 0, 0) : Float32 × Float32 × Float32)
  if squaresA == 0 || squaresB == 0 then 0 else dot / (squaresA.sqrt * squaresB.sqrt)

end Embedding

structure HashEmbedder where
  dimensions : Nat

namespace HashEmbedder

/-- At least one dimension. -/
def make (dimensions : Nat) : HashEmbedder :=
  ⟨max dimensions 1⟩

def name : String := "hash"

def embed (embedder : HashEmbedder) (text : String) : Embedding :=
  Embedding.ofText embedder.dimensions text

def embedAll (embedder : HashEmbedder) (batchSize : Nat) (texts : List String) : List Embedding :=
  (batches batchSize texts).flatMap (fun batch => batch.map embedder.embed)

def requests (batchSize : Nat) (texts : List String) : Nat :=
  (batches batchSize texts).length

end HashEmbedder

end CodeGraph
