/-!
BLAKE3 with the default key and a 32 byte output. The digest of a text names the content of a file
everywhere in the index.
-/

set_option autoImplicit false

namespace CodeGraph.Digest

abbrev Block : Type := Vector UInt32 16

abbrev ChainingValue : Type := Vector UInt32 8

def rotateRight (word : UInt32) (count : UInt32) : UInt32 :=
  (word >>> count) ||| (word <<< (32 - count))

def rotateLeft (word : UInt32) (count : UInt32) : UInt32 :=
  (word <<< count) ||| (word >>> (32 - count))

def littleEndianWord (bytes : List UInt8) : UInt32 :=
  bytes.foldr (fun byte word => (word <<< 8) ||| byte.toUInt32) 0

def littleEndianBytes (word : UInt32) : List UInt8 :=
  [word.toUInt8, (word >>> 8).toUInt8, (word >>> 16).toUInt8, (word >>> 24).toUInt8]

namespace Blake3

def initial : ChainingValue :=
  #v[0x6A09E667, 0xBB67AE85, 0x3C6EF372, 0xA54FF53A, 0x510E527F, 0x9B05688C, 0x1F83D9AB, 0x5BE0CD19]

def permutation : Vector (Fin 16) 16 :=
  #v[2, 6, 3, 10, 7, 0, 4, 13, 1, 11, 12, 5, 9, 14, 15, 8]

def permute (message : Block) : Block :=
  permutation.map (fun source => message[source])

def chunkStart : UInt32 := 1
def chunkEnd : UInt32 := 2
def parentNode : UInt32 := 4
def rootNode : UInt32 := 8

def mix (state : Block) (a b c d : Fin 16) (x y : UInt32) : Block :=
  let va := state[a] + state[b] + x
  let vd := rotateRight (state[d] ^^^ va) 16
  let vc := state[c] + vd
  let vb := rotateRight (state[b] ^^^ vc) 12
  let va := va + vb + y
  let vd := rotateRight (vd ^^^ va) 8
  let vc := vc + vd
  let vb := rotateRight (vb ^^^ vc) 7
  (((state.set a va).set b vb).set c vc).set d vd

def round (state message : Block) : Block :=
  let state := mix state 0 4 8 12 message[0] message[1]
  let state := mix state 1 5 9 13 message[2] message[3]
  let state := mix state 2 6 10 14 message[4] message[5]
  let state := mix state 3 7 11 15 message[6] message[7]
  let state := mix state 0 5 10 15 message[8] message[9]
  let state := mix state 1 6 11 12 message[10] message[11]
  let state := mix state 2 7 8 13 message[12] message[13]
  mix state 3 4 9 14 message[14] message[15]

def rounds : Nat → Block → Block → Block
  | 0, state, _ => state
  | count + 1, state, message => rounds count (round state message) (permute message)

def compress (chaining : ChainingValue) (message : Block) (counter : Nat) (length flags : UInt32) :
    ChainingValue :=
  let state : Block := #v[chaining[0], chaining[1], chaining[2], chaining[3], chaining[4],
    chaining[5], chaining[6], chaining[7], initial[0], initial[1], initial[2], initial[3],
    counter.toUInt32, (counter / 4294967296).toUInt32, length, flags]
  let state := rounds 7 state message
  #v[state[0] ^^^ state[8], state[1] ^^^ state[9], state[2] ^^^ state[10], state[3] ^^^ state[11],
    state[4] ^^^ state[12], state[5] ^^^ state[13], state[6] ^^^ state[14], state[7] ^^^ state[15]]

def blockWords (bytes : List UInt8) : Block :=
  Vector.ofFn (fun index : Fin 16 => littleEndianWord ((bytes.drop (4 * index)).take 4))

/-- Compresses the blocks of one chunk. `flags` is added to the last block only. -/
def chunkBlocks (counter : Nat) (flags : UInt32) :
    Nat → ChainingValue → UInt32 → List UInt8 → ChainingValue
  | 0, chaining, _, _ => chaining
  | fuel + 1, chaining, start, bytes =>
      if bytes.length ≤ 64 then
        compress chaining (blockWords bytes) counter bytes.length.toUInt32
          (start ||| chunkEnd ||| flags)
      else
        chunkBlocks counter flags fuel
          (compress chaining (blockWords (bytes.take 64)) counter 64 start) 0 (bytes.drop 64)

def chunk (counter : Nat) (flags : UInt32) (bytes : List UInt8) : ChainingValue :=
  chunkBlocks counter flags 16 initial chunkStart bytes

def parent (left right : ChainingValue) (flags : UInt32) : ChainingValue :=
  compress initial (left ++ right) 0 64 (parentNode ||| flags)

/-- The number of chunks in the left subtree: the largest power of two below `count`. -/
def leftChunks (count : Nat) : Nat :=
  Nat.pow 2 (Nat.log2 (count - 1))

def subtree : Nat → Nat → UInt32 → List UInt8 → ChainingValue
  | 0, counter, flags, bytes => chunk counter flags bytes
  | fuel + 1, counter, flags, bytes =>
      let count := (bytes.length + 1023) / 1024
      if count ≤ 1 then
        chunk counter flags bytes
      else
        let left := leftChunks count
        parent (subtree fuel counter 0 (bytes.take (1024 * left)))
          (subtree fuel (counter + left) 0 (bytes.drop (1024 * left))) flags

end Blake3

/-- The tree over `n` chunks is less than 64 levels deep for every length that fits a counter. -/
def blake3 (bytes : List UInt8) : List UInt8 :=
  (Blake3.subtree 64 0 Blake3.rootNode bytes).toList.flatMap littleEndianBytes

end CodeGraph.Digest
