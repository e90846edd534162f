import CodeGraph.Digest.Blake3

set_option autoImplicit false

namespace CodeGraph.Digest

namespace Sha1

structure Registers where
  a : UInt32
  b : UInt32
  c : UInt32
  d : UInt32
  e : UInt32

def initial : Registers :=
  ⟨0x67452301, 0xEFCDAB89, 0x98BADCFE, 0x10325476, 0xC3D2E1F0⟩

def bigEndianWord (bytes : List UInt8) : UInt32 :=
  bytes.foldl (fun word byte => (word <<< 8) ||| byte.toUInt32) 0

def bigEndianBytes (count value : Nat) : List UInt8 :=
  (List.range count).reverse.map (fun place => (value / Nat.pow 256 place).toUInt8)

/-- A one bit, zeros up to eight bytes short of a block, and the length in bits. -/
def pad (bytes : List UInt8) : List UInt8 :=
  let zeros := (119 - bytes.length % 64) % 64
  bytes ++ (0x80 :: List.replicate zeros 0) ++ bigEndianBytes 8 (8 * bytes.length)

def extend : Nat → List UInt32 → List UInt32
  | 0, words => words
  | count + 1, words =>
      let word (back : Nat) : UInt32 := words.getD (back - 1) 0
      extend count (rotateLeft (word 3 ^^^ word 8 ^^^ word 14 ^^^ word 16) 1 :: words)

def schedule (block : List UInt8) : List UInt32 :=
  let words := (List.range 16).map (fun index => bigEndianWord ((block.drop (4 * index)).take 4))
  (extend 64 words.reverse).reverse

def step (registers : Registers) (index : Nat) (word : UInt32) : Registers :=
  let { a, b, c, d, e } := registers
  let (f, k) :=
    if index < 20 then ((b &&& c) ||| ((~~~ b) &&& d), 0x5A827999)
    else if index < 40 then (b ^^^ c ^^^ d, 0x6ED9EBA1)
    else if index < 60 then ((b &&& c) ||| (b &&& d) ||| (c &&& d), 0x8F1BBCDC)
    else (b ^^^ c ^^^ d, 0xCA62C1D6)
  ⟨rotateLeft a 5 + f + e + k + word, a, rotateLeft b 30, c, d⟩

def block (registers : Registers) (bytes : List UInt8) : Registers :=
  let words := (schedule bytes).zipIdx
  let next := words.foldl (fun state entry => step state entry.2 entry.1) registers
  ⟨registers.a + next.a, registers.b + next.b, registers.c + next.c, registers.d + next.d,
    registers.e + next.e⟩

def blocks : Nat → Registers → List UInt8 → Registers
  | 0, registers, _ => registers
  | count + 1, registers, bytes => blocks count (block registers (bytes.take 64)) (bytes.drop 64)

end Sha1

def sha1 (bytes : List UInt8) : List UInt8 :=
  let padded := Sha1.pad bytes
  let result := Sha1.blocks (padded.length / 64) Sha1.initial padded
  [result.a, result.b, result.c, result.d, result.e].flatMap
    (fun word => Sha1.bigEndianBytes 4 word.toNat)

end CodeGraph.Digest
