import CodeGraph.Digest.Hex
import CodeGraph.Digest.Sha1

set_option autoImplicit false

namespace CodeGraph.Digest

def stampVersion (bytes : List UInt8) : List UInt8 :=
  bytes.mapIdx fun index byte =>
    if index = 6 then (byte &&& 0x0F) ||| 0x50
    else if index = 8 then (byte &&& 0x3F) ||| 0x80
    else byte

def uuidText (bytes : List UInt8) : String :=
  let group (start count : Nat) : String := hex ((bytes.drop start).take count)
  group 0 4 ++ "-" ++ group 4 2 ++ "-" ++ group 6 2 ++ "-" ++ group 8 2 ++ "-" ++ group 10 6

def namedUuid (space : List UInt8) (name : List UInt8) : String :=
  uuidText (stampVersion ((sha1 (space ++ name)).take 16))

end CodeGraph.Digest
