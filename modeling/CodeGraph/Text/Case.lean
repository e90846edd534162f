import CodeGraph.Text

set_option autoImplicit false

namespace CodeGraph.Text

def lowercaseChar (c : Char) : Char :=
  match find? lowercaseTable Prod.fst c.toNat with
  | some (first, last, step, distance) =>
      if c.toNat ≤ last ∧ (c.toNat - first) % step = 0 then
        Char.ofNat ((c.toNat : Int) + distance).toNat
      else c
  | none => c

def nextIsCased (text : List Char) : Bool :=
  match text.dropWhile (fun c => isCaseIgnorable c && !isCased c) with
  | c :: _ => isCased c
  | [] => false

/-- A capital sigma ends a word when a cased character stands before it and none after it. -/
def lowercaseFrom : List Char → List Char → List Char
  | _, [] => []
  | before, c :: rest =>
      let image :=
        if c.toNat = 0x3A3 then
          [Char.ofNat (if nextIsCased before && !nextIsCased rest then 0x3C2 else 0x3C3)]
        else if c.toNat = 0x130 then ['i', Char.ofNat 0x307]
        else [lowercaseChar c]
      image ++ lowercaseFrom (c :: before) rest

def lowercase (text : List Char) : List Char :=
  lowercaseFrom [] text

end CodeGraph.Text
