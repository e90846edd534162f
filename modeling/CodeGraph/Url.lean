import CodeGraph.Text.Case
import CodeGraph.Digest.Hex

/-!
Web addresses with the schemes `http` and `https`: host, and path in its normal form. User names,
ports and queries are checked and then dropped, since nothing here needs them.
-/

set_option autoImplicit false

namespace CodeGraph

structure Url where
  host : String
  path : String
deriving DecidableEq, Repr

namespace Url

/-- Drops control characters and spaces at both ends, and tabs and line breaks everywhere. -/
def clean (text : List Char) : List Char :=
  (Text.trimBy (fun c => decide (c.toNat ≤ 32)) text).filter
    (fun c => !(c == '\t' || c == '\n' || c == '\r'))

def lowerAscii (text : List Char) : List Char :=
  text.map Char.toLower

def afterScheme? (text : List Char) : Option (List Char) := do
  let (scheme, rest) ← Text.splitOnce ':' text
  let scheme := String.ofList (lowerAscii scheme)
  if scheme == "http" || scheme == "https" then some rest else none

def isSlash (c : Char) : Bool :=
  c == '/' || c == '\\'

def endsAuthority (c : Char) : Bool :=
  isSlash c || c == '?' || c == '#'

def percentDecode : List Char → List UInt8
  | '%' :: a :: b :: rest =>
      match Digest.hexValue? a, Digest.hexValue? b with
      | some high, some low => (16 * high + low).toUInt8 :: percentDecode rest
      | _, _ => Text.bytes "%" ++ percentDecode (a :: b :: rest)
  | c :: rest => Text.bytes (String.ofList [c]) ++ percentDecode rest
  | [] => []

def isPathChar (c : Char) : Bool :=
  decide (32 < c.toNat) && decide (c.toNat < 127) &&
    !("\"<>`#?\x7b\x7d".toList.contains c)

def percentEncode (c : Char) : List Char :=
  if isPathChar c then [c]
  else
    (Text.bytes (String.ofList [c])).flatMap
      (fun byte => '%' :: (Digest.hexByte byte).map Char.toUpper)

def digitsIn (base : Nat) (digits : List Char) : Option Nat :=
  digits.foldl (fun value c => do
    let value ← value
    let digit ← Digest.hexValue? c
    if digit < base then some (base * value + digit) else none) (some 0)

/-- A part of a numeric address: decimal, octal after `0`, hexadecimal after `0x`. -/
def ipv4Part? : List Char → Option Nat
  | [] => none
  | '0' :: 'x' :: digits | '0' :: 'X' :: digits => digitsIn 16 digits
  | '0' :: c :: digits => digitsIn 8 (c :: digits)
  | digits => digitsIn 10 digits

def withoutFinalEmpty (pieces : List (List Char)) : List (List Char) :=
  if pieces.length > 1 && pieces.getLast? == some [] then pieces.dropLast else pieces

/-- A host whose last label is a number has to be a numeric address. -/
def looksNumeric (host : List Char) : Bool :=
  match (withoutFinalEmpty (Text.splitOn '.' host)).getLast? with
  | some last =>
      (!last.isEmpty && last.all Text.isDigit) ||
        (Text.startsWith ['0', 'x'] last && (ipv4Part? last).isSome)
  | none => false

def ipv4Text (address : Nat) : List Char :=
  (s!"{address / 16777216 % 256}.{address / 65536 % 256}.{address / 256 % 256}.{address % 256}").toList

def ipv4? (host : List Char) : Option (List Char) := do
  let pieces := withoutFinalEmpty (Text.splitOn '.' host)
  if pieces.length > 4 then none
  let numbers ← pieces.mapM ipv4Part?
  let last ← numbers.getLast?
  let before := numbers.dropLast
  if before.any (fun number => decide (number > 255)) then none
  if last ≥ Nat.pow 256 (4 - before.length) then none
  let high := before.zipIdx.foldl (fun sum entry => sum + entry.1 * Nat.pow 256 (3 - entry.2)) 0
  return ipv4Text (high + last)

def groups? (text : List Char) : Option (List Nat) :=
  if text.isEmpty then some []
  else
    (Text.splitOn ':' text).mapM (fun group =>
      if group.isEmpty || group.length > 4 then none else digitsIn 16 group)

/-- A final dotted group stands for two groups. -/
def expandDotted? (text : List Char) : Option (List Char) :=
  if !text.contains '.' then some text
  else do
    let (before, last) := (Text.splitLast ':' text).getD ([], text)
    let pieces := Text.splitOn '.' last
    if pieces.length ≠ 4 then none
    let numbers ← pieces.mapM (fun piece =>
      if piece.isEmpty || !piece.all Text.isDigit then none
      else if piece.length > 1 && piece.head? == some '0' then none
      else (some (Text.digitsValue piece)).filter (fun value => decide (value < 256)))
    match numbers with
    | [a, b, c, d] =>
        return before ++ [':'] ++ Nat.toDigits 16 (256 * a + b) ++ [':'] ++
          Nat.toDigits 16 (256 * c + d)
    | _ => none

def splitDouble : List Char → Option (List Char × List Char)
  | ':' :: ':' :: rest => some ([], rest)
  | c :: rest => (splitDouble rest).map (fun parts => (c :: parts.1, parts.2))
  | [] => none

def ipv6Groups? (text : List Char) : Option (List Nat) := do
  let text ← expandDotted? text
  match splitDouble text with
  | none => (groups? text).filter (fun groups => groups.length == 8)
  | some (left, right) =>
      let left ← groups? left
      let right ← groups? right
      let missing := 8 - (left.length + right.length)
      if missing = 0 then none
      return left ++ List.replicate missing 0 ++ right

/-- The first of the longest runs of at least two zero groups, as start and length. -/
def longestZeros (groups : List Nat) : Option (Nat × Nat) :=
  let run (start : Nat) : Nat := ((groups.drop start).takeWhile (· == 0)).length
  (List.range groups.length).foldl (fun best start =>
    let length := run start
    match best with
    | some (_, longest) => if length > longest then some (start, length) else best
    | none => if length ≥ 2 then some (start, length) else none) none

def groupsText (groups : List Nat) : List Char :=
  Text.joinWith [':'] (groups.map (Nat.toDigits 16))

def ipv6Text (groups : List Nat) : List Char :=
  match longestZeros groups with
  | none => groupsText groups
  | some (start, length) =>
      groupsText (groups.take start) ++ [':', ':'] ++ groupsText (groups.drop (start + length))

def punycodeDigit (value : Nat) : Char :=
  if value < 26 then Char.ofNat (97 + value) else Char.ofNat (22 + value)

def punycodeAdapt (delta count : Nat) (first : Bool) : Nat :=
  let delta := if first then delta / 700 else delta / 2
  let rec settle : Nat → Nat → Nat → Nat
    | 0, delta, k => k + 36 * delta / (delta + 38)
    | fuel + 1, delta, k =>
        if delta > 455 then settle fuel (delta / 35) (k + 36) else k + 36 * delta / (delta + 38)
  settle 20 (delta + delta / count) 0

def punycodeNumber : Nat → Nat → Nat → Nat → List Char
  | 0, _, _, _ => []
  | fuel + 1, value, k, bias =>
      let threshold := if k ≤ bias then 1 else min 26 (k - bias)
      if value < threshold then [punycodeDigit value]
      else
        punycodeDigit (threshold + (value - threshold) % (36 - threshold)) ::
          punycodeNumber fuel ((value - threshold) / (36 - threshold)) (k + 36) bias

structure Punycode where
  delta : Nat
  bias : Nat
  handled : Nat
  output : List Char

def punycodeStep (basic code : Nat) (state : Punycode) (c : Char) : Punycode :=
  if c.toNat < code then { state with delta := state.delta + 1 }
  else if c.toNat = code then
    { delta := 0
      bias := punycodeAdapt state.delta (state.handled + 1) (state.handled == basic)
      handled := state.handled + 1
      output := state.output ++ punycodeNumber 20 state.delta 36 state.bias }
  else state

def punycode (label : List Char) : List Char :=
  let basic := label.filter (fun c => decide (c.toNat < 128))
  let codes := ((label.map Char.toNat).filter (fun code => decide (128 ≤ code))).mergeSort
  let codes := codes.eraseDups
  let start : Punycode :=
    { delta := 0, bias := 72, handled := basic.length
      output := if basic.isEmpty then [] else basic ++ ['-'] }
  let step (entry : Punycode × Nat) (code : Nat) : Punycode × Nat :=
    let state := { entry.1 with
      delta := entry.1.delta + (code - entry.2) * (entry.1.handled + 1) }
    let state := label.foldl (punycodeStep basic.length code) state
    ({ state with delta := state.delta + 1 }, code + 1)
  (codes.foldl step (start, 128)).1.output

def asciiLabel (label : List Char) : List Char :=
  if label.all (fun c => decide (c.toNat < 128)) then label
  else "xn--".toList ++ punycode label

def isForbidden (c : Char) : Bool :=
  decide (c.toNat ≤ 32) || c.toNat == 127 || "#/:<>?@[\\]^|%".toList.contains c

def host? : List Char → Option (List Char)
  | '[' :: rest =>
      if rest.getLast? == some ']' then
        (ipv6Groups? rest.dropLast).map (fun groups => ['['] ++ ipv6Text groups ++ [']'])
      else none
  | text => do
      let decoded ← Text.ofBytes? (percentDecode text)
      let name := Text.lowercase decoded.toList
      let name := Text.joinWith ['.'] ((Text.splitOn '.' name).map asciiLabel)
      if name.isEmpty || name.any isForbidden then none
      if looksNumeric name then ipv4? name else some name

def isPort (text : List Char) : Bool :=
  text.all Text.isDigit && decide (Text.digitsValue text < 65536)

/-- The host part and the port part. A colon inside brackets belongs to the host. -/
def splitPort (text : List Char) : List Char × List Char :=
  let bracketed := match Text.splitLast ']' text with
    | some (before, after) => (before ++ [']'], after)
    | none => ([], text)
  match Text.splitOnce ':' bracketed.2 with
  | some (before, port) => (bracketed.1 ++ before, port)
  | none => (text, [])

def isSingleDot (segment : List Char) : Bool :=
  let segment := String.ofList (lowerAscii segment)
  segment == "." || segment == "%2e"

def isDoubleDot (segment : List Char) : Bool :=
  ["..", ".%2e", "%2e.", "%2e%2e"].contains (String.ofList (lowerAscii segment))

/-- Segments of a path without dot segments, last first. A dot segment at the end leaves an empty
one. -/
def normalSegments : List (List Char) → List (List Char) → List (List Char)
  | done, [] => done
  | done, [segment] =>
      if isDoubleDot segment then [] :: done.tail
      else if isSingleDot segment then [] :: done
      else segment :: done
  | done, segment :: rest =>
      if isDoubleDot segment then normalSegments done.tail rest
      else if isSingleDot segment then normalSegments done rest
      else normalSegments (segment :: done) rest

def normalPath (path : List Char) : List Char :=
  let path := match path with
    | c :: rest => if isSlash c then rest else path
    | [] => []
  let segments := (normalSegments [] (Text.splitBy isSlash path)).reverse
  '/' :: Text.joinWith ['/'] (segments.map (fun segment => segment.flatMap percentEncode))

def parse? (text : String) : Option Url := do
  let rest ← afterScheme? (clean text.toList)
  let rest := rest.dropWhile isSlash
  let authority := rest.takeWhile (fun c => !endsAuthority c)
  let rest := rest.dropWhile (fun c => !endsAuthority c)
  let place := match Text.splitLast '@' authority with
    | some (_, place) => place
    | none => authority
  let (name, port) := splitPort place
  if !isPort port then none
  let host ← host? name
  let path := rest.takeWhile (fun c => !(c == '?' || c == '#'))
  return { host := String.ofList host, path := String.ofList (normalPath path) }

def segments (url : Url) : List String :=
  ((Text.splitOn '/' url.path.toList).filter (fun segment => !segment.isEmpty)).map String.ofList

def serverBase (address : String) : String :=
  let address := Text.trimEndBy (· == '/') address.toList
  match Text.splitLast ':' address with
  | some (base, port) =>
      String.ofList (if (Text.boundedNatural? 65535 port).isSome then base else address)
  | none => String.ofList address

def isServer (address : String) : Bool :=
  (parse? (serverBase address)).isSome

end Url

end CodeGraph
