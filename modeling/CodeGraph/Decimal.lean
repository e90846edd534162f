import CodeGraph.Text

/-!
Numbers written with a fixed number of decimal places. The value is rounded exactly, and a half goes
to the even neighbour.
-/

set_option autoImplicit false

namespace CodeGraph.Decimal

/-- The natural number nearest to a quotient; a half goes to the even neighbour. -/
def roundQuotient (numerator denominator : Nat) : Nat :=
  let below := numerator / denominator
  let twice := 2 * (numerator % denominator)
  if twice < denominator ∨ (twice = denominator ∧ below % 2 = 0) then below else below + 1

/-- A number of `count` units of the last place: `1234` with three places is `1.234`. -/
def place (places count : Nat) : String :=
  let whole := toString (count / Nat.pow 10 places)
  let fraction := toString (count % Nat.pow 10 places)
  let zeros := String.ofList (List.replicate (places - fraction.length) '0')
  if places = 0 then whole else whole ++ "." ++ zeros ++ fraction

/-- A single-precision number in parts: its sign, and `significand · 2 ^ (exponent - 149)`. -/
structure Binary where
  negative : Bool
  significand : Nat
  exponent : Nat
deriving DecidableEq, Repr

def fractionSize : Nat := 8388608

def signWeight : Nat := 2147483648

def binary? (bits : UInt32) : Option Binary :=
  let word := bits.toNat
  let fraction := word % fractionSize
  let exponent := word / fractionSize % 256
  let negative := decide (signWeight ≤ word)
  if exponent = 255 then none
  else if exponent = 0 then some ⟨negative, fraction, 0⟩
  else some ⟨negative, fraction + fractionSize, exponent - 1⟩

def Binary.fixed (places : Nat) (value : Binary) : String :=
  let units := roundQuotient (value.significand * Nat.pow 2 value.exponent * Nat.pow 10 places)
    (Nat.pow 2 149)
  (if value.negative then "-" else "") ++ place places units

def fixed (places : Nat) (number : Float32) : String :=
  match binary? number.toBits with
  | some value => value.fixed places
  | none =>
      if number.toBits.toNat % fractionSize ≠ 0 then "NaN"
      else if signWeight ≤ number.toBits.toNat then "-inf"
      else "inf"

end CodeGraph.Decimal
