set_option autoImplicit false

namespace CodeGraph.Text

/-- The index of the last range whose first member is at most `value`, searched in `[low, high)`. -/
def lastStart (start : Nat → Nat) (value : Nat) : Nat → Nat → Nat → Option Nat
  | 0, _, _ => none
  | fuel + 1, low, high =>
      if high ≤ low then
        if low = 0 then none else some (low - 1)
      else
        let middle := (low + high) / 2
        if start middle ≤ value then lastStart start value fuel (middle + 1) high
        else lastStart start value fuel low middle

def find? {α : Type} (table : Array α) (start : α → Nat) (value : Nat) : Option α := do
  let at? (index : Nat) : Nat := (table[index]?.map start).getD 0
  let index ← lastStart at? value (table.size + 1) 0 table.size
  table[index]?

def inRanges (table : Array (Nat × Nat)) (value : Nat) : Bool :=
  match find? table Prod.fst value with
  | some (_, last) => decide (value ≤ last)
  | none => false

def inRuns (table : Array (Nat × Nat × Nat)) (value : Nat) : Bool :=
  match find? table Prod.fst value with
  | some (first, last, step) => decide (value ≤ last) && (value - first) % step == 0
  | none => false

end CodeGraph.Text
