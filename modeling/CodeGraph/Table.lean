set_option autoImplicit false

namespace CodeGraph.Table

variable {α κ : Type} [DecidableEq κ]

def get? (key : α → κ) (rows : List α) (k : κ) : Option α :=
  rows.find? (fun row => decide (key row = k))

/-- Replaces the row with the same key in its place, or adds the row at the end. -/
def put (key : α → κ) (row : α) : List α → List α
  | [] => [row]
  | old :: rest => if key old = key row then row :: rest else old :: put key row rest

def update (key : α → κ) (k : κ) (change : α → α) (rows : List α) : List α :=
  rows.map (fun row => if key row = k then change row else row)

def erase (key : α → κ) (k : κ) (rows : List α) : List α :=
  rows.filter (fun row => decide (key row ≠ k))

def has (key : α → κ) (rows : List α) (k : κ) : Bool :=
  rows.any (fun row => decide (key row = k))

theorem get?_put_self (key : α → κ) (row : α) (rows : List α) :
    get? key (put key row rows) (key row) = some row := by
  induction rows with
  | nil => simp [put, get?]
  | cons old rest ih =>
      by_cases same : key old = key row
      · simp [put, get?, same]
      · simp only [put, same, if_false]
        simpa [get?, List.find?_cons, same] using ih

theorem get?_put_of_ne (key : α → κ) (row : α) (rows : List α) (k : κ) (other : key row ≠ k) :
    get? key (put key row rows) k = get? key rows k := by
  induction rows with
  | nil => simp [put, get?, other]
  | cons old rest ih =>
      by_cases same : key old = key row
      · simp [put, get?, same, other]
      · simp only [put, same, if_false]
        simp only [get?, List.find?_cons] at ih ⊢
        rw [ih]

theorem get?_erase_self (key : α → κ) (k : κ) (rows : List α) :
    get? key (erase key k rows) k = none := by
  simp [get?, erase]

end CodeGraph.Table
