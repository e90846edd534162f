import CodeGraph.Text

/-!
TOML values and documents under construction. A table remembers how it came to be, which decides
whether a later header or key may add to it.
-/

set_option autoImplicit false

namespace CodeGraph

inductive Toml where
  | string (text : String)
  | integer (value : Int)
  /-- A float or a time, as it is written. -/
  | other (text : String)
  | boolean (value : Bool)
  | array (items : List Toml)
  | table (entries : List (String × Toml))
deriving Inhabited, Repr

namespace Toml

/-- How a table came to be: below a header, by its own header, or by a dotted key. -/
inductive Origin where
  | implied
  | header
  | dotted
deriving DecidableEq, Repr

inductive Item where
  | value (value : Toml)
  | table (origin : Origin) (entries : List (String × Item))
  | tables (rows : List (List (String × Item)))
deriving Inhabited

abbrev Entries : Type := List (String × Item)

namespace Entries

def set (key : String) (item : Item) : Entries → Entries
  | [] => [(key, item)]
  | (k, old) :: rest => if k = key then (key, item) :: rest else (k, old) :: set key item rest

def descend? (change : Entries → Option Entries) : Item → Option Item
  | .table origin entries => (change entries).map (.table origin)
  | .tables rows =>
      match rows.getLast? with
      | some last => (change last).map (fun row => .tables (rows.dropLast ++ [row]))
      | none => none
  | .value _ => none

def alter? (path : List String) (change : Entries → Option Entries) (entries : Entries) :
    Option Entries :=
  match path with
  | [] => change entries
  | key :: path => do
      let item := (entries.lookup key).getD (.table .implied [])
      return set key (← descend? (alter? path change) item) entries

def openTable? (path : List String) (key : String) (entries : Entries) : Option Entries :=
  alter? path (fun entries =>
    match entries.lookup key with
    | none => some (set key (.table .header []) entries)
    | some (.table .implied inside) => some (set key (.table .header inside) entries)
    | some _ => none) entries

def openRow? (path : List String) (key : String) (entries : Entries) : Option Entries :=
  alter? path (fun entries =>
    match entries.lookup key with
    | none => some (set key (.tables [[]]) entries)
    | some (.tables rows) => some (set key (.tables (rows ++ [[]])) entries)
    | some _ => none) entries

def define? (path : List String) (key : String) (value : Toml) (entries : Entries) :
    Option Entries :=
  match path with
  | [] => if (entries.lookup key).isSome then none else some (set key (.value value) entries)
  | next :: path =>
      match entries.lookup next with
      | none =>
          (define? path key value []).map (fun inside => set next (.table .dotted inside) entries)
      | some (.table .dotted inside) =>
          (define? path key value inside).map (fun inside => set next (.table .dotted inside) entries)
      | some _ => none

def defineAt? (table path : List String) (key : String) (value : Toml) (entries : Entries) :
    Option Entries :=
  alter? table (define? path key value) entries

end Entries

mutual

def ofItem : Item → Toml
  | .value value => value
  | .table _ entries => .table (ofEntries entries)
  | .tables rows => .array (ofRows rows)

def ofEntries : List (String × Item) → List (String × Toml)
  | [] => []
  | (key, item) :: rest => (key, ofItem item) :: ofEntries rest

def ofRows : List (List (String × Item)) → List Toml
  | [] => []
  | row :: rows => .table (ofEntries row) :: ofRows rows

end

def string? : Toml → Option String
  | .string text => some text
  | _ => none

def boolean? : Toml → Option Bool
  | .boolean value => some value
  | _ => none

def natural? (limit : Nat) : Toml → Option Nat
  | .integer value => if 0 ≤ value && value ≤ limit then some value.toNat else none
  | _ => none

def strings? : Toml → Option (List String)
  | .array items => items.mapM string?
  | _ => none

/-- The values of some fields; an array gives them in order. -/
def fields? (keys : List String) : Toml → Option (List (Option Toml))
  | .table entries => some (keys.map (fun key => entries.lookup key))
  | .array items => some (keys.mapIdx (fun index _ => items[index]?))
  | _ => none

def withDefault {α : Type} (default : α) (read? : Toml → Option α) : Option Toml → Option α
  | none => some default
  | some value => read? value

end Toml

end CodeGraph
