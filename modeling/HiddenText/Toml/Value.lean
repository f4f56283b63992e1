import HiddenText.Numbers

/-! # TOML values

Tables keep their entries in the order in which they were written. -/
set_option autoImplicit false

namespace HiddenText.Toml

/-- How a table came to be, which decides what may still be added to it. -/
inductive Form
  /-- An inline table: complete where it stands. -/
  | closed
  /-- A table with a header of its own. -/
  | explicit
  /-- A table that only the header of a table within it mentions. -/
  | implied
  /-- A table that a dotted key mentions. -/
  | dotted
  deriving DecidableEq, Repr

inductive Value
  | string (text : String)
  | integer (n : Int)
  | float (x : Binary64)
  | boolean (b : Bool)
  /-- A date, a time, or both. -/
  | moment
  | array (items : List Value)
  | table (form : Form) (entries : List (String × Value))
  /-- Tables that are written one after another under double brackets. -/
  | tables (elements : List Value)

abbrev Entries := List (String × Value)

namespace Entries

/-- Replaces an entry where it stands, or appends it. -/
def put (key : String) (value : Value) : Entries → Entries
  | [] => [(key, value)]
  | (k, v) :: rest => if k = key then (k, value) :: rest else (k, v) :: put key value rest

def erase (key : String) (entries : Entries) : Entries := entries.filter (·.1 ≠ key)

/-- Goes down a path of keys and changes the table there; tables that are missing are made.  With
`dotted`, the keys are those of a dotted key, which leads through tables of no other making. -/
def update {α : Type} (dotted : Bool) (change : Form → Entries → Option (α × Entries)) :
    List String → Form → Entries → Option (α × Entries)
  | [], form, entries => change form entries
  | key :: path, _, entries =>
    match entries.lookup key with
    | none => do
      let form := if dotted then Form.dotted else Form.implied
      let (a, inner) ← update dotted change path form []
      some (a, entries ++ [(key, .table form inner)])
    | some (.table form inner) =>
      if form = .closed ∨ (dotted ∧ form = .explicit) then none
      else do
        let (a, inner) ← update dotted change path form inner
        some (a, put key (.table form inner) entries)
    | some (.tables elements) =>
      match elements.getLast? with
      | some (.table form inner) => do
        let (a, inner) ← update dotted change path form inner
        some (a, put key (.tables (elements.dropLast ++ [.table form inner])) entries)
      | _ => none
    | some _ => none

/-- Adds an entry under a dotted key: each entry once, and only to tables that dotted keys made. -/
def add (entries : Entries) (path : List String) (key : String) (value : Value) :
    Option Entries := do
  let change := fun (form : Form) (inner : Entries) =>
    if path ≠ [] ∧ form ≠ .dotted then none
    else if (inner.lookup key).isSome then none
    else some ((), inner ++ [(key, value)])
  let (_, entries) ← update true change path .explicit entries
  some entries

end Entries
end HiddenText.Toml
