import HiddenText.Toml.Scalar
import HiddenText.Toml.Text

/-! # TOML documents

A document is a list of lines: entries, and headers that say to which table the entries after them
belong.  The lines are gathered into one table, which fails where something is defined twice. -/
set_option autoImplicit false

namespace HiddenText.Toml

namespace Reader

/-! ## Values -/

def array (item : Reader Value) : Reader Value := do
  char '['
  let items ← separated (gap *> item <* gap) (char ',')
  if items ≠ [] then
    let _ ← optional (char ',')
  gap
  char ']'
  pure (.array items)

def pair (value : Reader Value) : Reader ((List String × String) × Value) := do
  let k ← key
  char '='
  spaces
  let v ← value
  pure (k, v)

def inlineTable (value : Reader Value) : Reader Value := do
  char '\x7b'
  let pairs ← separated (pair value <* spaces) (char ',')
  spaces
  char '\x7d'
  let filled := pairs.foldlM
    (fun (entries : Entries) ((path, k), v) => entries.add path k v) []
  match filled with
  | some entries => pure (.table .closed entries)
  | none => failure

def scalar : Reader Value :=
  Value.string <$> string <|> boolean <|> moment <|> float <|> integer

/-- A value in which arrays and tables are nested no deeper than `depth`. -/
def value : (depth : Nat) → Reader Value
  | 0 => scalar
  | depth + 1 => scalar <|> array (value depth) <|> inlineTable (value depth)

end Reader

inductive Line
  | blank
  | entry (path : List String) (key : String) (value : Value)
  /-- The header of a table. -/
  | header (path : List String) (key : String)
  /-- The header of one more element of an array of tables. -/
  | element (path : List String) (key : String)

namespace Reader

def line : Reader Line :=
  (fun _ => .blank) <$> newline
    <|> (fun _ => .blank) <$> (comment <* lineEnd)
    <|> (do
      literal "[["
      let (path, k) ← key
      literal "]]"
      lineRest
      pure (.element path k))
    <|> (do
      char '['
      let (path, k) ← key
      char ']'
      lineRest
      pure (.header path k))
    <|> do
      let ((path, k), v) ← pair (value nestingLimit)
      lineRest
      pure (.entry path k v)

/-- The lines of a document, after a byte order mark if there is one. -/
def lines : Reader (List Line) := do
  let _ ← optional (char '\uFEFF')
  spaces
  let found ← repeated (line <* spaces)
  ended
  pure found

end Reader

/-- Where entries go: into the root, a table, or a new element of an array of tables. -/
inductive Target
  | root
  | table (path : List String) (key : String)
  | element (path : List String) (key : String)

/-- The tables that are complete, and the one whose entries are being read. -/
structure Draft where
  done : Entries := []
  current : Entries := []
  target : Target := .root

namespace Draft

/-- Puts the current table where it belongs. -/
def close (d : Draft) : Option Entries :=
  match d.target with
  | .root => some d.current
  | .table path key => do
    let change := fun (_ : Form) (entries : Entries) =>
      some ((), Entries.put key (.table .explicit d.current) entries)
    let (_, done) ← Entries.update false change path .explicit d.done
    some done
  | .element path key => do
    let change := fun (_ : Form) (entries : Entries) =>
      match entries.lookup key with
      | some (.tables elements) =>
        some ((), Entries.put key (.tables (elements ++ [.table .explicit d.current])) entries)
      | _ => none
    let (_, done) ← Entries.update false change path .explicit d.done
    some done

/-- Opens a table.  One that was implied until now moves to the end with what it holds. -/
def openTable (done : Entries) (path : List String) (key : String) : Option Draft := do
  let change := fun (_ : Form) (entries : Entries) =>
    match entries.lookup key with
    | none => some ([], entries)
    | some (.table .implied inner) => some (inner, Entries.erase key entries)
    | some _ => none
  let (current, done) ← Entries.update false change path .explicit done
  some { done := done, current := current, target := .table path key }

def openElement (done : Entries) (path : List String) (key : String) : Option Draft := do
  let change := fun (_ : Form) (entries : Entries) =>
    match entries.lookup key with
    | none => some ((), entries ++ [(key, .tables [])])
    | some (.tables _) => some ((), entries)
    | some _ => none
  let (_, done) ← Entries.update false change path .explicit done
  some { done := done, target := .element path key }

def add (d : Draft) : Line → Option Draft
  | .blank => some d
  | .entry path key value => do
    let current ← d.current.add path key value
    some { d with current := current }
  | .header path key => do openTable (← d.close) path key
  | .element path key => do openElement (← d.close) path key

end Draft

/-- The entries of a document; nothing if the text is no document. -/
def parse (text : List Char) : Option Entries := do
  let (lines, _) ← Reader.lines text
  let draft ← lines.foldlM Draft.add {}
  draft.close

end HiddenText.Toml
