import HiddenText.Numbers
import HiddenText.Toml.Reader

/-! # TOML strings and keys

Strings stand between quotes, one or three on either side; between double quotes, backslashes
escape.  Keys are bare words or strings of one line. -/
set_option autoImplicit false

namespace HiddenText.Toml.Reader

def isHex (c : Char) : Bool := (Hex.digitValue? c).isSome

/-- A character given by its number in exactly `width` digits. -/
def numbered (width : Nat) : Reader Char := do
  let digits ← exactly width isHex
  match Hex.value? digits with
  | some n => if n.isValidChar then pure (Char.ofNat n) else failure
  | none => failure

def escaped : Reader Char := do
  char '\\'
  match ← satisfying fun _ => true with
  | 'b' => pure '\x08'
  | 't' => pure '\t'
  | 'n' => pure '\n'
  | 'f' => pure '\x0c'
  | 'r' => pure '\r'
  | '"' => pure '"'
  | '\\' => pure '\\'
  | 'u' => numbered 4
  | 'U' => numbered 8
  | _ => failure

def isUnescaped (c : Char) : Bool := isVisible c && c ≠ '"' && c ≠ '\\'

def basicString : Reader (List Char) := do
  char '"'
  let text ← repeated (satisfying isUnescaped <|> escaped)
  char '"'
  pure text

def literalString : Reader (List Char) := do
  char '\''
  let text ← takeWhile fun c => isVisible c && c ≠ '\''
  char '\''
  pure text

/-- A backslash at the end of a line joins it to the next text. -/
def joint : Reader Unit := do
  char '\\'
  spaces
  newline
  let _ ← repeated ((fun _ => ()) <$> satisfying isSpace <|> newline)

/-- A quote that does not begin the closing three. -/
def innerQuote (quote : Char) : Reader Char := fun text =>
  match text with
  | a :: rest =>
    if a = quote ∧ ¬[quote, quote, quote].isPrefixOf text then some (quote, rest) else none
  | [] => none

/-- The closing three quotes; up to two more before them belong to the string. -/
def closing (quote : Char) : Reader (List Char) := do
  let extra := fun n => do
    let more ← exactly (n + 3) (· = quote)
    pure (more.take n)
  extra 2 <|> extra 1 <|> extra 0

def blockString (quote : Char) (content : Reader (List Char)) : Reader (List Char) := do
  let _ ← exactly 3 (· = quote)
  let _ ← optional newline
  let pieces ← repeated
    (content <|> (fun _ => ['\n']) <$> newline <|> (fun c => [c]) <$> innerQuote quote)
  let last ← closing quote
  pure (pieces.flatten ++ last)

def blockBasicString : Reader (List Char) :=
  blockString '"' <|
    (fun c => [c]) <$> satisfying isUnescaped <|> (fun _ => []) <$> joint
      <|> (fun c => [c]) <$> escaped

def blockLiteralString : Reader (List Char) :=
  blockString '\'' ((fun c => [c]) <$> satisfying fun c => isVisible c && c ≠ '\'')

def string : Reader String :=
  String.ofList <$> (blockBasicString <|> basicString <|> blockLiteralString <|> literalString)

/-! ## Keys -/

def isBare (c : Char) : Bool := c.isAlphanum || c = '-' || c = '_'

def bareWord : Reader (List Char) := do
  let word ← takeWhile isBare
  if word = [] then failure else pure word

def simpleKey : Reader String :=
  String.ofList <$> (basicString <|> literalString <|> bareWord)

/-- How deep arrays and tables may be nested, and how many parts a dotted key may have. -/
def nestingLimit : Nat := 79

/-- The parts of a dotted key, the last one apart. -/
def key : Reader (List String × String) := do
  let parts ← separated (spaces *> simpleKey <* spaces) (char '.')
  match parts.getLast? with
  | some last => if nestingLimit < parts.length then failure else pure (parts.dropLast, last)
  | none => failure

end HiddenText.Toml.Reader
