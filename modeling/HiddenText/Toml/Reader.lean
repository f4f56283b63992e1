/-! # Readers

A reader takes what it reads from the front of a text, or fails.  Alternatives start over from
where the first one started. -/
set_option autoImplicit false

namespace HiddenText.Toml

abbrev Reader := StateT (List Char) Option

namespace Reader

variable {α β : Type}

def satisfying (p : Char → Bool) : Reader Char := fun text =>
  match text with
  | c :: rest => if p c then some (c, rest) else none
  | [] => none

def char (c : Char) : Reader Unit := (fun _ => ()) <$> satisfying (· = c)

def literal (word : String) : Reader Unit := fun text =>
  if word.toList.isPrefixOf text then some ((), text.drop word.toList.length) else none

def takeWhile (p : Char → Bool) : Reader (List Char) := fun text =>
  some (text.takeWhile p, text.dropWhile p)

/-- Exactly `n` characters of a kind. -/
def exactly (n : Nat) (p : Char → Bool) : Reader (List Char) := fun text =>
  let taken := (text.take n).takeWhile p
  if taken.length = n then some (taken, text.drop n) else none

def optional (r : Reader α) : Reader (Option α) := (some <$> r) <|> pure none

/-- Reads as often as the reader succeeds and takes something. -/
def gather (r : Reader α) (text : List Char) : List α × List Char :=
  match r text with
  | none => ([], text)
  | some (a, rest) =>
    if rest.length < text.length then
      let (as, rest) := gather r rest
      (a :: as, rest)
    else ([], text)
termination_by text.length

def repeated (r : Reader α) : Reader (List α) := fun text => some (gather r text)

/-- Any number of items with a separator between each two. -/
def separated (item : Reader α) (separator : Reader β) : Reader (List α) :=
  (do
    let first ← item
    let rest ← repeated (separator *> item)
    pure (first :: rest)) <|> pure []

def ended : Reader Unit := fun text => if text = [] then some ((), []) else none

/-! ## Blanks, comments and line ends -/

def isSpace (c : Char) : Bool := c = ' ' || c = '\t'

/-- Any character that a comment or a literal may hold. -/
def isVisible (c : Char) : Bool := c = '\t' || (0x20 ≤ c.toNat && c.toNat ≠ 0x7F)

def spaces : Reader Unit := (fun _ => ()) <$> takeWhile isSpace

def newline : Reader Unit := char '\n' <|> literal "\r\n"

def lineEnd : Reader Unit := newline <|> ended

def comment : Reader Unit := do
  char '#'
  let _ ← takeWhile isVisible

/-- What may follow on a line. -/
def lineRest : Reader Unit := do
  spaces
  let _ ← optional comment
  lineEnd

/-- Blanks, line ends and comments, as they may stand between the items of an array. -/
def gap : Reader Unit := do
  let _ ← repeated ((fun _ => ()) <$> satisfying isSpace <|> newline <|> comment)

end Reader
end HiddenText.Toml
