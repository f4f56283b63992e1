import HiddenText.Codepoint
import HiddenText.Config
import HiddenText.Path
import HiddenText.Text.Utf8

/-! # Files and what they hold

A file is of one of three classes, and its text may hold restricted characters. -/
set_option autoImplicit false

namespace HiddenText

/-! ## Classification of paths

The extension of a path is what follows the last dot of its last name; it decides between source
and documentation.  A path with an ignored name among its segments is ignored. -/

inductive FileClass
  | source
  | documentation
  | ignored
  deriving DecidableEq, Repr

/-- What follows the last dot; nothing if there is no dot. -/
def afterLastDot (name : List Char) : List Char :=
  if '.' ∈ name then (name.reverse.takeWhile (· ≠ '.')).reverse else []

/-- The extension of a path, in lower case. -/
def extensionOf (path : Path) : String :=
  match Path.fileName? path with
  | none => ""
  | some name => String.ofList (LowerCase.ofText (afterLastDot (Utf8.decodeLossy name)))

def classify (path : Path) (config : Config) : FileClass :=
  if (Path.names path).any config.ignores then .ignored
  else
    let extension := extensionOf path
    if extension = "" then .ignored
    else if config.sourceExtensions.contains extension then .source
    else if config.documentationExtensions.contains extension then .documentation
    else .ignored

/-! ## Findings

What a file's text holds of the restricted set: how many occurrences, and which codepoints in the
order of their first appearance, up to a cap. -/

structure Finding where
  path : String
  occurrences : Nat
  samples : List Char
  deriving DecidableEq, Repr

/-- The running count while a text is read. -/
structure Tally where
  occurrences : Nat := 0
  samples : List Char := []
  deriving DecidableEq, Repr

def Tally.read (set : RestrictedSet) (cap : Nat) (t : Tally) (c : Char) : Tally :=
  if set.contains c then
    { occurrences := t.occurrences + 1
      samples := if t.samples.length < cap ∧ c ∉ t.samples then t.samples ++ [c] else t.samples }
  else t

def scanText (path : String) (text : List Char) (set : RestrictedSet) (cap : Nat) :
    Option Finding :=
  let t := text.foldl (Tally.read set cap) {}
  if t.occurrences = 0 then none
  else some { path := path, occurrences := t.occurrences, samples := t.samples }

/-- What became of one file's contents. -/
inductive ContentScan
  | clean
  | hit (finding : Finding)
  | notText
  deriving DecidableEq, Repr

/-- Contents that are not UTF-8 are passed over; control characters, NUL among them, are text. -/
def scanBytes (path : String) (bytes : Bytes) (set : RestrictedSet) (cap : Nat) : ContentScan :=
  match Utf8.decode bytes with
  | none => .notText
  | some text => match scanText path text set cap with
    | none => .clean
    | some finding => .hit finding

end HiddenText
