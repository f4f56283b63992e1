import HiddenText.Ascending
import HiddenText.Numbers
import HiddenText.Text.Characters

/-! # Codepoints

Codepoints and ranges of them with their spellings, and the set of those that are restricted. -/
set_option autoImplicit false

namespace HiddenText

/-! ## Codepoints and their spellings

A codepoint is shown by its label, `U+` and at least four upper-case hexadecimal digits.  `parse`
reads labels and the looser spellings `u+202e`, `0x202E`, `202E`. -/

/-- Why a text denotes no codepoint or no range of codepoints. -/
inductive CodepointFault
  | empty
  | notHexadecimal
  | notScalar
  | reversed
  deriving DecidableEq, Repr

def CodepointFault.reason : CodepointFault → String
  | .empty => "empty codepoint"
  | .notHexadecimal => "not a hexadecimal number"
  | .notScalar => "not a Unicode scalar value"
  | .reversed => "range end precedes range start"

structure InvalidCodepoint where
  input : String
  fault : CodepointFault
  deriving DecidableEq, Repr

def InvalidCodepoint.message (e : InvalidCodepoint) : String :=
  "invalid codepoint `" ++ e.input ++ "`: " ++ e.fault.reason

namespace Codepoint

def labelWidth (c : Char) : Nat :=
  if c.toNat < 0x10000 then 4 else if c.toNat < 0x100000 then 5 else 6

def label (c : Char) : String :=
  String.ofList ('U' :: '+' :: Hex.fixed .upper (labelWidth c) c.toNat)

/-- The Unicode names of the bidirectional controls and invisible characters that are restricted
unless the configuration says otherwise. -/
def name? (c : Char) : Option String :=
  match c.toNat with
  | 0x200B => some "ZERO WIDTH SPACE"
  | 0x200C => some "ZERO WIDTH NON-JOINER"
  | 0x200D => some "ZERO WIDTH JOINER"
  | 0x200E => some "LEFT-TO-RIGHT MARK"
  | 0x200F => some "RIGHT-TO-LEFT MARK"
  | 0x202A => some "LEFT-TO-RIGHT EMBEDDING"
  | 0x202B => some "RIGHT-TO-LEFT EMBEDDING"
  | 0x202C => some "POP DIRECTIONAL FORMATTING"
  | 0x202D => some "LEFT-TO-RIGHT OVERRIDE"
  | 0x202E => some "RIGHT-TO-LEFT OVERRIDE"
  | 0x2060 => some "WORD JOINER"
  | 0x2061 => some "FUNCTION APPLICATION"
  | 0x2062 => some "INVISIBLE TIMES"
  | 0x2063 => some "INVISIBLE SEPARATOR"
  | 0x2064 => some "INVISIBLE PLUS"
  | 0x2066 => some "LEFT-TO-RIGHT ISOLATE"
  | 0x2067 => some "RIGHT-TO-LEFT ISOLATE"
  | 0x2068 => some "FIRST STRONG ISOLATE"
  | 0x2069 => some "POP DIRECTIONAL ISOLATE"
  | 0xFEFF => some "ZERO WIDTH NO-BREAK SPACE"
  | _ => none

/-- Drops one of `U+`, `u+`, `0x` and `0X` from the front. -/
def dropMarker : List Char → List Char
  | 'U' :: '+' :: rest => rest
  | 'u' :: '+' :: rest => rest
  | '0' :: 'x' :: rest => rest
  | '0' :: 'X' :: rest => rest
  | text => text

/-- The number written after the marker: hexadecimal digits, at most one plus sign before them,
and no more than 32 bits. -/
def number? (digits : List Char) : Option Nat :=
  let unsigned := match digits with
    | '+' :: rest => rest
    | _ => digits
  if unsigned = [] then none else (Hex.value? unsigned).filter (· < 0x100000000)

/-- The scalar value with a given number. -/
def ofNat? (n : Nat) : Option Char := if n.isValidChar then some (Char.ofNat n) else none

def read (text : List Char) : Except CodepointFault Char :=
  let digits := dropMarker (Blank.trim text)
  if digits = [] then .error .empty
  else match number? digits with
    | none => .error .notHexadecimal
    | some n => match ofNat? n with
      | none => .error .notScalar
      | some c => .ok c

/-- Reads a spelling; the error carries the input as it was given. -/
def parse (input : String) : Except InvalidCodepoint Char :=
  (read input.toList).mapError (⟨input, ·⟩)

end Codepoint

/-! ## Ranges of codepoints

A range is closed at both ends and never empty.  It is written `U+202A..U+202E`, or as one label
when its ends coincide. -/

structure CodepointRange where
  first : Char
  last : Char
  first_le_last : first ≤ last
  deriving DecidableEq

namespace CodepointRange

/-- Ranges are ordered by their first codepoint, then by their last. -/
instance : LT CodepointRange where
  lt r s := r.first < s.first ∨ (r.first = s.first ∧ r.last < s.last)

instance : DecidableLT CodepointRange := fun r s =>
  inferInstanceAs (Decidable (r.first < s.first ∨ (r.first = s.first ∧ r.last < s.last)))

def single (c : Char) : CodepointRange := ⟨c, c, Nat.le_refl _⟩

def between (first last : Char) : Except InvalidCodepoint CodepointRange :=
  if h : first ≤ last then .ok ⟨first, last, h⟩
  else .error ⟨Codepoint.label first ++ ".." ++ Codepoint.label last, .reversed⟩

def contains (r : CodepointRange) (c : Char) : Bool := r.first ≤ c && c ≤ r.last

def label (r : CodepointRange) : String :=
  if r.first = r.last then Codepoint.label r.first
  else Codepoint.label r.first ++ ".." ++ Codepoint.label r.last

/-- Cuts a text at its first `..`. -/
def splitDots : List Char → Option (List Char × List Char)
  | '.' :: '.' :: rest => some ([], rest)
  | c :: rest => (splitDots rest).map fun (before, after) => (c :: before, after)
  | [] => none

def parse (input : String) : Except InvalidCodepoint CodepointRange :=
  match splitDots input.toList with
  | none => (Codepoint.parse input).map single
  | some (before, after) => do
      let first ← Codepoint.parse (String.ofList before)
      let last ← Codepoint.parse (String.ofList after)
      between first last

end CodepointRange

/-! ## The restricted set

Some ranges are restricted; a codepoint that has been allowed is not restricted, whatever the
ranges say.  `floor` is a bound below every range, so that ordinary characters are dismissed by
one comparison. -/

structure RestrictedSet where
  ranges : List CodepointRange
  allowed : List Char
  floor : Nat
  floor_le : ∀ r ∈ ranges, floor ≤ r.first.toNat
  deriving DecidableEq

namespace RestrictedSet

/-- The least number that starts a range; past every codepoint when there is no range. -/
def leastFirst (ranges : List CodepointRange) : Nat :=
  ranges.foldr (fun r n => min r.first.toNat n) 0xFFFFFFFF

theorem leastFirst_le : ∀ (ranges : List CodepointRange), ∀ r ∈ ranges,
    leastFirst ranges ≤ r.first.toNat := by
  intro ranges
  induction ranges with
  | nil => intro r h; cases h
  | cons s ranges ih =>
      intro r h
      simp only [leastFirst, List.foldr_cons]
      rcases List.mem_cons.mp h with h | h
      · subst h; exact Nat.min_le_left ..
      · exact Nat.le_trans (Nat.min_le_right ..) (ih r h)

def ofRanges (ranges : List CodepointRange) : RestrictedSet :=
  let kept := Ascending.ofList ranges
  { ranges := kept, allowed := [], floor := leastFirst kept, floor_le := leastFirst_le kept }

def allow (s : RestrictedSet) (c : Char) : RestrictedSet :=
  { s with allowed := Ascending.insert c s.allowed }

def contains (s : RestrictedSet) (c : Char) : Bool :=
  if c.toNat < s.floor then false
  else s.ranges.any (·.contains c) && !s.allowed.contains c

/-- Zero width characters and direction marks, embeddings and overrides, invisible operators,
isolates, and the byte order mark. -/
def standardRanges : List CodepointRange :=
  [⟨'\u200B', '\u200F', by decide⟩, ⟨'\u202A', '\u202E', by decide⟩,
   ⟨'\u2060', '\u2064', by decide⟩, ⟨'\u2066', '\u2069', by decide⟩,
   ⟨'\uFEFF', '\uFEFF', by decide⟩]

def standard : RestrictedSet := ofRanges standardRanges

end RestrictedSet
end HiddenText
