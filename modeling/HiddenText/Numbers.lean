/-! # Numbers and their spellings

Hexadecimal digits, whole numbers of 64 bits, and floating-point numbers with their shortest
decimals.  All arithmetic is on whole numbers. -/
set_option autoImplicit false

namespace HiddenText.Hex

/-! ## Hexadecimal digits -/

/-- The value of a digit of either case. -/
def digitValue? (c : Char) : Option Nat :=
  if '0' ≤ c ∧ c ≤ '9' then some (c.toNat - 48)
  else if 'a' ≤ c ∧ c ≤ 'f' then some (c.toNat - 87)
  else if 'A' ≤ c ∧ c ≤ 'F' then some (c.toNat - 55)
  else none

/-- The number that a list of digits denotes, the most significant first. -/
def valueFrom? (seen : Nat) : List Char → Option Nat
  | [] => some seen
  | c :: rest => (digitValue? c).bind fun d => valueFrom? (16 * seen + d) rest

def value? (digits : List Char) : Option Nat := valueFrom? 0 digits

inductive Case | lower | upper
  deriving DecidableEq, Repr

/-- The digit for a value below sixteen. -/
def digit (case : Case) (d : Nat) : Char :=
  if d < 10 then Char.ofNat (48 + d)
  else match case with
    | .lower => Char.ofNat (87 + d)
    | .upper => Char.ofNat (55 + d)

/-- The last `width` digits of a number. -/
def fixed (case : Case) : (width : Nat) → Nat → List Char
  | 0, _ => []
  | width + 1, n => fixed case width (n / 16) ++ [digit case (n % 16)]

/-- How many digits a number has without leading zeros. -/
def width (n : Nat) : Nat := (Nat.toDigits 16 n).length

end HiddenText.Hex

/-! ## Whole numbers of 64 bits

Reading a whole number: decimal digits after at most one plus sign.  The first character that is
no digit, or the first one with which the number grows too large, decides why the reading fails. -/

namespace HiddenText.Whole

inductive Fault
  | empty
  | invalidDigit
  | tooLarge
  deriving DecidableEq, Repr

def Fault.message : Fault → String
  | .empty => "cannot parse integer from empty string"
  | .invalidDigit => "invalid digit found in string"
  | .tooLarge => "number too large to fit in target type"

/-- One more than the greatest number of 64 bits. -/
def limit : Nat := 0x10000000000000000

def readFrom (seen : Nat) : List Char → Except Fault Nat
  | [] => .ok seen
  | c :: rest =>
    if c.isDigit then
      let n := 10 * seen + (c.toNat - 48)
      if n < limit then readFrom n rest else .error .tooLarge
    else .error .invalidDigit

def read (text : List Char) : Except Fault Nat :=
  match text with
  | [] => .error .empty
  | ['+'] => .error .invalidDigit
  | '+' :: digits => readFrom 0 digits
  | digits => readFrom 0 digits

end HiddenText.Whole

/-! ## Binary64 numbers

A number of the binary64 format as an exact value, and the one nearest to a decimal.  All
arithmetic is on whole numbers. -/

namespace HiddenText

inductive Binary64
  /-- `mantissa * 2 ^ exponent`, the mantissa below `2 ^ 53`. -/
  | finite (negative : Bool) (mantissa : Nat) (exponent : Int)
  | infinite (negative : Bool)
  | nan
  deriving DecidableEq, Repr

namespace Binary64

def precision : Nat := 53

def leastExponent : Int := -1074

def greatestExponent : Int := 971

/-- The quotient rounded to the nearest whole number, a tie to the even one. -/
def roundDiv (n d : Nat) : Nat :=
  let q := n / d
  let r := n % d
  if 2 * r < d then q else if d < 2 * r then q + 1 else q + q % 2

/-- `n / d * 2 ^ (-e)` as a fraction. -/
def scaled (n d : Nat) (e : Int) : Nat × Nat :=
  if 0 ≤ e then (n, d <<< e.toNat) else (n <<< (-e).toNat, d)

/-- The exponent for which the quotient `n / d` has a mantissa of full precision, if the format's
range allows it. -/
def exponentFor (n d : Nat) : Int :=
  let guess : Int := (n.log2 : Int) - (d.log2 : Int) - precision
  let (n', d') := scaled n d guess
  let exact := if n' / d' < 1 <<< precision then guess else guess + 1
  max exact leastExponent

/-- The number nearest to `n / d`. -/
def ofFraction (negative : Bool) (n d : Nat) : Binary64 :=
  let e := exponentFor n d
  let (n', d') := scaled n d e
  let m := roundDiv n' d'
  let (m, e) := if m = 1 <<< precision then (1 <<< (precision - 1), e + 1) else (m, e)
  if greatestExponent < e then .infinite negative else .finite negative m e

/-- The number nearest to `digits * 10 ^ exponent`.  Decimals far out of range are settled by the
place of their first digit. -/
def ofDecimal (negative : Bool) (digits : Nat) (exponent : Int) : Binary64 :=
  let top : Int := exponent + (Nat.toDigits 10 digits).length
  if digits = 0 ∨ top < -400 then .finite negative 0 leastExponent
  else if 400 < top then .infinite negative
  else if 0 ≤ exponent then ofFraction negative (digits * Nat.pow 10 exponent.toNat) 1
  else ofFraction negative digits (Nat.pow 10 (-exponent).toNat)

end Binary64
end HiddenText

/-! ## Shortest decimals

The shortest decimal that reads back as a given binary64 number, and of those the nearest to it.
It is written without an exponent. -/

namespace HiddenText.Shortest

/-- A fraction of whole numbers; the denominator is positive. -/
structure Fraction where
  num : Nat
  den : Nat

/-- `n * 2 ^ e`. -/
def Fraction.ofBinary (n : Nat) (e : Int) : Fraction :=
  if 0 ≤ e then ⟨n <<< e.toNat, 1⟩ else ⟨n, 1 <<< (-e).toNat⟩

/-- `x / 10 ^ p`. -/
def Fraction.shift (x : Fraction) (p : Int) : Fraction :=
  if 0 ≤ p then ⟨x.num, x.den * Nat.pow 10 p.toNat⟩ else ⟨x.num * Nat.pow 10 (-p).toNat, x.den⟩

/-- The place of the first digit of a positive fraction: 0 for units, 1 for tens. -/
def leadingPlace (x : Fraction) : Int :=
  if x.den ≤ x.num then (Nat.toDigits 10 (x.num / x.den)).length - 1
  else
    let zeros := (Nat.toDigits 10 (x.den / x.num)).length
    if x.den ≤ x.num * Nat.pow 10 (zeros - 1) then -((zeros : Int) - 1) else -(zeros : Int)

/-- The numbers that round to a mantissa and exponent: the bounds, and whether they belong. -/
structure Interval where
  low : Fraction
  high : Fraction
  closed : Bool

def intervalOf (mantissa : Nat) (exponent : Int) : Interval :=
  let lower :=
    if mantissa = 1 <<< (Binary64.precision - 1) ∧ Binary64.leastExponent < exponent then
      4 * mantissa - 1
    else 4 * mantissa - 2
  { low := .ofBinary lower (exponent - 2)
    high := .ofBinary (4 * mantissa + 2) (exponent - 2)
    closed := mantissa % 2 = 0 }

/-- Does `digits * 10 ^ place` lie in the interval? -/
def Interval.holds (i : Interval) (digits : Nat) (place : Int) : Bool :=
  let low := i.low.shift place
  let high := i.high.shift place
  if i.closed then low.num ≤ digits * low.den && digits * high.den ≤ high.num
  else low.num < digits * low.den && digits * high.den < high.num

/-- The decimal on the grid `10 ^ place` that lies in the interval and is nearest to `x`. -/
def onGrid (i : Interval) (x : Fraction) (place : Int) : Option Nat :=
  let y := x.shift place
  let below := y.num / y.den
  let above := below + 1
  match i.holds below place, i.holds above place with
  | true, true =>
    if 2 * (y.num % y.den) ≤ y.den then some below else some above
  | true, false => some below
  | false, true => some above
  | false, false => none

/-- Tries grids from the coarsest; seventeen digits always suffice. -/
def search (i : Interval) (x : Fraction) (place : Int) : (fuel : Nat) → Nat × Int
  | 0 => (x.num / x.den, 0)
  | fuel + 1 =>
    match onGrid i x place with
    | some digits => (digits, place)
    | none => search i x (place - 1) fuel

/-- The digits and the place of the last one that is not zero, for a positive mantissa. -/
def decimalOf (mantissa : Nat) (exponent : Int) : Nat × Int :=
  let x := Fraction.ofBinary mantissa exponent
  let (digits, place) := search (intervalOf mantissa exponent) x (leadingPlace x) 17
  if digits % 10 = 0 then (digits / 10, place + 1) else (digits, place)

/-- Digits whose last one has a given place, in positional notation with a point. -/
def positional (digits : Nat) (place : Int) : List Char :=
  let ds := Nat.toDigits 10 digits
  if 0 ≤ place then ds ++ List.replicate place.toNat '0' ++ ['.', '0']
  else
    let decimals := (-place).toNat
    let padded := List.replicate (decimals + 1 - ds.length) '0' ++ ds
    padded.take (padded.length - decimals) ++ '.' :: padded.drop (padded.length - decimals)

/-- The text of a number: a minus sign, positional digits with at least one after the point;
`inf` and `NaN` for what is no number. -/
def text : Binary64 → String
  | .nan => "NaN"
  | .infinite negative => if negative then "-inf" else "inf"
  | .finite negative mantissa exponent =>
    let unsigned :=
      if mantissa = 0 then ['0', '.', '0']
      else
        let (digits, place) := decimalOf mantissa exponent
        positional digits place
    String.ofList (if negative then '-' :: unsigned else unsigned)

end HiddenText.Shortest
