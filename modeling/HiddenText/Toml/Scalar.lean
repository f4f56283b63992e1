import HiddenText.Numbers
import HiddenText.Toml.Reader
import HiddenText.Toml.Value

/-! # TOML numbers, truth values, dates and times -/
set_option autoImplicit false

namespace HiddenText.Toml.Reader

/-- Digits of a kind, single underscores between them left out. -/
def digitsOf (p : Char → Bool) : Reader (List Char) := do
  let first ← satisfying p
  let rest ← repeated (satisfying p <|> char '_' *> satisfying p)
  pure (first :: rest)

def decimalValue (digits : List Char) : Nat := Nat.ofDigitChars 10 digits 0

/-- Is a minus sign written?  A plus sign may be. -/
def sign : Reader Bool :=
  (fun _ => true) <$> char '-' <|> (fun _ => false) <$> char '+' <|> pure false

/-- Decimal digits without a leading zero. -/
def wholeDigits : Reader (List Char) :=
  (do
    let first ← satisfying fun c => c.isDigit && c ≠ '0'
    let rest ← repeated (satisfying Char.isDigit <|> char '_' *> satisfying Char.isDigit)
    pure (first :: rest)) <|> (fun c => [c]) <$> satisfying Char.isDigit

/-- A value in the range of 64 bit integers. -/
def inRange (n : Int) : Reader Value :=
  if -0x8000000000000000 ≤ n ∧ n < 0x8000000000000000 then pure (.integer n) else failure

/-- Digits of another base after their marker. -/
def based (marker : String) (base : Nat) : Reader Value := do
  literal marker
  let digits ← digitsOf fun c => (Hex.digitValue? c).any (· < base)
  inRange (digits.foldl (fun n c => n * base + (Hex.digitValue? c).getD 0) 0 : Nat)

def integer : Reader Value :=
  based "0x" 16 <|> based "0o" 8 <|> based "0b" 2 <|> do
    let negative ← sign
    let n := decimalValue (← wholeDigits)
    inRange (if negative then -(n : Int) else n)

def exponent : Reader Int := do
  char 'e' <|> char 'E'
  let negative ← sign
  let n := decimalValue (← digitsOf Char.isDigit)
  pure (if negative then -(n : Int) else n)

def fraction : Reader (List Char) := do
  char '.'
  digitsOf Char.isDigit

/-- A number with a fraction or an exponent; one that is too great to be finite has to be
negative. -/
def decimalFloat : Reader Value := do
  let negative ← sign
  let whole ← wholeDigits
  let decimals ← optional fraction
  let power ← if decimals.isSome then optional exponent else some <$> exponent
  let places := decimals.getD []
  let x := Binary64.ofDecimal negative (decimalValue (whole ++ places))
    (power.getD 0 - (places.length : Int))
  if x = .infinite false then failure else pure (.float x)

def specialFloat : Reader Value := do
  let negative ← sign
  (fun _ => .float (.infinite negative)) <$> literal "inf"
    <|> (fun _ => .float .nan) <$> literal "nan"

def float : Reader Value := decimalFloat <|> specialFloat

def boolean : Reader Value :=
  (fun _ => .boolean true) <$> literal "true" <|> (fun _ => .boolean false) <$> literal "false"

/-! ## Dates and times -/

/-- A number of exactly `width` digits within bounds. -/
def bounded (width least greatest : Nat) : Reader Nat := do
  let n := decimalValue (← exactly width Char.isDigit)
  if least ≤ n ∧ n ≤ greatest then pure n else failure

def isLeapYear (year : Nat) : Bool := year % 4 = 0 && (year % 100 ≠ 0 || year % 400 = 0)

def daysIn (year month : Nat) : Nat :=
  if month = 2 then if isLeapYear year then 29 else 28
  else if month = 4 ∨ month = 6 ∨ month = 9 ∨ month = 11 then 30
  else 31

def date : Reader Unit := do
  let year ← bounded 4 0 9999
  char '-'
  let month ← bounded 2 1 12
  char '-'
  let _ ← bounded 2 1 (daysIn year month)

def time : Reader Unit := do
  let _ ← bounded 2 0 23
  char ':'
  let _ ← bounded 2 0 59
  char ':'
  let _ ← bounded 2 0 60
  let _ ← optional (char '.' *> satisfying Char.isDigit <* takeWhile Char.isDigit)

def offset : Reader Unit :=
  char 'Z' <|> char 'z' <|> do
    char '+' <|> char '-'
    let _ ← bounded 2 0 23
    char ':'
    let _ ← bounded 2 0 59

def moment : Reader Value :=
  (do
    date
    let _ ← optional do
      char 'T' <|> char 't' <|> char ' '
      time
      optional offset
    pure .moment) <|> (fun _ => .moment) <$> time

end HiddenText.Toml.Reader
