import HiddenText.Numbers

/-! # JSON documents

The values that a report is made of, and their written form: two blanks of indentation a level,
one entry a line, empty arrays and objects closed at once.  In a string, the quote, the backslash
and the control characters are escaped. -/
set_option autoImplicit false

namespace HiddenText

inductive Json
  | text (s : String)
  | number (n : Nat)
  | array (items : List Json)
  | object (fields : List (String × Json))

namespace Json

def escape (c : Char) : List Char :=
  match c with
  | '"' => ['\\', '"']
  | '\\' => ['\\', '\\']
  | '\x08' => ['\\', 'b']
  | '\x0c' => ['\\', 'f']
  | '\n' => ['\\', 'n']
  | '\r' => ['\\', 'r']
  | '\t' => ['\\', 't']
  | _ => if c.toNat < 0x20 then '\\' :: 'u' :: Hex.fixed .lower 4 c.toNat else [c]

def quote (s : String) : List Char := '"' :: s.toList.flatMap escape ++ ['"']

/-- The start of a line at a level of indentation. -/
def newLine (level : Nat) : List Char := '\n' :: List.replicate (2 * level) ' '

mutual

/-- The written form of a value that stands at a level of indentation. -/
def write (level : Nat) : Json → List Char
  | .text s => quote s
  | .number n => Nat.toDigits 10 n
  | .array [] => ['[', ']']
  | .array (item :: rest) =>
    '[' :: newLine (level + 1) ++ write (level + 1) item ++ writeItems (level + 1) rest
      ++ newLine level ++ [']']
  | .object [] => ['\x7b', '\x7d']
  | .object ((key, value) :: rest) =>
    '\x7b' :: newLine (level + 1) ++ quote key ++ [':', ' '] ++ write (level + 1) value
      ++ writeFields (level + 1) rest ++ newLine level ++ ['\x7d']

def writeItems (level : Nat) : List Json → List Char
  | [] => []
  | item :: rest => ',' :: newLine level ++ write level item ++ writeItems level rest

def writeFields (level : Nat) : List (String × Json) → List Char
  | [] => []
  | (key, value) :: rest =>
    ',' :: newLine level ++ quote key ++ [':', ' '] ++ write level value ++ writeFields level rest

end

end Json
end HiddenText
