/-! # UTF-8

`encode` writes characters as bytes.  Reading cuts a byte string into pieces: a piece is one
well-formed sequence, which stands for a character, or a longest run of bytes that begins a
well-formed sequence without completing it (or a byte that begins none).  `decode` accepts a byte
string all of whose pieces are characters; `decodeLossy` writes U+FFFD for every other piece. -/
set_option autoImplicit false

namespace HiddenText

abbrev Bytes := List UInt8

namespace Utf8

def encode (text : List Char) : Bytes := text.flatMap String.utf8EncodeChar

/-- The bytes, first to last, that a position of a sequence may hold. -/
structure ByteRange where
  first : UInt8
  last : UInt8
  deriving DecidableEq, Repr

def ByteRange.holds (r : ByteRange) (b : UInt8) : Bool := r.first ≤ b && b ≤ r.last

/-- Any byte of the form `10xxxxxx`. -/
def continuation : ByteRange := ⟨0x80, 0xBF⟩

/-- What a lead byte announces: its share of the scalar value and the bytes that must follow.
The narrowed second positions exclude overlong forms, surrogates and values above U+10FFFF. -/
def announced (b : UInt8) : Option (Nat × List ByteRange) :=
  if b < 0xC2 then none
  else if b < 0xE0 then some (b.toNat % 32, [continuation])
  else if b = 0xE0 then some (0, [⟨0xA0, 0xBF⟩, continuation])
  else if b = 0xED then some (13, [⟨0x80, 0x9F⟩, continuation])
  else if b < 0xF0 then some (b.toNat % 16, [continuation, continuation])
  else if b = 0xF0 then some (0, [⟨0x90, 0xBF⟩, continuation, continuation])
  else if b < 0xF4 then some (b.toNat % 8, [continuation, continuation, continuation])
  else if b = 0xF4 then some (4, [⟨0x80, 0x8F⟩, continuation, continuation])
  else none

/-- The pieces read so far (newest first) and the sequence that is being read. -/
structure Reader where
  pieces : List (Option Char) := []
  value : Nat := 0
  pending : List ByteRange := []

def Reader.emit (r : Reader) (piece : Option Char) : Reader := ⟨piece :: r.pieces, 0, []⟩

/-- Reads a byte that does not continue a sequence. -/
def Reader.start (r : Reader) (b : UInt8) : Reader :=
  if b < 0x80 then r.emit (some (Char.ofNat b.toNat))
  else match announced b with
    | none => r.emit none
    | some (value, pending) => ⟨r.pieces, value, pending⟩

def Reader.feed (r : Reader) (b : UInt8) : Reader :=
  match r.pending with
  | [] => r.start b
  | range :: rest =>
    if range.holds b then
      let value := r.value * 64 + b.toNat % 64
      match rest with
      | [] => r.emit (some (Char.ofNat value))
      | _ :: _ => ⟨r.pieces, value, rest⟩
    else (r.emit none).start b

def Reader.finish (r : Reader) : List (Option Char) :=
  match r.pending with
  | [] => r.pieces.reverse
  | _ :: _ => (none :: r.pieces).reverse

/-- The pieces of a byte string; `none` is one that stands for no character. -/
def pieces (bytes : Bytes) : List (Option Char) := (bytes.foldl Reader.feed {}).finish

def decode (bytes : Bytes) : Option (List Char) :=
  let ps := pieces bytes
  if none ∈ ps then none else some (ps.filterMap id)

def decodeLossy (bytes : Bytes) : List Char := (pieces bytes).map (·.getD '\uFFFD')

/-- The lossy reading as a string, for showing. -/
def shown (bytes : Bytes) : String := String.ofList (decodeLossy bytes)

/-- The bytes of a string. -/
def ofString (s : String) : Bytes := encode s.toList

end Utf8
end HiddenText
