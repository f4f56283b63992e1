import HiddenText.Text.Utf8

/-! # Paths

A path is a byte string; slashes cut it into segments.  Its components leave out what means
nothing: repeated slashes, and the segment `.` anywhere but at the front of a relative path. -/
set_option autoImplicit false

namespace HiddenText

abbrev Path := Bytes

namespace Path

def slash : UInt8 := 0x2F

/-- The segment `.`, this directory. -/
def dot : Bytes := [0x2E]

/-- The segment `..`, the parent directory. -/
def dotDot : Bytes := [0x2E, 0x2E]

/-- The byte strings between the slashes, empty ones included. -/
def segments : Path → List Bytes
  | [] => [[]]
  | b :: rest =>
    if b = slash then [] :: segments rest
    else match segments rest with
      | s :: more => (b :: s) :: more
      | [] => [[b]]

/-- Segments written with a slash between each two. -/
def ofSegments : List Bytes → Path
  | [] => []
  | [s] => s
  | s :: more => s ++ slash :: ofSegments more

inductive Component
  | root
  | here
  | parent
  | normal (name : Bytes)
  deriving DecidableEq, Repr

def isAbsolute (p : Path) : Bool := p.head? == some slash

/-- The component that a segment stands for, where it stands for any. -/
def component? (segment : Bytes) : Option Component :=
  if segment = [] ∨ segment = dot then none
  else if segment = dotDot then some .parent
  else some (.normal segment)

/-- The component at the front that is not a segment's own, and the segments after it. -/
def front (p : Path) : Option Component × List Bytes :=
  match segments p with
  | [] :: second :: more => (some .root, second :: more)
  | first :: more => if first = dot then (some .here, more) else (none, first :: more)
  | [] => (none, [])

def components (p : Path) : List Component :=
  (front p).1.toList ++ (front p).2.filterMap component?

def Component.name? : Component → Option Bytes
  | .normal name => some name
  | _ => none

/-- The segments that name a file or a directory. -/
def names (p : Path) : List Bytes := (components p).filterMap Component.name?

/-- The last component, if it is a name. -/
def fileName? (p : Path) : Option Bytes := (components p).getLast?.bind Component.name?

/-- The path of an entry of a directory. -/
def join (directory : Path) (name : Bytes) : Path :=
  if directory = [] ∨ directory.getLast? = some slash then directory ++ name
  else directory ++ slash :: name

/-- What is left of a list of segments without its first `n` components. -/
def dropComponents : Nat → List Bytes → List Bytes
  | _, [] => []
  | 0, s :: more => if (component? s).isNone then dropComponents 0 more else s :: more
  | n + 1, s :: more => dropComponents (if (component? s).isNone then n + 1 else n) more

def dropTrailing (segments : List Bytes) : List Bytes :=
  (segments.reverse.dropWhile fun s => (component? s).isNone).reverse

/-- The path of `p` seen from `base`, if `base` is among its ancestors. -/
def stripPrefix? (base p : Path) : Option Path :=
  let count := (components base).length
  if components base <+: components p then
    if count = 0 then some p
    else
      let behind := dropComponents (count - (front p).1.toList.length) (front p).2
      some (ofSegments (dropTrailing behind))
  else none

/-- The names of a path with a slash between each two, for showing. -/
def shownNames (p : Path) : String :=
  String.ofList (List.intercalate ['/'] ((names p).map Utf8.decodeLossy))

end Path
end HiddenText
