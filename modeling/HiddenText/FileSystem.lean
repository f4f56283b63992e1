import HiddenText.Ascending
import HiddenText.Errors
import HiddenText.Path

/-! # File systems

A file system is a finite table of objects by location.  A location is the list of names that
lead to it from the root directory, and an object stands in a directory when its location is one
name longer; an object that no chain of directories leads to is out of reach. -/
set_option autoImplicit false

namespace HiddenText

/-- What a directory may call an entry. -/
def IsEntryName (bytes : Bytes) : Prop :=
  bytes ≠ [] ∧ bytes ≠ Path.dot ∧ bytes ≠ Path.dotDot ∧ Path.slash ∉ bytes ∧ (0 : UInt8) ∉ bytes

instance (bytes : Bytes) : Decidable (IsEntryName bytes) :=
  inferInstanceAs (Decidable (_ ∧ _ ∧ _ ∧ _ ∧ _))

structure Name where
  bytes : Bytes
  isEntryName : IsEntryName bytes
  deriving DecidableEq

namespace Name

/-- Names are ordered by their bytes. -/
instance : LT Name where
  lt a b := a.bytes < b.bytes

instance : DecidableLT Name := fun a b => inferInstanceAs (Decidable (a.bytes < b.bytes))

def ofBytes? (bytes : Bytes) : Option Name :=
  if h : IsEntryName bytes then some ⟨bytes, h⟩ else none

def shown (n : Name) : String := Utf8.shown n.bytes

end Name

abbrev Location := List Name

/-- The path without links, dots and repeated slashes that leads to a location. -/
def Location.path (place : Location) : Path :=
  if place = [] then [Path.slash] else place.flatMap fun name => Path.slash :: name.bytes

/-- Only the permissions of the owner matter: to read a file or a pipe, to list a directory, to
search it.  The content of a pipe is what is written to it for one who reads. -/
inductive Object
  | file (content : Bytes) (readable : Bool)
  | directory (listable searchable : Bool)
  | link (target : Path)
  | pipe (content : Bytes) (readable : Bool)
  deriving DecidableEq

def Object.isDirectory : Object → Bool
  | .directory .. => true
  | _ => false

structure FileSystem where
  objects : List (Location × Object)
  /-- Where relative paths start. -/
  workingDirectory : Location := []

namespace FileSystem

/-- The object at a location.  The root directory is always there. -/
def get? (fs : FileSystem) (place : Location) : Option Object :=
  match fs.objects.lookup place with
  | some object => some object
  | none => if place = [] then some (.directory true true) else none

/-- The name by which a location stands in a directory, if it does. -/
def entryName? (place : Location) (entry : Location) : Option Name :=
  match entry.getLast? with
  | some name => if entry.dropLast = place then some name else none
  | none => none

/-- The names in a directory, ascending by their bytes. -/
def names (fs : FileSystem) (place : Location) : List Name :=
  Ascending.ofList (fs.objects.filterMap fun entry => entryName? place entry.1)

/-- The locations of all directories. -/
def directories (fs : FileSystem) : List Location :=
  (([] : Location) :: fs.objects.map Prod.fst).filter fun place =>
    (fs.get? place).any Object.isDirectory

/-- No location is longer. -/
def depth (fs : FileSystem) : Nat := (fs.objects.map fun entry => entry.1.length).foldr max 0

end FileSystem
end HiddenText

/-! ## Looking up paths

A path is followed segment by segment.  Every segment asks for a directory that may be searched;
a link is replaced by its target, at most forty times in all, unless it ends the path and the
question is about the link itself. -/

namespace HiddenText.FileSystem

/-- The longest name, in bytes. -/
def nameLimit : Nat := 255

/-- The longest path, in bytes. -/
def pathLimit : Nat := 4095

/-- The most links that one path may lead through. -/
def linkLimit : Nat := 40

/-- How far a path leads without following a link. -/
inductive Progress
  | arrived (place : Location)
  | atLink (directory : Location) (name : Name) (target : Path) (rest : List Bytes)

def checkDirectory (fs : FileSystem) (place : Location) : Except IoError Unit :=
  match fs.get? place with
  | some (.directory ..) => .ok ()
  | some _ => .error .notDirectory
  | none => .error .notFound

def checkSearchable (fs : FileSystem) (place : Location) : Except IoError Unit :=
  match fs.get? place with
  | some (.directory _ searchable) => if searchable then .ok () else .error .permissionDenied
  | some _ => .error .notDirectory
  | none => .error .notFound

/-- The entry of a directory that a segment asks for. -/
def entry (fs : FileSystem) (place : Location) (segment : Bytes) :
    Except IoError (Name × Object) :=
  if nameLimit < segment.length then .error .nameTooLong
  else match Name.ofBytes? segment with
    | none => .error .notFound
    | some name => match fs.get? (place ++ [name]) with
      | none => .error .notFound
      | some object => .ok (name, object)

/-- Follows segments up to the first link. -/
def advance (fs : FileSystem) (place : Location) : List Bytes → Except IoError Progress
  | [] => .ok (.arrived place)
  | segment :: rest =>
    if segment = [] then do
      fs.checkDirectory place
      fs.advance place rest
    else do
      fs.checkSearchable place
      if segment = Path.dot then fs.advance place rest
      else if segment = Path.dotDot then fs.advance place.dropLast rest
      else do
        let (name, object) ← fs.entry place segment
        match object with
        | .link target => .ok (.atLink place name target rest)
        | _ => fs.advance (place ++ [name]) rest

/-- Where a path starts, and the segments to follow from there. -/
def startOf (base : Location) (path : Path) : Location × List Bytes :=
  match Path.segments path with
  | [] :: second :: more => ([], second :: more)
  | segments => (base, segments)

/-- Follows segments and links; `final` says whether a link that ends the path is followed. -/
def follow (fs : FileSystem) (final : Bool) :
    (links : Nat) → Location → List Bytes → Except IoError Location
  | links, place, segments =>
    match fs.advance place segments with
    | .error e => .error e
    | .ok (.arrived place) => .ok place
    | .ok (.atLink directory name target rest) =>
      if rest = [] ∧ final = false then .ok (directory ++ [name])
      else match links with
        | 0 => .error .tooManyLinks
        | links + 1 =>
          let (start, segments) := startOf directory target
          fs.follow final links start (segments ++ rest)

def locate (fs : FileSystem) (final : Bool) (path : Path) : Except IoError Location :=
  if path = [] then .error .notFound
  else if (0 : UInt8) ∈ path then .error .nulInPath
  else if pathLimit < path.length then .error .nameTooLong
  else
    let (start, segments) := startOf fs.workingDirectory path
    fs.follow final linkLimit start segments

def object (fs : FileSystem) (final : Bool) (path : Path) : Except IoError (Location × Object) := do
  let place ← fs.locate final path
  match fs.get? place with
  | some object => .ok (place, object)
  | none => .error .notFound

/-- What a path leads to, links followed. -/
def stat (fs : FileSystem) (path : Path) : Except IoError (Location × Object) :=
  fs.object true path

/-- What a path leads to; a link at its end is not followed. -/
def lstat (fs : FileSystem) (path : Path) : Except IoError (Location × Object) :=
  fs.object false path

/-- The location of a directory that may be listed. -/
def openDirectory (fs : FileSystem) (path : Path) : Except IoError Location := do
  match ← fs.stat path with
  | (place, .directory listable _) => if listable then .ok place else .error .permissionDenied
  | _ => .error .notDirectory

/-- The contents of a file, or of a pipe.  Somebody is assumed to write to the pipe and to close it
again; otherwise the reading would not end. -/
def read (fs : FileSystem) (path : Path) : Except IoError Bytes := do
  match ← fs.stat path with
  | (_, .file content readable) => if readable then .ok content else .error .permissionDenied
  | (_, .directory listable _) =>
    if listable then .error .isDirectory else .error .permissionDenied
  | (_, .pipe content readable) => if readable then .ok content else .error .permissionDenied
  | (_, .link _) => .error .tooManyLinks

/-! ## Canonical paths

The canonical form of a path names every directory on the way and no link.  The parent segment
only drops a name, so it asks for no permission; but a segment that something other than a plain
name follows has to be a directory. -/

/-- Do the segments that follow require a directory?  They do if they end in a slash or a dot, or
if a parent segment comes before the next name. -/
def requiresDirectory : List Bytes → Bool
  | [] => false
  | segment :: rest =>
    if segment = Path.dotDot then true
    else if segment = [] ∨ segment = Path.dot then
      if rest = [] then true else requiresDirectory rest
    else false

/-- Follows segments up to the first link, from a location that is canonical already. -/
def climb (fs : FileSystem) (place : Location) : List Bytes → Except IoError Progress
  | [] => .ok (.arrived place)
  | segment :: rest =>
    if segment = [] ∨ segment = Path.dot then fs.climb place rest
    else if segment = Path.dotDot then fs.climb place.dropLast rest
    else
      let path := Path.join (Location.path place) segment
      match fs.lstat path with
      | .error e => .error e
      | .ok (found, .link target) => match found.getLast? with
        | some name => .ok (.atLink place name target rest)
        | none => .error .notFound
      | .ok (found, _) =>
        if requiresDirectory rest then
          match fs.stat (path ++ [Path.slash]) with
          | .error e => .error e
          | .ok _ => fs.climb found rest
        else fs.climb found rest

def canonicalFrom (fs : FileSystem) :
    (links : Nat) → Location → List Bytes → Except IoError Location
  | links, place, segments =>
    match fs.climb place segments with
    | .error e => .error e
    | .ok (.arrived place) => .ok place
    | .ok (.atLink directory _ target rest) => match links with
      | 0 => .error .tooManyLinks
      | links + 1 =>
        let (start, segments) := startOf directory target
        fs.canonicalFrom links start (segments ++ rest)

/-- The location that a path leads to, for its canonical form. -/
def canonical (fs : FileSystem) (path : Path) : Except IoError Location :=
  if path = [] then .error .notFound
  else if (0 : UInt8) ∈ path then .error .nulInPath
  else
    let (start, segments) := startOf fs.workingDirectory path
    fs.canonicalFrom linkLimit start segments

end HiddenText.FileSystem
