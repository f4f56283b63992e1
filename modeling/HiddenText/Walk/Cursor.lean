import HiddenText.Walk

/-! # A walk under way

A walk goes on step by step.  It keeps the listings that are open, the one opened last on top.  A
directory is handed out once its listing has been opened, before anything in it; to leave it out,
the listing on top is closed.  A directory that cannot be listed is handed out like any other, and
its failure comes where its entries would. -/
set_option autoImplicit false

namespace HiddenText

/-- The entries of a directory with what they are, ascending by the bytes of their names. -/
def FileSystem.entries (fs : FileSystem) (place : Location) : List (Name × Object) :=
  (fs.names place).filterMap fun name => (fs.get? (place ++ [name])).map (name, ·)

namespace Walk

/-- A directory and what is still to come of its listing. -/
structure Listing where
  directory : Ancestor
  rest : List (Except IoError (Name × Object))

def Listing.ofDirectory (fs : FileSystem) (directory : Ancestor) : Listing :=
  { directory := directory
    rest := match fs.openDirectory directory.path with
      | .error cause => [.error cause]
      | .ok _ => (fs.entries directory.place).map .ok }

/-- What a cursor hands out; the depth is the number of directories above it. -/
inductive Found
  | directory (path : Path) (name : Bytes) (depth : Nat)
  | file (path : Path)
  | special (path : Path)
  | failure (event : Event) (cause : IoError) (depth : Nat)

/-- The listings that are open, the one opened last first. -/
abbrev Cursor := List Listing

namespace Cursor

def cycleCause (path ancestor : Path) : IoError :=
  .other ("File system loop found: " ++ Utf8.shown path ++ " points to an ancestor "
    ++ Utf8.shown ancestor)

/-- Opens the listing of a directory and hands the directory out. -/
def enter (fs : FileSystem) (cursor : Cursor) (directory : Ancestor) (name : Bytes) :
    Found × Cursor :=
  (.directory directory.path name cursor.length, .ofDirectory fs directory :: cursor)

/-- Looks at what a link leads to.  A directory whose listing is open already is a cycle. -/
def follow (fs : FileSystem) (cursor : Cursor) (path : Path) (name : Bytes) : Found × Cursor :=
  match fs.stat path with
  | .error cause => (.failure (.failed path cause) cause cursor.length, cursor)
  | .ok (_, .file ..) => (.file path, cursor)
  | .ok (place, .directory ..) =>
    match fs.openDirectory path with
    | .error cause => (.failure (.closedTarget cause) cause cursor.length, cursor)
    | .ok _ => match (cursor.map Listing.directory).find? (·.place = place) with
      | some ancestor =>
        (.failure (.cycle path ancestor.path) (cycleCause path ancestor.path) cursor.length, cursor)
      | none => cursor.enter fs ⟨place, path⟩ name
  | .ok _ => (.special path, cursor)

/-- Looks at an entry of the directory whose listing is on top. -/
def look (fs : FileSystem) (followLinks : Bool) (cursor : Cursor) (directory : Ancestor)
    (name : Name) (object : Object) : Found × Cursor :=
  let path := directory.path.join name.bytes
  match object with
  | .file .. => (.file path, cursor)
  | .pipe .. => (.special path, cursor)
  | .link _ => if followLinks then cursor.follow fs path name.bytes else (.special path, cursor)
  | .directory .. => cursor.enter fs ⟨directory.place ++ [name], path⟩ name.bytes

/-- Looks at the root.  A root that is a link is followed anyway, but handed out as a link unless
links are followed. -/
def start (fs : FileSystem) (followLinks : Bool) (root : Path) : Found × Cursor :=
  let name := (Path.fileName? root).getD root
  match fs.lstat root with
  | .error cause => (.failure (.failed root cause) cause 0, [])
  | .ok (_, .file ..) => (.file root, [])
  | .ok (_, .pipe ..) => (.special root, [])
  | .ok (place, .directory ..) => enter fs [] ⟨place, root⟩ name
  | .ok (_, .link _) =>
    if followLinks then follow fs [] root name
    else match fs.stat root with
      | .error cause => (.failure (.failed root cause) cause 0, [])
      | .ok (place, .directory ..) => (.special root, [.ofDirectory fs ⟨place, root⟩])
      | .ok _ => (.special root, [])

/-- Takes what is next from the listing on top, or closes that listing if nothing is left. -/
def next (fs : FileSystem) (followLinks : Bool) : Cursor → Option (Option Found × Cursor)
  | [] => none
  | ⟨_, []⟩ :: outer => some (none, outer)
  | ⟨directory, .error cause :: rest⟩ :: outer =>
    some (some (.failure (.failed directory.path cause) cause outer.length),
      ⟨directory, rest⟩ :: outer)
  | ⟨directory, .ok (name, object) :: rest⟩ :: outer =>
    let (found, cursor) := look fs followLinks (⟨directory, rest⟩ :: outer) directory name object
    some (some found, cursor)

/-- Closes the listing opened last. -/
def skip (cursor : Cursor) : Cursor := cursor.tail

end Cursor

/-- How far a walk has come: the root as long as it has not been looked at, then the listings that
are open; what the walk has met; and the root's error, with which it is over. -/
structure State where
  root : Option Path
  cursor : Cursor := []
  met : List Event := []
  rootError : Option IoError := none

namespace State

/-- The walk of a root before its first step. -/
def start (root : Path) : State := { root := some root }

def tell (s : State) (event : Event) : State := { s with met := s.met ++ [event] }

/-- What the walk makes of what it is handed out.  A failure at the root ends the walk, any other
is one more event; a directory below the root is left out if its name is ignored. -/
def take (config : Config) (s : State) : Found → State
  | .failure _ cause 0 => { s with rootError := some cause }
  | .failure event _ (_ + 1) => s.tell event
  | .directory path name depth =>
    if 0 < depth ∧ config.ignores name then { s.tell (.pruned path) with cursor := s.cursor.skip }
    else s
  | .file path => s.tell (.file path)
  | .special path => s.tell (.special path)

/-- One step of a walk, unless it is over. -/
def step (fs : FileSystem) (config : Config) (s : State) : Option State :=
  if s.rootError.isSome then none
  else match s.root with
    | some root =>
      let (found, cursor) := Cursor.start fs config.followLinks root
      some ({ s with root := none, cursor := cursor }.take config found)
    | none => match s.cursor.next fs config.followLinks with
      | none => none
      | some (none, cursor) => some { s with cursor := cursor }
      | some (some found, cursor) => some ({ s with cursor := cursor }.take config found)

/-- The walk after so many steps, or at its end if it ends before. -/
def after (fs : FileSystem) (config : Config) : Nat → State → State
  | 0, s => s
  | n + 1, s => match s.step fs config with
    | none => s
    | some next => after fs config n next

/-- What the walk has met so far. -/
def walk (s : State) : Walk := { events := s.met, rootError := s.rootError }

/-- The root's error, which is given out once. -/
def takeRootError (s : State) : Option IoError × State :=
  (s.rootError, { s with rootError := none })

end State
end Walk
end HiddenText
