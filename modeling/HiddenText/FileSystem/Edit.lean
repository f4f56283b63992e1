import HiddenText.FileSystem

/-! # Editing a file system

Edits place, replace and remove objects whatever the permissions are.  Directories on the way that
do not exist are made; permissions are set when all objects are in place, the last one first. -/
set_option autoImplicit false

namespace HiddenText

inductive Change
  | write (content : Bytes)
  | makeDirectory
  | link (target : Path)
  | pipe
  | remove
  | keep
  deriving DecidableEq

structure Edit where
  path : Path
  change : Change
  /-- Permission bits to set, the owner's being bits 6 to 8. -/
  mode : Option Nat := none

namespace FileSystem

def set (fs : FileSystem) (place : Location) (object : Object) : FileSystem :=
  { fs with objects := (place, object) :: fs.objects.filter (·.1 ≠ place) }

/-- Removes an object with all that stands below it. -/
def remove (fs : FileSystem) (place : Location) : FileSystem :=
  { fs with objects := fs.objects.filter fun entry => !(place <+: entry.1 : Bool) }

/-- The same objects with every permission granted. -/
def unlocked (fs : FileSystem) : FileSystem :=
  { fs with objects := fs.objects.map fun (place, object) => (place, match object with
      | .file content _ => .file content true
      | .directory .. => .directory true true
      | .pipe content _ => .pipe content true
      | object => object) }

/-- The location at the end of a link; the location itself if no link is there or it leads
nowhere. -/
def throughLinks (fs : FileSystem) (place : Location) : Location :=
  match fs.unlocked.follow true linkLimit [] (place.map Name.bytes) with
  | .ok found => found
  | .error _ => place

/-- Goes down a list of segments and makes the directories that are missing. -/
def reach (fs : FileSystem) (place : Location) : List Bytes → FileSystem × Location
  | [] => (fs, place)
  | segment :: rest =>
    if segment = [] ∨ segment = Path.dot then fs.reach place rest
    else if segment = Path.dotDot then fs.reach place.dropLast rest
    else match Name.ofBytes? segment with
      | none => (fs, place)
      | some name =>
        let next := place ++ [name]
        match fs.get? next with
        | none => (fs.set next (.directory true true)).reach next rest
        | some (.link _) => fs.reach (fs.throughLinks next) rest
        | some _ => fs.reach next rest

/-- Brings the parent directory of a path into being and finds where the path leads. -/
def prepare (fs : FileSystem) (base : Location) (path : Path) : FileSystem × Location :=
  let segments := Path.dropTrailing (Path.segments path)
  let (fs, parent) := fs.reach base segments.dropLast
  match segments.getLast?.bind Name.ofBytes? with
  | some name => (fs, parent ++ [name])
  | none => (fs, (fs.reach parent (segments.drop (segments.length - 1))).2)

def change (fs : FileSystem) (base : Location) (path : Path) (c : Change) : FileSystem :=
  let (made, place) := fs.prepare base path
  match c with
  | .write content =>
    let place := made.throughLinks place
    match made.get? place with
    | some (.file _ readable) => made.set place (.file content readable)
    | _ => made.set place (.file content true)
  | .makeDirectory => match made.get? place with
    | some _ => made
    | none => made.set place (.directory true true)
  | .link target => made.set place (.link target)
  | .pipe => made.set place (.pipe [] true)
  | .remove => fs.remove place
  | .keep => fs

def setMode (fs : FileSystem) (base : Location) (path : Path) (mode : Nat) : FileSystem :=
  let place := fs.throughLinks (fs.prepare base path).2
  match fs.get? place with
  | some (.file content _) => fs.set place (.file content (mode.testBit 8))
  | some (.directory ..) => fs.set place (.directory (mode.testBit 8) (mode.testBit 6))
  | some (.pipe content _) => fs.set place (.pipe content (mode.testBit 8))
  | _ => fs

def edit (fs : FileSystem) (base : Location) (edits : List Edit) : FileSystem :=
  let placed := edits.foldl (fun fs e => fs.change base e.path e.change) fs
  edits.foldr (fun e fs => match e.mode with
    | some mode => fs.setMode base e.path mode
    | none => fs) placed

end FileSystem
end HiddenText
