import HiddenText.CommandLine

/-! # The program

A scan runs on a file system that is a value.  Here that value is read from the disk: the
configuration file, and what the scan will look at below its root.  A directory that will not be
entered is recorded without its entries, and a file that will not be read without its contents. -/
set_option autoImplicit false

namespace HiddenText.Disk

/-- What a scan will look at. -/
structure Interest where
  followsLinks : Bool
  enters : Bytes → Bool
  reads : Bytes → Bool

def Interest.ofConfig (config : Config) : Interest where
  followsLinks := config.followLinks
  enters name := !config.ignores name
  reads name := classify name { config with ignoredNames := [] } ≠ .ignored

/-- Of interest is only where the recording starts. -/
def Interest.single : Interest where
  followsLinks := false
  enters _ := false
  reads _ := false

abbrev Table := List (Location × Object)

def locationOf (path : String) : Location :=
  (Path.names (Utf8.ofString path)).filterMap Name.ofBytes?

/-- The directories above a location. -/
def above (place : Location) : Table :=
  (List.range place.length).map fun n => (place.take n, .directory true true)

/-- A link whose target cannot be found leads to a name that no directory holds. -/
def nowhere : Path := [0]

def fileNameOf (path : String) : Bytes := ((Path.fileName? (Utf8.ofString path)).getD [])

/-- Is a directory's first entry out of reach, so that the directory cannot be searched? -/
def isSearchable (names : List String) (path : String) : IO Bool := do
  match names with
  | [] => return true
  | name :: _ =>
    try
      let _ ← ((← IO.currentDir) / path / name).symlinkMetadata
      return true
    catch _ => return false

/-- Adds an object, what is below it, and what its links lead to.  A directory is gone into if it
is where the recording starts, or if it is of interest. -/
partial def record (interest : Interest) (start : Bool) (table : Table) (path : String) :
    IO Table := do
  let place := locationOf path
  let onDisk := (← IO.currentDir) / path
  match (← onDisk.symlinkMetadata).type with
  | .file =>
    if start || interest.reads (fileNameOf path) then
      let (content, readable) ←
        try
          pure ((← IO.FS.readBinFile onDisk).toList, true)
        catch _ => pure ([], false)
      return (place, .file content readable) :: table
    else return (place, .file [] true) :: table
  | .symlink =>
    let target ← try some <$> IO.FS.realPath onDisk catch _ => pure none
    match target with
    | none => return (place, .link nowhere) :: table
    | some target =>
      let target := target.toString
      let table := (place, .link (Utf8.ofString target)) :: table
      if interest.followsLinks && (table.lookup (locationOf target)).isNone then
        record interest false (table ++ above (locationOf target)) target
      else return table
  | .dir =>
    if !start && !interest.enters (fileNameOf path) then
      return (place, .directory true true) :: table
    let names ← try (fun es => some (es.toList.map (·.fileName))) <$> onDisk.readDir
      catch _ => pure none
    match names with
    | none => return (place, .directory false true) :: table
    | some names =>
      let searchable ← isSearchable names path
      let table := (place, .directory true searchable) :: table
      if searchable then
        names.foldlM (fun table (name : String) =>
          record interest false table (onDisk / name).toString) table
      else return table
  | .other => return (place, .pipe [] true) :: table

/-- Goes along the segments of a path, from a directory without links above it, and adds the links
on the way; says where the path leads, if it leads anywhere. -/
def follow (table : Table) (directory : String) : List String → IO (Table × Option String)
  | [] => return (table, some directory)
  | segment :: rest => do
    let path := ((← IO.currentDir) / directory / segment).toString
    try
      let real := (← IO.FS.realPath path).toString
      let kind := (← ((← IO.currentDir) / path).symlinkMetadata).type
      let link := kind == .symlink && segment != "." && segment != ".." && segment != ""
      let found : Table :=
        if link then [(locationOf path, .link (Utf8.ofString real))] else []
      let passed : Table := if rest = [] then [] else [(locationOf real, .directory true true)]
      follow (found ++ table ++ above (locationOf real) ++ passed) real rest
    catch
      | .permissionDenied .. =>
        return ((locationOf directory, .directory false false) :: table, none)
      | _ => return (table, none)

/-- Adds what a path leads to. -/
def recordPath (interest : Interest) (table : Table) (path : String) : IO Table := do
  let here := (← IO.currentDir).toString
  let base := if path.startsWith "/" then "/" else here
  match ← follow table base (path.splitOn "/") with
  | (table, some real) => record interest true table real
  | (table, none) => return table

/-- The file system that a command line is about. -/
def snapshot (arguments : List Bytes) : IO FileSystem := do
  let here := locationOf (← IO.currentDir).toString
  let start : FileSystem :=
    { objects := (here, .directory true true) :: above here, workingDirectory := here }
  match Request.ofArguments arguments with
  | .ok (.scan options) =>
    let table ← match options.config with
      | some path => recordPath .single start.objects (Utf8.shown path)
      | none => pure start.objects
    match CommandLine.effective { start with objects := table } options with
    | .error _ => return { start with objects := table }
    | .ok config =>
      let table ← recordPath (.ofConfig config) table (Utf8.shown (CommandLine.rootOf options))
      return { start with objects := table }
  | _ => return start

end HiddenText.Disk

open HiddenText in
def main (arguments : List String) : IO UInt32 := do
  let arguments := arguments.map Utf8.ofString
  let fs ← Disk.snapshot arguments
  let result := CommandLine.run fs arguments {}
  IO.print (Utf8.shown result.output.out.accepted)
  IO.eprint (Utf8.shown result.output.err.accepted)
  return result.exitCode.toUInt32
