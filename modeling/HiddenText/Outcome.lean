import HiddenText.FileSystem
import HiddenText.Finding

/-! # Outcomes

The findings of a scan in two buckets, each in the order of the paths' bytes: those in source
files block, those in documentation only advise. -/
set_option autoImplicit false

namespace HiddenText

inductive ExitStatus
  | clean
  | blocking
  deriving DecidableEq, Repr

def ExitStatus.code : ExitStatus → Nat
  | .clean => 0
  | .blocking => 2

def ExitStatus.name : ExitStatus → String
  | .clean => "clean"
  | .blocking => "blocking"

structure ScanStats where
  filesVisited : Nat := 0
  filesScanned : Nat := 0
  filesSkipped : Nat := 0
  traversalErrors : Nat := 0
  deriving DecidableEq, Repr

structure Outcome where
  blocking : List Finding := []
  advisory : List Finding := []
  stats : ScanStats := {}
  deriving DecidableEq, Repr

def Outcome.exitStatus (o : Outcome) : ExitStatus :=
  if o.blocking = [] then .clean else .blocking

def Outcome.isClean (o : Outcome) : Bool := o.blocking = [] ∧ o.advisory = []

namespace Finding

def pathBytes (f : Finding) : Bytes := Utf8.ofString f.path

/-- Puts a finding before the first one whose path is not smaller. -/
def insertByPath (f : Finding) : List Finding → List Finding
  | [] => [f]
  | g :: rest => if f.pathBytes ≤ g.pathBytes then f :: g :: rest else g :: insertByPath f rest

/-- Findings in the order of their paths; those of one path keep their order. -/
def sortByPath (findings : List Finding) : List Finding := findings.foldr insertByPath []

end Finding

/-- The findings of one class among classified findings, in the order of their paths. -/
def bucket (wanted : FileClass) (items : List (FileClass × Finding)) : List Finding :=
  Finding.sortByPath <| items.filterMap fun (cls, finding) =>
    if cls = wanted then some finding else none

def Outcome.ofFindings (items : List (FileClass × Finding)) (stats : ScanStats := {}) : Outcome :=
  { blocking := bucket .source items, advisory := bucket .documentation items, stats := stats }

/-! ## Inspecting files

A file that a walk comes upon is classified by its path below the root; unless it is ignored it is
read and scanned.  `collect` gathers the results of all files, in whatever order they arrive. -/

/-- What became of one file. -/
inductive FileScan
  | clean
  | hit (finding : Finding)
  | unreadable (cause : IoError)
  | notText
  deriving DecidableEq

/-- Reads a file to its end and scans it; findings carry the path `shown`. -/
def scanFile (fs : FileSystem) (path : Path) (shown : String) (set : RestrictedSet) (cap : Nat) :
    FileScan :=
  match fs.read path with
  | .error cause => .unreadable cause
  | .ok bytes => match scanBytes shown bytes set cap with
    | .clean => .clean
    | .hit finding => .hit finding
    | .notText => .notText

inductive Inspection
  | ignored
  | clean
  | hit (cls : FileClass) (finding : Finding)
  | unreadable (path : String) (cause : IoError)
  | notText (path : String)
  deriving DecidableEq

namespace Inspection

def ofFile (fs : FileSystem) (config : Config) (root path : Path) : Inspection :=
  let relative := (Path.stripPrefix? root path).getD path
  match classify relative config with
  | .ignored => .ignored
  | cls =>
    let shown := Path.shownNames relative
    match scanFile fs path shown config.restricted config.sampleCap with
    | .clean => .clean
    | .hit finding => .hit cls finding
    | .unreadable cause => .unreadable shown cause
    | .notText => .notText shown

def finding? : Inspection → Option (FileClass × Finding)
  | .hit cls finding => some (cls, finding)
  | _ => none

def isScanned : Inspection → Bool
  | .clean | .hit .. => true
  | _ => false

def isSkipped : Inspection → Bool
  | .unreadable .. | .notText _ => true
  | _ => false

end Inspection

/-- The outcome of a scan whose walk met `errors` failures. -/
def Outcome.collect (inspections : List Inspection) (errors : Nat) : Outcome :=
  .ofFindings (inspections.filterMap Inspection.finding?)
    { filesVisited := inspections.length
      filesScanned := inspections.countP Inspection.isScanned
      filesSkipped := inspections.countP Inspection.isSkipped
      traversalErrors := errors }

end HiddenText
