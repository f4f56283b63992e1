import HiddenText.Errors
import HiddenText.FileSystem
import HiddenText.Outcome
import HiddenText.Walk

/-! # Scanning a directory tree

The root is brought into canonical form first; it has to be a directory that can be listed.  Then
every file that the walk comes upon is inspected. -/
set_option autoImplicit false

namespace HiddenText

/-! ## The log of a scan

What a scan notes on its way: where it starts and what it ends with, what the walk leaves out or
cannot read, and which files are passed over. -/

inductive LogLevel
  | info
  | warn
  | debug
  deriving DecidableEq, Repr

def LogLevel.name : LogLevel → String
  | .info => "INFO"
  | .warn => "WARN"
  | .debug => "DEBUG"

inductive LogEvent
  | scanStarted (root : Path) (threads : Option Nat)
  | directoryPruned (path : Path)
  | entrySkipped (path : Path)
  | entryUnreadable (path : Path) (cause : IoError)
  /-- A link leads to a directory that cannot be opened; the log does not name the link. -/
  | targetUnreadable (cause : IoError)
  | cycleSkipped (path ancestor : Path)
  | fileUnreadable (path : String) (cause : IoError)
  | fileNotText (path : String)
  | scanFinished (stats : ScanStats) (blocking advisory : Nat)
  deriving DecidableEq

namespace LogEvent

def ofWalk : Walk.Event → Option LogEvent
  | .file _ => none
  | .pruned path => some (.directoryPruned path)
  | .special path => some (.entrySkipped path)
  | .failed path cause => some (.entryUnreadable path cause)
  | .closedTarget cause => some (.targetUnreadable cause)
  | .cycle path ancestor => some (.cycleSkipped path ancestor)

def level : LogEvent → LogLevel
  | .scanStarted .. | .scanFinished .. => .info
  | .entryUnreadable .. | .targetUnreadable _ | .cycleSkipped .. => .warn
  | .directoryPruned _ | .entrySkipped _ | .fileUnreadable .. | .fileNotText _ => .debug

def message : LogEvent → String
  | .scanStarted .. => "starting scan"
  | .directoryPruned _ => "pruning ignored directory"
  | .entrySkipped _ => "skipping non-regular entry"
  | .entryUnreadable .. | .targetUnreadable _ => "cannot read entry, skipping"
  | .cycleSkipped .. => "symlink cycle detected, skipping"
  | .fileUnreadable .. => "unreadable file, skipping"
  | .fileNotText _ => "non-text content, skipping"
  | .scanFinished .. => "scan finished"

/-- The named values of an event. -/
def fields : LogEvent → List (String × String)
  | .scanStarted root threads =>
    [("root", Utf8.shown root), ("threads", (threads.map Nat.repr).getD "auto")]
  | .directoryPruned path | .entrySkipped path => [("path", Utf8.shown path)]
  | .entryUnreadable path cause =>
    let shown := Utf8.shown path
    [("path", shown), ("error", "IO error for operation on " ++ shown ++ ": " ++ cause.message)]
  | .targetUnreadable cause => [("path", ""), ("error", cause.message)]
  | .cycleSkipped path ancestor =>
    [("path", Utf8.shown path), ("ancestor", Utf8.shown ancestor)]
  | .fileUnreadable path cause => [("path", path), ("error", cause.message)]
  | .fileNotText path => [("path", path)]
  | .scanFinished stats blocking advisory =>
    [("files_visited", stats.filesVisited.repr), ("files_scanned", stats.filesScanned.repr),
     ("files_skipped", stats.filesSkipped.repr),
     ("traversal_errors", stats.traversalErrors.repr), ("blocking", blocking.repr),
     ("advisory", advisory.repr)]

end LogEvent

/-! ## The scan -/

/-- The canonical path of a root that can be scanned. -/
def validateRoot (fs : FileSystem) (root : Path) : Except ScanError Path :=
  match fs.canonical root with
  | .error cause => .error (.rootNotFound root cause)
  | .ok place =>
    let path := place.path
    match fs.stat path with
    | .ok (_, .directory ..) => match fs.openDirectory path with
      | .error cause => .error (.rootUnreadable root cause)
      | .ok _ => .ok path
    | _ => .error (.rootNotDirectory root)

/-- What a scan returns, and what it logged. -/
structure ScanRun where
  log : List LogEvent
  result : Except ScanError Outcome

/-- One step of a scan: something the walk met, or a file that was inspected. -/
inductive ScanStep
  | met (event : Walk.Event)
  | inspected (inspection : Inspection)

namespace ScanStep

def ofEvent (fs : FileSystem) (config : Config) (root : Path) (event : Walk.Event) : ScanStep :=
  match event.file? with
  | some path => .inspected (.ofFile fs config root path)
  | none => .met event

def inspection? : ScanStep → Option Inspection
  | .met _ => none
  | .inspected i => some i

def logEvent? : ScanStep → Option LogEvent
  | .met event => LogEvent.ofWalk event
  | .inspected (.unreadable path cause) => some (.fileUnreadable path cause)
  | .inspected (.notText path) => some (.fileNotText path)
  | .inspected _ => none

end ScanStep

/-- Scans the files that a walk of the root comes upon. -/
def scanAlong (walkOf : Path → Walk) (fs : FileSystem) (config : Config) (root : Path) : ScanRun :=
  match validateRoot fs root with
  | .error e => { log := [], result := .error e }
  | .ok canonical =>
    let walk := walkOf canonical
    let steps := walk.events.map (ScanStep.ofEvent fs config canonical)
    let begun := .scanStarted canonical config.threads :: steps.filterMap ScanStep.logEvent?
    match walk.rootError with
    | some cause => { log := begun, result := .error (.rootUnreadable canonical cause) }
    | none =>
      let outcome := Outcome.collect (steps.filterMap ScanStep.inspection?) walk.errors
      { log := begun ++
          [.scanFinished outcome.stats outcome.blocking.length outcome.advisory.length]
        result := .ok outcome }

def scanTree (fs : FileSystem) (config : Config) (root : Path) : ScanRun :=
  scanAlong (Walk.ofRoot fs config) fs config root

end HiddenText
