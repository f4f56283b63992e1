import HiddenText.Errors
import HiddenText.Json
import HiddenText.Outcome
import HiddenText.Sink

/-! # Reports

The report of an outcome, as a text for people or as a document for programs. -/
set_option autoImplicit false

namespace HiddenText.Report

/-! ## The JSON report

One document on standard output with all findings of both buckets. -/

def findingJson (f : Finding) : Json :=
  .object [("path", .text f.path), ("occurrence_count", .number f.occurrences),
    ("samples", .array (f.samples.map fun c => .text (Codepoint.label c)))]

def statsJson (s : ScanStats) : Json :=
  .object [("files_visited", .number s.filesVisited), ("files_scanned", .number s.filesScanned),
    ("files_skipped", .number s.filesSkipped), ("traversal_errors", .number s.traversalErrors)]

def document (o : Outcome) : Json :=
  .object [("status", .text o.exitStatus.name), ("exit_code", .number o.exitStatus.code),
    ("blocking", .array (o.blocking.map findingJson)),
    ("advisory", .array (o.advisory.map findingJson)), ("stats", statsJson o.stats)]

def jsonActions (o : Outcome) : List Action :=
  [.write .out ((document o).write 0), .write .out ['\n'], .flush .out]

/-! ## The text report

Findings in documentation are listed on standard output as a warning, findings in source files on
standard error; without any of the latter standard output says so. -/

/-- A codepoint with its name, if it has one here. -/
def describe (c : Char) : String :=
  match Codepoint.name? c with
  | some name => Codepoint.label c ++ " " ++ name
  | none => Codepoint.label c

def findingLine (f : Finding) : String :=
  "  " ++ f.path ++ ": " ++ f.occurrences.repr ++ " occurrence(s): "
    ++ String.intercalate ", " (f.samples.map describe)

/-- The lines for a bucket: its first findings, and how many there are besides. -/
def sectionLines (findings : List Finding) (maxListed : Nat) : List String :=
  (findings.take maxListed).map findingLine
    ++ if maxListed < findings.length then
        ["  ... and " ++ (findings.length - maxListed).repr ++ " more file(s)"]
      else []

def advisoryHead (count : Nat) : String :=
  "warning: hidden characters found in " ++ count.repr
    ++ " documentation file(s) (advisory, not blocking):"

def blockingHead (count : Nat) : String :=
  "error: hidden or bidirectional characters found in " ++ count.repr ++ " source file(s):"

def cleanLine : String := "clean: no hidden or bidirectional characters in source files"

def writeLine (stream : Stream) (line : String) : Action := .write stream (line.toList ++ ['\n'])

def advisoryLines (o : Outcome) (maxListed : Nat) : List String :=
  if o.advisory = [] then []
  else advisoryHead o.advisory.length :: sectionLines o.advisory maxListed

def blockingLines (o : Outcome) (maxListed : Nat) : List String :=
  if o.blocking = [] then []
  else blockingHead o.blocking.length :: sectionLines o.blocking maxListed

def textActions (o : Outcome) (maxListed : Nat) : List Action :=
  (advisoryLines o maxListed).map (writeLine .out)
    ++ (if o.blocking = [] then [writeLine .out cleanLine]
      else (blockingLines o maxListed).map (writeLine .err) ++ [.flush .err])
    ++ [.flush .out]

end HiddenText.Report

/-! ## Writing a report

The report of an outcome in the format asked for.  It fails with the first write or flush that
fails; what was accepted until then stays. -/

namespace HiddenText

inductive ReportFormat
  | text
  | json
  deriving DecidableEq, Repr

namespace Report

def actions (o : Outcome) (format : ReportFormat) (maxListed : Nat) : List Action :=
  match format with
  | .text => textActions o maxListed
  | .json => jsonActions o

def write (o : Outcome) (format : ReportFormat) (maxListed : Nat) (output : Output) :
    Output × Except ScanError ExitStatus :=
  match output.perform (actions o format maxListed) with
  | (output, none) => (output, .ok o.exitStatus)
  | (output, some failure) => (output, .error (.reportUnwritten failure))

end Report
end HiddenText
