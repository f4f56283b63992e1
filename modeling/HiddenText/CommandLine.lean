import HiddenText.Config.Settings
import HiddenText.Options
import HiddenText.Scan

/-! # The command line

Reads the arguments and the configuration, scans the tree and writes the report.  The exit code is
0 for a clean tree, 2 for findings in source files, and 1 for everything that goes wrong. -/
set_option autoImplicit false

namespace HiddenText.CommandLine

def about : String :=
  "Detect bidirectional control and invisible characters (trojan-source) in a source tree"

def version : String := "glyphguard 0.1.0\n"

/-- What the program was doing when it failed. -/
inductive Stage
  | loadConfig
  | parseAllow
  | scan
  | writeReport
  deriving DecidableEq, Repr

def Stage.name : Stage → String
  | .loadConfig => "load config"
  | .parseAllow => "parse --allow"
  | .scan => "scan failed"
  | .writeReport => "write report"

structure Failure where
  stage : Stage
  error : ScanError
  deriving DecidableEq

/-- The failure with all that lies behind it.  What lies behind an invalid configuration is left
to the reader of the file. -/
def Failure.message (f : Failure) : String :=
  let head := "error: " ++ f.stage.name ++ ": " ++ f.error.message
  match f.error, f.error.cause? with
  | .configInvalid .., _ => head
  | _, some cause => head ++ ": " ++ cause ++ "\n"
  | _, none => head ++ "\n"

/-- Options override the settings of the configuration file; allowed codepoints are added. -/
def override (config : Config) (options : Options) (allowed : List Char) : Config :=
  { config with
    threads := match options.threads with
      | some (some n) => some n
      | _ => config.threads
    maxListed := options.maxListed.getD config.maxListed
    sampleCap := options.sampleCap.getD config.sampleCap
    followLinks := options.followLinks || config.followLinks
    restricted := allowed.foldl RestrictedSet.allow config.restricted }

def configure (config : Config) (options : Options) : Except Failure Config := do
  let allowed ← (options.allow.mapM Codepoint.parse).mapError fun e =>
    ⟨.parseAllow, .invalidCodepoint e⟩
  pure (override config options allowed)

/-- The configuration that is in effect. -/
def effective (fs : FileSystem) (options : Options) : Except Failure Config := do
  let config ← match options.config with
    | some path => (Config.load fs path).mapError (⟨.loadConfig, ·⟩)
    | none => pure .standard
  configure config options

/-- The root to scan; the working directory unless another is given. -/
def rootOf (options : Options) : Path := options.root.getD (Utf8.ofString ".")

/-- Scans with a scanner and writes the report. -/
def scanWith (scanner : Config → Path → Except ScanError Outcome) (fs : FileSystem)
    (options : Options) (output : Output) : Output × Except Failure ExitStatus :=
  match effective fs options with
  | .error failure => (output, .error failure)
  | .ok config => match scanner config (rootOf options) with
    | .error e => (output, .error ⟨.scan, e⟩)
    | .ok outcome =>
      let format := options.format.getD .text
      let (output, written) := Report.write outcome format config.maxListed output
      (output, written.mapError (⟨.writeReport, ·⟩))

structure Result where
  exitCode : Nat
  output : Output

def print (output : Output) (stream : Stream) (text : String) : Output :=
  (output.perform [.write stream text.toList]).1

/-- The first line of a text. -/
def firstLine (text : String) : String := String.ofList (text.toList.takeWhile (· ≠ '\n'))

/-- Of the help text and of the message for a usage error this writes what comes first: what the
program is about, and the fault.  The usage that follows them is not written. -/
def runWith (scanner : Config → Path → Except ScanError Outcome) (fs : FileSystem)
    (arguments : List Bytes) (output : Output) : Result :=
  match Request.ofArguments arguments with
  | .error e =>
    { exitCode := 1, output := print output .err (firstLine ("error: " ++ e.message)) }
  | .ok .help => { exitCode := 0, output := print output .out about }
  | .ok .version => { exitCode := 0, output := print output .out version }
  | .ok (.scan options) => match scanWith scanner fs options output with
    | (output, .ok status) => { exitCode := status.code, output := output }
    | (output, .error failure) =>
      { exitCode := 1, output := print output .err failure.message }

/-- The program.  It takes one file after the other, whatever the number of threads. -/
def run (fs : FileSystem) (arguments : List Bytes) (output : Output) : Result :=
  runWith (fun config root => (scanTree fs config root).result) fs arguments output

end HiddenText.CommandLine
