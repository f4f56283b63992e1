import HiddenText.Numbers
import HiddenText.Path
import HiddenText.Report
import HiddenText.Text.Utf8

/-! # Command line options

Arguments are bytes; a root or a configuration file may have any name, and every other value is a
text.  They are read from left to right.  A value that is given apart from its option is only
examined when the next option or the next argument comes up, or at the end; so a fault in it gives
way to an argument that is not known at all. -/
set_option autoImplicit false

namespace HiddenText

/-- What takes a value on the command line. -/
inductive Parameter
  | root
  | config
  | threads
  | maxListed
  | sampleCap
  | allow
  | format
  deriving DecidableEq, Repr

def Parameter.shown : Parameter → String
  | .root => "[ROOT]"
  | .config => "--config <CONFIG>"
  | .threads => "--threads <THREADS>"
  | .maxListed => "--max-listed <MAX_LISTED>"
  | .sampleCap => "--sample-cap <SAMPLE_CAP>"
  | .allow => "--allow <CODEPOINT>"
  | .format => "--format <FORMAT>"

/-- The parameter that an option of a given name sets. -/
def Parameter.named? : Bytes → Option Parameter
  | name =>
    if name = Utf8.ofString "config" then some .config
    else if name = Utf8.ofString "threads" then some .threads
    else if name = Utf8.ofString "max-listed" then some .maxListed
    else if name = Utf8.ofString "sample-cap" then some .sampleCap
    else if name = Utf8.ofString "allow" then some .allow
    else if name = Utf8.ofString "format" then some .format
    else none

/-- An option without a value. -/
inductive Flag
  | followLinks
  | help
  | version
  deriving DecidableEq, Repr

def Flag.shown : Flag → String
  | .followLinks => "--follow-links"
  | .help => "--help"
  | .version => "--version"

def Flag.named? : Bytes → Option Flag
  | name =>
    if name = Utf8.ofString "follow-links" then some .followLinks
    else if name = Utf8.ofString "help" then some .help
    else if name = Utf8.ofString "version" then some .version
    else none

inductive UsageError
  | unexpectedArgument (argument : String)
  | valueMissing (parameter : Parameter)
  | invalidValue (value : String) (parameter : Parameter) (reason : Option String)
  | repeatedOption (shown : String)
  | unexpectedValue (value : String) (flag : Flag)
  | invalidUtf8
  deriving DecidableEq, Repr

def UsageError.message : UsageError → String
  | .unexpectedArgument argument => "unexpected argument '" ++ argument ++ "' found"
  | .valueMissing parameter =>
    "a value is required for '" ++ parameter.shown ++ "' but none was supplied"
  | .invalidValue value parameter reason =>
    "invalid value '" ++ value ++ "' for '" ++ parameter.shown ++ "'"
      ++ match reason with
        | some reason => ": " ++ reason
        | none => ""
  | .repeatedOption shown => "the argument '" ++ shown ++ "' cannot be used multiple times"
  | .unexpectedValue value flag =>
    "unexpected value '" ++ value ++ "' for '" ++ flag.shown
      ++ "' found; no more were expected"
  | .invalidUtf8 => "invalid UTF-8 was detected in one or more arguments"

/-- The options that were given. -/
structure Options where
  root : Option Path := none
  config : Option Path := none
  /-- A fixed number of threads, or `auto`. -/
  threads : Option (Option Nat) := none
  maxListed : Option Nat := none
  sampleCap : Option Nat := none
  allow : List String := []
  format : Option ReportFormat := none
  followLinks : Bool := false
  deriving DecidableEq, Repr

namespace Options

def threadsOf? (value : List Char) : Option (Option Nat) :=
  if value.map Char.toLower = "auto".toList then some none
  else match Whole.read value with
    | .ok n => if 1 ≤ n then some (some n) else none
    | .error _ => none

/-- Sets a parameter that may be given once. -/
def once {α β : Type} (parameter : Parameter) (old : Option α)
    (value : Except UsageError α) (update : α → β) : Except UsageError β :=
  if old.isSome then .error (.repeatedOption parameter.shown) else value.map update

def nonempty (parameter : Parameter) (value : Path) : Except UsageError Path :=
  if value = [] then .error (.valueMissing parameter) else .ok value

/-- The text that a value holds. -/
def text (value : Bytes) : Except UsageError String :=
  match Utf8.decode value with
  | some text => .ok (String.ofList text)
  | none => .error .invalidUtf8

def count (parameter : Parameter) (value : String) : Except UsageError Nat :=
  (Whole.read value.toList).mapError fun fault => .invalidValue value parameter (some fault.message)

def threadCount (value : String) : Except UsageError (Option Nat) :=
  match threadsOf? value.toList with
  | some threads => .ok threads
  | none => .error <| .invalidValue value .threads <| some <|
      "expected \"auto\" or a positive integer, got `" ++ value ++ "`"

def reportFormat (value : String) : Except UsageError ReportFormat :=
  if value = "" then .error (.valueMissing .format)
  else if value = "text" then .ok .text
  else if value = "json" then .ok .json
  else .error (.invalidValue value .format none)

/-- Examines the value of a parameter and sets it. -/
def put (o : Options) (parameter : Parameter) (value : Bytes) : Except UsageError Options :=
  match parameter with
  | .root => once .root o.root (nonempty .root value) fun v => { o with root := some v }
  | .config => once .config o.config (nonempty .config value) fun v => { o with config := some v }
  | .threads =>
    once .threads o.threads (text value >>= threadCount) fun v => { o with threads := some v }
  | .maxListed =>
    once .maxListed o.maxListed (text value >>= count .maxListed) fun v =>
      { o with maxListed := some v }
  | .sampleCap =>
    once .sampleCap o.sampleCap (text value >>= count .sampleCap) fun v =>
      { o with sampleCap := some v }
  | .allow => (text value).map fun v => { o with allow := o.allow ++ [v] }
  | .format =>
    once .format o.format (text value >>= reportFormat) fun v => { o with format := some v }

end Options

/-- What a command line asks for. -/
inductive Request
  | help
  | version
  | scan (options : Options)
  deriving DecidableEq, Repr

/-- Why reading ends before the last argument. -/
inductive Ending
  | help
  | version
  | fault (error : UsageError)

/-- How far arguments have been read. -/
structure ArgumentReader where
  options : Options := {}
  /-- The parameter whose value is to be examined, with the value once it is there. -/
  pending : Option (Parameter × Option Bytes) := none
  /-- Is the pending parameter's value the next argument? -/
  expecting : Bool := false
  /-- Have options ended? -/
  ended : Bool := false
  rootSeen : Bool := false

namespace ArgumentReader

/-- Examines what is pending. -/
def settle (r : ArgumentReader) : Except Ending ArgumentReader :=
  match r.pending with
  | none => .ok { r with expecting := false }
  | some (parameter, none) => .error (.fault (.valueMissing parameter))
  | some (parameter, some value) =>
    match r.options.put parameter value with
    | .ok options => .ok { r with options := options, pending := none, expecting := false }
    | .error e => .error (.fault e)

def takeFlag (r : ArgumentReader) (flag : Flag) : Except Ending ArgumentReader := do
  let r ← r.settle
  match flag with
  | .help => .error .help
  | .version => .error .version
  | .followLinks =>
    if r.options.followLinks then .error (.fault (.repeatedOption flag.shown))
    else .ok { r with options := { r.options with followLinks := true } }

def dash : UInt8 := 0x2D

def equalsSign : UInt8 := 0x3D

/-- Cuts an option at its first equals sign. -/
def splitEquals : Bytes → Bytes × Option Bytes
  | [] => ([], none)
  | b :: rest =>
    if b = equalsSign then ([], some rest)
    else
      let (name, value) := splitEquals rest
      (b :: name, value)

def takeLong (r : ArgumentReader) (option : Bytes) : Except Ending ArgumentReader :=
  let (name, value) := splitEquals option
  match Parameter.named? name, Flag.named? name, value with
  | some parameter, _, some value => do
    let r ← r.settle
    { r with pending := some (parameter, some value) }.settle
  | some parameter, _, none => do
    let r ← r.settle
    .ok { r with pending := some (parameter, none), expecting := true }
  | none, some flag, some value => .error (.fault (.unexpectedValue (Utf8.shown value) flag))
  | none, some flag, none => r.takeFlag flag
  | none, none, _ => .error (.fault (.unexpectedArgument ("--" ++ Utf8.shown name)))

/-- Takes options of one letter.  Only the first of them matters, for it ends the reading. -/
def takeShort (r : ArgumentReader) (letters : Bytes) : Except Ending ArgumentReader :=
  match Utf8.pieces letters with
  | some 'h' :: _ => r.takeFlag .help
  | some 'V' :: _ => r.takeFlag .version
  | some c :: _ => .error (.fault (.unexpectedArgument (String.ofList ['-', c])))
  | _ => .error (.fault (.unexpectedArgument ("-" ++ Utf8.shown letters)))

/-- Takes an argument that is no option. -/
def takeRoot (r : ArgumentReader) (argument : Bytes) : Except Ending ArgumentReader :=
  if r.rootSeen then .error (.fault (.unexpectedArgument (Utf8.shown argument)))
  else do
    let r ← r.settle
    .ok { r with pending := some (.root, some argument), rootSeen := true }

def takePlain (r : ArgumentReader) (argument : Bytes) : Except Ending ArgumentReader :=
  match r.expecting && !r.ended, r.pending with
  | true, some (parameter, _) =>
    .ok { r with pending := some (parameter, some argument), expecting := false }
  | _, _ => r.takeRoot argument

def take (r : ArgumentReader) (argument : Bytes) : Except Ending ArgumentReader :=
  if r.ended then r.takePlain argument
  else match argument with
    | first :: second :: rest =>
      if first = dash then
        if second = dash then
          if rest = [] then .ok { r with ended := true } else r.takeLong rest
        else r.takeShort (second :: rest)
      else r.takePlain argument
    | _ => r.takePlain argument

end ArgumentReader

def Request.ofRead : Except Ending ArgumentReader → Except UsageError Request
  | .ok r => .ok (.scan r.options)
  | .error .help => .ok .help
  | .error .version => .ok .version
  | .error (.fault e) => .error e

def Request.ofArguments (arguments : List Bytes) : Except UsageError Request :=
  Request.ofRead do
    let r ← arguments.foldlM ArgumentReader.take {}
    r.settle

end HiddenText
