import HiddenText.Codepoint
import HiddenText.Numbers
import HiddenText.Path
import HiddenText.Text.Quoted
import HiddenText.Toml.Value

/-! # What can go wrong

The causes of failed input and output, what keeps a document from being a configuration, and the
errors that a scan ends with. -/
set_option autoImplicit false

namespace HiddenText

/-! ## Causes of failed input and output -/

inductive IoError
  | notFound
  | permissionDenied
  | notDirectory
  | isDirectory
  | nameTooLong
  | tooManyLinks
  | noSpace
  | notUtf8
  | nulInPath
  | other (text : String)
  deriving DecidableEq, Repr

def IoError.message : IoError → String
  | .notFound => "No such file or directory (os error 2)"
  | .permissionDenied => "Permission denied (os error 13)"
  | .notDirectory => "Not a directory (os error 20)"
  | .isDirectory => "Is a directory (os error 21)"
  | .noSpace => "No space left on device (os error 28)"
  | .nameTooLong => "File name too long (os error 36)"
  | .tooManyLinks => "Too many levels of symbolic links (os error 40)"
  | .notUtf8 => "stream did not contain valid UTF-8"
  | .nulInPath => "file name contained an unexpected NUL byte"
  | .other text => text

end HiddenText

/-! ## Documents that are no configuration

A document fits if its fields are known and each value is of the kind that its field asks for.
Otherwise the first entry that does not fit is reported. -/

namespace HiddenText.Config

/-- What a field asks for. -/
inductive Expected
  | sequence
  | string
  | count
  | boolean
  deriving DecidableEq, Repr

def Expected.name : Expected → String
  | .sequence => "a sequence"
  | .string => "a string"
  | .count => "usize"
  | .boolean => "a boolean"

inductive Mismatch
  | unknownField (name : String)
  | wrongKind (found : String) (expected : Expected)
  | wrongValue (found : String) (expected : Expected)
  deriving DecidableEq, Repr

def fieldNames : List String :=
  ["source_extensions", "doc_extensions", "ignored_names", "restricted_ranges",
   "allowed_codepoints", "sample_cap", "max_listed", "follow_links", "threads"]

def backquoted (s : String) : String := "`" ++ s ++ "`"

def Mismatch.message : Mismatch → String
  | .unknownField name =>
    "unknown field " ++ backquoted name ++ ", expected one of "
      ++ String.intercalate ", " (fieldNames.map backquoted)
  | .wrongKind found expected => "invalid type: " ++ found ++ ", expected " ++ expected.name
  | .wrongValue found expected => "invalid value: " ++ found ++ ", expected " ++ expected.name

/-- A value as a mismatch shows it. -/
def describe : Toml.Value → String
  | .string text => "string " ++ Quoted.quote text.toList
  | .integer n => "integer " ++ backquoted (toString n)
  | .float x => "floating point " ++ backquoted (Shortest.text x)
  | .boolean b => "boolean " ++ backquoted (if b then "true" else "false")
  | .moment | .table .. => "map"
  | .array _ | .tables _ => "sequence"

end HiddenText.Config

/-! ## What makes a scan fail

Only the root, the configuration and the writing of the report can fail a scan; whatever goes
wrong with a single file below the root does not. -/

namespace HiddenText

inductive ScanError
  | rootNotFound (root : Path) (cause : IoError)
  | rootUnreadable (root : Path) (cause : IoError)
  | rootNotDirectory (root : Path)
  | configUnreadable (path : Path) (cause : IoError)
  /-- The text is no configuration; `mismatch` says why if it is a document at all. -/
  | configInvalid (origin : String) (mismatch : Option Config.Mismatch)
  | invalidCodepoint (cause : InvalidCodepoint)
  | reportUnwritten (cause : IoError)
  deriving DecidableEq, Repr

namespace ScanError

def message : ScanError → String
  | .rootNotFound root _ =>
    "scan root " ++ Utf8.shown root ++ " does not exist or is not accessible"
  | .rootUnreadable root _ => "scan root " ++ Utf8.shown root ++ " cannot be read"
  | .rootNotDirectory root => "scan root " ++ Utf8.shown root ++ " is not a directory"
  | .configUnreadable path _ => "failed to read config file " ++ Utf8.shown path
  | .configInvalid origin _ => "invalid config (" ++ origin ++ ")"
  | .invalidCodepoint cause => cause.message
  | .reportUnwritten _ => "failed to write report"

/-- The text of what lies behind the error, where something does. -/
def cause? : ScanError → Option String
  | .rootNotFound _ cause | .rootUnreadable _ cause | .configUnreadable _ cause
  | .reportUnwritten cause => some cause.message
  | .configInvalid _ mismatch => mismatch.map Config.Mismatch.message
  | .rootNotDirectory _ | .invalidCodepoint _ => none

end ScanError
end HiddenText
