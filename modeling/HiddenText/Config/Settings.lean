import HiddenText.Config
import HiddenText.Errors
import HiddenText.FileSystem
import HiddenText.Toml.Document

/-! # Reading configurations

The fields of a configuration document, and how a document is read from a text or a file. -/
set_option autoImplicit false

namespace HiddenText

/-! ## Settings

The fields of a configuration document.  A field that is absent leaves its default in force.
Ranges are read before allowed codepoints, so of two faults the one in the ranges is reported. -/

structure Settings where
  sourceExtensions : Option (List String) := none
  documentationExtensions : Option (List String) := none
  ignoredNames : Option (List String) := none
  restrictedRanges : Option (List String) := none
  allowedCodepoints : Option (List String) := none
  sampleCap : Option Nat := none
  maxListed : Option Nat := none
  followLinks : Option Bool := none
  threads : Option Nat := none
  deriving DecidableEq, Repr

namespace Settings

open Config (Mismatch Expected describe)

def stringOf : Toml.Value → Except Mismatch String
  | .string text => .ok text
  | value => .error (.wrongKind (describe value) .string)

def stringsOf : Toml.Value → Except Mismatch (List String)
  | .array items | .tables items => items.mapM stringOf
  | value => .error (.wrongKind (describe value) .sequence)

def countOf : Toml.Value → Except Mismatch Nat
  | .integer (.ofNat n) => .ok n
  | value@(.integer _) => .error (.wrongValue (describe value) .count)
  | value => .error (.wrongKind (describe value) .count)

def booleanOf : Toml.Value → Except Mismatch Bool
  | .boolean b => .ok b
  | value => .error (.wrongKind (describe value) .boolean)

/-- Takes one entry of a document. -/
def take (s : Settings) : String × Toml.Value → Except Mismatch Settings
  | ("source_extensions", value) =>
    (stringsOf value).map fun names => { s with sourceExtensions := some names }
  | ("doc_extensions", value) =>
    (stringsOf value).map fun names => { s with documentationExtensions := some names }
  | ("ignored_names", value) =>
    (stringsOf value).map fun names => { s with ignoredNames := some names }
  | ("restricted_ranges", value) =>
    (stringsOf value).map fun ranges => { s with restrictedRanges := some ranges }
  | ("allowed_codepoints", value) =>
    (stringsOf value).map fun labels => { s with allowedCodepoints := some labels }
  | ("sample_cap", value) => (countOf value).map fun n => { s with sampleCap := some n }
  | ("max_listed", value) => (countOf value).map fun n => { s with maxListed := some n }
  | ("follow_links", value) => (booleanOf value).map fun b => { s with followLinks := some b }
  | ("threads", value) => (countOf value).map fun n => { s with threads := some n }
  | (name, _) => .error (.unknownField name)

/-- Reads the entries of a document in their order. -/
def ofEntries (entries : Toml.Entries) : Except Mismatch Settings := entries.foldlM take {}

/-- The restricted set: the given ranges or the standard ones, less the allowed codepoints. -/
def restricted (s : Settings) : Except InvalidCodepoint RestrictedSet := do
  let base ← match s.restrictedRanges with
    | some ranges => RestrictedSet.ofRanges <$> ranges.mapM CodepointRange.parse
    | none => pure .standard
  let allowed ← (s.allowedCodepoints.getD []).mapM Codepoint.parse
  pure (allowed.foldl RestrictedSet.allow base)

/-- The configuration that the settings make of the standard one. -/
def config (s : Settings) : Except InvalidCodepoint Config := do
  let restricted ← s.restricted
  let standard := Config.standard
  pure
    { sourceExtensions :=
        (s.sourceExtensions.map Config.extensionSet).getD standard.sourceExtensions
      documentationExtensions :=
        (s.documentationExtensions.map Config.extensionSet).getD standard.documentationExtensions
      ignoredNames := (s.ignoredNames.map Config.nameSet).getD standard.ignoredNames
      restricted := restricted
      sampleCap := s.sampleCap.getD standard.sampleCap
      maxListed := s.maxListed.getD standard.maxListed
      followLinks := s.followLinks.getD standard.followLinks
      threads := match s.threads with
        | some 0 => none
        | some n => some n
        | none => standard.threads }

end Settings
end HiddenText

/-! ## Reading configurations

A configuration is a TOML document; messages name where it came from. -/

namespace HiddenText.Config

/-- Reads the text of a document. -/
def ofText (text : List Char) (origin : String) : Except ScanError Config :=
  match Toml.parse text with
  | none => .error (.configInvalid origin none)
  | some entries => match Settings.ofEntries entries with
    | .error mismatch => .error (.configInvalid origin (some mismatch))
    | .ok settings => settings.config.mapError .invalidCodepoint

/-- Reads a document that does not come from a file. -/
def ofInlineText (text : List Char) : Except ScanError Config := ofText text "<inline>"

/-- Reads a configuration file. -/
def load (fs : FileSystem) (path : Path) : Except ScanError Config :=
  match fs.read path with
  | .error cause => .error (.configUnreadable path cause)
  | .ok bytes => match Utf8.decode bytes with
    | none => .error (.configUnreadable path .notUtf8)
    | some text => ofText text (Utf8.shown path)

end HiddenText.Config
