import HiddenText.Proofs.Config.Fields
import HiddenText.Proofs.Config.Settings

/-! # What a configuration document makes

Every setting is decided by the field of its own key and by no other, wherever the fields stand;
a document fails only by a text that denotes no range or no codepoint (`ofInlineText_document`). -/
set_option autoImplicit false

namespace HiddenText

namespace Config

variable {text : List Char} {fields : List Field} {config : Config} {origin : String}

/-! ## Reading -/

theorem ofText_of_document (doc : Document text fields) (origin : String) :
    ofText text origin = (Settings.gathered fields).config.mapError .invalidCodepoint := by
  obtain ⟨entries, parsed, read⟩ := doc
  simp only [ofText, parsed, Settings.ofEntries_eq_ok_iff.mpr ⟨fields, read, rfl⟩]

theorem ofText_eq_ok_iff_document : ofText text origin = .ok config ↔
    ∃ fields, Document text fields ∧ (Settings.gathered fields).config = .ok config := by
  rw [ofText_eq_ok_iff]
  constructor
  · rintro ⟨entries, s, parsed, fits, made⟩
    obtain ⟨fields, read, rfl⟩ := Settings.ofEntries_eq_ok_iff.mp fits
    exact ⟨fields, ⟨entries, parsed, read⟩, made⟩
  · rintro ⟨fields, ⟨entries, parsed, read⟩, made⟩
    exact ⟨entries, _, parsed, Settings.ofEntries_eq_ok_iff.mpr ⟨fields, read, rfl⟩, made⟩

/-! ## Settings one by one -/

def DecidedBy {β : Type} (fields : List Field) (k : Key) (make : k.Content → β)
    (standard got : β) : Prop :=
  (∀ content, Given fields k content → got = make content) ∧
    ((∀ content, ¬ Given fields k content) → got = standard)

theorem decidedBy_get {β : Type} (distinct : (fields.map Field.key).Nodup) (k : Key)
    (make : k.Content → β) (standard : β) : DecidedBy fields k make standard
      ((((Settings.gathered fields).get k).map make).getD standard) := by
  constructor
  · intro content given
    rw [(Settings.get_gathered_eq_some_iff distinct).mpr given]
    rfl
  · intro absent
    rw [(Settings.get_gathered_eq_none_iff distinct).mpr absent]
    rfl

theorem decidedBy_getD (distinct : (fields.map Field.key).Nodup) (k : Key)
    (standard : k.Content) :
    DecidedBy fields k id standard (((Settings.gathered fields).get k).getD standard) := by
  have decided := decidedBy_get distinct k id standard
  rwa [Option.map_id] at decided

/-- A fixed number of threads; zero asks for as many as there are processors. -/
def fixedThreads (n : Nat) : Option Nat := if n = 0 then none else some n

theorem fixedThreads_eq_some_iff {n m : Nat} : fixedThreads n = some m ↔ n ≠ 0 ∧ n = m := by
  rw [fixedThreads, Option.ite_none_left_eq_some, Option.some.injEq]

theorem threads_filledWith (s : Settings) (restricted : RestrictedSet) :
    (s.filledWith restricted).threads = (s.threads.map fixedThreads).getD standard.threads := by
  rw [Settings.filledWith]
  cases s.threads with
  | none => rfl
  | some n => cases n <;> rfl

def InForce (fields : List Field) (r : CodepointRange) : Prop :=
  (∃ texts : List String, Given fields .restrictedRanges texts ∧
      ∃ t ∈ texts, CodepointRange.parse t = .ok r) ∨
    (∀ texts, ¬ Given fields .restrictedRanges texts) ∧ r ∈ RestrictedSet.standardRanges

def Allowed (fields : List Field) (c : Char) : Prop :=
  ∃ texts : List String, Given fields .allowedCodepoints texts ∧
    ∃ t ∈ texts, Codepoint.parse t = .ok c

structure Follows (fields : List Field) (config : Config) : Prop where
  sourceExtensions : DecidedBy fields .sourceExtensions extensionSet
    standard.sourceExtensions config.sourceExtensions
  documentationExtensions : DecidedBy fields .documentationExtensions extensionSet
    standard.documentationExtensions config.documentationExtensions
  ignoredNames : DecidedBy fields .ignoredNames nameSet standard.ignoredNames config.ignoredNames
  sampleCap : DecidedBy fields .sampleCap id standard.sampleCap config.sampleCap
  maxListed : DecidedBy fields .maxListed id standard.maxListed config.maxListed
  followLinks : DecidedBy fields .followLinks id standard.followLinks config.followLinks
  threads : DecidedBy fields .threads fixedThreads standard.threads config.threads
  restricted : ∀ c, config.restricted.contains c = true ↔
    (∃ r, InForce fields r ∧ r.first ≤ c ∧ c ≤ r.last) ∧ ¬ Allowed fields c

section

variable (distinct : (fields.map Field.key).Nodup) {ranges : List CodepointRange}
  {calls : List Char}

include distinct

theorem given_ranges_iff {texts : List String} :
    (Settings.gathered fields).restrictedRanges = some texts ↔
      Given fields .restrictedRanges texts :=
  Settings.get_gathered_eq_some_iff distinct (k := .restrictedRanges)

theorem given_codepoints_iff {texts : List String} :
    (Settings.gathered fields).allowedCodepoints = some texts ↔
      Given fields .allowedCodepoints texts :=
  Settings.get_gathered_eq_some_iff distinct (k := .allowedCodepoints)

theorem mem_ranges_iff (given : (Settings.gathered fields).RangesAre ranges)
    (r : CodepointRange) : r ∈ ranges ↔ InForce fields r := by
  rw [Settings.RangesAre] at given
  split at given
  case h_1 texts here =>
    rw [mem_iff_of_map_eq_ok given]
    have here := (given_ranges_iff distinct).mp here
    constructor
    · exact fun read => .inl ⟨texts, here, read⟩
    · rintro (⟨texts', here', read⟩ | ⟨absent, -⟩)
      · have same := (given_ranges_iff distinct).mpr here'
        rw [(given_ranges_iff distinct).mpr here, Option.some.injEq] at same
        exact same ▸ read
      · exact absurd here (absent texts)
  case h_2 absent =>
    rw [given]
    have absent := (Settings.get_gathered_eq_none_iff distinct (k := .restrictedRanges)).mp absent
    constructor
    · exact fun mem => .inr ⟨absent, mem⟩
    · rintro (⟨texts, here, -⟩ | ⟨-, mem⟩)
      · exact absurd here (absent texts)
      · exact mem

theorem mem_calls_iff (read : ((Settings.gathered fields).allowedCodepoints.getD []).map
    Codepoint.parse = calls.map .ok) (c : Char) : c ∈ calls ↔ Allowed fields c := by
  rw [mem_iff_of_map_eq_ok read, Allowed]
  simp only [← given_codepoints_iff distinct]
  cases (Settings.gathered fields).allowedCodepoints <;> simp

theorem follows_of_config_eq_ok (made : (Settings.gathered fields).config = .ok config) :
    Follows fields config := by
  obtain ⟨ranges, calls, given, read, rfl⟩ := Settings.config_eq_ok_iff.mp made
  refine ⟨?_, ?_, ?_, ?_, ?_, ?_, ?_, fun c => ?_⟩
  · exact decidedBy_get distinct .sourceExtensions extensionSet _
  · exact decidedBy_get distinct .documentationExtensions extensionSet _
  · exact decidedBy_get distinct .ignoredNames nameSet _
  · exact decidedBy_getD distinct .sampleCap _
  · exact decidedBy_getD distinct .maxListed _
  · exact decidedBy_getD distinct .followLinks _
  · rw [threads_filledWith]
    exact decidedBy_get distinct .threads fixedThreads _
  · show (RestrictedSet.ofLists ranges calls).contains c = true ↔ _
    rw [RestrictedSet.ofLists, RestrictedSet.contains_foldl_allow_iff,
      RestrictedSet.contains_ofRanges_iff, mem_calls_iff distinct read]
    simp only [mem_ranges_iff distinct given]

end

/-! ## Faults -/

def RangesParse (fields : List Field) : Prop :=
  ∀ texts : List String, Given fields .restrictedRanges texts →
    ∀ t ∈ texts, ∃ r, CodepointRange.parse t = .ok r

def CodepointsParse (fields : List Field) : Prop :=
  ∀ texts : List String, Given fields .allowedCodepoints texts →
    ∀ t ∈ texts, ∃ c, Codepoint.parse t = .ok c

def RangeFault (fields : List Field) (fault : InvalidCodepoint) : Prop :=
  ∃ texts : List String, Given fields .restrictedRanges texts ∧
    FirstFault CodepointRange.parse texts fault

def CodepointFault (fields : List Field) (fault : InvalidCodepoint) : Prop :=
  ∃ texts : List String, Given fields .allowedCodepoints texts ∧
    FirstFault Codepoint.parse texts fault

section

variable (distinct : (fields.map Field.key).Nodup) {fault : InvalidCodepoint}

include distinct

theorem rangesParse_iff :
    RangesParse fields ↔ ∃ ranges, (Settings.gathered fields).RangesAre ranges := by
  simp only [RangesParse, ← given_ranges_iff distinct, Settings.RangesAre]
  cases (Settings.gathered fields).restrictedRanges with
  | none => simp
  | some texts => simp [exists_map_eq_ok_iff]

theorem codepointsParse_iff : CodepointsParse fields ↔ ∃ calls : List Char,
    ((Settings.gathered fields).allowedCodepoints.getD []).map Codepoint.parse =
      calls.map .ok := by
  simp only [CodepointsParse, ← given_codepoints_iff distinct, exists_map_eq_ok_iff]
  cases (Settings.gathered fields).allowedCodepoints <;> simp

theorem rangeFault_iff : RangeFault fields fault ↔
    ∃ texts, (Settings.gathered fields).restrictedRanges = some texts ∧
      FirstFault CodepointRange.parse texts fault := by
  simp only [RangeFault, ← given_ranges_iff distinct]

theorem codepointFault_iff : CodepointFault fields fault ↔
    FirstFault Codepoint.parse ((Settings.gathered fields).allowedCodepoints.getD []) fault := by
  have nothing : ¬ FirstFault Codepoint.parse [] fault := by
    rw [← mapM_eq_error_iff]
    nofun
  simp only [CodepointFault, ← given_codepoints_iff distinct]
  cases (Settings.gathered fields).allowedCodepoints <;> simp [nothing]

end

theorem exists_ok_iff (doc : Document text fields) :
    (∃ config, ofText text origin = .ok config) ↔ RangesParse fields ∧ CodepointsParse fields := by
  rw [rangesParse_iff doc.distinct, codepointsParse_iff doc.distinct, ofText_of_document doc]
  simp only [mapError_eq_ok_iff, Settings.config_eq_ok_iff]
  constructor
  · rintro ⟨-, ranges, calls, given, read, -⟩
    exact ⟨⟨ranges, given⟩, calls, read⟩
  · rintro ⟨⟨ranges, given⟩, calls, read⟩
    exact ⟨_, ranges, calls, given, read, rfl⟩

theorem eq_error_iff (doc : Document text fields) (e : ScanError) :
    ofText text origin = .error e ↔ ∃ fault, e = .invalidCodepoint fault ∧
      (RangeFault fields fault ∨ RangesParse fields ∧ CodepointFault fields fault) := by
  simp only [ofText_of_document doc, mapError_eq_error_iff, Settings.config_eq_error_iff,
    rangeFault_iff doc.distinct, rangesParse_iff doc.distinct, codepointFault_iff doc.distinct]
  simp only [and_comm, eq_comm]

end Config

def ScanError.withOrigin (origin : String) : ScanError → ScanError
  | .configInvalid _ mismatch => .configInvalid origin mismatch
  | e => e

namespace Config

variable {text : List Char} {fields : List Field}

theorem ofText_eq_withOrigin (text : List Char) (origin : String) :
    ofText text origin = (ofInlineText text).mapError (ScanError.withOrigin origin) := by
  rw [ofInlineText, ofText, ofText]
  cases Toml.parse text with
  | none => rfl
  | some entries =>
      cases fits : Settings.ofEntries entries with
      | error mismatch =>
          simp only [fits]
          rfl
      | ok s =>
          simp only [fits]
          cases s.config <;> rfl

theorem load_of_read {fs : FileSystem} {path : Path} {bytes : Bytes}
    (readable : fs.read path = .ok bytes) (valid : Utf8.decode bytes = some text) :
    load fs path = (ofInlineText text).mapError (ScanError.withOrigin (Utf8.shown path)) := by
  rw [← ofText_eq_withOrigin, load, readable]
  simp only [valid]

/-- A document that gives fields makes a configuration exactly if all its ranges and all its
allowed codepoints can be read; otherwise the error is that of the first range that cannot, or if
there is none, of the first such codepoint.  Each setting then is what its own field says, or the
default, and what is restricted lies in a range that is in force and is not allowed.  A file with
a document in it makes the same of it; only the origin in an error is another. -/
theorem ofInlineText_document (doc : Document text fields) :
    ((∃ config, ofInlineText text = .ok config) ↔ RangesParse fields ∧ CodepointsParse fields) ∧
      (∀ e, ofInlineText text = .error e ↔ ∃ fault, e = .invalidCodepoint fault ∧
        (RangeFault fields fault ∨ RangesParse fields ∧ CodepointFault fields fault)) ∧
      (∀ config, ofInlineText text = .ok config → Follows fields config) ∧
      ∀ (fs : FileSystem) path bytes content, fs.read path = .ok bytes →
        Utf8.decode bytes = some content → load fs path =
          (ofInlineText content).mapError (ScanError.withOrigin (Utf8.shown path)) := by
  refine ⟨exists_ok_iff doc, eq_error_iff doc, fun config made => ?_, fun _ _ _ _ => load_of_read⟩
  rw [ofInlineText, ofText_of_document doc, mapError_eq_ok_iff] at made
  exact follows_of_config_eq_ok doc.distinct made

/-- A codepoint is allowed before the ranges are given of which it is one. -/
theorem ofInlineText_document_allowed :
    Document "allowed_codepoints = [\"202e\"]\nrestricted_ranges = [\"U+202A..U+202E\"]\n".toList
        [⟨.allowedCodepoints, ["202e"]⟩, ⟨.restrictedRanges, ["U+202A..U+202E"]⟩] ∧
      Follows [⟨.allowedCodepoints, ["202e"]⟩, ⟨.restrictedRanges, ["U+202A..U+202E"]⟩]
        { standard with restricted := .ofLists [⟨'\u202A', '\u202E', by decide⟩] ['\u202E'] } := by
  have text : write [⟨.allowedCodepoints, ["202e"]⟩, ⟨.restrictedRanges, ["U+202A..U+202E"]⟩] =
      "allowed_codepoints = [\"202e\"]\nrestricted_ranges = [\"U+202A..U+202E\"]\n".toList := by
    decide
  have doc : Document _ [⟨.allowedCodepoints, ["202e"]⟩,
      ⟨.restrictedRanges, ["U+202A..U+202E"]⟩] :=
    document_write (by decide) (by simp [Field.plain, Key.plain, Toml.Plain.Fits])
  have made : ofInlineText (write [⟨.allowedCodepoints, ["202e"]⟩,
      ⟨.restrictedRanges, ["U+202A..U+202E"]⟩]) = .ok { standard with
        restricted := .ofLists [⟨'\u202A', '\u202E', by decide⟩] ['\u202E'] } :=
    toOption_eq_some_iff.mp (by decide +kernel)
  exact ⟨text ▸ doc, (ofInlineText_document doc).2.2.1 _ made⟩

end Config
end HiddenText
