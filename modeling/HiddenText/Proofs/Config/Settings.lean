import HiddenText.Config.Settings
import HiddenText.Proofs.Codepoint.RestrictedSet
import HiddenText.Proofs.Results

/-! # What settings make of the standard configuration

Settings fail only by a text that denotes no range or no codepoint: the first among the ranges, or
if there is none, the first among the allowed codepoints (`config_eq_error_iff`). -/
set_option autoImplicit false

namespace HiddenText

namespace Settings

variable {s : Settings} {config : Config}

def filledWith (s : Settings) (restricted : RestrictedSet) : Config where
  sourceExtensions := (s.sourceExtensions.map Config.extensionSet).getD
    Config.standard.sourceExtensions
  documentationExtensions := (s.documentationExtensions.map Config.extensionSet).getD
    Config.standard.documentationExtensions
  ignoredNames := (s.ignoredNames.map Config.nameSet).getD Config.standard.ignoredNames
  restricted := restricted
  sampleCap := s.sampleCap.getD Config.standard.sampleCap
  maxListed := s.maxListed.getD Config.standard.maxListed
  followLinks := s.followLinks.getD Config.standard.followLinks
  threads := match s.threads with
    | some 0 => none
    | some n => some n
    | none => Config.standard.threads

def RangesAre (s : Settings) (ranges : List CodepointRange) : Prop :=
  match s.restrictedRanges with
  | some texts => texts.map CodepointRange.parse = ranges.map .ok
  | none => ranges = RestrictedSet.standardRanges

theorem config_eq : s.config = s.restricted.map s.filledWith := by
  rw [config]
  cases s.restricted <;> rfl

/-- The set of the ranges, before any codepoint is allowed. -/
def baseSet (s : Settings) : Except InvalidCodepoint RestrictedSet :=
  match s.restrictedRanges with
  | some texts => RestrictedSet.ofRanges <$> texts.mapM CodepointRange.parse
  | none => pure .standard

theorem restricted_eq : s.restricted =
    s.baseSet >>= fun base => (s.allowedCodepoints.getD []).mapM Codepoint.parse >>= fun calls =>
      pure (calls.foldl RestrictedSet.allow base) := by
  rw [restricted, baseSet]
  cases s.restrictedRanges <;> rfl

theorem baseSet_eq_ok_iff {base : RestrictedSet} : s.baseSet = .ok base ↔
    ∃ ranges, s.RangesAre ranges ∧ RestrictedSet.ofRanges ranges = base := by
  unfold baseSet RangesAre
  cases s.restrictedRanges with
  | none => simp [pure_eq_ok_iff, RestrictedSet.standard]
  | some texts => exact map_eq_ok_iff.trans (by simp only [mapM_eq_ok_iff])

theorem restricted_eq_ok_iff {set : RestrictedSet} : s.restricted = .ok set ↔
    ∃ ranges calls, s.RangesAre ranges ∧
      (s.allowedCodepoints.getD []).map Codepoint.parse = calls.map .ok ∧
      RestrictedSet.ofLists ranges calls = set := by
  simp only [restricted_eq, bind_eq_ok_iff, baseSet_eq_ok_iff, mapM_eq_ok_iff, pure_eq_ok_iff]
  constructor
  · rintro ⟨base, ⟨ranges, given, rfl⟩, calls, read, rfl⟩
    exact ⟨ranges, calls, given, read, rfl⟩
  · rintro ⟨ranges, calls, given, read, rfl⟩
    exact ⟨_, ⟨ranges, given, rfl⟩, calls, read, rfl⟩

theorem config_eq_ok_iff : s.config = .ok config ↔
    ∃ ranges calls, s.RangesAre ranges ∧
      (s.allowedCodepoints.getD []).map Codepoint.parse = calls.map .ok ∧
      config = s.filledWith (RestrictedSet.ofLists ranges calls) := by
  simp only [config_eq, map_eq_ok_iff, restricted_eq_ok_iff]
  constructor
  · rintro ⟨set, ⟨ranges, calls, given, read, rfl⟩, rfl⟩
    exact ⟨ranges, calls, given, read, rfl⟩
  · rintro ⟨ranges, calls, given, read, rfl⟩
    exact ⟨_, ⟨ranges, calls, given, read, rfl⟩, rfl⟩

/-- The error is that of the first text that is no range, and only then that of the first text
that is no codepoint. -/
theorem config_eq_error_iff {e : InvalidCodepoint} : s.config = .error e ↔
    (∃ texts, s.restrictedRanges = some texts ∧ FirstFault CodepointRange.parse texts e) ∨
      (∃ ranges, s.RangesAre ranges) ∧
        FirstFault Codepoint.parse (s.allowedCodepoints.getD []) e := by
  have base : s.baseSet = .error e ↔
      ∃ texts, s.restrictedRanges = some texts ∧ FirstFault CodepointRange.parse texts e := by
    unfold baseSet
    cases s.restrictedRanges with
    | none => simp [pure, Except.pure]
    | some texts => exact map_eq_error_iff.trans (by simp [mapM_eq_error_iff])
  have calls : ∀ set : RestrictedSet,
      ((s.allowedCodepoints.getD []).mapM Codepoint.parse >>= fun calls =>
        pure (calls.foldl RestrictedSet.allow set)) = .error e ↔
      FirstFault Codepoint.parse (s.allowedCodepoints.getD []) e := by
    intro set
    rw [bind_eq_error_iff, mapM_eq_error_iff]
    simp [pure, Except.pure]
  rw [config_eq, map_eq_error_iff, restricted_eq, bind_eq_error_iff, base]
  simp only [calls, baseSet_eq_ok_iff]
  simp

end Settings

namespace Config

variable {text : List Char} {origin : String} {config : Config}

theorem ofText_eq_ok_iff : ofText text origin = .ok config ↔
    ∃ entries s, Toml.parse text = some entries ∧ Settings.ofEntries entries = .ok s ∧
      s.config = .ok config := by
  rw [ofText]
  cases parsed : Toml.parse text with
  | none => simp
  | some entries =>
      cases fits : Settings.ofEntries entries with
      | error mismatch => simp [fits]
      | ok s => simp [fits, mapError_eq_ok_iff]

/-- The extensions of a configuration that was read are normalized, its own and the standard
ones. -/
theorem exists_extensionSet (read : ofText text origin = .ok config) :
    (∃ entries, config.sourceExtensions = extensionSet entries) ∧
      ∃ entries, config.documentationExtensions = extensionSet entries := by
  obtain ⟨-, s, -, -, made⟩ := ofText_eq_ok_iff.mp read
  obtain ⟨ranges, calls, -, -, rfl⟩ := Settings.config_eq_ok_iff.mp made
  constructor
  · cases given : s.sourceExtensions with
    | none => exact ⟨_, by rw [Settings.filledWith, given]; rfl⟩
    | some entries => exact ⟨entries, by rw [Settings.filledWith, given]; rfl⟩
  · cases given : s.documentationExtensions with
    | none => exact ⟨_, by rw [Settings.filledWith, given]; rfl⟩
    | some entries => exact ⟨entries, by rw [Settings.filledWith, given]; rfl⟩

end Config
end HiddenText
