import HiddenText.Outcome
import HiddenText.Proofs.Finding

/-! # What the inspection of a file finds

A file is a hit if its path below the root has a class, and it can be read to its end as a text
with something to tell; it is a hit for that class, and the finding is the text's.  A file of a
class that cannot be read as a text is skipped. -/
set_option autoImplicit false

namespace HiddenText

def FileSystem.text? (fs : FileSystem) (path : Path) : Option (List Char) :=
  (fs.read path).toOption.bind Utf8.decode

theorem FileSystem.text?_eq_some_iff {fs : FileSystem} {path : Path} {text : List Char} :
    fs.text? path = some text ↔ fs.read path = .ok (Utf8.encode text) := by
  rw [text?]
  cases fs.read path with
  | error cause => simp [Except.toOption]
  | ok bytes => rw [Except.toOption, Option.bind_some, Utf8.decode_eq_some_iff, Except.ok.injEq]

theorem scanFile_eq_hit_iff {fs : FileSystem} {path : Path} {shown : String} {set : RestrictedSet}
    {cap : Nat} {finding : Finding} :
    scanFile fs path shown set cap = .hit finding ↔
      ∃ text, fs.read path = .ok (Utf8.encode text) ∧ (∃ c ∈ text, set.Restricts c) ∧
        finding = .ofText shown set cap text := by
  rw [scanFile]
  cases fs.read path with
  | error cause => simp
  | ok bytes =>
      simp only [Except.ok.injEq, ← scanBytes_eq_hit_iff]
      cases scanBytes shown bytes set cap <;> simp

namespace Inspection

variable {fs : FileSystem} {config : Config} {root path relative : Path}

theorem ofFile_of_ignored (seen : (Path.stripPrefix? root path).getD path = relative)
    (h : classify relative config = .ignored) : ofFile fs config root path = .ignored := by
  rw [ofFile, seen]
  simp only [h]

theorem ofFile_of_class (seen : (Path.stripPrefix? root path).getD path = relative)
    (h : classify relative config ≠ .ignored) :
    ofFile fs config root path =
      match scanFile fs path (Path.shownNames relative) config.restricted config.sampleCap with
      | .clean => .clean
      | .hit finding => .hit (classify relative config) finding
      | .unreadable cause => .unreadable (Path.shownNames relative) cause
      | .notText => .notText (Path.shownNames relative) := by
  rw [ofFile, seen]
  cases cls : classify relative config with
  | ignored => exact absurd cls h
  | source => rfl
  | documentation => rfl

theorem ofFile_eq_of_read {fs' : FileSystem} {root' path' : Path}
    (seen : (Path.stripPrefix? root path).getD path = relative)
    (seen' : (Path.stripPrefix? root' path').getD path' = relative)
    (same : classify relative config = .ignored ∨ fs.read path = fs'.read path') :
    ofFile fs config root path = ofFile fs' config root' path' := by
  by_cases ignored : classify relative config = .ignored
  · rw [ofFile_of_ignored seen ignored, ofFile_of_ignored seen' ignored]
  · have read : fs.read path = fs'.read path' := same.resolve_left ignored
    rw [ofFile_of_class seen ignored, ofFile_of_class seen' ignored, scanFile, scanFile, read]

theorem finding?_ofFile_eq_some_iff (seen : (Path.stripPrefix? root path).getD path = relative)
    {cls : FileClass} {finding : Finding} :
    (ofFile fs config root path).finding? = some (cls, finding) ↔
      classify relative config = cls ∧ cls ≠ .ignored ∧
        ∃ text, fs.read path = .ok (Utf8.encode text) ∧
          (∃ c ∈ text, config.restricted.Restricts c) ∧
          finding = .ofText (Path.shownNames relative) config.restricted config.sampleCap text := by
  rw [← scanFile_eq_hit_iff]
  by_cases ignored : classify relative config = .ignored
  · rw [ofFile_of_ignored seen ignored, ignored]
    constructor
    · intro h
      cases h
    · rintro ⟨rfl, h, -⟩
      exact absurd rfl h
  · rw [ofFile_of_class seen ignored]
    cases scanFile fs path (Path.shownNames relative) config.restricted config.sampleCap with
    | clean => simp [finding?]
    | unreadable cause => simp [finding?]
    | notText => simp [finding?]
    | hit found =>
        simp only [finding?, Option.some.injEq, Prod.mk.injEq, FileScan.hit.injEq]
        constructor
        · rintro ⟨rfl, rfl⟩
          exact ⟨rfl, ignored, rfl⟩
        · rintro ⟨rfl, -, rfl⟩
          exact ⟨rfl, rfl⟩

/-! ## What becomes of a file -/

theorem ofFile_eq_ignored_iff (seen : (Path.stripPrefix? root path).getD path = relative) :
    ofFile fs config root path = .ignored ↔ classify relative config = .ignored := by
  constructor
  · intro passed
    by_cases ignored : classify relative config = .ignored
    · exact ignored
    · rw [ofFile_of_class seen ignored] at passed
      split at passed <;> cases passed
  · exact ofFile_of_ignored seen

theorem isSkipped_ofFile_iff (seen : (Path.stripPrefix? root path).getD path = relative) :
    (ofFile fs config root path).isSkipped = true ↔
      classify relative config ≠ .ignored ∧ fs.text? path = none := by
  by_cases ignored : classify relative config = .ignored
  · rw [ofFile_of_ignored seen ignored]
    simp [isSkipped, ignored]
  · rw [ofFile_of_class seen ignored, scanFile, FileSystem.text?]
    cases fs.read path with
    | error cause => simp [isSkipped, ignored, Except.toOption]
    | ok bytes =>
        simp only [scanBytes, Except.toOption, Option.bind_some]
        cases Utf8.decode bytes with
        | none => simp [isSkipped, ignored]
        | some text =>
            simp only
            cases scanText (Path.shownNames relative) text config.restricted config.sampleCap <;>
              simp [isSkipped]

theorem ofFile_eq_clean_iff (seen : (Path.stripPrefix? root path).getD path = relative) :
    ofFile fs config root path = .clean ↔
      classify relative config ≠ .ignored ∧
        ∃ text, fs.text? path = some text ∧ ∀ c ∈ text, ¬ config.restricted.Restricts c := by
  by_cases ignored : classify relative config = .ignored
  · rw [ofFile_of_ignored seen ignored]
    simp [ignored]
  · rw [ofFile_of_class seen ignored, scanFile, FileSystem.text?]
    cases fs.read path with
    | error cause => simp [Except.toOption]
    | ok bytes =>
        simp only [scanBytes, Except.toOption, Option.bind_some]
        cases Utf8.decode bytes with
        | none => simp
        | some text =>
            have told := @scanText_eq_none_iff (Path.shownNames relative) text config.restricted
              config.sampleCap
            simp only [ne_eq, ignored, not_false_eq_true, true_and, Option.some.injEq,
              exists_eq_left', ← told]
            cases scanText (Path.shownNames relative) text config.restricted config.sampleCap <;>
              simp

theorem length_eq_countP : ∀ inspections : List Inspection,
    inspections.length = inspections.countP (· = .ignored) + inspections.countP isScanned +
      inspections.countP isSkipped := by
  intro inspections
  induction inspections with
  | nil => rfl
  | cons i rest ih => 
      rw [List.length_cons, List.countP_cons, List.countP_cons, List.countP_cons, ih]
      cases i <;> simp [isScanned, isSkipped] <;> omega

theorem countP_isScanned : ∀ inspections : List Inspection,
    inspections.countP isScanned =
      inspections.countP (· = .clean) + (inspections.filterMap finding?).length := by
  intro inspections
  induction inspections with
  | nil => rfl
  | cons i rest ih =>
      rw [List.countP_cons, List.countP_cons, List.filterMap_cons, ih]
      cases i <;> simp [isScanned, finding?] <;> omega

end Inspection
end HiddenText
