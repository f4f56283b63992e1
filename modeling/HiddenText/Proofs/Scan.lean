import HiddenText.Proofs.Inspection
import HiddenText.Proofs.Outcome.Order
import HiddenText.Proofs.Walk.Route
import HiddenText.Scan

/-! # What a scan returns

A root that passes the check is walked without an error at the root, and the outcome collects the
inspections of the files that the walk comes upon. -/
set_option autoImplicit false

namespace HiddenText

variable {fs : FileSystem} {config : Config} {root canonical : Path}

theorem validateRoot_eq_ok_iff :
    validateRoot fs root = .ok canonical ↔
      ∃ place, fs.canonical root = .ok place ∧ canonical = place.path ∧
        ∃ start, fs.openDirectory canonical = .ok start := by
  rw [validateRoot]
  cases fs.canonical root with
  | error cause => simp
  | ok place =>
      simp only [Except.ok.injEq, exists_eq_left']
      cases opened : fs.openDirectory place.path with
      | error cause =>
          constructor
          · intro h
            split at h <;> cases h
          · rintro ⟨rfl, start, isOpen⟩
            rw [opened] at isOpen
            cases isOpen
      | ok start =>
          obtain ⟨searchable, found⟩ := FileSystem.openDirectory_eq_ok_iff.mp opened
          rw [found]
          simp only [Except.ok.injEq]
          constructor
          · rintro rfl
            exact ⟨rfl, start, opened⟩
          · rintro ⟨rfl, -⟩
            rfl

theorem filterMap_inspection? (events : List Walk.Event) :
    (events.map (ScanStep.ofEvent fs config canonical)).filterMap ScanStep.inspection? =
      (events.filterMap Walk.Event.file?).map (Inspection.ofFile fs config canonical) := by
  rw [List.filterMap_map, List.map_filterMap]
  congr 1
  funext event
  simp only [Function.comp, ScanStep.ofEvent]
  cases event.file? with
  | none => rfl
  | some path => rfl

theorem scanAlong_of_validateRoot {walkOf : Path → Walk} (config : Config)
    (h : validateRoot fs root = .ok canonical) (sound : (walkOf canonical).rootError = none) :
    (scanAlong walkOf fs config root).result =
      .ok (.collect ((walkOf canonical).files.map (Inspection.ofFile fs config canonical))
        (walkOf canonical).errors) := by
  rw [scanAlong, h]
  simp only [sound, filterMap_inspection?]
  rfl

theorem scanTree_of_error {e : ScanError} (config : Config) (h : validateRoot fs root = .error e) :
    (scanTree fs config root).result = .error e := by
  rw [scanTree, scanAlong, h]

theorem rootError_of_validateRoot (config : Config) (h : validateRoot fs root = .ok canonical) :
    (Walk.ofRoot fs config canonical).rootError = none := by
  obtain ⟨place, -, -, start, opened⟩ := validateRoot_eq_ok_iff.mp h
  obtain ⟨before, -, all⟩ := Walk.ofRoot_of_openDirectory config opened
  rw [all]

theorem scanTree_of_validateRoot (config : Config) (h : validateRoot fs root = .ok canonical) :
    (scanTree fs config root).result =
      .ok (.collect ((Walk.ofRoot fs config canonical).files.map
        (Inspection.ofFile fs config canonical)) (Walk.ofRoot fs config canonical).errors) :=
  scanAlong_of_validateRoot config h (rootError_of_validateRoot config h)

theorem scanTree_result_eq_error_iff {e : ScanError} :
    (scanTree fs config root).result = .error e ↔ validateRoot fs root = .error e := by
  cases h : validateRoot fs root with
  | error e' => rw [scanTree_of_error config h, Except.error.injEq, Except.error.injEq]
  | ok canonical =>
      rw [scanTree_of_validateRoot config h]
      simp

theorem scanTree_result_eq_ok_iff {outcome : Outcome} :
    (scanTree fs config root).result = .ok outcome ↔
      ∃ canonical, validateRoot fs root = .ok canonical ∧
        outcome = .collect ((Walk.ofRoot fs config canonical).files.map
          (Inspection.ofFile fs config canonical)) (Walk.ofRoot fs config canonical).errors := by
  cases h : validateRoot fs root with
  | error e =>
      rw [scanTree_of_error config h]
      simp
  | ok canonical =>
      rw [scanTree_of_validateRoot config h]
      simp [eq_comm]

end HiddenText
