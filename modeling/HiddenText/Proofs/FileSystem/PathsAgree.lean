import HiddenText.FileSystem.Edit
import HiddenText.Proofs.FileSystem.Canonical
import HiddenText.Proofs.Results

/-! # File systems in which paths lead to the same places

What stands in a file, who may read it and who may list a directory does not matter to the paths.
Two file systems that differ in nothing else have the same paths (`locate_eq`, `canonical_eq`), the
same entries in every directory, and what a path leads to differs at most in this
(`object_agrees`). -/
set_option autoImplicit false

namespace HiddenText

/-- Objects that are the same to the paths through them. -/
inductive Object.Alike : Object → Object → Prop
  | file (content content' readable readable') :
      Alike (.file content readable) (.file content' readable')
  | directory (listable listable' searchable) :
      Alike (.directory listable searchable) (.directory listable' searchable)
  | link (target) : Alike (.link target) (.link target)
  | pipe (content content' readable readable') :
      Alike (.pipe content readable) (.pipe content' readable')

theorem Object.Alike.refl : ∀ object : Object, object.Alike object
  | .file .. => .file ..
  | .directory .. => .directory ..
  | .link _ => .link _
  | .pipe .. => .pipe ..

inductive FoundAlike {α : Type} : α × Object → α × Object → Prop
  | mk (spot : α) {object object'} (alike : Object.Alike object object') :
      FoundAlike (spot, object) (spot, object')

namespace FileSystem

structure PathsAgree (fs fs' : FileSystem) : Prop where
  workingDirectory : fs.workingDirectory = fs'.workingDirectory
  alike : ∀ place, Option.Rel Object.Alike (fs.get? place) (fs'.get? place)

namespace PathsAgree

theorem refl (fs : FileSystem) : PathsAgree fs fs := by
  refine ⟨rfl, fun place => ?_⟩
  cases fs.get? place with
  | none => exact .none
  | some object => exact .some (.refl object)

variable {fs fs' : FileSystem} (h : PathsAgree fs fs')
include h

theorem names_eq (place : Location) : fs.names place = fs'.names place := by
  refine (Ascending.ofList_pairwise _).eq_of_mem_iff (Ascending.ofList_pairwise _) fun name => ?_
  show name ∈ fs.names place ↔ name ∈ fs'.names place
  rw [mem_names, mem_names]
  have alike := h.alike (place ++ [name])
  generalize fs.get? (place ++ [name]) = there at alike ⊢
  generalize fs'.get? (place ++ [name]) = there' at alike ⊢
  cases alike with
  | none => rfl
  | some alike => simp

/-! ## Where paths lead -/

theorem checkDirectory_eq (place : Location) :
    fs.checkDirectory place = fs'.checkDirectory place := by
  have alike := h.alike place
  rw [checkDirectory, checkDirectory]
  generalize fs.get? place = there at alike ⊢
  generalize fs'.get? place = there' at alike ⊢
  cases alike with
  | none => rfl
  | some alike => cases alike <;> rfl

theorem checkSearchable_eq (place : Location) :
    fs.checkSearchable place = fs'.checkSearchable place := by
  have alike := h.alike place
  rw [checkSearchable, checkSearchable]
  generalize fs.get? place = there at alike ⊢
  generalize fs'.get? place = there' at alike ⊢
  cases alike with
  | none => rfl
  | some alike => cases alike <;> rfl

theorem entry_agrees (place : Location) (segment : Bytes) :
    ResultsAgree Eq FoundAlike (fs.entry place segment) (fs'.entry place segment) := by
  rw [entry, entry]
  split
  · exact .error rfl
  · cases Name.ofBytes? segment with
    | none => exact .error rfl
    | some name =>
        have alike := h.alike (place ++ [name])
        simp only
        generalize fs.get? (place ++ [name]) = there at alike ⊢
        generalize fs'.get? (place ++ [name]) = there' at alike ⊢
        cases alike with
        | none => exact .error rfl
        | some alike => exact .ok (.mk name alike)

theorem advance_eq : ∀ (segments : List Bytes) (place : Location),
    fs.advance place segments = fs'.advance place segments := by
  intro segments
  induction segments with
  | nil => intro place; rfl
  | cons segment rest ih =>
      intro place
      rw [advance, advance, h.checkDirectory_eq, h.checkSearchable_eq]
      simp only [ih]
      have found := h.entry_agrees place segment
      generalize fs.entry place segment = entry at found ⊢
      generalize fs'.entry place segment = entry' at found ⊢
      cases found with
      | error same => rw [same]
      | ok found =>
          cases found with
          | mk name alike => cases alike <;> rfl

theorem follow_eq (final : Bool) : ∀ (links : Nat) (place : Location) (segments : List Bytes),
    fs.follow final links place segments = fs'.follow final links place segments := by
  intro links
  induction links with
  | zero =>
      intro place segments
      rw [follow, follow, h.advance_eq]
  | succ links ih =>
      intro place segments
      rw [follow, follow, h.advance_eq]
      simp only [ih]

theorem locate_eq (final : Bool) (path : Path) :
    fs.locate final path = fs'.locate final path := by
  simp only [locate, h.workingDirectory, h.follow_eq]

theorem object_agrees (final : Bool) (path : Path) :
    ResultsAgree Eq FoundAlike (fs.object final path) (fs'.object final path) := by
  rw [FileSystem.object, FileSystem.object, h.locate_eq]
  cases fs'.locate final path with
  | error cause => exact .error rfl
  | ok place =>
      have alike := h.alike place
      simp only [bind, Except.bind]
      generalize fs.get? place = there at alike ⊢
      generalize fs'.get? place = there' at alike ⊢
      cases alike with
      | none => exact .error rfl
      | some alike => exact .ok (.mk place alike)

/-! ## Canonical paths -/

theorem climb_eq : ∀ (segments : List Bytes) (place : Location),
    fs.climb place segments = fs'.climb place segments := by
  intro segments
  induction segments with
  | nil => intro place; rfl
  | cons segment rest ih =>
      intro place
      rw [climb, climb]
      simp only [ih, lstat, stat]
      -- A segment is looked at, and once more with a slash where a directory is asked for.
      have looked := h.object_agrees false (Path.join place.path segment)
      have passed := h.object_agrees true (Path.join place.path segment ++ [Path.slash])
      generalize fs.object false (Path.join place.path segment) = look at looked ⊢
      generalize fs'.object false (Path.join place.path segment) = look' at looked ⊢
      generalize fs.object true (Path.join place.path segment ++ [Path.slash]) = pass at passed ⊢
      generalize fs'.object true (Path.join place.path segment ++ [Path.slash]) = pass' at passed ⊢
      cases looked with
      | error same => rw [same]
      | ok found =>
          cases found with
          | mk spot alike =>
              cases passed with
              | error same => cases alike <;> simp [same]
              | ok found => cases alike <;> rfl

theorem canonicalFrom_eq : ∀ (links : Nat) (place : Location) (segments : List Bytes),
    fs.canonicalFrom links place segments = fs'.canonicalFrom links place segments := by
  intro links
  induction links with
  | zero =>
      intro place segments
      rw [canonicalFrom, canonicalFrom, h.climb_eq]
  | succ links ih =>
      intro place segments
      rw [canonicalFrom, canonicalFrom, h.climb_eq]
      simp only [ih]

theorem canonical_eq (path : Path) : fs.canonical path = fs'.canonical path := by
  simp only [canonical, h.workingDirectory, h.canonicalFrom_eq]

end PathsAgree

/-! ## Replacing one object -/

variable {fs : FileSystem} {place changed : Location}

theorem lookup_filter_of_ne (different : place ≠ changed) :
    ∀ objects : List (Location × Object),
      (objects.filter (·.1 ≠ changed)).lookup place = objects.lookup place := by
  intro objects
  induction objects with
  | nil => rfl
  | cons entry rest ih =>
      by_cases removed : entry.1 = changed
      · have apart : (place == entry.1) = false := by
          rw [removed]
          exact beq_false_of_ne different
        rw [List.filter_cons_of_neg (by simp [removed]), ih, List.lookup_cons, apart]
      · rw [List.filter_cons_of_pos (by simp [removed]), List.lookup_cons, List.lookup_cons, ih]

theorem get?_set_self (object : Object) : (fs.set changed object).get? changed = some object := by
  rw [get?, set, List.lookup_cons_self]

theorem get?_set_of_ne (different : place ≠ changed) (object : Object) :
    (fs.set changed object).get? place = fs.get? place := by
  have apart : (place == changed) = false := beq_false_of_ne different
  rw [get?, get?, set, List.lookup_cons, apart, lookup_filter_of_ne different]

theorem pathsAgree_set {object object' : Object} (there : fs.get? changed = some object)
    (alike : object'.Alike object) : PathsAgree (fs.set changed object') fs := by
  refine ⟨rfl, fun place => ?_⟩
  by_cases same : place = changed
  · rw [same, get?_set_self, there]
    exact .some alike
  · rw [get?_set_of_ne same]
    exact (PathsAgree.refl fs).alike place

end FileSystem
end HiddenText
