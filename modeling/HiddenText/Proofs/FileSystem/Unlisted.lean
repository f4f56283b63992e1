import HiddenText.Proofs.FileSystem.PathsAgree

/-! # Taking away the permission to list a directory

Paths are followed without listing anything.  So without the permission to list a directory every
path leads where it led (`locate_unlist`, `canonical_unlist`), the directory has the same entries,
and only opening it fails. -/
set_option autoImplicit false

namespace HiddenText.FileSystem

/-- The file system without the permission to list a directory. -/
def unlist (fs : FileSystem) (directory : Location) : FileSystem :=
  match fs.get? directory with
  | some (.directory _ searchable) => fs.set directory (.directory false searchable)
  | _ => fs

variable {fs : FileSystem} {directory place : Location} {path : Path}

/-! ## What stands where -/

theorem get?_unlist_of_ne (different : place ≠ directory) :
    (fs.unlist directory).get? place = fs.get? place := by
  rw [unlist]
  split
  · exact get?_set_of_ne different _
  · rfl

theorem get?_unlist_self {listable searchable : Bool}
    (here : fs.get? directory = some (.directory listable searchable)) :
    (fs.unlist directory).get? directory = some (.directory false searchable) := by
  rw [unlist, here]
  exact get?_set_self _

theorem get?_unlist (fs : FileSystem) (directory place : Location) :
    (fs.unlist directory).get? place = fs.get? place ∨ ∃ listable searchable,
      place = directory ∧ fs.get? place = some (.directory listable searchable) ∧
        (fs.unlist directory).get? place = some (.directory false searchable) := by
  by_cases same : place = directory
  · subst same
    cases here : fs.get? place with
    | none => exact .inl (by rw [unlist, here]; exact here)
    | some object =>
        cases object with
        | directory listable searchable =>
            exact .inr ⟨listable, searchable, rfl, rfl, get?_unlist_self here⟩
        | file content readable => exact .inl (by rw [unlist, here]; exact here)
        | link target => exact .inl (by rw [unlist, here]; exact here)
        | pipe => exact .inl (by rw [unlist, here]; exact here)
  · exact .inl (get?_unlist_of_ne same)

/-! ## Where paths lead -/

theorem pathsAgree_unlist (fs : FileSystem) (directory : Location) :
    PathsAgree (fs.unlist directory) fs := by
  rw [unlist]
  split
  · rename_i there
    exact pathsAgree_set there (.directory ..)
  · exact .refl fs

theorem names_unlist (fs : FileSystem) (directory place : Location) :
    (fs.unlist directory).names place = fs.names place :=
  (pathsAgree_unlist fs directory).names_eq place

theorem locate_unlist (fs : FileSystem) (directory : Location) (final : Bool) (path : Path) :
    (fs.unlist directory).locate final path = fs.locate final path :=
  (pathsAgree_unlist fs directory).locate_eq final path

/-- What a path leads to, it leads to still; at most a directory may not be listed any more. -/
theorem object_unlist (fs : FileSystem) (directory : Location) (final : Bool) (path : Path) :
    (fs.unlist directory).object final path = fs.object final path ∨ ∃ listable searchable,
      fs.object final path = .ok (directory, .directory listable searchable) ∧
        (fs.unlist directory).object final path =
          .ok (directory, .directory false searchable) := by
  simp only [FileSystem.object, locate_unlist, bind, Except.bind]
  cases fs.locate final path with
  | error cause => exact .inl rfl
  | ok place =>
      simp only
      rcases get?_unlist fs directory place with same | ⟨l, s, rfl, there, there'⟩
      · rw [same]
        exact .inl rfl
      · rw [there, there']
        exact .inr ⟨l, s, rfl, rfl⟩

theorem stat_unlist_of_ne {object : Object} (different : place ≠ directory)
    (here : fs.stat path = .ok (place, object)) :
    (fs.unlist directory).stat path = .ok (place, object) := by
  rcases object_unlist fs directory true path with same | ⟨_, _, found, -⟩
  · exact same.trans here
  · cases here.symm.trans found
    exact absurd rfl different

theorem openDirectory_unlist_of_ne (different : place ≠ directory)
    (opened : fs.openDirectory path = .ok place) :
    (fs.unlist directory).openDirectory path = .ok place := by
  obtain ⟨searchable, found⟩ := openDirectory_eq_ok_iff.mp opened
  exact openDirectory_eq_ok_iff.mpr ⟨searchable, stat_unlist_of_ne different found⟩

theorem openDirectory_unlist_self (opened : fs.openDirectory path = .ok directory) :
    (fs.unlist directory).openDirectory path = .error .permissionDenied := by
  obtain ⟨searchable, found⟩ := openDirectory_eq_ok_iff.mp opened
  obtain ⟨located, there⟩ := object_eq_ok_iff.mp found
  have found' : (fs.unlist directory).stat path = .ok (directory, .directory false searchable) :=
    object_eq_ok_iff.mpr ⟨(locate_unlist ..).trans located, get?_unlist_self there⟩
  rw [openDirectory, found']
  rfl

theorem read_unlist (other : ∀ place listable searchable,
      fs.stat path ≠ .ok (place, .directory listable searchable)) :
    (fs.unlist directory).read path = fs.read path := by
  have same : (fs.unlist directory).stat path = fs.stat path := by
    rcases object_unlist fs directory true path with same | ⟨listable, searchable, found, -⟩
    · exact same
    · exact absurd found (other directory listable searchable)
  rw [read, read, same]

theorem canonical_unlist (fs : FileSystem) (directory : Location) (path : Path) :
    (fs.unlist directory).canonical path = fs.canonical path :=
  (pathsAgree_unlist fs directory).canonical_eq path

end HiddenText.FileSystem
