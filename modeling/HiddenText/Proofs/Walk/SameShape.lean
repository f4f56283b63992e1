import HiddenText.Proofs.FileSystem.PathsAgree
import HiddenText.Proofs.Walk.Cursor

/-! # A walk does not look into files

What a walk meets depends on the paths, on the directories and on the links, and not on what stands
in files or who may read them: two file systems of the same shape are walked in the same way
(`ofRoot_of_sameShape`). -/
set_option autoImplicit false

namespace HiddenText

namespace FileSystem

/-- Paths lead to the same places, and the same directories may be listed.  File systems of the
same shape differ at most in what stands in files and in who may read them. -/
structure SameShape (fs fs' : FileSystem) : Prop extends PathsAgree fs fs' where
  directories : ∀ place listable searchable,
    fs.get? place = some (.directory listable searchable) ↔
      fs'.get? place = some (.directory listable searchable)

namespace SameShape

theorem of_set {fs : FileSystem} {changed : Location} {content : Bytes} {readable : Bool}
    (there : fs.get? changed = some (.file content readable)) (content' : Bytes)
    (readable' : Bool) : SameShape (fs.set changed (.file content' readable')) fs := by
  refine ⟨pathsAgree_set there (.file ..), fun place listable searchable => ?_⟩
  by_cases same : place = changed
  · rw [same, get?_set_self, there]
    exact ⟨nofun, nofun⟩
  · rw [get?_set_of_ne same]

variable {fs fs' : FileSystem} (h : SameShape fs fs')
include h

theorem stat_eq_directory_iff {path : Path} {place : Location} {listable searchable : Bool} :
    fs.stat path = .ok (place, .directory listable searchable) ↔
      fs'.stat path = .ok (place, .directory listable searchable) := by
  rw [stat, stat, object_eq_ok_iff, object_eq_ok_iff, h.locate_eq, h.directories]

theorem openDirectory_eq (path : Path) : fs.openDirectory path = fs'.openDirectory path := by
  have found := h.object_agrees true path
  simp only [openDirectory, stat]
  generalize here : fs.object true path = look at found ⊢
  generalize here' : fs'.object true path = look' at found ⊢
  cases found with
  | error same => rw [same]
  | ok found =>
      cases found with
      | mk place alike =>
          cases alike with
          | directory listable listable' searchable =>
              have same := here'.symm.trans (h.stat_eq_directory_iff.mp here)
              cases same
              rfl
          | file content content' readable readable' => rfl
          | link target => rfl
          | pipe => rfl

end SameShape
end FileSystem

namespace Walk

variable {fs fs' : FileSystem} (h : fs.SameShape fs')
include h

theorem visitLink_of_sameShape (config : Config) (ancestors : List Ancestor) (name : Name)
    (path : Path) : visitLink fs config ancestors name path =
      visitLink fs' config ancestors name path := by
  have found := h.object_agrees true path
  simp only [visitLink, FileSystem.stat, h.openDirectory_eq]
  generalize fs.object true path = look at found ⊢
  generalize fs'.object true path = look' at found ⊢
  cases found with
  | error same => rw [same]
  | ok found =>
      cases found with
      | mk place alike => cases alike <;> rfl

theorem visit_of_sameShape (config : Config) (ancestors : List Ancestor) (directory : Location)
    (name : Name) (path : Path) : visit fs config ancestors directory name path =
      visit fs' config ancestors directory name path := by
  have alike := h.alike (directory ++ [name])
  simp only [visit, visitLink_of_sameShape h, h.openDirectory_eq]
  generalize fs.get? (directory ++ [name]) = there at alike ⊢
  generalize fs'.get? (directory ++ [name]) = there' at alike ⊢
  cases alike with
  | none => rfl
  | some alike => cases alike <;> rfl

theorem below_of_sameShape (config : Config) (ancestors : List Ancestor) (place : Location)
    (path : Path) :
    below fs config ancestors place path = below fs' config ancestors place path := by
  induction ancestors, place, path using below.induct fs config with
  | case1 ancestors place path ih =>
      rw [below_eq, below_eq, h.names_eq]
      congr 1
      funext name
      have same := visit_of_sameShape h config ancestors place name (path.join name.bytes)
      rw [atEntry, atEntry, ← same]
      cases visited : visit fs config ancestors place name (path.join name.bytes) with
      | pass => rfl
      | tell event => rfl
      | enter next => exact ih name next visited

theorem ofDirectory_of_sameShape (config : Config) (root : Path) (before : List Event) :
    ofDirectory fs config root before = ofDirectory fs' config root before := by
  rw [ofDirectory, ofDirectory, h.openDirectory_eq]
  simp only [below_of_sameShape h]

theorem ofRoot_of_sameShape (config : Config) (root : Path) :
    ofRoot fs config root = ofRoot fs' config root := by
  have looked := h.object_agrees config.followLinks root
  have found := h.object_agrees true root
  simp only [ofRoot, FileSystem.stat, ofDirectory_of_sameShape h]
  generalize fs.object config.followLinks root = look at looked ⊢
  generalize fs'.object config.followLinks root = look' at looked ⊢
  cases looked with
  | error same => rw [same]
  | ok looked =>
      cases looked with
      | mk place alike =>
          cases alike with
          | file content content' readable readable' => rfl
          | directory listable listable' searchable => rfl
          | pipe => rfl
          | link target =>
              simp only
              generalize fs.object true root = reach at found ⊢
              generalize fs'.object true root = reach' at found ⊢
              cases found with
              | error same => rw [same]
              | ok found =>
                  cases found with
                  | mk place alike => cases alike <;> rfl

end Walk
end HiddenText
