import HiddenText.Proofs.Scan.Noninterference
import HiddenText.Proofs.Scan.Root

/-! # Where a tree stands

What a scan tells of a tree does not depend on where the tree stands, nor on how its root is spelled
(`scanTree_eq_of_sameTree`): paths are classified and shown as seen from the root, and the root's
own name is never asked for.  But the path of the place has to lead there; where it does not, which
a relative root can be, the scan fails. -/
set_option autoImplicit false

namespace HiddenText

def SameTree (fs : FileSystem) (place : Location) (fs' : FileSystem) (place' : Location) : Prop :=
  ∀ names, fs.get? (place ++ names) = fs'.get? (place' ++ names)

/-- No path of what stands at or below a location is too long to be followed. -/
def PathsFit (fs : FileSystem) (place : Location) : Prop :=
  ∀ names, fs.get? (place ++ names) ≠ none →
    (Location.path (place ++ names)).length ≤ FileSystem.pathLimit

variable {fs fs' : FileSystem} {config : Config} {root root' : Path} {place place' : Location}
  {listable searchable : Bool}

theorem SameTree.treesAgree (same : SameTree fs place fs' place') :
    TreesAgree config fs place fs' place' where
  top := by simpa using same []
  entries names _ name := by
    have there := same (names ++ [name])
    rw [← List.append_assoc, ← List.append_assoc] at there
    rw [there]
    exact .same _

theorem PathsFit.lengthsAgree (fits : PathsFit fs place) (fits' : PathsFit fs' place')
    (same : SameTree fs place fs' place') : LengthsAgree fs place place place' := by
  intro names name there
  have there' := same (names ++ [name])
  have fit := fits (names ++ [name])
  have fit' := fits' (names ++ [name])
  rw [← there'] at fit'
  simp only [List.append_assoc] at there fit fit' ⊢
  exact iff_of_false (Nat.not_lt.mpr (fit there)) (Nat.not_lt.mpr (fit' there))

/-- The same directory tree, wherever it stands and by whatever spelling of the root it is scanned,
has the same outcome, as long as links are not followed, no path is too long, and the canonical
paths of both roots lead to the tree: neither the names of the root and of its ancestors matter nor
what else there is.  If the root cannot be listed, both scans fail with that.  The canonical path of
an absolute root leads to the tree, and so does that of a relative one if the working directory's
path leads to it; where it does not, the scan takes the tree for no directory. -/
theorem scanTree_eq_of_sameTree (unfollowed : config.followLinks = false)
    (resolved : fs.canonical root = .ok place) (resolved' : fs'.canonical root' = .ok place')
    (standing : root.isAbsolute = true ∨ fs.Standing fs.workingDirectory)
    (standing' : root'.isAbsolute = true ∨ fs'.Standing fs'.workingDirectory)
    (same : SameTree fs place fs' place')
    (here : fs.get? place = some (.directory listable searchable))
    (fits : PathsFit fs place) (fits' : PathsFit fs' place') :
    (fs.Direct place → fs'.Direct place' →
      (listable = true → ∃ outcome, (scanTree fs config root).result = .ok outcome ∧
        (scanTree fs' config root').result = .ok outcome) ∧
      (listable = false →
        (scanTree fs config root).result = .error (.rootUnreadable root .permissionDenied) ∧
          (scanTree fs' config root').result =
            .error (.rootUnreadable root' .permissionDenied))) ∧
    (root.isAbsolute = true ∨ fs.Direct fs.workingDirectory → fs.Direct place) ∧
    (root'.isAbsolute = true ∨ fs'.Direct fs'.workingDirectory → fs'.Direct place') ∧
    (¬ fs.Direct place → (scanTree fs config root).result = .error (.rootNotDirectory root)) ∧
    (¬ fs'.Direct place' →
      (scanTree fs' config root').result = .error (.rootNotDirectory root')) := by
  have here' : fs'.get? place' = some (.directory listable searchable) := by
    rw [← here]
    simpa using (same []).symm
  refine ⟨?_, fun straight => FileSystem.direct_of_canonical straight resolved,
    fun straight => FileSystem.direct_of_canonical straight resolved', ?_, ?_⟩
  · intro direct direct'
    obtain ⟨found, valid⟩ := validateRoot_of_directory resolved here direct
    obtain ⟨found', valid'⟩ := validateRoot_of_directory resolved' here' direct'
    constructor
    · rintro rfl
      exact scanTree_eq_of_lengthsAgree unfollowed valid valid'
        (FileSystem.openDirectory_eq_ok_iff.mpr ⟨searchable, found⟩)
        (FileSystem.openDirectory_eq_ok_iff.mpr ⟨searchable, found'⟩)
        same.treesAgree (fits.lengthsAgree fits' same)
    · rintro rfl
      exact ⟨scanTree_of_error config valid, scanTree_of_error config valid'⟩
  · intro apart
    have known := FileSystem.known_of_canonical standing resolved
    exact scanTree_of_error config
      (validateRoot_of_not_directory resolved known fun _ _ _ => apart)
  · intro apart
    have known := FileSystem.known_of_canonical standing' resolved'
    exact scanTree_of_error config
      (validateRoot_of_not_directory resolved' known fun _ _ _ => apart)

/-! ## A tree at two places -/

theorem FileSystem.lookup_map_append (place names : Location) :
    ∀ objects : List (Location × Object),
      (objects.map fun entry => (place ++ entry.1, entry.2)).lookup (place ++ names) =
        objects.lookup names := by
  intro objects
  induction objects with
  | nil => rfl
  | cons entry rest ih =>
      rw [List.map_cons, List.lookup_cons, List.lookup_cons, ih]
      have same : (place ++ names == place ++ entry.1) = (names == entry.1) := by
        rw [Bool.eq_iff_iff, beq_iff_eq, beq_iff_eq, List.append_right_inj]
      rw [same]

theorem PathsFit.of_objects (place : Location)
    (fit : ∀ entry ∈ fs.objects, (Location.path entry.1).length ≤ FileSystem.pathLimit) :
    PathsFit fs place := by
  intro names there
  by_cases atRoot : place ++ names = []
  · rw [atRoot]
    decide
  · obtain ⟨object, found⟩ := Option.ne_none_iff_exists'.mp there
    rw [FileSystem.get?] at found
    split at found
    · rename_i listed
      exact fit _ (FileSystem.mem_of_lookup listed)
    · rw [if_neg atRoot] at found
      cases found

namespace Placed

open Walk.Sample

/-- A source file, a note in a directory, and a directory that is left out. -/
def tree : List (Location × Object) :=
  [([], .directory true true), ([leaf], .file (Utf8.encode text) true),
   ([kept], .directory true true), ([kept, leaf], .file (Utf8.encode text) true),
   ([build], .directory true true), ([build, leaf], .file (Utf8.encode text) true)]

def placed (place : Location) : List (Location × Object) :=
  tree.map fun entry => (place ++ entry.1, entry.2)

def shallow : FileSystem := { objects := placed [top] }

/-- The tree stands in a directory with an ignored name, to which a link leads. -/
def deep : FileSystem :=
  { objects := ([up], .directory true true) ::
      ([kept], .link (Utf8.encode ['u', 'p', '/', '.', '.', '/', 'u', 'p'])) ::
      placed [up, build]
    workingDirectory := [up, build] }

/-- The tree is the working directory, in a directory that cannot be searched. -/
def barred : FileSystem :=
  { objects := ([up], .directory true false) :: placed [up, build]
    workingDirectory := [up, build] }

/-- A root written with a link, a parent, and slashes and dots that mean nothing. -/
def winding : Path :=
  Utf8.encode ['/', 'k', '/', '/', 'b', 'u', 'i', 'l', 'd', '/', 'k', '/', '.', '.', '/', '.', '/']

theorem lookup_placed {front : List (Location × Object)} {place : Location}
    (apart : ∀ entry ∈ front, ¬ place <+: entry.1) (names : Location) :
    (front ++ placed place).lookup (place ++ names) = tree.lookup names := by
  have missing : front.lookup (place ++ names) = none := by
    rw [List.lookup_eq_none_iff]
    intro entry listed
    rw [bne_iff_ne]
    rintro same
    exact apart entry listed ⟨names, same⟩
  rw [List.lookup_append, missing, Option.none_or]
  exact FileSystem.lookup_map_append place names tree

theorem sameTree_placed {fs fs' : FileSystem} {place place' : Location}
    (front front' : List (Location × Object)) (all : fs.objects = front ++ placed place)
    (all' : fs'.objects = front' ++ placed place') (apart : ∀ entry ∈ front, ¬ place <+: entry.1)
    (apart' : ∀ entry ∈ front', ¬ place' <+: entry.1) : SameTree fs place fs' place' := by
  intro names
  rw [FileSystem.get?, FileSystem.get?, all, all', lookup_placed apart, lookup_placed apart']
  cases found : tree.lookup names with
  | some object => rfl
  | none =>
      have below : names ≠ [] := by
        rintro rfl
        cases found
      rw [if_neg (List.append_ne_nil_of_right_ne_nil _ below),
        if_neg (List.append_ne_nil_of_right_ne_nil _ below)]

end Placed

open Walk.Sample Placed in
/-- The tree has the same outcome in a directory with an ignored name, by a winding path or as the
working directory; but not in a directory that cannot be searched. -/
theorem scanTree_eq_of_sameTree_placed :
    Config.standard.ignores build.bytes = true ∧
      shallow.canonical (Location.path [top]) = .ok [top] ∧
      deep.canonical winding = .ok [up, build] ∧ deep.canonical Path.dot = .ok [up, build] ∧
      barred.canonical Path.dot = .ok [up, build] ∧ SameTree shallow [top] barred [up, build] ∧
      ∃ outcome, (scanTree shallow .standard (Location.path [top])).result = .ok outcome ∧
        (scanTree deep .standard winding).result = .ok outcome ∧
        (scanTree deep .standard Path.dot).result = .ok outcome ∧
        (scanTree barred .standard Path.dot).result = .error (.rootNotDirectory Path.dot) := by
  have fits : PathsFit shallow [top] := .of_objects [top] (by decide)
  have fits' : PathsFit deep [up, build] := .of_objects [up, build] (by decide)
  have fits'' : PathsFit barred [up, build] := .of_objects [up, build] (by decide)
  have unfollowed : Config.standard.followLinks = false := rfl
  have resolved : shallow.canonical (Location.path [top]) = .ok [top] := rfl
  have winds : deep.canonical winding = .ok [up, build] := rfl
  have dot : deep.canonical Path.dot = .ok [up, build] := rfl
  have dot' : barred.canonical Path.dot = .ok [up, build] := rfl
  have same : SameTree shallow [top] deep [up, build] :=
    sameTree_placed [] (deep.objects.take 2) rfl rfl (by decide) (by decide)
  have same' : SameTree shallow [top] barred [up, build] :=
    sameTree_placed [] (barred.objects.take 1) rfl rfl (by decide) (by decide)
  have above : deep.Standing ([] ++ [up]) := (FileSystem.standing_root rfl).entry rfl
  have above' : barred.Standing ([] ++ [up]) := (FileSystem.standing_root rfl).entry rfl
  obtain ⟨equal, straight, straight', -, -⟩ :=
    scanTree_eq_of_sameTree unfollowed resolved winds (.inl rfl) (.inl rfl) same rfl fits fits'
  obtain ⟨outcome, scanned, scanned'⟩ := (equal (straight (.inl rfl)) (straight' (.inl rfl))).1 rfl
  obtain ⟨equal', -, straight'', -, -⟩ := scanTree_eq_of_sameTree unfollowed resolved dot (.inl rfl)
    (.inr (above.entry rfl)) same rfl fits fits'
  have there : deep.Direct [up, build] := straight' (.inl rfl)
  obtain ⟨outcome', again, scanned''⟩ :=
    (equal' (straight (.inl rfl)) (straight'' (.inr there))).1 rfl
  obtain rfl := Except.ok.inj (scanned.symm.trans again)
  obtain ⟨-, -, -, -, refused⟩ := scanTree_eq_of_sameTree unfollowed resolved dot' (.inl rfl)
    (.inr (above'.entry rfl)) same' rfl fits fits''
  have apart : ¬ barred.Direct ([up] ++ [build]) := FileSystem.not_direct_of_unsearchable rfl
  exact ⟨by decide, resolved, winds, dot, dot', same', outcome, scanned, scanned', scanned'',
    refused apart⟩

end HiddenText
