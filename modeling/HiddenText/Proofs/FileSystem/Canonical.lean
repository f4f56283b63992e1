import HiddenText.FileSystem
import HiddenText.Proofs.FileSystem.Lookup
import HiddenText.Proofs.Path.Descent
import Mathlib.Data.List.Induction

/-! # Where a canonical path leads

A path leads straight to its location if every directory on the way can be searched and no link is
met (`Direct`).  The way to a canonical path looks at each of its names in turn, and it could not
have gone on otherwise; only the directories above the working directory are never looked at, and
nobody asks whether they can be searched (`known_of_canonical`).  So a canonical path leads to a
directory at its location exactly if it leads there straight (`stat_eq_directory_iff`). -/
set_option autoImplicit false

namespace HiddenText.FileSystem

/-- A directory may be searched, and an object stands in it under a name that may be asked for. -/
structure Enters (fs : FileSystem) (place : Location) (name : Name) (object : Object) : Prop where
  searchable : ∃ listable, fs.get? place = some (.directory listable true)
  found : fs.get? (place ++ [name]) = some object
  short : name.bytes.length ≤ nameLimit

/-- Names lead from the root directory to a location, and no link is among them. -/
inductive Direct (fs : FileSystem) : Location → Prop
  | root : Direct fs []
  | entry {place name object} (direct : Direct fs place) (enters : Enters fs place name object)
      (plain : ∀ target, object ≠ .link target)
      (fits : (Location.path (place ++ [name])).length ≤ pathLimit) :
      Direct fs (place ++ [name])

/-- A directory stands at the location and at each above it, as they do where a process is. -/
def Standing (fs : FileSystem) (place : Location) : Prop :=
  ∀ above, above <+: place → ∃ listable searchable,
    fs.get? above = some (.directory listable searchable)

variable {fs : FileSystem} {place : Location} {name : Name}

theorem Direct.dropLast (h : Direct fs place) : Direct fs place.dropLast := by
  cases h with
  | root => exact .root
  | entry direct enters plain fits =>
      rw [List.dropLast_concat]
      exact direct

theorem Direct.searchable_above (h : Direct fs (place ++ [name])) :
    ∃ listable, fs.get? place = some (.directory listable true) := by
  generalize whole : place ++ [name] = below at h
  cases h with
  | root => exact absurd whole (List.concat_ne_nil _ _)
  | entry direct enters plain fits =>
      obtain ⟨rfl, -⟩ := List.append_inj' whole rfl
      exact enters.searchable

theorem not_direct_of_unsearchable {listable : Bool}
    (barred : fs.get? place = some (.directory listable false)) : ¬ Direct fs (place ++ [name]) := by
  intro direct
  obtain ⟨_, searchable⟩ := direct.searchable_above
  rw [barred] at searchable
  cases searchable

/-! ## Following the names of a location -/

theorem checkSearchable_eq_ok_iff :
    fs.checkSearchable place = .ok () ↔
      ∃ listable, fs.get? place = some (.directory listable true) := by
  rw [checkSearchable]
  cases fs.get? place with
  | none => simp
  | some object =>
      cases object with
      | directory listable searchable => cases searchable <;> simp
      | file content readable => simp
      | link target => simp
      | pipe => simp

theorem entry_bytes_eq_ok_iff {found : Name × Object} :
    fs.entry place name.bytes = .ok found ↔
      found.1 = name ∧ fs.get? (place ++ [name]) = some found.2 ∧
        name.bytes.length ≤ nameLimit := by
  have known : Name.ofBytes? name.bytes = some name := dif_pos name.isEntryName
  obtain ⟨name', object⟩ := found
  rw [entry]
  by_cases long : nameLimit < name.bytes.length
  · rw [if_pos long]
    simp only [reduceCtorEq, false_iff, not_and]
    omega
  · rw [if_neg long, known]
    simp only
    cases fs.get? (place ++ [name]) with
    | none => simp
    | some object =>
        simp only [Except.ok.injEq, Prod.mk.injEq, Option.some.injEq, Nat.not_lt.mp long,
          and_true, eq_comm]

theorem Enters.advance {object : Object} (h : Enters fs place name object) (rest : List Bytes) :
    fs.advance place (name.bytes :: rest) = match object with
      | .link target => .ok (.atLink place name target rest)
      | _ => fs.advance (place ++ [name]) rest := by
  obtain ⟨nonempty, notDot, notDotDot, -⟩ := name.isEntryName
  have passes : fs.checkSearchable place = .ok () := checkSearchable_eq_ok_iff.mpr h.searchable
  have known : fs.entry place name.bytes = .ok (name, object) :=
    entry_bytes_eq_ok_iff.mpr ⟨rfl, h.found, h.short⟩
  rw [FileSystem.advance, if_neg nonempty, passes, if_neg notDot, if_neg notDotDot, known]
  cases object <;> rfl

theorem exists_enters_of_advance {rest : List Bytes} {progress : Progress}
    (h : fs.advance place (name.bytes :: rest) = .ok progress) :
    ∃ object, Enters fs place name object := by
  obtain ⟨nonempty, notDot, notDotDot, -⟩ := name.isEntryName
  rw [advance, if_neg nonempty, if_neg notDot, if_neg notDotDot] at h
  obtain ⟨_, passes, h⟩ := bind_eq_ok_iff.mp h
  obtain ⟨found, known, -⟩ := bind_eq_ok_iff.mp h
  obtain ⟨-, there, short⟩ := entry_bytes_eq_ok_iff.mp known
  exact ⟨found.2, checkSearchable_eq_ok_iff.mp passes, there, short⟩

/-- Nothing stops a path on its way along a direct location. -/
theorem Direct.advance (h : Direct fs place) : ∀ rest : List Bytes,
    fs.advance [] (place.map Name.bytes ++ rest) = fs.advance place rest := by
  induction h with
  | root => intro rest; rfl
  | @entry place name object direct enters plain fits ih =>
      intro rest
      rw [List.map_append, List.append_assoc, List.map_singleton, List.singleton_append, ih,
        enters.advance]
      cases object with
      | link target => exact absurd rfl (plain target)
      | file content readable => rfl
      | directory listable searchable => rfl
      | pipe => rfl

theorem follow_of_advance {links : Nat} {start : Location} {segments : List Bytes}
    (reached : fs.advance start segments = fs.advance place [name.bytes]) {object : Object}
    (enters : Enters fs place name object) :
    fs.follow false links start segments = .ok (place ++ [name]) := by
  rw [enters.advance] at reached
  cases links with
  | zero =>
      rw [follow, reached]
      cases object <;> rfl
  | succ links =>
      rw [follow, reached]
      cases object <;> rfl

theorem exists_advance_of_follow {final : Bool} {links : Nat} {start found : Location}
    {segments : List Bytes} (h : fs.follow final links start segments = .ok found) :
    ∃ progress, fs.advance start segments = .ok progress := by
  cases reached : fs.advance start segments with
  | ok progress => exact ⟨progress, rfl⟩
  | error cause =>
      cases links with
      | zero =>
          rw [follow, reached] at h
          cases h
      | succ links =>
          rw [follow, reached] at h
          cases h

theorem Direct.follow_eq_ok_iff (h : Direct fs place) (links : Nat) {found : Location} :
    fs.follow false links [] (place.map Name.bytes ++ [name.bytes]) = .ok found ↔
      found = place ++ [name] ∧ ∃ object, Enters fs place name object := by
  have same : fs.advance [] (place.map Name.bytes ++ [name.bytes]) =
      fs.advance place [name.bytes] := h.advance [name.bytes]
  constructor
  · intro followed
    obtain ⟨progress, reached⟩ := exists_advance_of_follow followed
    obtain ⟨object, enters⟩ := exists_enters_of_advance (same.symm.trans reached)
    rw [follow_of_advance same enters] at followed
    exact ⟨(Except.ok.inj followed).symm, object, enters⟩
  · rintro ⟨rfl, object, enters⟩
    exact follow_of_advance same enters

theorem zero_notMem_path (place : Location) : (0 : UInt8) ∉ place.path := by
  rw [Location.path]
  split
  · decide
  · intro known
    obtain ⟨name, -, inside⟩ := List.mem_flatMap.mp known
    rcases List.mem_cons.mp inside with slash | inside
    · cases slash
    · exact name.isEntryName.2.2.2.2 inside

theorem path_ne_nil (place : Location) : place.path ≠ [] := by
  rw [Location.path]
  split
  · exact List.cons_ne_nil _ _
  · rename_i nonempty
    cases place with
    | nil => exact absurd rfl nonempty
    | cons name place => exact List.cons_ne_nil _ _

theorem locate_path (final : Bool) (place : Location) (name : Name) :
    fs.locate final (Location.path (place ++ [name])) =
      if pathLimit < (Location.path (place ++ [name])).length then .error .nameTooLong
      else fs.follow final linkLimit [] (place.map Name.bytes ++ [name.bytes]) := by
  have nonempty : place ++ [name] ≠ [] := List.concat_ne_nil _ _
  have start : startOf fs.workingDirectory (Location.path (place ++ [name])) =
      ([], place.map Name.bytes ++ [name.bytes]) := by
    rw [startOf, Location.path_of_ne_nil nonempty]
    cases place with
    | nil => rw [List.nil_append, Path.segments_below]; rfl
    | cons first place =>
        rw [List.cons_append, Path.segments_below, List.map_cons, List.map_append]
        rfl
  rw [locate, if_neg (path_ne_nil _), if_neg (zero_notMem_path _), start]

theorem object_eq_ok_iff {final : Bool} {path : Path} {found : Location} {object : Object} :
    fs.object final path = .ok (found, object) ↔
      fs.locate final path = .ok found ∧ fs.get? found = some object := by
  rw [FileSystem.object, bind_eq_ok_iff]
  constructor
  · rintro ⟨place, located, reached⟩
    split at reached
    · rename_i there
      cases reached
      exact ⟨located, there⟩
    · cases reached
  · rintro ⟨located, there⟩
    refine ⟨found, located, ?_⟩
    rw [there]

theorem Direct.lstat_eq_ok_iff (h : Direct fs place) {found : Location} {object : Object} :
    fs.lstat (Location.path (place ++ [name])) = .ok (found, object) ↔
      found = place ++ [name] ∧ Enters fs place name object ∧
        (Location.path (place ++ [name])).length ≤ pathLimit := by
  rw [lstat, object_eq_ok_iff, locate_path]
  by_cases long : pathLimit < (Location.path (place ++ [name])).length
  · rw [if_pos long]
    simp only [reduceCtorEq, false_and, false_iff, not_and]
    omega
  · rw [if_neg long, h.follow_eq_ok_iff]
    constructor
    · rintro ⟨⟨rfl, object', enters⟩, there⟩
      rw [enters.found] at there
      cases there
      exact ⟨rfl, enters, Nat.not_lt.mp long⟩
    · rintro ⟨rfl, enters, -⟩
      exact ⟨⟨rfl, object, enters⟩, enters.found⟩

/-! ## Straight to a standing location -/

theorem length_path_le (place : Location) (name : Name) :
    place.path.length ≤ (Location.path (place ++ [name])).length := by
  rw [← Location.join_path, Path.join_eq, List.append_assoc, List.length_append]
  exact Nat.le_add_right _ _

theorem standing_root {listable searchable : Bool}
    (here : fs.get? [] = some (.directory listable searchable)) : Standing fs [] := by
  intro above higher
  rw [List.prefix_nil.mp higher]
  exact ⟨_, _, here⟩

theorem Standing.entry (h : Standing fs place) {listable searchable : Bool}
    (here : fs.get? (place ++ [name]) = some (.directory listable searchable)) :
    Standing fs (place ++ [name]) := by
  intro above higher
  rcases List.prefix_concat_iff.mp higher with rfl | higher
  · exact ⟨_, _, here⟩
  · exact h above higher

theorem Standing.dropLast (h : Standing fs place) : Standing fs place.dropLast :=
  fun above higher => h above (higher.trans (List.dropLast_prefix place))

/-- What goes along a standing location meets no link there, so it has gone straight. -/
theorem Standing.direct_of_advance (h : Standing fs place) (fits : place.path.length ≤ pathLimit)
    {rest : List Bytes} {progress : Progress}
    (advanced : fs.advance [] (place.map Name.bytes ++ rest) = .ok progress) : Direct fs place := by
  induction place using List.reverseRecOn generalizing rest with
  | nil => exact .root
  | append_singleton place name ih =>
      rw [List.map_append, List.append_assoc, List.map_singleton, List.singleton_append] at advanced
      have above : Standing fs place := by simpa using h.dropLast
      have direct : Direct fs place := ih above ((length_path_le place name).trans fits) advanced
      rw [direct.advance] at advanced
      obtain ⟨object, enters⟩ := exists_enters_of_advance advanced
      refine .entry direct enters ?_ fits
      rintro target rfl
      obtain ⟨listable, searchable, directory⟩ := h _ (List.prefix_refl _)
      rw [enters.found] at directory
      cases directory

theorem Standing.direct_of_lstat (h : Standing fs place) {found : Location × Object}
    (looked : fs.lstat (Location.path (place ++ [name])) = .ok found) : Direct fs place := by
  obtain ⟨located, -⟩ := object_eq_ok_iff.mp looked
  rw [locate_path] at located
  split at located
  · cases located
  · rename_i short
    obtain ⟨progress, advanced⟩ := exists_advance_of_follow located
    exact h.direct_of_advance ((length_path_le place name).trans (Nat.not_lt.mp short)) advanced

theorem Standing.direct_of_stat (h : Standing fs place) {found : Location × Object}
    (led : fs.stat place.path = .ok found) : Direct fs place := by
  rcases List.eq_nil_or_concat place with rfl | ⟨front, name, rfl⟩
  · exact .root
  · rw [List.concat_eq_append] at h led ⊢
    obtain ⟨located, -⟩ := object_eq_ok_iff.mp led
    rw [locate_path] at located
    split at located
    · cases located
    · rename_i short
      obtain ⟨progress, advanced⟩ := exists_advance_of_follow located
      have whole : fs.advance [] ((front ++ [name]).map Name.bytes ++ []) = .ok progress := by
        rwa [List.append_nil, List.map_append]
      exact h.direct_of_advance (Nat.not_lt.mp short) whole

/-! ## What stands at a direct location -/

theorem locate_root (fs : FileSystem) :
    fs.locate true (Location.path []) = (fs.checkDirectory []).map fun _ => [] := by
  have short : ¬ pathLimit < (Location.path []).length := by decide
  have start : startOf fs.workingDirectory (Location.path []) = ([], [[]]) := rfl
  rw [locate, if_neg (path_ne_nil _), if_neg (zero_notMem_path _), if_neg short, start]
  show fs.follow true linkLimit [] [[]] = _
  rw [linkLimit, follow, advance, if_pos rfl]
  cases fs.checkDirectory [] <;> rfl

theorem stat_root_eq_directory_iff {found : Location} {listable searchable : Bool} :
    fs.stat (Location.path []) = .ok (found, .directory listable searchable) ↔
      found = [] ∧ fs.get? [] = some (.directory listable searchable) := by
  rw [stat, object_eq_ok_iff, locate_root]
  constructor
  · rintro ⟨located, there⟩
    have atRoot : found = [] := by
      cases passes : fs.checkDirectory [] with
      | error cause =>
          rw [passes] at located
          cases located
      | ok done =>
          rw [passes] at located
          cases located
          rfl
    rw [atRoot] at there
    exact ⟨atRoot, there⟩
  · rintro ⟨rfl, there⟩
    refine ⟨?_, there⟩
    rw [checkDirectory, there]
    rfl

theorem Direct.stat_eq_directory_iff (h : Direct fs place) {found : Location}
    {listable searchable : Bool} :
    fs.stat place.path = .ok (found, .directory listable searchable) ↔
      found = place ∧ fs.get? place = some (.directory listable searchable) := by
  cases h with
  | root => exact stat_root_eq_directory_iff
  | @entry place name object direct enters plain fits =>
      have looked : fs.lstat (Location.path (place ++ [name])) = .ok (place ++ [name], object) :=
        direct.lstat_eq_ok_iff.mpr ⟨rfl, enters, fits⟩
      rw [stat, object_of_lstat looked plain true, enters.found]
      simp only [Except.ok.injEq, Prod.mk.injEq, Option.some.injEq, eq_comm]

/-- A canonical path leads to a directory at its location exactly if it leads there straight. -/
theorem stat_eq_directory_iff (known : Direct fs place ∨ Standing fs place) {found : Location}
    {listable searchable : Bool} :
    fs.stat place.path = .ok (found, .directory listable searchable) ↔
      Direct fs place ∧ found = place ∧ fs.get? place = some (.directory listable searchable) := by
  constructor
  · intro led
    have direct : Direct fs place := known.elim id fun standing => standing.direct_of_stat led
    exact ⟨direct, direct.stat_eq_directory_iff.mp led⟩
  · rintro ⟨direct, there⟩
    exact direct.stat_eq_directory_iff.mpr there

/-! ## Canonical paths -/

/-- What is known of every location that a canonical path comes through.  It stays true above the
location, and what stands below can only be looked at if the way to the location is straight. -/
structure IsKept (fs : FileSystem) (known : Location → Prop) : Prop where
  of_direct : ∀ {place}, Direct fs place → known place
  dropLast : ∀ {place}, known place → known place.dropLast
  direct_of_lstat : ∀ {place name found}, known place →
    fs.lstat (Location.path (place ++ [name])) = .ok found → Direct fs place

theorem isKept_direct (fs : FileSystem) : IsKept fs (Direct fs) where
  of_direct := id
  dropLast := Direct.dropLast
  direct_of_lstat direct _ := direct

theorem isKept_known (fs : FileSystem) :
    IsKept fs fun place => Direct fs place ∨ Standing fs place where
  of_direct := .inl
  dropLast := Or.imp Direct.dropLast Standing.dropLast
  direct_of_lstat known looked := known.elim id fun standing => standing.direct_of_lstat looked

variable {known : Location → Prop}

theorem known_startOf (kept : IsKept fs known) {base : Location} (path : Path)
    (start : path.isAbsolute = true ∨ known base) :
    known (startOf base path).1 ∧ ∀ s ∈ (startOf base path).2, Path.slash ∉ s := by
  have noSlash : ∀ s ∈ Path.segments path, Path.slash ∉ s := Path.slash_notMem_segments path
  rw [startOf]
  split
  · rename_i second more split
    rw [split] at noSlash
    exact ⟨kept.of_direct .root, fun s known => noSlash s (List.mem_cons_of_mem _ known)⟩
  · rename_i relative
    refine ⟨?_, noSlash⟩
    rcases start with absolute | known
    · obtain ⟨second, more, split⟩ := Path.segments_of_isAbsolute absolute
      exact absurd split (relative second more)
    · exact known

def Progress.Sound (known : Location → Prop) : Progress → Prop
  | .arrived place => known place
  | .atLink directory _ _ rest => known directory ∧ ∀ s ∈ rest, Path.slash ∉ s

theorem exists_name_of_lstat {segment : Bytes} {found : Location × Object}
    (nonempty : ¬ (segment = [] ∨ segment = Path.dot)) (notDotDot : segment ≠ Path.dotDot)
    (noSlash : Path.slash ∉ segment)
    (h : fs.lstat (Path.join place.path segment) = .ok found) :
    ∃ name : Name, name.bytes = segment := by
  have noZero : (0 : UInt8) ∉ segment := by
    intro known
    have within : (0 : UInt8) ∈ Path.join place.path segment := by
      rw [Path.join_eq]
      exact List.mem_append_right _ known
    have filled : Path.join place.path segment ≠ [] := List.ne_nil_of_mem within
    have closed : fs.lstat (Path.join place.path segment) = .error .nulInPath := by
      rw [lstat, FileSystem.object, locate, if_neg filled, if_pos within]
      rfl
    rw [closed] at h
    cases h
  rw [not_or] at nonempty
  exact ⟨⟨segment, nonempty.1, nonempty.2, notDotDot, noSlash, noZero⟩, rfl⟩

/-- One segment on, the climb goes on from a known location, or it has stopped at a link here. -/
theorem climb_cons (kept : IsKept fs known) (here : known place) {segment : Bytes}
    {rest : List Bytes} {progress : Progress} (noSlash : Path.slash ∉ segment)
    (h : fs.climb place (segment :: rest) = .ok progress) :
    (∃ next, known next ∧ fs.climb next rest = .ok progress) ∨
      ∃ name target, progress = .atLink place name target rest := by
  rw [climb] at h
  split at h
  · exact .inl ⟨place, here, h⟩
  · rename_i nonempty
    split at h
    · exact .inl ⟨place.dropLast, kept.dropLast here, h⟩
    · rename_i notDotDot
      simp only at h
      split at h
      · cases h
      · rename_i found target looked
        obtain ⟨name, rfl⟩ := exists_name_of_lstat nonempty notDotDot noSlash looked
        rw [Location.join_path] at looked
        obtain ⟨rfl, -, -⟩ := (kept.direct_of_lstat here looked).lstat_eq_ok_iff.mp looked
        rw [List.getLast?_concat] at h
        cases h
        exact .inr ⟨name, target, rfl⟩
      · rename_i found object plain looked
        obtain ⟨name, rfl⟩ := exists_name_of_lstat nonempty notDotDot noSlash looked
        rw [Location.join_path] at looked
        have direct := kept.direct_of_lstat here looked
        obtain ⟨rfl, enters, fits⟩ := direct.lstat_eq_ok_iff.mp looked
        have further : known (place ++ [name]) := kept.of_direct <|
          .entry direct enters (fun target same => plain target (by rw [same])) fits
        split at h
        · split at h
          · cases h
          · exact .inl ⟨_, further, h⟩
        · exact .inl ⟨_, further, h⟩

theorem climb_sound (kept : IsKept fs known) {progress : Progress} : ∀ (segments : List Bytes)
    {place : Location}, known place → (∀ s ∈ segments, Path.slash ∉ s) →
      fs.climb place segments = .ok progress → progress.Sound known := by
  intro segments
  induction segments with
  | nil =>
      intro place here noSlash h
      cases h
      exact here
  | cons segment rest ih =>
      intro place here noSlash h
      have noSlashLater : ∀ s ∈ rest, Path.slash ∉ s :=
        fun s known => noSlash s (List.mem_cons_of_mem _ known)
      rcases climb_cons kept here (noSlash segment (List.mem_cons_self ..)) h with
        ⟨next, further, h⟩ | ⟨name, target, rfl⟩
      · exact ih further noSlashLater h
      · exact ⟨here, noSlashLater⟩

theorem canonicalFrom_sound (kept : IsKept fs known) {links : Nat} {start : Location}
    {segments : List Bytes} (here : known start) (noSlash : ∀ s ∈ segments, Path.slash ∉ s)
    (h : fs.canonicalFrom links start segments = .ok place) : known place := by
  fun_induction fs.canonicalFrom links start segments with
  | case1 links start segments cause climbed =>
      cases h
  | case2 links start segments arrived climbed =>
      cases h
      exact climb_sound kept segments here noSlash climbed
  | case3 start segments directory name target rest climbed =>
      cases h
  | case4 start segments directory name target rest climbed links next behind started ih =>
      obtain ⟨back, noSlashRest⟩ := climb_sound kept segments here noSlash climbed
      obtain ⟨again, noSlashTarget⟩ := known_startOf kept target (Or.inr back)
      rw [started] at again noSlashTarget
      refine ih again ?_ h
      intro s known
      rcases List.mem_append.mp known with known | known
      · exact noSlashTarget s known
      · exact noSlashRest s known

theorem canonical_sound (kept : IsKept fs known) {path : Path}
    (start : path.isAbsolute = true ∨ known fs.workingDirectory)
    (h : fs.canonical path = .ok place) : known place := by
  rw [canonical] at h
  split at h
  · cases h
  · split at h
    · cases h
    · obtain ⟨here, noSlash⟩ := known_startOf kept path start
      exact canonicalFrom_sound kept here noSlash h

theorem direct_of_canonical {path : Path}
    (direct : path.isAbsolute = true ∨ Direct fs fs.workingDirectory)
    (h : fs.canonical path = .ok place) : Direct fs place :=
  canonical_sound (isKept_direct fs) direct h

theorem known_of_canonical {path : Path}
    (standing : path.isAbsolute = true ∨ Standing fs fs.workingDirectory)
    (h : fs.canonical path = .ok place) : Direct fs place ∨ Standing fs place :=
  canonical_sound (isKept_known fs) (standing.imp_right .inr) h

end HiddenText.FileSystem
