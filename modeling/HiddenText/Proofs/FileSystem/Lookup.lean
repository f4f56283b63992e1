import HiddenText.FileSystem
import HiddenText.Proofs.Ascending
import HiddenText.Proofs.Results

/-! # Looking at a path and at what it leads to

`lstat` and `stat` differ at a link that ends the path and nowhere else: what is no link is the
same for both, and a path that `lstat` cannot follow is closed to `stat` for the same reason. -/
set_option autoImplicit false

namespace HiddenText.FileSystem

variable {fs : FileSystem}

theorem get?_of_entry {place : Location} {segment : Bytes} {name : Name} {object : Object}
    (h : fs.entry place segment = .ok (name, object)) :
    fs.get? (place ++ [name]) = some object := by
  simp only [entry] at h
  split at h
  · cases h
  · split at h
    · cases h
    · split at h
      · cases h
      · rename_i found
        cases h
        exact found

theorem get?_of_advance : ∀ {segments : List Bytes} {place directory : Location} {name : Name}
    {target : Path} {rest : List Bytes},
    fs.advance place segments = .ok (.atLink directory name target rest) →
      fs.get? (directory ++ [name]) = some (.link target) := by
  intro segments
  induction segments with
  | nil => intro place directory name target rest h; cases h
  | cons segment segments ih =>
      intro place directory name target rest h
      rw [advance] at h
      split at h
      · obtain ⟨-, -, h⟩ := bind_eq_ok_iff.mp h
        exact ih h
      · obtain ⟨-, -, h⟩ := bind_eq_ok_iff.mp h
        split at h
        · exact ih h
        · split at h
          · exact ih h
          · obtain ⟨⟨here, object⟩, found, h⟩ := bind_eq_ok_iff.mp h
            cases object with
            | link led =>
                cases h
                exact get?_of_entry found
            | file content readable => exact ih h
            | directory listable searchable => exact ih h
            | pipe => exact ih h

/-- Where the two ways to follow a path part, a link ends it. -/
theorem follow_final : ∀ (links : Nat) (place : Location) (segments : List Bytes),
    fs.follow true links place segments = fs.follow false links place segments ∨
      ∃ found target, fs.follow false links place segments = .ok found ∧
        fs.get? found = some (.link target) := by
  intro links
  induction links with
  | zero =>
      intro place segments
      rw [follow, follow]
      cases reached : fs.advance place segments with
      | error cause => exact Or.inl rfl
      | ok progress =>
          cases progress with
          | arrived place => exact Or.inl rfl
          | atLink directory name target rest =>
              by_cases last : rest = []
              · exact Or.inr ⟨directory ++ [name], target, by simp [last],
                  get?_of_advance reached⟩
              · exact Or.inl (by simp [last])
  | succ links ih =>
      intro place segments
      rw [follow, follow]
      cases reached : fs.advance place segments with
      | error cause => exact Or.inl rfl
      | ok progress =>
          cases progress with
          | arrived place => exact Or.inl rfl
          | atLink directory name target rest =>
              by_cases last : rest = []
              · exact Or.inr ⟨directory ++ [name], target, by simp [last],
                  get?_of_advance reached⟩
              · simpa [last] using
                  ih (startOf directory target).1 ((startOf directory target).2 ++ rest)

theorem locate_final (fs : FileSystem) (path : Path) :
    fs.locate true path = fs.locate false path ∨
      ∃ found target, fs.locate false path = .ok found ∧ fs.get? found = some (.link target) := by
  simp only [locate]
  split
  · exact Or.inl rfl
  · split
    · exact Or.inl rfl
    · split
      · exact Or.inl rfl
      · exact follow_final ..

theorem stat_eq_lstat (fs : FileSystem) (path : Path) :
    fs.stat path = fs.lstat path ∨
      ∃ place target, fs.lstat path = .ok (place, .link target) := by
  rcases locate_final fs path with same | ⟨found, target, located, isLink⟩
  · left
    rw [stat, lstat, object, object, same]
  · right
    refine ⟨found, target, ?_⟩
    simp [lstat, object, located, isLink, bind, Except.bind]

theorem object_of_lstat {path : Path} {place : Location} {object : Object}
    (h : fs.lstat path = .ok (place, object)) (notLink : ∀ target, object ≠ .link target) :
    ∀ final : Bool, fs.object final path = .ok (place, object)
  | false => h
  | true => by
    rcases stat_eq_lstat fs path with same | ⟨found, target, isLink⟩
    · exact same.trans h
    · rw [h] at isLink
      cases isLink
      exact absurd rfl (notLink target)

theorem object_of_lstat_error {path : Path} {cause : IoError} (h : fs.lstat path = .error cause) :
    ∀ final : Bool, fs.object final path = .error cause
  | false => h
  | true => by
    rcases stat_eq_lstat fs path with same | ⟨found, target, isLink⟩
    · exact same.trans h
    · rw [h] at isLink
      cases isLink

/-! ## Opening a directory -/

theorem openDirectory_eq_ok_iff {path : Path} {place : Location} :
    fs.openDirectory path = .ok place ↔
      ∃ searchable, fs.stat path = .ok (place, .directory true searchable) := by
  simp only [openDirectory, bind, Except.bind]
  cases found : fs.stat path with
  | error cause => simp
  | ok target =>
      obtain ⟨place', object⟩ := target
      cases object with
      | directory listable searchable => cases listable <;> simp
      | file content readable => simp
      | link target => simp
      | pipe => simp

theorem place_of_openDirectory {path : Path} {place place' : Location} {object : Object}
    (h : fs.stat path = .ok (place, object)) (opened : fs.openDirectory path = .ok place') :
    place' = place := by
  obtain ⟨searchable, found⟩ := openDirectory_eq_ok_iff.mp opened
  rw [h] at found
  cases found
  rfl

/-! ## The entries of a directory -/

instance : IsTrans Name (· < ·) where
  trans _ _ _ h h' := List.lt_trans h h'

instance : Std.Irrefl (fun a b : Name => a < b) where
  irrefl a := List.lt_irrefl a.bytes

instance : Std.Trichotomous (fun a b : Name => a < b) where
  trichotomous a b h h' := by
    have same : a.bytes = b.bytes := List.le_antisymm (List.not_lt.mp h') (List.not_lt.mp h)
    cases a
    cases b
    cases same
    rfl

theorem names_pairwise (place : Location) : (fs.names place).Pairwise (· < ·) :=
  Ascending.ofList_pairwise _

theorem names_nodup (place : Location) : (fs.names place).Nodup := Ascending.ofList_nodup _

theorem length_names_le (fs : FileSystem) (place : Location) :
    (fs.names place).length ≤ fs.objects.length :=
  Nat.le_trans (Ascending.length_ofList_le _) (List.length_filterMap_le _ _)

theorem entryName?_eq_some_iff {place entry : Location} {name : Name} :
    entryName? place entry = some name ↔ entry = place ++ [name] := by
  rw [entryName?]
  rcases List.eq_nil_or_concat entry with rfl | ⟨front, last, rfl⟩
  · simp
  · simp [eq_comm]

theorem mem_names {place : Location} {name : Name} :
    name ∈ fs.names place ↔ fs.get? (place ++ [name]) ≠ none := by
  rw [names, Ascending.mem_ofList, List.mem_filterMap]
  simp only [entryName?_eq_some_iff, get?]
  have nonempty : place ++ [name] ≠ [] := List.concat_ne_nil _ _
  cases found : fs.objects.lookup (place ++ [name]) with
  | none =>
      rw [List.lookup_eq_none_iff] at found
      simp only [if_neg nonempty, ne_eq, not_true_eq_false, iff_false, not_exists, not_and]
      intro entry listed same
      exact bne_iff_ne.mp (found entry listed) same.symm
  | some object =>
      rw [List.lookup_eq_some_iff] at found
      obtain ⟨before, after, split, -⟩ := found
      simp only [ne_eq, reduceCtorEq, not_false_eq_true, iff_true]
      exact ⟨(place ++ [name], object), by simp [split], rfl⟩

end HiddenText.FileSystem
