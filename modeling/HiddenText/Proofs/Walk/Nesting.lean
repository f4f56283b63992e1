import HiddenText.Proofs.Walk.Route

/-! # How deep a walk goes, and how long

A directory that is opened stands in the one that was opened before it, or a link leads to it and
its listing is not open yet.  Only the target of a link is compared with the open listings, so one
directory may be open more than once.  But there is one directory less that the next link can lead
to, and from one link to the next a walk can only go down names: never more than
`FileSystem.nestingLimit` listings are open, whatever the links are (`Nested.length_le`).  Since no
listing is longer than the file system, a walk is over within `FileSystem.stepLimit` steps
(`State.work_lt`). -/
set_option autoImplicit false

namespace HiddenText

namespace FileSystem

/-- For every directory, the names down to the deepest location. -/
def nestingLimit (fs : FileSystem) : Nat := fs.directories.length * (fs.depth + 1)

/-- How many steps an entry may take, if so many more listings can be open at once. -/
def stepsWithin (fs : FileSystem) : Nat → Nat
  | 0 => 1
  | levels + 1 => (fs.objects.length + 1) * fs.stepsWithin levels + 2

def stepLimit (fs : FileSystem) : Nat := fs.stepsWithin fs.nestingLimit

end FileSystem

namespace Walk

variable {fs : FileSystem} {config : Config}

/-- What directories a walk can be inside of, the innermost first. -/
inductive Nested (fs : FileSystem) : List Ancestor → Prop
  | nil : Nested fs []
  | entry {directory path outer name} (nested : Nested fs (directory :: outer))
      (shallow : directory.place.length < fs.depth) :
      Nested fs (⟨directory.place ++ [name], path⟩ :: directory :: outer)
  | fresh {directory outer} (nested : Nested fs outer) (known : directory.place ∈ fs.directories)
      (new : ∀ a ∈ outer, a.place ≠ directory.place) :
      Nested fs (directory :: outer)

theorem Nested.tail {directory : Ancestor} {outer : List Ancestor}
    (h : Nested fs (directory :: outer)) : Nested fs outer := by
  cases h with
  | entry nested shallow => exact nested
  | fresh nested known new => exact nested

/-! ## The limit -/

/-- How many names it may still go down from the innermost directory. -/
def roomBelow (fs : FileSystem) : List Ancestor → Nat
  | [] => 0
  | directory :: _ => fs.depth - directory.place.length

/-- Going down a name costs a part of the room below; following a link gives all of it back, but
there is one directory less that a link can lead to. -/
theorem Nested.length_add_le {ancestors : List Ancestor} (h : Nested fs ancestors) :
    ancestors.length + roomBelow fs ancestors + outside fs ancestors * (fs.depth + 1) ≤
      fs.nestingLimit := by
  induction h with
  | nil =>
      have all : outside fs [] ≤ fs.directories.length := List.countP_le_length
      have := Nat.mul_le_mul_right (fs.depth + 1) all
      simp only [roomBelow, List.length_nil, FileSystem.nestingLimit]
      omega
  | @entry directory path outer name nested shallow ih =>
      have fewer := Nat.mul_le_mul_right (fs.depth + 1)
        (outside_cons_le fs ⟨directory.place ++ [name], path⟩ (directory :: outer))
      simp only [roomBelow, List.length_cons, List.length_append, List.length_nil] at ih ⊢
      omega
  | @fresh directory outer nested known new ih =>
      have fewer := Nat.mul_le_mul_right (fs.depth + 1)
        (Nat.succ_le_of_lt (outside_cons_lt known new))
      rw [Nat.succ_mul] at fewer
      simp only [roomBelow, List.length_cons] at ih ⊢
      omega

theorem Nested.length_le {ancestors : List Ancestor} (h : Nested fs ancestors) :
    ancestors.length ≤ fs.nestingLimit := by
  have := h.length_add_le
  omega

/-! ## What an entry opens -/

namespace Cursor

variable {cursor after : Cursor}

inductive Opens (fs : FileSystem) (cursor : Cursor) : Cursor → Prop
  | nothing : Opens fs cursor cursor
  | listing {directory} (nested : Nested fs (directory :: cursor.map Listing.directory)) :
      Opens fs cursor (.ofDirectory fs directory :: cursor)

theorem opens_follow (nested : Nested fs (cursor.map Listing.directory)) (path : Path)
    (name : Bytes) : Opens fs cursor (cursor.follow fs path name).2 := by
  rw [Cursor.follow]
  cases followed : fs.stat path with
  | error cause => exact .nothing
  | ok target =>
      obtain ⟨place, object⟩ := target
      cases object with
      | file content readable => exact .nothing
      | link led => exact .nothing
      | pipe => exact .nothing
      | directory listable searchable =>
          simp only
          split
          · exact .nothing
          · split
            · exact .nothing
            · rename_i absent
              have known := FileSystem.mem_directories (FileSystem.get?_of_stat followed)
              refine .listing (.fresh nested known ?_)
              simpa using absent

theorem opens_look {directory : Ancestor} {name : Name} {object : Object}
    (rest : List (Except IoError (Name × Object)))
    (nested : Nested fs (directory :: cursor.map Listing.directory))
    (found : fs.get? (directory.place ++ [name]) = some object) (followLinks : Bool) :
    Opens fs (⟨directory, rest⟩ :: cursor)
      (look fs followLinks (⟨directory, rest⟩ :: cursor) directory name object).2 := by
  cases object with
  | file content readable => exact .nothing
  | pipe => exact .nothing
  | link target =>
      simp only [look]
      split
      · exact opens_follow nested _ _
      · exact .nothing
  | directory listable searchable =>
      have shallow := FileSystem.length_le_depth found
      rw [List.length_append, List.length_singleton] at shallow
      exact .listing (.entry nested shallow)

theorem opens_start (fs : FileSystem) (followLinks : Bool) (root : Path) :
    Opens fs [] (start fs followLinks root).2 := by
  have first : ∀ {place : Location} {listable searchable : Bool},
      fs.stat root = .ok (place, .directory listable searchable) →
        Opens fs [] [.ofDirectory fs ⟨place, root⟩] := by
    intro place listable searchable found
    have known := FileSystem.mem_directories (FileSystem.get?_of_stat found)
    exact .listing (.fresh .nil known nofun)
  rw [start]
  cases looked : fs.lstat root with
  | error cause => exact .nothing
  | ok found =>
      obtain ⟨place, object⟩ := found
      cases object with
      | file content readable => exact .nothing
      | pipe => exact .nothing
      | directory listable searchable =>
          exact first (FileSystem.object_of_lstat looked (by simp) true)
      | link target =>
          simp only
          split
          · exact opens_follow .nil _ _
          · cases followed : fs.stat root with
            | error cause => exact .nothing
            | ok found =>
                obtain ⟨place, object⟩ := found
                cases object with
                | file content readable => exact .nothing
                | pipe => exact .nothing
                | link led => exact .nothing
                | directory listable searchable => exact first followed

/-! ## The open listings -/

structure Sound (fs : FileSystem) (cursor : Cursor) : Prop where
  nested : Nested fs (cursor.map Listing.directory)
  listed : ∀ listing ∈ cursor, ∀ name object, .ok (name, object) ∈ listing.rest →
    fs.get? (listing.directory.place ++ [name]) = some object

theorem sound_nil : Sound fs [] := ⟨.nil, nofun⟩

theorem Sound.skip (h : Sound fs cursor) : Sound fs cursor.skip := by
  cases cursor with
  | nil => exact h
  | cons listing outer =>
      exact ⟨h.nested.tail, fun other known => h.listed other (List.mem_cons_of_mem _ known)⟩

theorem Sound.taken {directory : Ancestor} {first : Except IoError (Name × Object)}
    {rest : List (Except IoError (Name × Object))}
    (h : Sound fs (⟨directory, first :: rest⟩ :: cursor)) :
    Sound fs (⟨directory, rest⟩ :: cursor) := by
  refine ⟨h.nested, ?_⟩
  intro listing known name object left
  rcases List.mem_cons.mp known with rfl | known
  · exact h.listed ⟨directory, first :: rest⟩ (List.mem_cons_self ..) name object
      (List.mem_cons_of_mem _ left)
  · exact h.listed listing (List.mem_cons_of_mem _ known) name object left

theorem get?_of_mem_ofDirectory {directory : Ancestor} {name : Name} {object : Object}
    (h : .ok (name, object) ∈ (Listing.ofDirectory fs directory).rest) :
    fs.get? (directory.place ++ [name]) = some object := by
  simp only [Listing.ofDirectory] at h
  split at h
  · simp at h
  · simp only [FileSystem.entries, List.mem_map, Except.ok.injEq, exists_eq_right,
      List.mem_filterMap, Option.map_eq_some_iff, Prod.mk.injEq] at h
    obtain ⟨here, -, found, there, rfl, rfl⟩ := h
    exact there

theorem Sound.opened (h : Sound fs cursor) (opens : Opens fs cursor after) : Sound fs after := by
  cases opens with
  | nothing => exact h
  | listing nested =>
      refine ⟨nested, ?_⟩
      intro listing known name object left
      rcases List.mem_cons.mp known with rfl | known
      · exact get?_of_mem_ofDirectory left
      · exact h.listed listing known name object left

theorem Sound.length_le (h : Sound fs cursor) : cursor.length ≤ fs.nestingLimit := by
  have := h.nested.length_le
  rwa [List.length_map] at this

/-! ## The steps ahead -/

/-- How many steps are ahead at the most, until all listings are closed. -/
def work (fs : FileSystem) : Cursor → Nat
  | [] => 0
  | listing :: outer =>
    listing.rest.length * fs.stepsWithin (fs.nestingLimit - (outer.length + 1)) + 1
      + work fs outer

theorem work_cons_cons (directory : Ancestor) (entry : Except IoError (Name × Object))
    (rest : List (Except IoError (Name × Object))) (outer : Cursor) :
    work fs (⟨directory, entry :: rest⟩ :: outer) =
      fs.stepsWithin (fs.nestingLimit - (outer.length + 1)) +
        work fs (⟨directory, rest⟩ :: outer) := by
  simp only [work, List.length_cons, Nat.succ_mul]
  omega

theorem one_le_stepsWithin (fs : FileSystem) (levels : Nat) : 1 ≤ fs.stepsWithin levels := by
  cases levels with
  | zero => exact Nat.le_refl 1
  | succ levels => exact Nat.le_add_left ..

theorem length_ofDirectory_le (fs : FileSystem) (directory : Ancestor) :
    (Listing.ofDirectory fs directory).rest.length ≤ fs.objects.length + 1 := by
  simp only [Listing.ofDirectory]
  split
  · exact Nat.le_add_left ..
  · rw [List.length_map, FileSystem.entries]
    have present := List.length_filterMap_le
      (fun name => (fs.get? (directory.place ++ [name])).map (name, ·)) (fs.names directory.place)
    have named := fs.length_names_le directory.place
    omega

/-- The work that an entry opens is less than what was reckoned for the entry. -/
theorem work_lt_of_opens (opens : Opens fs cursor after) (sound : Sound fs after) :
    after.work fs < fs.stepsWithin (fs.nestingLimit - cursor.length) + cursor.work fs := by
  cases opens with
  | nothing =>
      have := one_le_stepsWithin fs (fs.nestingLimit - cursor.length)
      omega
  | @listing directory nested =>
      have room : cursor.length + 1 ≤ fs.nestingLimit := sound.length_le
      obtain ⟨levels, all⟩ := Nat.exists_eq_add_of_le room
      have here : fs.nestingLimit - cursor.length = levels + 1 := by omega
      have below : fs.nestingLimit - (cursor.length + 1) = levels := by omega
      have entries := Nat.mul_le_mul_right (fs.stepsWithin levels)
        (length_ofDirectory_le fs directory)
      simp only [work, here, below, FileSystem.stepsWithin]
      omega

theorem work_skip_le (fs : FileSystem) (cursor : Cursor) :
    cursor.skip.work fs ≤ cursor.work fs := by
  cases cursor with
  | nil => exact Nat.le_refl _
  | cons listing outer => exact Nat.le_add_left ..

theorem Sound.next {found : Option Found} {followLinks : Bool} (h : Sound fs cursor)
    (moved : next fs followLinks cursor = some (found, after)) :
    Sound fs after ∧ after.work fs < cursor.work fs := by
  cases cursor with
  | nil => cases moved
  | cons listing outer =>
      obtain ⟨directory, rest⟩ := listing
      cases rest with
      | nil =>
          cases moved
          refine ⟨h.skip, ?_⟩
          simp only [work, List.length_nil]
          omega
      | cons entry rest =>
          rw [work_cons_cons]
          cases entry with
          | error cause =>
              cases moved
              have spent := one_le_stepsWithin fs (fs.nestingLimit - (outer.length + 1))
              exact ⟨h.taken, by omega⟩
          | ok entry =>
              obtain ⟨name, object⟩ := entry
              cases moved
              have here := h.listed _ (List.mem_cons_self ..) name object (List.mem_cons_self ..)
              have opens := opens_look rest h.taken.nested here followLinks
              have sound := h.taken.opened opens
              exact ⟨sound, work_lt_of_opens opens sound⟩

end Cursor

/-! ## A walk -/

namespace State

variable {s t : State}

def work (fs : FileSystem) (s : State) : Nat :=
  (if s.root.isSome then fs.stepLimit else 0) + s.cursor.work fs

structure Sound (fs : FileSystem) (s : State) : Prop where
  cursor : s.cursor.Sound fs
  closed : s.root.isSome → s.cursor = []

theorem sound_start (fs : FileSystem) (root : Path) : (start root).Sound fs :=
  ⟨Cursor.sound_nil, fun _ => rfl⟩

theorem take_root (config : Config) (s : State) (found : Found) :
    (take config s found).root = s.root := by
  cases found with
  | file path => rfl
  | special path => rfl
  | failure event cause depth => cases depth <;> rfl
  | directory path name depth =>
      rw [take]
      split <;> rfl

theorem take_cursor (config : Config) (s : State) (found : Found) :
    (take config s found).cursor = s.cursor ∨
      (take config s found).cursor = s.cursor.skip := by
  cases found with
  | file path => exact Or.inl rfl
  | special path => exact Or.inl rfl
  | failure event cause depth => cases depth <;> exact Or.inl rfl
  | directory path name depth =>
      rw [take]
      split
      · exact Or.inr rfl
      · exact Or.inl rfl

theorem sound_take (config : Config) (found : Found) (h : s.cursor.Sound fs)
    (root : s.root = none) :
    (s.take config found).Sound fs ∧
      (s.take config found).work fs ≤ s.cursor.work fs := by
  have looked : (s.take config found).root = none := (take_root config s found).trans root
  have less := Cursor.work_skip_le fs s.cursor
  have closed : (s.take config found).root.isSome → (s.take config found).cursor = [] := by
    rw [looked]
    exact nofun
  rw [work, looked]
  rcases take_cursor config s found with same | skipped
  · refine ⟨⟨same ▸ h, closed⟩, ?_⟩
    rw [same]
    simp
  · refine ⟨⟨skipped ▸ h.skip, closed⟩, ?_⟩
    rw [skipped]
    simpa using less

theorem Sound.step (h : s.Sound fs) (first : s.step fs config = some t) :
    t.Sound fs ∧ t.work fs < s.work fs := by
  simp only [State.step] at first
  split at first
  · cases first
  · split at first
    · rename_i root unseen
      cases first
      have opens := Cursor.opens_start fs config.followLinks root
      have sound := Cursor.sound_nil.opened opens
      have spent := Cursor.work_lt_of_opens opens sound
      obtain ⟨taken, less⟩ := @sound_take fs
        { s with root := none, cursor := (Cursor.start fs config.followLinks root).2 } config
        (Cursor.start fs config.followLinks root).1 sound rfl
      refine ⟨taken, Nat.lt_of_le_of_lt less ?_⟩
      rw [work, h.closed (by rw [unseen]; rfl), unseen]
      exact spent
    · rename_i looked
      have ahead : s.work fs = s.cursor.work fs := by
        rw [work, looked]
        simp
      rw [ahead]
      split at first
      · cases first
      · rename_i moved
        cases first
        obtain ⟨sound, less⟩ := h.cursor.next moved
        refine ⟨⟨sound, by simp [looked]⟩, ?_⟩
        simpa [work, looked] using less
      · rename_i found cursor moved
        cases first
        obtain ⟨sound, less⟩ := h.cursor.next moved
        obtain ⟨taken, less'⟩ :=
          @sound_take fs { s with cursor := cursor } config found sound looked
        exact ⟨taken, Nat.lt_of_le_of_lt less' less⟩

theorem Sound.after (h : s.Sound fs) (n : Nat) : (s.after fs config n).Sound fs :=
  after_of_step (fun _ _ sound first => (sound.step first).1) n s h

theorem Sound.step_after : ∀ (n : Nat) {s : State}, s.Sound fs → s.work fs ≤ n →
    (s.after fs config n).step fs config = none := by
  intro n
  induction n with
  | zero =>
      intro s h done
      cases first : s.step fs config with
      | none => exact first
      | some t =>
          have := (h.step first).2
          omega
  | succ n ih =>
      intro s h done
      rw [State.after]
      cases first : s.step fs config with
      | none => exact first
      | some t =>
          obtain ⟨sound, less⟩ := h.step first
          exact ih sound (by omega)

end State

/-- A walk of any root is over within the step limit of the file system, and on its way it never
has more listings open than the nesting limit, however the links are laid; not even where the
listing of a directory is open that is left out in the same step. -/
theorem ends_within_limits (fs : FileSystem) (config : Config) (root : Path) :
    ((State.start root).after fs config fs.stepLimit).step fs config = none ∧
      ∀ n, ((State.start root).after fs config n).cursor.length ≤ fs.nestingLimit ∧
        ∀ found cursor, ((State.start root).after fs config n).cursor.next fs
          config.followLinks = some (found, cursor) → cursor.length ≤ fs.nestingLimit := by
  have sound := State.sound_start fs root
  constructor
  · exact sound.step_after fs.stepLimit (Nat.le_refl _)
  · intro n
    have here : ((State.start root).after fs config n).cursor.Sound fs := (sound.after n).cursor
    refine ⟨here.length_le, ?_⟩
    intro found cursor moved
    exact (here.next moved).1.length_le

-- A link to the parent of the root, and the root is open twice.
open Walk.Sample in
example : ((State.start (Location.path [top, kept])).after tree following 5).cursor.map
    (·.directory.place) = [[top, kept], [top], [top, kept]] := rfl

end Walk
end HiddenText
