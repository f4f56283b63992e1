import HiddenText.Config
import HiddenText.FileSystem

/-! # Walking a directory tree

A walk goes through a directory tree in the order of the entries' names, the contents of a
directory before its next sibling, and tells what it meets.  The root's own name is never ignored,
and a root that is a link is always followed. -/
set_option autoImplicit false

namespace HiddenText

/-! ## Visiting a directory entry

What a walk does with one entry of a directory: it tells of it, or enters the directory that it
is or leads to.  Directories with an ignored name are not entered.  A link is passed over, or
followed if the configuration asks for it; a followed link to a directory that the walk is inside
of already is a cycle. -/

namespace Walk

inductive Event
  | file (path : Path)
  | pruned (path : Path)
  /-- Neither a file nor a directory: a link that is not followed, a pipe. -/
  | special (path : Path)
  | failed (path : Path) (cause : IoError)
  /-- A followed link leads to a directory that cannot be opened. -/
  | closedTarget (cause : IoError)
  | cycle (path ancestor : Path)
  deriving DecidableEq

def Event.file? : Event → Option Path
  | .file path => some path
  | _ => none

def Event.isFailure : Event → Bool
  | .failed .. | .closedTarget _ | .cycle .. => true
  | _ => false

/-- A directory that the walk is inside of, and the path by which it came there. -/
structure Ancestor where
  place : Location
  path : Path
  deriving DecidableEq

/-- What to do with an entry. -/
inductive Visit
  | pass
  | tell (event : Event)
  | enter (place : Location)
  deriving DecidableEq

/-- Looks at a link that is followed. -/
def visitLink (fs : FileSystem) (config : Config) (ancestors : List Ancestor) (name : Name)
    (path : Path) : Visit :=
  match fs.stat path with
  | .error e => .tell (.failed path e)
  | .ok (_, .file ..) => .tell (.file path)
  | .ok (target, .directory ..) =>
    match fs.openDirectory path with
    | .error e => .tell (.closedTarget e)
    | .ok _ => match ancestors.find? (·.place = target) with
      | some ancestor => .tell (.cycle path ancestor.path)
      | none => if config.ignores name.bytes then .tell (.pruned path) else .enter target
  | .ok _ => .tell (.special path)

/-- Looks at an entry of a directory; `path` is the entry's. -/
def visit (fs : FileSystem) (config : Config) (ancestors : List Ancestor) (directory : Location)
    (name : Name) (path : Path) : Visit :=
  match fs.get? (directory ++ [name]) with
  | none => .pass
  | some (.file ..) => .tell (.file path)
  | some (.pipe ..) => .tell (.special path)
  | some (.link _) =>
    if config.followLinks then visitLink fs config ancestors name path else .tell (.special path)
  | some (.directory ..) =>
    if config.ignores name.bytes then .tell (.pruned path)
    else match fs.openDirectory path with
      | .error e => .tell (.failed path e)
      | .ok _ => .enter (directory ++ [name])

end Walk

/-! ## Why a walk ends

Entering a link adds a directory to those the walk is inside of; entering a directory proper goes
one name deeper.  So the number of directories that the walk is outside of, then the depth left
below the current one, get smaller with every directory that is entered. -/

namespace FileSystem

theorem mem_of_lookup {objects : List (Location × Object)} {place : Location} {object : Object}
    (h : objects.lookup place = some object) : (place, object) ∈ objects := by
  obtain ⟨before, after, rfl, -⟩ := List.lookup_eq_some_iff.mp h
  exact List.mem_append_right before (List.mem_cons_self ..)

theorem le_foldr_max (n : Nat) : ∀ ns : List Nat, n ∈ ns → n ≤ ns.foldr max 0 := by
  intro ns
  induction ns with
  | nil => intro h; cases h
  | cons m ns ih =>
      intro h
      simp only [List.foldr_cons]
      rcases List.mem_cons.mp h with h | h
      · subst h; exact Nat.le_max_left ..
      · exact Nat.le_trans (ih h) (Nat.le_max_right ..)

theorem length_le_depth {fs : FileSystem} {place : Location} {object : Object}
    (h : fs.get? place = some object) : place.length ≤ fs.depth := by
  simp only [get?] at h
  split at h
  · rename_i found
    exact le_foldr_max _ _ (List.mem_map_of_mem (mem_of_lookup found))
  · split at h
    · rename_i hp; simp [hp]
    · cases h

theorem mem_directories {fs : FileSystem} {place : Location} {listable searchable : Bool}
    (h : fs.get? place = some (.directory listable searchable)) : place ∈ fs.directories := by
  simp only [directories, List.mem_filter, List.mem_cons]
  refine ⟨?_, by simp [h, Object.isDirectory]⟩
  simp only [get?] at h
  split at h
  · rename_i found
    exact Or.inr (List.mem_map_of_mem (mem_of_lookup found))
  · split at h
    · exact Or.inl ‹_›
    · cases h

theorem get?_of_stat {fs : FileSystem} {path : Path} {place : Location} {object : Object}
    (h : fs.stat path = .ok (place, object)) : fs.get? place = some object := by
  simp only [stat, FileSystem.object, bind, Except.bind] at h
  split at h
  · cases h
  · split at h
    · rename_i found
      simp only [Except.ok.injEq, Prod.mk.injEq] at h
      obtain ⟨h1, h2⟩ := h
      rw [← h1, ← h2]
      exact found
    · cases h

end FileSystem

namespace Walk

/-- How many directories the walk is not inside of. -/
def outside (fs : FileSystem) (ancestors : List Ancestor) : Nat :=
  fs.directories.countP fun place => ancestors.all (·.place ≠ place)

theorem outside_cons_le (fs : FileSystem) (a : Ancestor) (ancestors : List Ancestor) :
    outside fs (a :: ancestors) ≤ outside fs ancestors := by
  apply List.countP_mono_left
  intro place _ h
  simp only [List.all_cons, Bool.and_eq_true] at h
  exact h.2

theorem countP_lt_countP {p q : Location → Bool} (pq : ∀ x, p x = true → q x = true) {a : Location}
    (ha : p a = false) (hq : q a = true) : ∀ places : List Location, a ∈ places →
      places.countP p < places.countP q := by
  intro places
  induction places with
  | nil => intro h; cases h
  | cons x places ih =>
      intro h
      rcases List.mem_cons.mp h with h | h
      · subst h
        rw [List.countP_cons_of_neg (by simp [ha]), List.countP_cons_of_pos hq]
        exact Nat.lt_succ_of_le (List.countP_mono_left fun x _ => pq x)
      · have := ih h
        rw [List.countP_cons, List.countP_cons]
        by_cases hp : p x = true
        · simp [hp, pq x hp, this]
        · simp only [hp, Bool.false_eq_true, if_false, Nat.add_zero]
          exact Nat.lt_of_lt_of_le this (Nat.le_add_right ..)

theorem outside_cons_lt {fs : FileSystem} {a : Ancestor} {ancestors : List Ancestor}
    (known : a.place ∈ fs.directories) (new : ∀ b ∈ ancestors, b.place ≠ a.place) :
    outside fs (a :: ancestors) < outside fs ancestors := by
  refine countP_lt_countP ?_ (by simp) (by simpa using new) _ known
  intro place h
  simp only [List.all_cons, Bool.and_eq_true] at h
  exact h.2

/-- A directory is entered from its parent, or through a link from outside of it. -/
theorem of_visit_eq_enter {fs : FileSystem} {config : Config} {ancestors : List Ancestor}
    {directory place : Location} {name : Name} {path : Path}
    (h : visit fs config ancestors directory name path = .enter place) :
    place ∈ fs.directories ∧
      ((place = directory ++ [name] ∧ directory.length < fs.depth) ∨
        ∀ a ∈ ancestors, a.place ≠ place) := by
  simp only [visit] at h
  split at h
  · cases h
  · cases h
  · cases h
  · split at h
    · simp only [visitLink] at h
      split at h
      · cases h
      · cases h
      · rename_i found
        split at h
        · cases h
        · split at h
          · cases h
          · rename_i absent
            split at h
            · cases h
            · obtain rfl := Visit.enter.inj h
              refine ⟨FileSystem.mem_directories (FileSystem.get?_of_stat found), Or.inr ?_⟩
              simpa using absent
      · cases h
    · cases h
  · rename_i found
    split at h
    · cases h
    · split at h
      · cases h
      · obtain rfl := Visit.enter.inj h
        have := FileSystem.length_le_depth found
        rw [List.length_append, List.length_singleton] at this
        exact ⟨FileSystem.mem_directories found, Or.inl ⟨rfl, this⟩⟩

theorem measure_lt_of_visit_eq_enter {fs : FileSystem} {config : Config}
    {ancestors : List Ancestor} {directory place : Location} {name : Name} {path : Path}
    (h : visit fs config ancestors directory name path = .enter place) :
    outside fs (⟨place, path⟩ :: ancestors) < outside fs ancestors ∨
      (outside fs (⟨place, path⟩ :: ancestors) ≤ outside fs ancestors ∧
        fs.depth - place.length < fs.depth - directory.length) := by
  obtain ⟨known, ⟨rfl, shallow⟩ | new⟩ := of_visit_eq_enter h
  · refine Or.inr ⟨outside_cons_le .., ?_⟩
    rw [List.length_append, List.length_singleton]
    omega
  · exact Or.inl (outside_cons_lt known new)

end Walk

/-! ## Below a directory and from a root -/

namespace Walk

set_option linter.unusedVariables false in
/-- The events below a directory that the walk has opened. -/
def below (fs : FileSystem) (config : Config) (ancestors : List Ancestor) (directory : Location)
    (path : Path) : List Event :=
  (fs.names directory).flatMap fun name =>
    match h : visit fs config ancestors directory name (path.join name.bytes) with
    | .pass => []
    | .tell event => [event]
    | .enter place =>
      below fs config (⟨place, path.join name.bytes⟩ :: ancestors) place (path.join name.bytes)
termination_by (outside fs ancestors, fs.depth - directory.length)
decreasing_by
  rcases measure_lt_of_visit_eq_enter h with h | ⟨h, h'⟩
  · exact Prod.Lex.left _ _ h
  · rcases Nat.lt_or_eq_of_le h with h | h
    · exact Prod.Lex.left _ _ h
    · rw [h]; exact Prod.Lex.right _ h'

end Walk

/-- What a walk met, in order, or why its root could not be walked. -/
structure Walk where
  events : List Walk.Event := []
  rootError : Option IoError := none

namespace Walk

/-- Walks a root that is a directory or leads to one. -/
def ofDirectory (fs : FileSystem) (config : Config) (root : Path) (before : List Event) : Walk :=
  match fs.openDirectory root with
  | .error e => { events := before, rootError := some e }
  | .ok place => { events := before ++ below fs config [⟨place, root⟩] place root }

def ofRoot (fs : FileSystem) (config : Config) (root : Path) : Walk :=
  match fs.object config.followLinks root with
  | .error e => { rootError := some e }
  | .ok (_, .file ..) => { events := [.file root] }
  | .ok (_, .pipe ..) => { events := [.special root] }
  | .ok (_, .directory ..) => ofDirectory fs config root []
  | .ok (_, .link _) => match fs.stat root with
    | .error e => { rootError := some e }
    | .ok (_, .directory ..) => ofDirectory fs config root [.special root]
    | .ok _ => { events := [.special root] }

def files (w : Walk) : List Path := w.events.filterMap Event.file?

def errors (w : Walk) : Nat := w.events.countP Event.isFailure

/-- Each file with the number of failures that came before it. -/
def filesWithErrors (w : Walk) : List (Path × Nat) := count 0 w.events
where
  count (errors : Nat) : List Event → List (Path × Nat)
    | [] => []
    | event :: rest =>
      match event.file? with
      | some path => (path, errors) :: count errors rest
      | none => count (if event.isFailure then errors + 1 else errors) rest

/-- The root's error, which is given out once. -/
def takeRootError (w : Walk) : Option IoError × Walk := (w.rootError, { w with rootError := none })

end Walk
end HiddenText
