import HiddenText.Proofs.Path.Descent
import HiddenText.Proofs.Walk.Cursor
import Mathlib.Data.List.Nodup

/-! # Which files a walk comes upon

A file is met exactly if a route leads to the directory that it stands in: a chain of directories
that can be listed and have no ignored name, each an entry of the one before, links only where
they are followed and lead out of the chain. -/
set_option autoImplicit false

namespace HiddenText.Walk

/-- Names that lead from the root to a directory, with the location of that directory and of those
above it on the way, the innermost first. -/
inductive Route (fs : FileSystem) (config : Config) (root : Path) :
    List Name → Location → List Location → Prop
  | root {place} (opened : fs.openDirectory root = .ok place) : Route fs config root [] place []
  | directory {names place above name listable searchable found}
      (route : Route fs config root names place above)
      (real : fs.get? (place ++ [name]) = some (.directory listable searchable))
      (opened : fs.openDirectory (root.descend (names ++ [name])) = .ok found)
      (kept : config.ignores name.bytes = false) :
      Route fs config root (names ++ [name]) (place ++ [name]) (place :: above)
  | link {names place above name target found}
      (route : Route fs config root names place above)
      (isLink : fs.get? (place ++ [name]) = some (.link target))
      (followed : config.followLinks = true)
      (opened : fs.openDirectory (root.descend (names ++ [name])) = .ok found)
      (new : found ∉ place :: above)
      (kept : config.ignores name.bytes = false) :
      Route fs config root (names ++ [name]) found (place :: above)

def IsFile (fs : FileSystem) (config : Config) (place : Location) (name : Name) (path : Path) :
    Prop :=
  (∃ content readable, fs.get? (place ++ [name]) = some (.file content readable)) ∨
    config.followLinks = true ∧ (∃ target, fs.get? (place ++ [name]) = some (.link target)) ∧
      ∃ found content readable, fs.stat path = .ok (found, .file content readable)

def Reaches (fs : FileSystem) (config : Config) (root : Path) (names : List Name) (name : Name) :
    Prop :=
  ∃ place above, Route fs config root names place above ∧
    IsFile fs config place name (root.descend (names ++ [name]))

variable {fs : FileSystem} {config : Config} {root : Path}

/-! ## What a walk does with an entry -/

theorem visit_eq_file_iff {ancestors : List Ancestor} {directory : Location} {name : Name}
    {path p : Path} :
    visit fs config ancestors directory name path = .tell (.file p) ↔
      p = path ∧ IsFile fs config directory name path := by
  simp only [visit, IsFile]
  cases fs.get? (directory ++ [name]) with
  | none => simp
  | some object =>
      cases object with
      | file content readable => simp [eq_comm (a := p)]
      | pipe => simp
      | directory listable searchable =>
          simp only
          split
          · simp
          · split <;> simp
      | link target =>
          simp only
          split
          · rename_i follows
            simp only [visitLink, follows]
            cases fs.stat path with
            | error cause => simp
            | ok found =>
                obtain ⟨place, object⟩ := found
                cases object with
                | file content readable => simp [eq_comm (a := p)]
                | pipe => simp
                | link led => simp
                | directory listable searchable =>
                    simp only
                    split
                    · simp
                    · split
                      · simp
                      · split <;> simp
          · rename_i stays
            simp [stays]

theorem visitLink_eq_enter_iff {ancestors : List Ancestor} {place : Location} {name : Name}
    {path : Path} :
    visitLink fs config ancestors name path = .enter place ↔
      config.ignores name.bytes = false ∧ fs.openDirectory path = .ok place ∧
        place ∉ ancestors.map Ancestor.place := by
  have listed : ∀ {found}, fs.openDirectory path = .ok found →
      ∃ searchable, fs.stat path = .ok (found, .directory true searchable) :=
    FileSystem.openDirectory_eq_ok_iff.mp
  simp only [visitLink]
  cases opened : fs.openDirectory path with
  | error cause =>
      split <;> simp
  | ok found =>
      obtain ⟨searchable, isDirectory⟩ := listed opened
      rw [isDirectory]
      simp only
      cases cyclic : ancestors.find? (·.place = found) with
      | some ancestor =>
          have inside := List.find?_some cyclic
          have known := List.mem_of_find?_eq_some cyclic
          simp only [decide_eq_true_eq] at inside
          subst inside
          simp only [reduceCtorEq, false_iff, not_and, Except.ok.injEq]
          rintro - rfl
          exact not_not_intro (List.mem_map_of_mem known)
      | none =>
          have outside : found ∉ ancestors.map Ancestor.place := by
            simpa [List.find?_eq_none] using cyclic
          simp only
          split
          · rename_i ignored
            simp [ignored]
          · rename_i kept
            simp only [Visit.enter.injEq, Except.ok.injEq, kept, true_and]
            constructor
            · rintro rfl
              exact ⟨rfl, outside⟩
            · exact And.left

/-- An entry that is entered has no ignored name and can be listed; it is a directory, or a link
that is followed to a directory which the walk is not inside of. -/
theorem visit_eq_enter_iff {ancestors : List Ancestor} {directory place : Location} {name : Name}
    {path : Path} :
    visit fs config ancestors directory name path = .enter place ↔
      config.ignores name.bytes = false ∧
        ((∃ listable searchable found,
            fs.get? (directory ++ [name]) = some (.directory listable searchable) ∧
              fs.openDirectory path = .ok found ∧ place = directory ++ [name]) ∨
          config.followLinks = true ∧
            (∃ target, fs.get? (directory ++ [name]) = some (.link target)) ∧
              fs.openDirectory path = .ok place ∧ place ∉ ancestors.map Ancestor.place) := by
  simp only [visit]
  cases fs.get? (directory ++ [name]) with
  | none => simp
  | some object =>
      cases object with
      | file content readable => simp
      | pipe => simp
      | directory listable searchable =>
          simp only
          split
          · rename_i ignored
            simp [ignored]
          · rename_i kept
            cases fs.openDirectory path with
            | error cause => simp
            | ok found => simp [kept, eq_comm (a := place)]
      | link target =>
          simp only
          split
          · rename_i follows
            simp only [visitLink_eq_enter_iff, follows]
            simp
          · rename_i stays
            simp [stays]

theorem visit_eq_enter_of_directory (ancestors : List Ancestor) {place found : Location}
    {name : Name} {path : Path} {listable searchable : Bool}
    (real : fs.get? (place ++ [name]) = some (.directory listable searchable))
    (opened : fs.openDirectory path = .ok found) (kept : config.ignores name.bytes = false) :
    visit fs config ancestors place name path = .enter (place ++ [name]) :=
  visit_eq_enter_iff.mpr ⟨kept, .inl ⟨_, _, _, real, opened, rfl⟩⟩

/-! ## What lies below a directory -/

theorem mem_atEntry {ancestors : List Ancestor} {place : Location} {path : Path} {name : Name}
    {event : Event} : event ∈ atEntry fs config ancestors place path name ↔
      visit fs config ancestors place name (path.join name.bytes) = .tell event ∨
        ∃ next, visit fs config ancestors place name (path.join name.bytes) = .enter next ∧
          event ∈ below fs config (⟨next, path.join name.bytes⟩ :: ancestors) next
            (path.join name.bytes) := by
  rw [atEntry]
  cases visit fs config ancestors place name (path.join name.bytes) with
  | pass => simp [eventsOf]
  | tell told => simp [eventsOf, eq_comm]
  | enter next => simp [eventsOf]

theorem mem_below {ancestors : List Ancestor} {place : Location} {path : Path} {event : Event} :
    event ∈ below fs config ancestors place path ↔
      ∃ name, fs.get? (place ++ [name]) ≠ none ∧
        event ∈ atEntry fs config ancestors place path name := by
  rw [below_eq, List.mem_flatMap]
  simp only [FileSystem.mem_names]

/-- A route goes on through an entry that is entered. -/
theorem Route.enter {names : List Name} {place next : Location} {above : List Location}
    (route : Route fs config root names place above) {ancestors : List Ancestor}
    (inside : ancestors.map Ancestor.place = place :: above) {name : Name}
    (entered : visit fs config ancestors place name (root.descend (names ++ [name])) =
      .enter next) : Route fs config root (names ++ [name]) next (place :: above) := by
  obtain ⟨kept, real | followed⟩ := visit_eq_enter_iff.mp entered
  · obtain ⟨listable, searchable, found, isDirectory, opened, rfl⟩ := real
    exact .directory route isDirectory opened kept
  · obtain ⟨follows, ⟨target, isLink⟩, opened, new⟩ := followed
    exact .link route isLink follows opened (inside ▸ new) kept

/-- A walk comes only upon files that a route leads to. -/
theorem reaches_of_mem_below (ancestors : List Ancestor) (place : Location) (path : Path) :
    ∀ names above, Route fs config root names place above →
      ancestors.map Ancestor.place = place :: above → path = root.descend names →
      ∀ p, .file p ∈ below fs config ancestors place path →
        ∃ names name, Reaches fs config root names name ∧ p = root.descend (names ++ [name]) := by
  induction ancestors, place, path using below.induct fs config with
  | case1 ancestors place path ih =>
      intro names above route inside here p met
      subst here
      obtain ⟨name, -, met⟩ := mem_below.mp met
      -- Either the file stands in this directory, or the route goes on through the entry.
      have down : (root.descend names).join name.bytes = root.descend (names ++ [name]) :=
        (Path.descend_concat root names name).symm
      rcases mem_atEntry.mp met with told | ⟨next, entered, met⟩
      · obtain ⟨rfl, isFile⟩ := visit_eq_file_iff.mp told
        rw [down] at isFile
        exact ⟨names, name, ⟨place, above, route, isFile⟩, down⟩
      · have further := route.enter inside (down ▸ entered)
        exact ih name next entered _ _ further (by rw [List.map_cons, inside]) down p met

/-- What holds where the walk starts, and further on through every entry that it enters, holds at
the end of every route. -/
theorem Route.carries (holds : List Ancestor → Location → List Name → Prop)
    (begins : ∀ start, fs.openDirectory root = .ok start → holds [⟨start, root⟩] start [])
    (goesOn : ∀ ancestors place names name next, holds ancestors place names →
      visit fs config ancestors place name (root.descend (names ++ [name])) = .enter next →
        holds (⟨next, root.descend (names ++ [name])⟩ :: ancestors) next (names ++ [name]))
    {names : List Name} {place : Location} {above : List Location}
    (route : Route fs config root names place above) :
    ∃ ancestors, ancestors.map Ancestor.place = place :: above ∧ holds ancestors place names := by
  induction route with
  | root opened => exact ⟨[⟨_, root⟩], rfl, begins _ opened⟩
  | directory route real opened kept ih =>
      obtain ⟨ancestors, inside, here⟩ := ih
      have entered := visit_eq_enter_of_directory ancestors real opened kept
      exact ⟨_ :: ancestors, congrArg _ inside, goesOn _ _ _ _ _ here entered⟩
  | link route isLink followed opened new kept ih =>
      obtain ⟨ancestors, inside, here⟩ := ih
      have entered := visit_eq_enter_iff.mpr
        ⟨kept, Or.inr ⟨followed, ⟨_, isLink⟩, opened, inside ▸ new⟩⟩
      exact ⟨_ :: ancestors, congrArg _ inside, goesOn _ _ _ _ _ here entered⟩

theorem mem_names_of_visit {ancestors : List Ancestor} {place : Location} {name : Name}
    {path : Path} (visited : visit fs config ancestors place name path ≠ .pass) :
    name ∈ fs.names place := by
  rw [FileSystem.mem_names]
  intro absent
  apply visited
  rw [visit, absent]

/-- What lies below the end of a route lies below the root. -/
theorem below_subset_of_route {names : List Name} {place : Location} {above : List Location}
    (route : Route fs config root names place above) :
    ∃ start ancestors, fs.openDirectory root = .ok start ∧
      ancestors.map Ancestor.place = place :: above ∧
      below fs config ancestors place (root.descend names) ⊆
        below fs config [⟨start, root⟩] start root := by
  have begins : ∀ start, fs.openDirectory root = .ok start → ∃ start',
      fs.openDirectory root = .ok start' ∧ below fs config [⟨start, root⟩] start root ⊆
        below fs config [⟨start', root⟩] start' root :=
    fun start opened => ⟨start, opened, List.Subset.refl _⟩
  obtain ⟨ancestors, inside, start, opened, within⟩ := route.carries
    (fun ancestors place names => ∃ start, fs.openDirectory root = .ok start ∧
      below fs config ancestors place (root.descend names) ⊆
        below fs config [⟨start, root⟩] start root) begins (by
      intro ancestors place names name next here entered
      obtain ⟨start, opened, within⟩ := here
      refine ⟨start, opened, fun event met => within ?_⟩
      have listed : name ∈ fs.names place := mem_names_of_visit (by rw [entered]; exact nofun)
      rw [Path.descend_concat] at entered met
      exact mem_below.mpr ⟨name, FileSystem.mem_names.mp listed,
        mem_atEntry.mpr (Or.inr ⟨next, entered, met⟩)⟩)
  exact ⟨start, ancestors, opened, inside, within⟩

theorem file_mem_below_iff {start : Location} (opened : fs.openDirectory root = .ok start)
    (p : Path) : .file p ∈ below fs config [⟨start, root⟩] start root ↔
      ∃ names name, Reaches fs config root names name ∧ p = root.descend (names ++ [name]) := by
  constructor
  · exact reaches_of_mem_below _ start root [] [] (.root opened) rfl rfl p
  · rintro ⟨names, name, ⟨place, above, route, isFile⟩, rfl⟩
    obtain ⟨start', ancestors, opened', inside, below⟩ := below_subset_of_route route
    rw [opened] at opened'
    cases opened'
    refine below (mem_below.mpr ⟨name, ?_, mem_atEntry.mpr (Or.inl ?_)⟩)
    · rcases isFile with ⟨content, readable, found⟩ | ⟨-, ⟨target, found⟩, -⟩
      · rw [found]
        exact nofun
      · rw [found]
        exact nofun
    · rw [Path.descend_concat] at isFile ⊢
      exact visit_eq_file_iff.mpr ⟨rfl, isFile⟩

/-! ## The files of a walk -/

/-- A root that can be listed is gone through, be it a directory or a link to one. -/
theorem ofRoot_of_openDirectory (config : Config) {start : Location}
    (opened : fs.openDirectory root = .ok start) :
    ∃ before, (before = [] ∨ before = [.special root]) ∧
      Walk.ofRoot fs config root =
        { events := before ++ below fs config [⟨start, root⟩] start root } := by
  obtain ⟨searchable, found⟩ := FileSystem.openDirectory_eq_ok_iff.mp opened
  have through : ∀ before, Walk.ofDirectory fs config root before =
      { events := before ++ below fs config [⟨start, root⟩] start root } := by
    intro before
    rw [Walk.ofDirectory, opened]
  rw [Walk.ofRoot]
  cases follows : config.followLinks with
  | true =>
      rw [show fs.object true root = .ok (start, .directory true searchable) from found]
      exact ⟨[], Or.inl rfl, through []⟩
  | false =>
      rcases FileSystem.stat_eq_lstat fs root with same | ⟨place, target, isLink⟩
      · rw [show fs.object false root = .ok (start, .directory true searchable) from
          same.symm.trans found]
        exact ⟨[], Or.inl rfl, through []⟩
      · rw [show fs.object false root = .ok (place, .link target) from isLink, found]
        exact ⟨[.special root], Or.inr rfl, through _⟩

/-- A root that cannot be listed is met by itself, if at all. -/
theorem events_ofRoot_of_error {cause : IoError} (config : Config)
    (closed : fs.openDirectory root = .error cause) :
    (Walk.ofRoot fs config root).events = [] ∨ (Walk.ofRoot fs config root).events = [.file root] ∨
      (Walk.ofRoot fs config root).events = [.special root] := by
  rw [Walk.ofRoot]
  split
  · exact .inl rfl
  · exact .inr (.inl rfl)
  · exact .inr (.inr rfl)
  · rw [Walk.ofDirectory, closed]
    exact .inl rfl
  · split
    · exact .inl rfl
    · rw [Walk.ofDirectory, closed]
      exact .inr (.inr rfl)
    · exact .inr (.inr rfl)

theorem mem_filterMap_file? {events : List Event} {p : Path} :
    p ∈ events.filterMap Event.file? ↔ .file p ∈ events := by
  rw [List.mem_filterMap]
  constructor
  · rintro ⟨event, met, isFile⟩
    cases event <;> cases isFile
    exact met
  · intro met
    exact ⟨_, met, rfl⟩

/-- The files of a walk are those below its root. -/
theorem files_ofRoot (config : Config) {start : Location}
    (opened : fs.openDirectory root = .ok start) : (Walk.ofRoot fs config root).files =
      (below fs config [⟨start, root⟩] start root).filterMap Event.file? := by
  obtain ⟨before, front, all⟩ := ofRoot_of_openDirectory config opened
  have nothing : before.filterMap Event.file? = [] := by
    rcases front with rfl | rfl <;> rfl
  rw [all, files, List.filterMap_append, nothing, List.nil_append]

theorem mem_files_iff {start : Location} (opened : fs.openDirectory root = .ok start) (p : Path) :
    p ∈ (Walk.ofRoot fs config root).files ↔
      ∃ names name, Reaches fs config root names name ∧ p = root.descend (names ++ [name]) := by
  rw [files_ofRoot config opened, mem_filterMap_file?, file_mem_below_iff opened]

/-! ## What pruning leaves out -/

def unpruned (config : Config) : Config := { config with ignoredNames := [] }

theorem not_ignores_unpruned (config : Config) (name : Bytes) :
    (unpruned config).ignores name = false := rfl

/-- Leaving out directories closes the routes through them and no others. -/
theorem route_iff {names : List Name} {place : Location} {above : List Location} :
    Route fs config root names place above ↔
      Route fs (unpruned config) root names place above ∧
        ∀ name ∈ names, config.ignores name.bytes = false := by
  constructor
  · intro route
    induction route with
    | root opened => exact ⟨.root opened, nofun⟩
    | directory route real opened kept ih =>
        refine ⟨.directory ih.1 real opened (not_ignores_unpruned ..), ?_⟩
        exact List.forall_mem_append.mpr ⟨ih.2, List.forall_mem_singleton.mpr kept⟩
    | link route isLink followed opened new kept ih =>
        refine ⟨.link ih.1 isLink followed opened new (not_ignores_unpruned ..), ?_⟩
        exact List.forall_mem_append.mpr ⟨ih.2, List.forall_mem_singleton.mpr kept⟩
  · rintro ⟨route, kept⟩
    induction route with
    | root opened => exact .root opened
    | directory route real opened _ ih =>
        obtain ⟨before, last⟩ := List.forall_mem_append.mp kept
        exact .directory (ih before) real opened (last _ (List.mem_singleton_self _))
    | link route isLink followed opened new _ ih =>
        obtain ⟨before, last⟩ := List.forall_mem_append.mp kept
        exact .link (ih before) isLink followed opened new (last _ (List.mem_singleton_self _))

theorem reaches_iff {names : List Name} {name : Name} :
    Reaches fs config root names name ↔ Reaches fs (unpruned config) root names name ∧
      ∀ name ∈ names, config.ignores name.bytes = false := by
  constructor
  · rintro ⟨place, above, route, isFile⟩
    obtain ⟨route, kept⟩ := route_iff.mp route
    exact ⟨⟨place, above, route, isFile⟩, kept⟩
  · rintro ⟨⟨place, above, route, isFile⟩, kept⟩
    exact ⟨place, above, route_iff.mpr ⟨route, kept⟩, isFile⟩

theorem descend_mem_files_iff {start : Location} (opened : fs.openDirectory root = .ok start)
    (names : List Name) (name : Name) :
    root.descend (names ++ [name]) ∈ (Walk.ofRoot fs config root).files ↔
      Reaches fs config root names name := by
  rw [mem_files_iff opened]
  constructor
  · rintro ⟨names', name', reached, same⟩
    obtain ⟨rfl, last⟩ := List.append_inj' (Path.descend_injective root same) rfl
    cases last
    exact reached
  · intro reached
    exact ⟨names, name, reached, rfl⟩

/-- A walk of a directory that can be listed ends and comes upon exactly the files that a route
leads to.  The names that are left out close the routes through directories of these names, and
nothing else: neither the root's name nor a file's matters, and no other directory loses a file. -/
theorem files_of_walk {start : Location} (opened : fs.openDirectory root = .ok start) :
    ∃ n, ((State.start root).after fs config n).step fs config = none ∧
      ((State.start root).after fs config n).walk = Walk.ofRoot fs config root ∧
      (Walk.ofRoot fs config root).rootError = none ∧
      (∀ p, p ∈ (Walk.ofRoot fs config root).files ↔
        ∃ names name, Reaches fs config root names name ∧ p = root.descend (names ++ [name])) ∧
      ∀ names name,
        root.descend (names ++ [name]) ∈ (Walk.ofRoot fs config root).files ↔
          root.descend (names ++ [name]) ∈ (Walk.ofRoot fs (unpruned config) root).files ∧
            ∀ name ∈ names, config.ignores name.bytes = false := by
  obtain ⟨t, leads, ended, all⟩ := State.endsWith_ofRoot fs config root
  obtain ⟨n, rfl⟩ := leads.exists_after
  refine ⟨n, ended, all, ?_, mem_files_iff opened, ?_⟩
  · obtain ⟨before, -, all⟩ := ofRoot_of_openDirectory config opened
    rw [all]
  · intro names name
    rw [descend_mem_files_iff opened, descend_mem_files_iff opened]
    exact reaches_iff

namespace Sample

def top : Name := ⟨Utf8.encode ['r'], by decide⟩
def build : Name := ⟨Utf8.encode ['b', 'u', 'i', 'l', 'd'], by decide⟩
def kept : Name := ⟨Utf8.encode ['k'], by decide⟩
def up : Name := ⟨Utf8.encode ['u', 'p'], by decide⟩
def leaf : Name := ⟨Utf8.encode ['a', '.', 't', 's'], by decide⟩

def text : List Char := ['x', '\u202E', 'y', '\u202E']

/-- Two directories with a file in each, one of them left out, and a link back to the root. -/
def tree : FileSystem :=
  { objects :=
      [([top], .directory true true),
       ([top, build], .directory true true), ([top, build, leaf], .file (Utf8.encode text) true),
       ([top, kept], .directory true true), ([top, kept, leaf], .file (Utf8.encode text) true),
       ([top, kept, up], .link (Location.path [top]))] }

def following : Config := { Config.standard with followLinks := true }

theorem opened : tree.openDirectory (Location.path [top]) = .ok [top] := rfl

theorem reaches_leaf : Reaches tree following (Location.path [top]) [kept] leaf := by
  have route : Route tree following (Location.path [top]) [kept] [top, kept] [[top]] :=
    .directory (.root opened) rfl rfl rfl
  exact ⟨_, _, route, Or.inl ⟨Utf8.encode text, true, rfl⟩⟩

theorem met_leaf : Location.path [top, kept, leaf] ∈
    (Walk.ofRoot tree following (Location.path [top])).files :=
  (mem_files_iff opened _).mpr ⟨[kept], leaf, reaches_leaf, rfl⟩

end Sample

open Sample in
theorem files_of_walk_tree : tree.openDirectory (Location.path [top]) = .ok [top] ∧
    ∃ n, ((State.start (Location.path [top])).after tree following n).step tree following = none ∧
      Location.path [top, kept, leaf] ∈
        ((State.start (Location.path [top])).after tree following n).walk.files ∧
      Location.path [top, build, leaf] ∉
        ((State.start (Location.path [top])).after tree following n).walk.files := by
  refine ⟨opened, ?_⟩
  obtain ⟨n, ended, all, -, met, pruned⟩ := @files_of_walk tree following _ _ opened
  refine ⟨n, ended, ?_, ?_⟩
  · rw [all]
    exact (met _).mpr ⟨[kept], leaf, reaches_leaf, rfl⟩
  · rw [all]
    intro found
    have ignored := ((pruned [build] leaf).mp found).2 build (List.mem_singleton_self _)
    exact absurd ignored (by decide)

/-! ## Where events stand -/

def Event.path? : Event → Option Path
  | .file path | .pruned path | .special path | .failed path _ | .cycle path _ => some path
  | .closedTarget _ => none

/-- An event below a directory has a path that goes down from the directory's, unless the target of
a link is closed. -/
def Event.DescendsFrom (config : Config) (path : Path) (event : Event) : Prop :=
  (∃ names, event.path? = some (path.descend names)) ∨
    event.path? = none ∧ config.followLinks = true

/-- What a walk tells of an entry has the entry's path, unless the target of a link is closed. -/
theorem path?_of_visit_eq_tell {ancestors : List Ancestor} {place : Location} {name : Name}
    {path : Path} {event : Event} (told : visit fs config ancestors place name path = .tell event) :
    event.path? = some path ∨ event.path? = none ∧ config.followLinks = true := by
  simp only [visit] at told
  split at told
  · cases told
  · cases told
    exact .inl rfl
  · cases told
    exact .inl rfl
  · split at told
    · rename_i follows
      simp only [visitLink] at told
      split at told
      · cases told
        exact .inl rfl
      · cases told
        exact .inl rfl
      · split at told
        · cases told
          exact .inr ⟨rfl, follows⟩
        · split at told
          · cases told
            exact .inl rfl
          · split at told
            · cases told
              exact .inl rfl
            · cases told
      · cases told
        exact .inl rfl
    · cases told
      exact .inl rfl
  · split at told
    · cases told
      exact .inl rfl
    · split at told
      · cases told
        exact .inl rfl
      · cases told

theorem descends_of_visit_eq_tell {ancestors : List Ancestor} {place : Location} {name : Name}
    {path : Path} {event : Event} (told : visit fs config ancestors place name path = .tell event) :
    event.DescendsFrom config path := by
  rcases path?_of_visit_eq_tell told with here | closed
  · exact .inl ⟨[], here⟩
  · exact .inr closed

theorem descends_of_mem_below (ancestors : List Ancestor) (place : Location) (path : Path) :
    ∀ event ∈ below fs config ancestors place path,
      ∃ name : Name, event.DescendsFrom config (path.join name.bytes) := by
  induction ancestors, place, path using below.induct fs config with
  | case1 ancestors place path ih =>
      intro event met
      obtain ⟨name, -, met⟩ := mem_below.mp met
      refine ⟨name, ?_⟩
      rcases mem_atEntry.mp met with told | ⟨next, entered, met⟩
      · exact descends_of_visit_eq_tell told
      · obtain ⟨below, ⟨names, shown⟩ | closed⟩ := ih name next entered event met
        · exact .inl ⟨below :: names, shown⟩
        · exact .inr closed

theorem descends_of_mem_atEntry {ancestors : List Ancestor} {place : Location} {path : Path}
    {name : Name} {event : Event} (met : event ∈ atEntry fs config ancestors place path name) :
    event.DescendsFrom config (path.join name.bytes) := by
  rcases mem_atEntry.mp met with told | ⟨next, -, met⟩
  · exact descends_of_visit_eq_tell told
  · obtain ⟨below, ⟨names, shown⟩ | closed⟩ :=
      descends_of_mem_below _ next (path.join name.bytes) event met
    · exact .inl ⟨below :: names, shown⟩
    · exact .inr closed

theorem exists_descend_of_file {ancestors : List Ancestor} {place : Location} {path : Path}
    {name : Name} {p : Path} (met : .file p ∈ atEntry fs config ancestors place path name) :
    ∃ names, p = path.descend (name :: names) := by
  rcases descends_of_mem_atEntry met with ⟨names, shown⟩ | ⟨closed, -⟩
  · exact ⟨names, Option.some.inj shown⟩
  · cases closed

/-! ## No file is met twice -/

theorem below_files_nodup (ancestors : List Ancestor) (place : Location) (path : Path) :
    ((below fs config ancestors place path).filterMap Event.file?).Nodup := by
  induction ancestors, place, path using below.induct fs config with
  | case1 ancestors place path ih =>
      rw [below_eq, List.filterMap_flatMap, List.nodup_flatMap]
      constructor
      · intro name _
        rw [atEntry]
        cases visited : visit fs config ancestors place name (path.join name.bytes) with
        | pass => exact List.nodup_nil
        | tell event =>
            cases event with
            | file p => exact List.nodup_singleton p
            | _ => exact List.nodup_nil
        | enter next => exact ih name next visited
      · refine (FileSystem.names_nodup place).imp ?_
        -- A path below an entry goes through the entry's name.
        intro name other different p met met'
        obtain ⟨names, rfl⟩ := exists_descend_of_file (mem_filterMap_file?.mp met)
        obtain ⟨others, same⟩ := exists_descend_of_file (mem_filterMap_file?.mp met')
        exact different (List.cons.inj (Path.descend_injective path same)).1

theorem files_nodup {start : Location} (opened : fs.openDirectory root = .ok start) :
    (Walk.ofRoot fs config root).files.Nodup := by
  rw [files_ofRoot config opened]
  exact below_files_nodup ..

end HiddenText.Walk
