import HiddenText.Proofs.FileSystem.Entries
import HiddenText.Proofs.FileSystem.Unlisted
import HiddenText.Proofs.Walk.Route

/-! # Walking past a directory that cannot be listed

Without the permission to list a directory that it entered before, a walk that follows no links
meets the same as before, but for one failure in the place of all that it met below that directory
(`exists_split_ofRoot`).  The directory is found on its way down the route that leads to it, and
nothing beside this route is touched. -/
set_option autoImplicit false

namespace HiddenText.Walk

variable {fs : FileSystem} {config : Config} {ancestors : List Ancestor}
  {place directory : Location} {path root : Path} {name : Name} {names : List Name}
  {above : List Location} {listable searchable : Bool}

theorem ne_of_concat_isPrefix (onWay : place ++ [name] <+: directory) : place ≠ directory := by
  rintro rfl
  have longer := onWay.length_le
  rw [List.length_append, List.length_singleton] at longer
  omega

/-! ## Beside the directory -/

/-- A directory that is entered is the entry itself, and the path leads there. -/
theorem stat_of_visit_eq_enter (unfollowed : config.followLinks = false)
    (here : fs.stat path = .ok (place, .directory listable searchable)) {next : Location}
    (entered : visit fs config ancestors place name (path.join name.bytes) = .enter next) :
    next = place ++ [name] ∧ ∃ searchable',
      fs.stat (path.join name.bytes) = .ok (place ++ [name], .directory true searchable') := by
  obtain ⟨-, ⟨listable', searchable', found, there, opened, rfl⟩ | ⟨followed, -⟩⟩ :=
    visit_eq_enter_iff.mp entered
  · obtain ⟨searchable'', isDirectory⟩ := FileSystem.openDirectory_eq_ok_iff.mp opened
    obtain ⟨rfl, -⟩ := FileSystem.eq_of_object_entry here there nofun isDirectory
    exact ⟨rfl, searchable'', isDirectory⟩
  · rw [unfollowed] at followed
    cases followed

theorem visit_unlist (unfollowed : config.followLinks = false)
    (here : fs.stat path = .ok (place, .directory listable searchable))
    (outer : place ≠ directory) (other : place ++ [name] ≠ directory) :
    visit (fs.unlist directory) config ancestors place name (path.join name.bytes) =
      visit fs config ancestors place name (path.join name.bytes) := by
  have here' := FileSystem.stat_unlist_of_ne outer here
  have same : (fs.unlist directory).get? (place ++ [name]) = fs.get? (place ++ [name]) :=
    FileSystem.get?_unlist_of_ne other
  simp only [visit, same, unfollowed]
  cases there : fs.get? (place ++ [name]) with
  | none => rfl
  | some object =>
      cases object with
      | file content readable => rfl
      | pipe => rfl
      | link target => rfl
      | directory listable' searchable' =>
          simp only
          rw [FileSystem.openDirectory_entry here there,
            FileSystem.openDirectory_entry here' (same.trans there)]

theorem atEntry_unlist (unfollowed : config.followLinks = false)
    (here : fs.stat path = .ok (place, .directory listable searchable))
    (outer : place ≠ directory) (other : place ++ [name] ≠ directory)
    (deeper : ∀ next,
      visit fs config ancestors place name (path.join name.bytes) = .enter next →
      below (fs.unlist directory) config (⟨next, path.join name.bytes⟩ :: ancestors) next
          (path.join name.bytes) =
        below fs config (⟨next, path.join name.bytes⟩ :: ancestors) next
          (path.join name.bytes)) :
    atEntry (fs.unlist directory) config ancestors place path name =
      atEntry fs config ancestors place path name := by
  rw [atEntry, atEntry, visit_unlist unfollowed here outer other]
  cases visited : visit fs config ancestors place name (path.join name.bytes) with
  | pass => rfl
  | tell event => rfl
  | enter next => exact deeper next visited

/-- What is met below a directory stays the same if the other one is not there. -/
theorem below_unlist (unfollowed : config.followLinks = false) (ancestors : List Ancestor)
    (place : Location) (path : Path) :
    ¬ place <+: directory →
      (∃ listable searchable, fs.stat path = .ok (place, .directory listable searchable)) →
      below (fs.unlist directory) config ancestors place path =
        below fs config ancestors place path := by
  induction ancestors, place, path using below.induct fs config with
  | case1 ancestors place path ih =>
      rintro apart ⟨listable, searchable, here⟩
      have further : ∀ name : Name, ¬ place ++ [name] <+: directory :=
        fun name onWay => apart ((List.prefix_append place [name]).trans onWay)
      have outer : place ≠ directory := fun same => apart (same ▸ List.prefix_refl _)
      rw [below_eq, below_eq, FileSystem.names_unlist]
      congr 1
      funext name
      have other : place ++ [name] ≠ directory :=
        fun same => further name (same ▸ List.prefix_refl _)
      refine atEntry_unlist unfollowed here outer other fun next entered => ?_
      obtain ⟨rfl, reached⟩ := stat_of_visit_eq_enter unfollowed here entered
      exact ih name _ entered (further name) ⟨true, reached⟩

/-! ## On the way to the directory -/

/-- On the way to the directory only the next entry on the way changes. -/
theorem exists_split_below (unfollowed : config.followLinks = false)
    (here : fs.stat path = .ok (place, .directory listable searchable))
    (listed : name ∈ fs.names place) (onWay : place ++ [name] <+: directory)
    (ancestors : List Ancestor) :
    ∃ before after,
      below fs config ancestors place path =
        before ++ atEntry fs config ancestors place path name ++ after ∧
      below (fs.unlist directory) config ancestors place path =
        before ++ atEntry (fs.unlist directory) config ancestors place path name ++ after ∧
      ∀ event ∈ before ++ after, ∃ other more, other ≠ name ∧
        event.path? = some (path.descend (other :: more)) := by
  have outer := ne_of_concat_isPrefix onWay
  obtain ⟨rest, led⟩ := onWay
  obtain ⟨front, back, split⟩ := List.append_of_mem listed
  have nodup : (front ++ name :: back).Nodup := split ▸ FileSystem.names_nodup place
  have siblings : ∀ other ∈ front ++ back, other ≠ name := by
    rintro other known rfl
    exact (List.nodup_middle.mp nodup).notMem known
  have beside : ∀ other ∈ front ++ back,
      atEntry (fs.unlist directory) config ancestors place path other =
        atEntry fs config ancestors place path other := by
    intro other known
    have apart : ¬ place ++ [other] <+: directory := by
      rw [← led, List.append_assoc, List.prefix_append_right_inj, List.singleton_append,
        List.cons_prefix_cons]
      exact fun same => siblings other known same.1
    have different : place ++ [other] ≠ directory :=
      fun same => apart (same ▸ List.prefix_refl _)
    refine atEntry_unlist unfollowed here outer different fun next entered => ?_
    obtain ⟨rfl, reached⟩ := stat_of_visit_eq_enter unfollowed here entered
    exact below_unlist unfollowed _ _ _ apart ⟨true, reached⟩
  refine ⟨front.flatMap (atEntry fs config ancestors place path),
    back.flatMap (atEntry fs config ancestors place path), ?_, ?_, ?_⟩
  · rw [below_eq, split, List.flatMap_append, List.flatMap_cons, List.append_assoc]
  · rw [below_eq, FileSystem.names_unlist, split, List.flatMap_append, List.flatMap_cons,
      List.append_assoc,
      List.flatMap_congr fun other known => beside other (List.mem_append_left _ known),
      List.flatMap_congr fun other known => beside other (List.mem_append_right _ known)]
  · intro event met
    rw [← List.flatMap_append] at met
    obtain ⟨other, known, met⟩ := List.mem_flatMap.mp met
    obtain ⟨more, shown⟩ | ⟨-, followed⟩ := descends_of_mem_atEntry met
    · exact ⟨other, more, siblings other known, shown⟩
    · rw [unfollowed] at followed
      cases followed

theorem Route.stat_eq (unfollowed : config.followLinks = false)
    (route : Route fs config root names place above) :
    ∃ searchable, fs.stat (root.descend names) = .ok (place, .directory true searchable) := by
  induction route with
  | root opened => exact FileSystem.openDirectory_eq_ok_iff.mp opened
  | @directory names place above name listable searchable found route real opened kept ih =>
      obtain ⟨searchable', here⟩ := ih
      rw [Path.descend_concat] at opened ⊢
      have entered := visit_eq_enter_of_directory [] real opened kept
      exact (stat_of_visit_eq_enter unfollowed here entered).2
  | link route isLink followed opened new kept ih =>
      rw [unfollowed] at followed
      cases followed

theorem Route.place_eq (unfollowed : config.followLinks = false) {start : Location}
    (opened : fs.openDirectory root = .ok start)
    (route : Route fs config root names place above) : place = start ++ names := by
  induction route with
  | root opened' =>
      cases opened.symm.trans opened'
      exact (List.append_nil _).symm
  | directory route real opened kept ih => rw [ih, List.append_assoc]
  | link route isLink followed opened new kept ih =>
      rw [unfollowed] at followed
      cases followed

def Event.StandsBeside (root : Path) (names : List Name) (event : Event) : Prop :=
  ∃ others, event.path? = some (root.descend others) ∧ ¬ names <+: others

def SplitsAround (root : Path) (names : List Name) (met met' inside inside' : List Event) : Prop :=
  ∃ before after, met = before ++ inside ++ after ∧ met' = before ++ inside' ++ after ∧
    ∀ event ∈ before ++ after, event.StandsBeside root names

theorem SplitsAround.prepend {met met' inside inside' first : List Event}
    (split : SplitsAround root names met met' inside inside')
    (atRoot : ∀ event ∈ first, event.path? = some root) (proper : names ≠ []) :
    SplitsAround root names (first ++ met) (first ++ met') inside inside' := by
  obtain ⟨before, after, rfl, rfl, beside⟩ := split
  refine ⟨first ++ before, after, by simp only [List.append_assoc],
    by simp only [List.append_assoc], ?_⟩
  intro event known
  rw [List.append_assoc, List.mem_append] at known
  rcases known with early | known
  · exact ⟨[], atRoot event early, fun onWay => proper (List.prefix_nil.mp onWay)⟩
  · exact beside event known

theorem SplitsAround.entry {met met' : List Event} (unfollowed : config.followLinks = false)
    (split : SplitsAround root names met met'
      (below fs config ancestors place (root.descend names))
      (below (fs.unlist directory) config ancestors place (root.descend names)))
    (here : fs.stat (root.descend names) = .ok (place, .directory listable searchable))
    (listed : name ∈ fs.names place) (onWay : place ++ [name] <+: directory) :
    SplitsAround root (names ++ [name]) met met'
      (atEntry fs config ancestors place (root.descend names) name)
      (atEntry (fs.unlist directory) config ancestors place (root.descend names) name) := by
  obtain ⟨before, after, rfl, rfl, beside⟩ := split
  obtain ⟨before', after', parts, parts', siblings⟩ :=
    exists_split_below unfollowed here listed onWay ancestors
  refine ⟨before ++ before', after' ++ after, ?_, ?_, ?_⟩
  · rw [parts]
    simp only [List.append_assoc]
  · rw [parts']
    simp only [List.append_assoc]
  · intro event known
    have known' : event ∈ before ++ after ∨ event ∈ before' ++ after' := by
      simp only [List.mem_append] at known ⊢
      tauto
    rcases known' with outside | sibling
    · obtain ⟨others, shown, apart⟩ := beside event outside
      exact ⟨others, shown, fun onWay => apart ((List.prefix_append _ _).trans onWay)⟩
    · obtain ⟨other, more, different, shown⟩ := siblings event sibling
      refine ⟨names ++ other :: more, ?_, ?_⟩
      · rw [shown, Path.descend_append]
      · rw [List.prefix_append_right_inj, List.cons_prefix_cons]
        exact fun same => different same.1.symm

/-- Down a route nothing changes but what is met at the next entry on the way to the directory. -/
theorem splitsAround_of_route (unfollowed : config.followLinks = false) {start : Location}
    (isOpen : fs.openDirectory root = .ok start)
    (route : Route fs config root names place above) {object : Object}
    (there : fs.get? (place ++ [name]) = some object) (onWay : place ++ [name] <+: directory) :
    ∃ ancestors, SplitsAround root (names ++ [name])
      (below fs config [⟨start, root⟩] start root)
      (below (fs.unlist directory) config [⟨start, root⟩] start root)
      (atEntry fs config ancestors place (root.descend names) name)
      (atEntry (fs.unlist directory) config ancestors place (root.descend names) name) := by
  have listed : ∀ {place : Location} {name : Name} {object : Object},
      fs.get? (place ++ [name]) = some object → name ∈ fs.names place :=
    fun there => FileSystem.mem_names.mpr (Option.ne_none_iff_exists'.mpr ⟨_, there⟩)
  induction route generalizing name object with
  | root opened =>
      cases isOpen.symm.trans opened
      obtain ⟨searchable, here⟩ := FileSystem.openDirectory_eq_ok_iff.mp isOpen
      have unsplit : SplitsAround root [] (below fs config [⟨start, root⟩] start root)
          (below (fs.unlist directory) config [⟨start, root⟩] start root)
          (below fs config [⟨start, root⟩] start root)
          (below (fs.unlist directory) config [⟨start, root⟩] start root) :=
        ⟨[], [], by simp, by simp, List.forall_mem_nil _⟩
      exact ⟨_, unsplit.entry unfollowed here (listed there) onWay⟩
  | @directory names place above last listable searchable found route real opened kept ih =>
      obtain ⟨searchable', here⟩ := (Route.directory route real opened kept).stat_eq unfollowed
      obtain ⟨searchable'', outer⟩ := route.stat_eq unfollowed
      have inside : place ++ [last] <+: directory := (List.prefix_append _ _).trans onWay
      obtain ⟨ancestors, split⟩ := ih real inside
      rw [Path.descend_concat] at opened
      have entered := visit_eq_enter_of_directory ancestors real opened kept
      have entered' := (visit_unlist unfollowed outer (ne_of_concat_isPrefix inside)
        (ne_of_concat_isPrefix onWay)).trans entered
      rw [atEntry, atEntry, entered, entered', eventsOf, eventsOf, ← Path.descend_concat] at split
      exact ⟨_, split.entry unfollowed here (listed there) onWay⟩
  | link route isLink followed opened new kept ih =>
      rw [unfollowed] at followed
      cases followed

/-! ## At the directory -/

theorem visit_unlist_self (ancestors : List Ancestor)
    (real : fs.get? (place ++ [name]) = some (.directory listable searchable))
    (opened : fs.openDirectory path = .ok (place ++ [name]))
    (kept : config.ignores name.bytes = false) :
    visit (fs.unlist (place ++ [name])) config ancestors place name path =
      .tell (.failed path .permissionDenied) := by
  simp only [visit, FileSystem.get?_unlist_self real, kept, Bool.false_eq_true, if_false,
    FileSystem.openDirectory_unlist_self opened]

theorem ofDirectory_of_openDirectory {start : Location} (opened : fs.openDirectory root = .ok start)
    (before : List Event) : Walk.ofDirectory fs config root before =
      { events := before ++ below fs config [⟨start, root⟩] start root } := by
  rw [Walk.ofDirectory, opened]

/-- The walks of a root that is not the directory itself begin in the same way. -/
theorem exists_ofRoot_unlist (unfollowed : config.followLinks = false) {start : Location}
    (opened : fs.openDirectory root = .ok start) (outer : start ≠ directory) :
    ∃ before, (∀ event ∈ before, event.path? = some root) ∧
      Walk.ofRoot fs config root =
        { events := before ++ below fs config [⟨start, root⟩] start root } ∧
      Walk.ofRoot (fs.unlist directory) config root =
        { events := before ++ below (fs.unlist directory) config [⟨start, root⟩] start root } := by
  obtain ⟨searchable, found⟩ := FileSystem.openDirectory_eq_ok_iff.mp opened
  have found' := FileSystem.stat_unlist_of_ne outer found
  have opened' := FileSystem.openDirectory_unlist_of_ne outer opened
  have looked : (fs.unlist directory).object false root = fs.object false root := by
    rcases FileSystem.object_unlist fs directory false root with same | ⟨_, _, isDirectory, -⟩
    · exact same
    · have reached : fs.stat root = _ := FileSystem.object_of_lstat isDirectory nofun true
      rw [found] at reached
      cases reached
      exact absurd rfl outer
  rw [Walk.ofRoot, Walk.ofRoot, unfollowed, looked, found, found']
  rcases FileSystem.stat_eq_lstat fs root with same | ⟨at_, target, isLink⟩
  · rw [show fs.object false root = .ok (start, .directory true searchable) from
      same.symm.trans found]
    exact ⟨[], List.forall_mem_nil _, ofDirectory_of_openDirectory opened [],
      ofDirectory_of_openDirectory opened' []⟩
  · rw [show fs.object false root = .ok (at_, .link target) from isLink]
    exact ⟨[.special root], by simp [Event.path?],
      ofDirectory_of_openDirectory opened [.special root],
      ofDirectory_of_openDirectory opened' [.special root]⟩

/-- Without the permission to list a directory that it enters, a walk meets one failure in the place
of all that it met below the directory, and nothing else changes. -/
theorem exists_split_ofRoot (unfollowed : config.followLinks = false)
    (route : Route fs config root names directory above) (proper : names ≠ []) :
    (Walk.ofRoot (fs.unlist directory) config root).rootError = none ∧ ∃ inside,
      SplitsAround root names (Walk.ofRoot fs config root).events
        (Walk.ofRoot (fs.unlist directory) config root).events inside
        [.failed (root.descend names) .permissionDenied] ∧
      ∀ event ∈ inside, ∃ name more,
        event.path? = some (root.descend (names ++ name :: more)) := by
  obtain ⟨start, -, isOpen, -⟩ := below_subset_of_route route
  have startOuter : start ≠ directory := by
    rw [route.place_eq unfollowed isOpen]
    exact fun same => proper (List.append_right_eq_self.mp same.symm)
  cases route with
  | root opened => exact absurd rfl proper
  | link route isLink followed opened new kept =>
      rw [unfollowed] at followed
      cases followed
  | @directory names place above name listable searchable found route real opened kept =>
      obtain ⟨ancestors, split⟩ := splitsAround_of_route unfollowed isOpen route real
        (List.prefix_refl _)
      obtain ⟨searchable', here⟩ := (Route.directory route real opened kept).stat_eq unfollowed
      obtain rfl := FileSystem.place_of_openDirectory here opened
      rw [Path.descend_concat] at opened
      have entered := visit_eq_enter_of_directory ancestors real opened kept
      have failed := visit_unlist_self ancestors real opened kept
      rw [atEntry, atEntry, entered, failed, eventsOf, eventsOf, ← Path.descend_concat] at split
      obtain ⟨before, first, all, all'⟩ := exists_ofRoot_unlist unfollowed isOpen startOuter
      rw [all, all']
      refine ⟨rfl, _, split.prepend first (List.concat_ne_nil _ _), ?_⟩
      intro event met
      obtain ⟨next, ⟨more, shown⟩ | ⟨-, followed⟩⟩ := descends_of_mem_below _ _ _ event met
      · refine ⟨next, more, ?_⟩
        rw [shown, Path.descend_append root (names ++ [name])]
        rfl
      · rw [unfollowed] at followed
        cases followed

/-! ## Files and failures -/

def Event.isBelow (directory : Path) (event : Event) : Bool :=
  event.path?.any fun p => decide (directory.IsBelow p)

def errorsBelow (w : Walk) (directory : Path) : Nat :=
  w.events.countP fun event => event.isFailure && event.isBelow directory

theorem Event.path?_of_file? {event : Event} {p : Path} (isFile : event.file? = some p) :
    event.path? = some p := by
  cases event <;> cases isFile
  rfl

theorem Event.StandsBeside.isBelow_eq {event : Event} (beside : event.StandsBeside root names)
    (proper : names ≠ []) : event.isBelow (root.descend names) = false := by
  obtain ⟨others, shown, apart⟩ := beside
  rw [isBelow, shown, Option.any_some, decide_eq_false_iff_not,
    Path.isBelow_descend_iff root proper]
  rintro ⟨name, more, rfl⟩
  exact apart (List.prefix_append _ _)

theorem Event.isBelow_of_path? {event : Event} (proper : names ≠ []) {more : List Name}
    (shown : event.path? = some (root.descend (names ++ name :: more))) :
    event.isBelow (root.descend names) = true := by
  rw [isBelow, shown, Option.any_some, decide_eq_true_eq, Path.isBelow_descend_iff root proper]
  exact ⟨name, more, rfl⟩

theorem isBelow_of_mem_files {events : List Event} {directory p : Path} {below : Bool}
    (all : ∀ event ∈ events, event.isBelow directory = below)
    (met : p ∈ events.filterMap Event.file?) : decide (directory.IsBelow p) = below := by
  obtain ⟨event, known, isFile⟩ := List.mem_filterMap.mp met
  have here := all event known
  rwa [Event.isBelow, Event.path?_of_file? isFile, Option.any_some] at here

section

variable {walk walk' : Walk} {before inside after : List Event} {cause : IoError} {d : Path}
  (met : walk.events = before ++ inside ++ after)
  (met' : walk'.events = before ++ [.failed d cause] ++ after)
  (beside : ∀ event ∈ before ++ after, event.isBelow d = false)
  (within : ∀ event ∈ inside, event.isBelow d = true)
include met met' beside within

theorem files_of_split : walk'.files = walk.files.filter fun p => ¬ d.IsBelow p := by
  obtain ⟨early, late⟩ := List.forall_mem_append.mp beside
  have kept : ∀ {events : List Event}, (∀ event ∈ events, event.isBelow d = false) →
      (events.filterMap Event.file?).filter (fun p => ¬ d.IsBelow p) =
        events.filterMap Event.file? := by
    intro events outside
    rw [List.filter_eq_self]
    intro p known
    simpa using isBelow_of_mem_files outside known
  have lost : (inside.filterMap Event.file?).filter (fun p => ¬ d.IsBelow p) = [] := by
    rw [List.filter_eq_nil_iff]
    intro p known
    simpa using isBelow_of_mem_files within known
  rw [files, files, met, met']
  simp only [List.filterMap_append, List.filter_append, kept early, kept late, lost]
  rfl

theorem errors_of_split : walk'.errors + walk.errorsBelow d = walk.errors + 1 := by
  obtain ⟨early, late⟩ := List.forall_mem_append.mp beside
  have none : ∀ {events : List Event}, (∀ event ∈ events, event.isBelow d = false) →
      events.countP (fun event => event.isFailure && event.isBelow d) = 0 := by
    intro events outside
    rw [List.countP_eq_zero]
    intro event known
    simp [outside event known]
  have all : inside.countP (fun event => event.isFailure && event.isBelow d) =
      inside.countP Event.isFailure := by
    refine List.countP_congr fun event known => ?_
    simp [within event known]
  have failure : [Event.failed d cause].countP Event.isFailure = 1 := rfl
  rw [errors, errors, errorsBelow, met, met']
  simp only [List.countP_append, none early, none late, all, failure]
  omega

end

end HiddenText.Walk
