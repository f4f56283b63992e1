import HiddenText.Proofs.Walk.Route

/-! # What becomes of the entries of a tree

An entry of a directory that the walk comes to is a file, is pruned, is passed over or is failed
on, or else it is entered.  Each entry is met once: the events of a walk are those of its entries,
one for each that is not entered (`exists_labelled`). -/
set_option autoImplicit false

namespace HiddenText

def Object.isSpecial : Object → Bool
  | .pipe .. | .link _ => true
  | _ => false

namespace Walk

inductive Fate
  | file
  | pruned
  | passedOver
  | failed
  deriving DecidableEq

def Event.fate : Event → Fate
  | .file _ => .file
  | .pruned _ => .pruned
  | .special _ => .passedOver
  | .failed .. | .closedTarget _ | .cycle .. => .failed

/-- What becomes of an entry of the directory at `place`, which the walk came to through the
directories `above`. -/
inductive HasFate (fs : FileSystem) (config : Config) (place : Location) (above : List Location)
    (name : Name) (path : Path) : Fate → Prop
  | file (isFile : IsFile fs config place name path) : HasFate fs config place above name path .file
  | pipe {content readable} (there : fs.get? (place ++ [name]) = some (.pipe content readable)) :
      HasFate fs config place above name path .passedOver
  | link {target} (there : fs.get? (place ++ [name]) = some (.link target))
      (unfollowed : config.followLinks = false) :
      HasFate fs config place above name path .passedOver
  | linkToSpecial {target found object} (there : fs.get? (place ++ [name]) = some (.link target))
      (followed : config.followLinks = true) (leads : fs.stat path = .ok (found, object))
      (special : object.isSpecial = true) : HasFate fs config place above name path .passedOver
  | ignored {listable searchable}
      (there : fs.get? (place ++ [name]) = some (.directory listable searchable))
      (ignored : config.ignores name.bytes = true) : HasFate fs config place above name path .pruned
  | linkToIgnored {target found} (there : fs.get? (place ++ [name]) = some (.link target))
      (followed : config.followLinks = true) (opened : fs.openDirectory path = .ok found)
      (new : found ∉ place :: above) (ignored : config.ignores name.bytes = true) :
      HasFate fs config place above name path .pruned
  | closed {listable searchable cause}
      (there : fs.get? (place ++ [name]) = some (.directory listable searchable))
      (kept : config.ignores name.bytes = false) (closed : fs.openDirectory path = .error cause) :
      HasFate fs config place above name path .failed
  | broken {target cause} (there : fs.get? (place ++ [name]) = some (.link target))
      (followed : config.followLinks = true) (broken : fs.stat path = .error cause) :
      HasFate fs config place above name path .failed
  | linkToClosed {target found listable searchable cause}
      (there : fs.get? (place ++ [name]) = some (.link target))
      (followed : config.followLinks = true)
      (leads : fs.stat path = .ok (found, .directory listable searchable))
      (closed : fs.openDirectory path = .error cause) :
      HasFate fs config place above name path .failed
  | cycle {target found} (there : fs.get? (place ++ [name]) = some (.link target))
      (followed : config.followLinks = true) (opened : fs.openDirectory path = .ok found)
      (known : found ∈ place :: above) : HasFate fs config place above name path .failed

/-- A route leads to the directory of an entry, and this becomes of the entry.  It is given by the
names that lead to it from the root. -/
def Meets (fs : FileSystem) (config : Config) (root : Path) (fate : Fate) (names : List Name) :
    Prop :=
  ∃ front name place above, names = front ++ [name] ∧ Route fs config root front place above ∧
    HasFate fs config place above name (root.descend names) fate

/-- What a walk tells of the entries below a directory, by the names that lead to them. -/
inductive Met (fs : FileSystem) (config : Config) :
    List Ancestor → Location → Path → List Name → Event → Prop
  | here {ancestors place path name event}
      (told : visit fs config ancestors place name (path.join name.bytes) = .tell event) :
      Met fs config ancestors place path [name] event
  | deeper {ancestors place path name next names event}
      (entered : visit fs config ancestors place name (path.join name.bytes) = .enter next)
      (met : Met fs config (⟨next, path.join name.bytes⟩ :: ancestors) next
        (path.join name.bytes) names event) :
      Met fs config ancestors place path (name :: names) event

variable {fs : FileSystem} {config : Config} {root : Path} {ancestors : List Ancestor}
  {place next : Location} {above : List Location} {name : Name} {path : Path} {event : Event}
  {names : List Name} {fate : Fate}

/-! ## One entry -/

theorem hasFate_of_visitLink (inside : ancestors.map Ancestor.place = place :: above)
    {target : Path} (there : fs.get? (place ++ [name]) = some (.link target))
    (followed : config.followLinks = true)
    (told : visitLink fs config ancestors name path = .tell event) :
    HasFate fs config place above name path event.fate := by
  simp only [visitLink] at told
  split at told
  · rename_i broken
    cases told
    exact .broken there followed broken
  · rename_i leads
    cases told
    exact .file (.inr ⟨followed, ⟨_, there⟩, _, _, _, leads⟩)
  · rename_i found listable searchable leads
    split at told
    · rename_i closed
      cases told
      exact .linkToClosed there followed leads closed
    · rename_i place' opened
      obtain rfl := FileSystem.place_of_openDirectory leads opened
      split at told
      · rename_i ancestor cyclic
        cases told
        refine .cycle there followed opened ?_
        have same := List.find?_some cyclic
        rw [← of_decide_eq_true same, ← inside]
        exact List.mem_map_of_mem (List.mem_of_find?_eq_some cyclic)
      · rename_i outside
        split at told
        · rename_i ignored
          cases told
          refine .linkToIgnored there followed opened ?_ ignored
          rw [← inside]
          simpa [List.find?_eq_none] using outside
        · cases told
  · rename_i found notFile notDirectory leads
    cases told
    obtain ⟨found, object⟩ := found
    refine .linkToSpecial there followed leads ?_
    cases object with
    | file content readable => exact absurd rfl (notFile _ _ _)
    | directory listable searchable => exact absurd rfl (notDirectory _ _ _)
    | link target => rfl
    | pipe => rfl

/-- What a walk tells of an entry is what becomes of it. -/
theorem hasFate_of_visit (inside : ancestors.map Ancestor.place = place :: above)
    (told : visit fs config ancestors place name path = .tell event) :
    HasFate fs config place above name path event.fate := by
  simp only [visit] at told
  split at told
  · cases told
  · rename_i there
    cases told
    exact .file (.inl ⟨_, _, there⟩)
  · rename_i there
    cases told
    exact .pipe there
  · rename_i there
    split at told
    · rename_i followed
      exact hasFate_of_visitLink inside there followed told
    · rename_i unfollowed
      cases told
      exact .link there (Bool.eq_false_iff.mpr unfollowed)
  · rename_i there
    split at told
    · rename_i ignored
      cases told
      exact .ignored there ignored
    · rename_i kept
      split at told
      · rename_i closed
        cases told
        exact .closed there (Bool.eq_false_iff.mpr kept) closed
      · cases told

theorem exists_visit_of_hasFate (inside : ancestors.map Ancestor.place = place :: above)
    (h : HasFate fs config place above name path fate) :
    ∃ event, visit fs config ancestors place name path = .tell event ∧ event.fate = fate := by
  cases h with
  | file isFile => exact ⟨.file path, visit_eq_file_iff.mpr ⟨rfl, isFile⟩, rfl⟩
  | pipe there => exact ⟨.special path, by simp [visit, there], rfl⟩
  | link there unfollowed => exact ⟨.special path, by simp [visit, there, unfollowed], rfl⟩
  | @linkToSpecial target found object there followed leads special =>
      refine ⟨.special path, ?_, rfl⟩
      simp only [visit, there, followed, visitLink, leads]
      cases object with
      | file content readable => cases special
      | directory listable searchable => cases special
      | link target => rfl
      | pipe => rfl
  | ignored there ignored => exact ⟨.pruned path, by simp [visit, there, ignored], rfl⟩
  | @linkToIgnored target found there followed opened new ignored =>
      obtain ⟨searchable, leads⟩ := FileSystem.openDirectory_eq_ok_iff.mp opened
      have outside : ancestors.find? (·.place = found) = none := by
        rw [← inside] at new
        simpa [List.find?_eq_none] using new
      refine ⟨.pruned path, ?_, rfl⟩
      simp [visit, there, followed, visitLink, leads, opened, outside, ignored]
  | @closed listable searchable cause there kept closed =>
      exact ⟨.failed path cause, by simp [visit, there, kept, closed], rfl⟩
  | @broken target cause there followed broken =>
      exact ⟨.failed path cause, by simp [visit, there, followed, visitLink, broken], rfl⟩
  | @linkToClosed target found listable searchable cause there followed leads closed =>
      exact ⟨.closedTarget cause, by simp [visit, there, followed, visitLink, leads, closed], rfl⟩
  | @cycle target found there followed opened known =>
      obtain ⟨searchable, leads⟩ := FileSystem.openDirectory_eq_ok_iff.mp opened
      rw [← inside] at known
      obtain ⟨ancestor, listed, same⟩ := List.mem_map.mp known
      cases cyclic : ancestors.find? (·.place = found) with
      | none => exact absurd same (by simpa using List.find?_eq_none.mp cyclic ancestor listed)
      | some ancestor =>
          refine ⟨.cycle path ancestor.path, ?_, rfl⟩
          simp [visit, there, followed, visitLink, leads, opened, cyclic]

/-! ## All entries below a directory -/

/-- What is told at an entry, by the names that lead on from it. -/
theorem exists_labelled_entry
    (deeper : ∀ next,
      visit fs config ancestors place name (path.join name.bytes) = .enter next →
      ∃ told : List (List Name × Event),
        told.map Prod.snd = below fs config (⟨next, path.join name.bytes⟩ :: ancestors) next
          (path.join name.bytes) ∧
        (told.map Prod.fst).Nodup ∧
        ∀ names event, (names, event) ∈ told ↔
          Met fs config (⟨next, path.join name.bytes⟩ :: ancestors) next (path.join name.bytes)
            names event) :
    ∃ told : List (List Name × Event),
      told.map Prod.snd = atEntry fs config ancestors place path name ∧
      (told.map Prod.fst).Nodup ∧
      ∀ names event, (names, event) ∈ told ↔
        Met fs config ancestors place path (name :: names) event := by
  rw [atEntry]
  cases visited : visit fs config ancestors place name (path.join name.bytes) with
  | pass =>
      refine ⟨[], rfl, List.nodup_nil, fun names event => ⟨?_, fun met => ?_⟩⟩
      · intro known
        exact absurd known List.not_mem_nil
      · cases met with
        | here told => cases visited.symm.trans told
        | deeper entered _ => cases visited.symm.trans entered
  | tell event =>
      refine ⟨[([], event)], rfl, List.nodup_singleton _, fun names event' => ⟨?_, fun met => ?_⟩⟩
      · intro known
        cases List.mem_singleton.mp known
        exact .here visited
      · cases met with
        | here told =>
            cases visited.symm.trans told
            exact List.mem_singleton_self _
        | deeper entered _ => cases visited.symm.trans entered
  | enter next =>
      obtain ⟨told, events, once, mem⟩ := deeper next visited
      refine ⟨told, events, once, fun names event => ⟨?_, fun met => ?_⟩⟩
      · intro known
        exact .deeper visited ((mem names event).mp known)
      · cases met with
        | here told => cases visited.symm.trans told
        | deeper entered met =>
            cases visited.symm.trans entered
            exact (mem names event).mpr met

/-- The events below a directory are those of its entries, one for each that something is told
of. -/
theorem exists_labelled (ancestors : List Ancestor) (place : Location) (path : Path) :
    ∃ told : List (List Name × Event),
      told.map Prod.snd = below fs config ancestors place path ∧ (told.map Prod.fst).Nodup ∧
      ∀ names event, (names, event) ∈ told ↔
        Met fs config ancestors place path names event := by
  induction ancestors, place, path using below.induct fs config with
  | case1 ancestors place path ih =>
      choose labelled events once mem using fun name =>
        @exists_labelled_entry fs config ancestors place name path (ih name)
      refine ⟨(fs.names place).flatMap fun name =>
        (labelled name).map fun told => (name :: told.1, told.2), ?_, ?_, ?_⟩
      · rw [below_eq, List.map_flatMap]
        congr 1
        funext name
        rw [List.map_map, ← events name]
        rfl
      · rw [List.map_flatMap, List.nodup_flatMap]
        constructor
        · intro name _
          have prefixed := (once name).map (List.cons_injective (a := name))
          rw [List.map_map] at prefixed ⊢
          exact prefixed
        · refine (FileSystem.names_nodup place).imp ?_
          intro name other different names known known'
          simp only [List.map_map, List.mem_map, Function.comp] at known known'
          obtain ⟨_, -, rfl⟩ := known
          obtain ⟨_, -, same⟩ := known'
          exact different (List.cons.inj same).1.symm
      · intro names event
        rw [List.mem_flatMap]
        constructor
        · intro known
          obtain ⟨name, -, known⟩ := known
          obtain ⟨told, listed, same⟩ := List.mem_map.mp known
          cases same
          exact (mem name told.1 told.2).mp listed
        · intro met
          cases met with
          | @here _ _ _ name _ told =>
              refine ⟨name, mem_names_of_visit (by rw [told]; intro same; cases same), ?_⟩
              exact List.mem_map.mpr ⟨([], event), (mem name [] event).mpr (.here told), rfl⟩
          | @deeper _ _ _ name next rest _ entered met =>
              refine ⟨name, mem_names_of_visit (by rw [entered]; intro same; cases same), ?_⟩
              exact List.mem_map.mpr
                ⟨(rest, event), (mem name rest event).mpr (.deeper entered met), rfl⟩

/-! ## All entries of a tree -/

theorem Met.meets (met : Met fs config ancestors place path names event) :
    ∀ {front : List Name} {above : List Location}, Route fs config root front place above →
      ancestors.map Ancestor.place = place :: above → path = root.descend front →
      Meets fs config root event.fate (front ++ names) ∧
        (event.path? = some (root.descend (front ++ names)) ∨ event.path? = none) := by
  induction met with
  | @here ancestors place path name event told =>
      intro front above route inside here
      rw [here, ← Path.descend_concat] at told
      refine ⟨⟨front, name, place, above, rfl, route, hasFate_of_visit inside told⟩, ?_⟩
      exact (path?_of_visit_eq_tell told).imp_right And.left
  | @deeper ancestors place path name next names event entered _ ih =>
      intro front above route inside here
      rw [here, ← Path.descend_concat] at entered
      have down : path.join name.bytes = root.descend (front ++ [name]) := by
        rw [here, Path.descend_concat]
      have further := ih (route.enter inside entered) (congrArg _ inside) down
      rwa [List.append_assoc] at further

theorem exists_met_of_meets (h : Meets fs config root fate names) :
    ∃ start event, fs.openDirectory root = .ok start ∧
      Met fs config [⟨start, root⟩] start root names event ∧ event.fate = fate := by
  obtain ⟨front, name, place, above, rfl, route, fated⟩ := h
  obtain ⟨ancestors, inside, start, opened, carried⟩ := route.carries
    (fun ancestors place front => ∃ start, fs.openDirectory root = .ok start ∧
      ∀ names event, Met fs config ancestors place (root.descend front) names event →
        Met fs config [⟨start, root⟩] start root (front ++ names) event)
    (fun start opened => ⟨start, opened, fun _ _ met => met⟩) (by
      intro ancestors place front name next here entered
      obtain ⟨start, opened, carried⟩ := here
      refine ⟨start, opened, fun names event met => ?_⟩
      rw [Path.descend_concat] at entered met
      rw [List.append_assoc]
      exact carried _ event (.deeper entered met))
  obtain ⟨event, told, same⟩ := exists_visit_of_hasFate inside fated
  rw [Path.descend_concat] at told
  exact ⟨start, event, opened, carried _ event (.here told), same⟩

/-- Events with the entries that they are about: of each entry that is not entered there is one
event, and it tells what becomes of the entry. -/
structure Accounts (fs : FileSystem) (config : Config) (root : Path)
    (told : List (List Name × Event)) (events : List Event) : Prop where
  events : told.map Prod.snd = events
  once : (told.map Prod.fst).Nodup
  meets : ∀ {names event}, (names, event) ∈ told → Meets fs config root event.fate names
  path? : ∀ {names event}, (names, event) ∈ told →
    event.path? = some (root.descend names) ∨ event.path? = none
  complete : ∀ {fate names}, Meets fs config root fate names →
    ∃ event, (names, event) ∈ told ∧ event.fate = fate

theorem exists_accounts {start : Location} (opened : fs.openDirectory root = .ok start) :
    ∃ told, Accounts fs config root told (below fs config [⟨start, root⟩] start root) := by
  obtain ⟨told, events, once, mem⟩ :=
    @exists_labelled fs config [⟨start, root⟩] start root
  have sound : ∀ {names event}, (names, event) ∈ told →
      Meets fs config root event.fate names ∧
        (event.path? = some (root.descend names) ∨ event.path? = none) :=
    fun known => ((mem _ _).mp known).meets (.root opened) rfl rfl
  refine ⟨told, events, once, fun known => (sound known).1, fun known => (sound known).2, ?_⟩
  intro fate names meets
  obtain ⟨start', event, opened', met, same⟩ := exists_met_of_meets meets
  cases opened.symm.trans opened'
  exact ⟨event, (mem _ _).mpr met, same⟩

/-! ## The entries of one fate -/

structure Fate.ToldAs (fate : Fate) (write : Path → Event) : Prop where
  fate_eq : ∀ path, (write path).fate = fate
  path?_eq : ∀ path, (write path).path? = some path
  eq_write : ∀ {event path}, event.fate = fate →
    event.path? = some path ∨ event.path? = none → event = write path

theorem toldAs_file : Fate.file.ToldAs .file := by
  refine ⟨fun _ => rfl, fun _ => rfl, fun {event path} same shown => ?_⟩
  cases event <;> simp [Event.fate, Event.path?] at same shown ⊢
  exact shown

theorem toldAs_pruned : Fate.pruned.ToldAs .pruned := by
  refine ⟨fun _ => rfl, fun _ => rfl, fun {event path} same shown => ?_⟩
  cases event <;> simp [Event.fate, Event.path?] at same shown ⊢
  exact shown

theorem toldAs_special : Fate.passedOver.ToldAs .special := by
  refine ⟨fun _ => rfl, fun _ => rfl, fun {event path} same shown => ?_⟩
  cases event <;> simp [Event.fate, Event.path?] at same shown ⊢
  exact shown

def entriesOf (told : List (List Name × Event)) (fate : Fate) : List (List Name) :=
  (told.filter (·.2.fate = fate)).map Prod.fst

namespace Accounts

variable {told : List (List Name × Event)} {events : List Event} {write : Path → Event}
  (h : Accounts fs config root told events)
include h

theorem nodup_entriesOf (fate : Fate) : (entriesOf told fate).Nodup :=
  h.once.sublist (List.filter_sublist.map Prod.fst)

theorem mem_entriesOf_iff : names ∈ entriesOf told fate ↔ Meets fs config root fate names := by
  simp only [entriesOf, List.mem_map, List.mem_filter, decide_eq_true_eq]
  constructor
  · intro listed
    obtain ⟨⟨names, event⟩, ⟨known, rfl⟩, rfl⟩ := listed
    exact h.meets known
  · intro meets
    obtain ⟨event, known, same⟩ := h.complete meets
    exact ⟨(names, event), ⟨known, same⟩, rfl⟩

theorem length_entriesOf (fate : Fate) :
    (entriesOf told fate).length = events.countP (·.fate = fate) := by
  rw [entriesOf, List.length_map, ← List.countP_eq_length_filter, ← h.events, List.countP_map]
  rfl

theorem filter_events (as : fate.ToldAs write) :
    events.filter (·.fate = fate) =
      (entriesOf told fate).map fun names => write (root.descend names) := by
  rw [← h.events, List.filter_map, entriesOf, List.map_map]
  apply List.map_congr_left
  intro entry listed
  obtain ⟨known, same⟩ := List.mem_filter.mp listed
  exact as.eq_write (of_decide_eq_true same) (h.path? known)

theorem filter_path? (as : fate.ToldAs write) (meets : Meets fs config root fate names) :
    events.filter (·.path? = some (root.descend names)) = [write (root.descend names)] := by
  obtain ⟨event, known, same⟩ := h.complete meets
  obtain rfl := as.eq_write same (h.path? known)
  have shown : ∀ entry ∈ told.filter (·.2.path? = some (root.descend names)),
      entry = (names, write (root.descend names)) := by
    intro entry listed
    obtain ⟨known', here⟩ := List.mem_filter.mp listed
    have named : entry.1 = names := by
      rcases h.path? known' with path | closed
      · have same := path.symm.trans (of_decide_eq_true here)
        exact Path.descend_injective root (Option.some.inj same)
      · rw [of_decide_eq_true here] at closed
        cases closed
    exact List.inj_on_of_nodup_map h.once known' known named
  have single : told.filter (·.2.path? = some (root.descend names)) =
      [(names, write (root.descend names))] := by
    apply List.perm_singleton.mp
    rw [List.perm_ext_iff_of_nodup ((List.Nodup.of_map _ h.once).filter _) (List.nodup_singleton _)]
    intro entry
    rw [List.mem_singleton]
    constructor
    · exact shown entry
    · rintro rfl
      exact List.mem_filter.mpr ⟨known, decide_eq_true (as.path?_eq _)⟩
  rw [← h.events, List.filter_map]
  exact congrArg (List.map Prod.snd) single

theorem exists_meets_of_mem (as : fate.ToldAs write) (known : write path ∈ events) :
    ∃ names, Meets fs config root fate names ∧ path = root.descend names := by
  have listed : write path ∈ events.filter (·.fate = fate) :=
    List.mem_filter.mpr ⟨known, decide_eq_true (as.fate_eq _)⟩
  rw [h.filter_events as] at listed
  obtain ⟨names, listed, same⟩ := List.mem_map.mp listed
  have shown := congrArg Event.path? same
  rw [as.path?_eq, as.path?_eq] at shown
  exact ⟨names, h.mem_entriesOf_iff.mp listed, (Option.some.inj shown).symm⟩

theorem filterMap_file? :
    events.filterMap Event.file? = (entriesOf told .file).map root.descend := by
  have onlyFiles : events.filterMap Event.file? =
      (events.filter (·.fate = .file)).filterMap Event.file? := by
    rw [List.filterMap_filter]
    congr 1
    funext event
    cases event <;> rfl
  rw [onlyFiles, h.filter_events toldAs_file, List.filterMap_map]
  exact congrFun List.filterMap_eq_map' _

end Accounts

theorem errors_eq_length {told : List (List Name × Event)} {before events : List Event}
    (h : Accounts fs config root told events) (front : before = [] ∨ before = [.special root]) :
    Walk.errors { events := before ++ events } = (entriesOf told .failed).length := by
  have failing : Event.isFailure = fun event => decide (event.fate = .failed) := by
    funext event
    cases event <;> rfl
  have sound : before.countP Event.isFailure = 0 := by
    rcases front with rfl | rfl <;> rfl
  rw [h.length_entriesOf, errors, List.countP_append, sound, Nat.zero_add, failing]

/-- The errors of a walk are as many as the entries below the root that it fails on, whatever the
root is. -/
theorem exists_failed (fs : FileSystem) (config : Config) (root : Path) :
    ∃ failed : List (List Name), failed.Nodup ∧
      (∀ names, names ∈ failed ↔ Meets fs config root .failed names) ∧
      (Walk.ofRoot fs config root).errors = failed.length := by
  cases opened : fs.openDirectory root with
  | ok start =>
      obtain ⟨told, accounts⟩ := @exists_accounts fs config root start opened
      obtain ⟨before, front, all⟩ := ofRoot_of_openDirectory config opened
      refine ⟨entriesOf told .failed, accounts.nodup_entriesOf _,
        fun _ => accounts.mem_entriesOf_iff, ?_⟩
      rw [all, errors_eq_length accounts front]
  | error cause =>
      refine ⟨[], List.nodup_nil, fun names => ⟨nofun, fun meets => ?_⟩, ?_⟩
      · obtain ⟨start, event, opened', -⟩ := exists_met_of_meets meets
        cases opened.symm.trans opened'
      · rw [errors]
        rcases events_ofRoot_of_error config opened with nothing | file | special
        · rw [nothing]
          rfl
        · rw [file]
          rfl
        · rw [special]
          rfl

end Walk
end HiddenText
