import HiddenText.Proofs.Walk.Fate

/-! # Failures at the root and below

A failure ends a walk only if it is the root's own: if the root cannot be looked at, is a link that
leads nowhere, or is a directory that cannot be listed, or a link to one (`RootFails`).  From the
moment when the root's listing is open, a failure that the walk is handed stands below the root,
since the listing that was opened first has entries only (`Cursor.RootListed`); it is counted, and
the walk goes on (`State.GoesOn`). -/
set_option autoImplicit false

namespace HiddenText.Walk

inductive RootFails (fs : FileSystem) (root : Path) : IoError → Prop
  | unseen {cause} (unseen : fs.lstat root = .error cause) : RootFails fs root cause
  | broken {cause place target} (isLink : fs.lstat root = .ok (place, .link target))
      (broken : fs.stat root = .error cause) : RootFails fs root cause
  | closed {cause place listable searchable}
      (leads : fs.stat root = .ok (place, .directory listable searchable))
      (closed : fs.openDirectory root = .error cause) : RootFails fs root cause

variable {fs : FileSystem} {config : Config} {root : Path} {cursor further : Cursor}
  {met : List Event} {cause : IoError}

theorem rootFails_of_stat_error (broken : fs.stat root = .error cause) :
    RootFails fs root cause := by
  cases looked : fs.lstat root with
  | error cause' =>
      have same := FileSystem.object_of_lstat_error looked true
      cases same.symm.trans broken
      exact .unseen looked
  | ok found =>
      obtain ⟨place, object⟩ := found
      cases object with
      | link target => exact .broken looked broken
      | file content readable =>
          cases (FileSystem.object_of_lstat looked nofun true).symm.trans broken
      | directory listable searchable =>
          cases (FileSystem.object_of_lstat looked nofun true).symm.trans broken
      | pipe => cases (FileSystem.object_of_lstat looked nofun true).symm.trans broken

theorem rootFails_iff : RootFails fs root cause ↔ fs.stat root = .error cause ∨
    ∃ place listable searchable, fs.stat root = .ok (place, .directory listable searchable) ∧
      fs.openDirectory root = .error cause := by
  constructor
  · intro fails
    cases fails with
    | unseen unseen => exact .inl (FileSystem.object_of_lstat_error unseen true)
    | broken isLink broken => exact .inl broken
    | closed leads closed => exact .inr ⟨_, _, _, leads, closed⟩
  · rintro (broken | ⟨place, listable, searchable, leads, closed⟩)
    · exact rootFails_of_stat_error broken
    · exact .closed leads closed

theorem RootFails.unique {cause' : IoError} (h : RootFails fs root cause)
    (h' : RootFails fs root cause') : cause = cause' := by
  rcases rootFails_iff.mp h with broken | ⟨_, _, _, leads, closed⟩
  · rcases rootFails_iff.mp h' with broken' | ⟨_, _, _, leads', -⟩
    · cases broken.symm.trans broken'
      rfl
    · cases broken.symm.trans leads'
  · rcases rootFails_iff.mp h' with broken' | ⟨_, _, _, -, closed'⟩
    · cases leads.symm.trans broken'
    · cases closed.symm.trans closed'
      rfl

theorem not_rootFails_of_stat {place : Location} {object : Object}
    (leads : fs.stat root = .ok (place, object)) (sound : object.isDirectory = false ∨
      ∃ start, fs.openDirectory root = .ok start) : ¬ RootFails fs root cause := by
  intro fails
  rcases rootFails_iff.mp fails with broken | ⟨_, _, _, leads', closed⟩
  · cases leads.symm.trans broken
  · rcases sound with plain | ⟨start, opened⟩
    · cases leads.symm.trans leads'
      cases plain
    · cases closed.symm.trans opened

/-! ## The listing of the root -/

namespace Cursor

/-- The listing that was opened first has entries only, or no listing is open. -/
def RootListed (cursor : Cursor) : Prop :=
  ∀ listing ∈ cursor.getLast?, ∀ cause, .error cause ∉ listing.rest

theorem rootListed_nil : RootListed [] := nofun

theorem RootListed.of_cons {listing : Listing} (h : RootListed (listing :: cursor)) :
    RootListed cursor := by
  cases cursor with
  | nil => exact rootListed_nil
  | cons next outer => exact fun last known => h last known

theorem RootListed.skip (h : cursor.RootListed) : cursor.skip.RootListed := by
  cases cursor with
  | nil => exact h
  | cons listing outer => exact h.of_cons

/-- Another listing on top does not change which was opened first. -/
theorem RootListed.cons (h : cursor.RootListed) (inside : cursor ≠ []) (listing : Listing) :
    RootListed (listing :: cursor) := by
  cases cursor with
  | nil => exact absurd rfl inside
  | cons next outer => exact fun last known => h last known

theorem RootListed.taken {directory : Ancestor} {first : Except IoError (Name × Object)}
    {rest : List (Except IoError (Name × Object))}
    (h : RootListed (⟨directory, first :: rest⟩ :: cursor)) :
    RootListed (⟨directory, rest⟩ :: cursor) := by
  cases cursor with
  | nil =>
      intro listing known cause failed
      cases known
      exact h ⟨directory, first :: rest⟩ rfl cause (List.mem_cons_of_mem _ failed)
  | cons next outer => exact fun last known => h last known

theorem rootListed_ofDirectory {place start : Location}
    (opened : fs.openDirectory root = .ok start) :
    RootListed [.ofDirectory fs ⟨place, root⟩] := by
  intro listing known cause failed
  cases known
  simp [Listing.ofDirectory, opened] at failed

/-! ## What is handed out below the root -/

inductive Looks (cursor : Cursor) : Found × Cursor → Prop
  | file {path} : Looks cursor (.file path, cursor)
  | special {path} : Looks cursor (.special path, cursor)
  | listing {path name depth listing} :
      Looks cursor (.directory path name depth, listing :: cursor)
  | failure {event cause} (isFailure : event.isFailure = true) :
      Looks cursor (.failure event cause cursor.length, cursor)

theorem looks_follow (fs : FileSystem) (cursor : Cursor) (path : Path) (name : Bytes) :
    Looks cursor (cursor.follow fs path name) := by
  rw [follow]
  split
  · exact .failure rfl
  · exact .file
  · split
    · exact .failure rfl
    · split
      · exact .failure rfl
      · exact .listing
  · exact .special

theorem looks_look (fs : FileSystem) (followLinks : Bool) (cursor : Cursor) (directory : Ancestor)
    (name : Name) (object : Object) :
    Looks cursor (cursor.look fs followLinks directory name object) := by
  cases object with
  | file content readable => exact .file
  | pipe => exact .special
  | directory listable searchable => exact .listing
  | link target =>
      simp only [look]
      split
      · exact looks_follow ..
      · exact .special

/-- Once the root is listed, it stays so, and what is handed out is no failure, or one below the
root, with a listing open that the walk goes on with. -/
theorem RootListed.next {found : Option Found} {followLinks : Bool} (h : cursor.RootListed)
    (moved : next fs followLinks cursor = some (found, further)) :
    further.RootListed ∧ ∀ event cause depth, found = some (.failure event cause depth) →
      depth ≠ 0 ∧ further ≠ [] ∧ event.isFailure = true := by
  cases cursor with
  | nil => cases moved
  | cons listing outer =>
      obtain ⟨directory, rest⟩ := listing
      cases rest with
      | nil =>
          cases moved
          exact ⟨h.of_cons, fun event cause depth handed => by cases handed⟩
      | cons entry rest =>
          cases entry with
          | error cause =>
              cases moved
              refine ⟨h.taken, ?_⟩
              intro event cause' depth handed
              cases handed
              refine ⟨?_, List.cons_ne_nil _ _, rfl⟩
              -- The failure of the listing that was opened first is the only one at depth 0.
              intro first
              rw [List.length_eq_zero_iff.mp first] at h
              exact h _ rfl cause (List.mem_cons_self ..)
          | ok entry =>
              obtain ⟨name, object⟩ := entry
              have inside : (⟨directory, rest⟩ : Listing) :: outer ≠ [] := List.cons_ne_nil _ _
              have looks := looks_look fs followLinks (⟨directory, rest⟩ :: outer) directory name
                object
              simp only [Cursor.next] at moved
              generalize look fs followLinks (⟨directory, rest⟩ :: outer) directory name object =
                result at looks moved
              cases looks with
              | file =>
                  cases moved
                  exact ⟨h.taken, fun event cause depth handed => by cases handed⟩
              | special =>
                  cases moved
                  exact ⟨h.taken, fun event cause depth handed => by cases handed⟩
              | listing =>
                  cases moved
                  exact ⟨h.taken.cons inside _, fun event cause depth handed => by cases handed⟩
              | failure isFailure =>
                  cases moved
                  refine ⟨h.taken, fun event cause depth handed => ?_⟩
                  cases handed
                  exact ⟨Nat.succ_ne_zero _, inside, isFailure⟩

theorem exists_next (followLinks : Bool) (inside : cursor ≠ []) :
    ∃ found further, next fs followLinks cursor = some (found, further) := by
  cases cursor with
  | nil => exact absurd rfl inside
  | cons listing outer =>
      obtain ⟨directory, rest⟩ := listing
      cases rest with
      | nil => exact ⟨_, _, rfl⟩
      | cons entry rest => cases entry <;> exact ⟨_, _, rfl⟩

end Cursor

namespace State

/-! ## The walk, step by step -/

/-- How far the walk of a root has come: the root's failure is still to come, or has ended the
walk; or the root is sound, and the walk is under way below it. -/
inductive Stage (fs : FileSystem) (root : Path) : State → Prop
  | unseen : Stage fs root (start root)
  | refused {directory : Ancestor} {cause : IoError} {met : List Event}
      (fails : RootFails fs root cause) (quiet : met = [] ∨ met = [.special root]) :
      Stage fs root (under [⟨directory, [.error cause]⟩] met)
  | halted {cursor : Cursor} {cause : IoError} {met : List Event} (fails : RootFails fs root cause)
      (quiet : met = [] ∨ met = [.special root])
      (done : cursor = [] ∨ ∃ directory, cursor = [⟨directory, []⟩]) :
      Stage fs root { under cursor met with rootError := some cause }
  | listed {cursor : Cursor} {met : List Event} (sound : ∀ cause, ¬ RootFails fs root cause)
      (h : cursor.RootListed) : Stage fs root (under cursor met)

variable {s t : State}

theorem stage_of_directory {place : Location} {listable searchable : Bool}
    (leads : fs.stat root = .ok (place, .directory listable searchable))
    (quiet : met = [] ∨ met = [.special root]) :
    Stage fs root (under [.ofDirectory fs ⟨place, root⟩] met) := by
  cases opened : fs.openDirectory root with
  | error cause =>
      rw [Listing.ofDirectory, opened]
      exact .refused (.closed leads opened) quiet
  | ok start =>
      have sound : ∀ cause, ¬ RootFails fs root cause :=
        fun cause => not_rootFails_of_stat leads (.inr ⟨start, opened⟩)
      exact .listed sound (Cursor.rootListed_ofDirectory opened)

theorem stage_of_other {place : Location} {object : Object}
    (leads : fs.stat root = .ok (place, object)) (other : object.isDirectory = false) :
    Stage fs root (under [] met) :=
  .listed (fun _ => not_rootFails_of_stat leads (.inl other)) Cursor.rootListed_nil

theorem stage_of_failure (fails : RootFails fs root cause) (event : Event) :
    Stage fs root (take config (under [] []) (.failure event cause 0)) :=
  .halted fails (.inl rfl) (.inl rfl)

theorem stage_follow (fs : FileSystem) (config : Config) (root : Path) (name : Bytes) :
    Stage fs root (take config (under (Cursor.follow fs [] root name).2 [])
      (Cursor.follow fs [] root name).1) := by
  rw [Cursor.follow]
  cases leads : fs.stat root with
  | error cause => exact stage_of_failure (rootFails_of_stat_error leads) _
  | ok found =>
      obtain ⟨place, object⟩ := found
      cases object with
      | file content readable => exact stage_of_other leads rfl
      | pipe => exact stage_of_other leads rfl
      | link target => exact stage_of_other leads rfl
      | directory listable searchable =>
          have entered := stage_of_directory leads (.inl rfl)
          cases opened : fs.openDirectory root with
          | error cause => exact stage_of_failure (.closed leads opened) _
          | ok start => exact entered

/-- The first look at the root shows whether it fails, unless it is still to be listed. -/
theorem stage_start (fs : FileSystem) (config : Config) (root : Path) :
    Stage fs root (take config (under (Cursor.start fs config.followLinks root).2 [])
      (Cursor.start fs config.followLinks root).1) := by
  rw [Cursor.start]
  cases looked : fs.lstat root with
  | error cause => exact stage_of_failure (.unseen looked) _
  | ok found =>
      obtain ⟨place, object⟩ := found
      cases object with
      | file content readable =>
          exact stage_of_other (FileSystem.object_of_lstat looked (by simp) true) rfl
      | pipe => exact stage_of_other (FileSystem.object_of_lstat looked (by simp) true) rfl
      | directory listable searchable =>
          exact stage_of_directory (FileSystem.object_of_lstat looked (by simp) true) (.inl rfl)
      | link target =>
          simp only
          by_cases follows : config.followLinks
          · rw [if_pos follows]
            exact stage_follow ..
          · rw [if_neg follows]
            cases leads : fs.stat root with
            | error cause => exact stage_of_failure (.broken looked leads) _
            | ok found =>
                obtain ⟨place', object⟩ := found
                cases object with
                | file content readable => exact stage_of_other leads rfl
                | pipe => exact stage_of_other leads rfl
                | link led => exact stage_of_other leads rfl
                | directory listable searchable => exact stage_of_directory leads (.inr rfl)

theorem Stage.step (h : Stage fs root s) (first : s.step fs config = some t) :
    Stage fs root t := by
  cases h with
  | unseen =>
      cases first
      exact stage_start fs config root
  | refused fails quiet =>
      cases first
      exact .halted fails quiet (.inr ⟨_, rfl⟩)
  | halted fails quiet done => cases first
  | @listed cursor met sound listed =>
      simp only [State.step, under, Option.isSome_none, Bool.false_eq_true, if_false] at first
      split at first
      · cases first
      · rename_i after moved
        cases first
        exact .listed sound (listed.next moved).1
      · rename_i found after moved
        cases first
        obtain ⟨listed, below⟩ := listed.next moved
        cases found with
        | file path => exact .listed sound listed
        | special path => exact .listed sound listed
        | directory path name depth =>
            rw [take]
            split
            · exact .listed sound listed.skip
            · exact .listed sound listed
        | failure event cause depth =>
            cases depth with
            | zero => exact absurd rfl (below _ _ _ rfl).1
            | succ depth => exact .listed sound listed

theorem Stage.after (h : Stage fs root s) (n : Nat) : Stage fs root (s.after fs config n) :=
  after_of_step (fun _ _ stage first => stage.step first) n s h

/-! ## What a failure comes to -/

def handed (fs : FileSystem) (config : Config) (s : State) : Option Found :=
  if s.rootError.isSome then none
  else match s.root with
    | some root => some (Cursor.start fs config.followLinks root).1
    | none => (s.cursor.next fs config.followLinks).bind Prod.fst

/-- The walk is over, with nothing but the root's error, which is given out at the first asking and
never again, even if the walk is then asked to go on. -/
structure Refused (fs : FileSystem) (config : Config) (s : State) (cause : IoError) : Prop where
  halted : s.step fs config = none
  noFile : s.walk.files = []
  noError : s.walk.errors = 0
  given : s.takeRootError.1 = some cause
  spent : ∀ n, ∃ later, s.takeRootError.2.after fs config n = later ∧
    later.takeRootError = (none, later) ∧ later.walk.files = [] ∧ later.walk.errors = 0

structure GoesOn (fs : FileSystem) (config : Config) (s t : State) : Prop where
  errors : t.walk.errors = s.walk.errors + 1
  files : t.walk.files = s.walk.files
  rootError : t.rootError = none
  goesOn : (t.step fs config).isSome

/-- What a walk makes of a failure: at depth 0 it is the root's own and ends the walk. -/
def Endures (fs : FileSystem) (config : Config) (root : Path) (s t : State) (cause : IoError) :
    Nat → Prop
  | 0 => RootFails fs root cause ∧ t.Refused fs config cause
  | _ + 1 => (∀ cause, ¬ RootFails fs root cause) ∧ GoesOn fs config s t

theorem after_of_done (done : cursor = [] ∨ ∃ directory, cursor = [⟨directory, []⟩]) :
    ∀ n, ∃ cursor', (under cursor met).after fs config n = under cursor' met := by
  intro n
  rcases done with rfl | ⟨directory, rfl⟩
  · exact ⟨[], after_of_step_none rfl n⟩
  · cases n with
    | zero => exact ⟨_, rfl⟩
    | succ n => exact ⟨[], after_of_step_none rfl n⟩

theorem refused_of_halted (quiet : met = [] ∨ met = [.special root])
    (done : cursor = [] ∨ ∃ directory, cursor = [⟨directory, []⟩]) :
    Refused fs config { under cursor met with rootError := some cause } cause := by
  have nothing : ∀ cursor', (under cursor' met).walk.files = [] ∧
      (under cursor' met).walk.errors = 0 := by
    intro cursor'
    rcases quiet with rfl | rfl <;> exact ⟨rfl, rfl⟩
  refine ⟨rfl, (nothing cursor).1, (nothing cursor).2, rfl, fun n => ?_⟩
  obtain ⟨cursor', there⟩ := @after_of_done fs config cursor met done n
  exact ⟨under cursor' met, there, rfl, nothing cursor'⟩

theorem Stage.of_rootError (h : Stage fs root s) (erred : s.rootError = some cause) :
    RootFails fs root cause ∧ s.Refused fs config cause := by
  cases h with
  | unseen => cases erred
  | refused fails quiet => cases erred
  | halted fails quiet done =>
      cases erred
      exact ⟨fails, refused_of_halted quiet done⟩
  | listed sound listed => cases erred

/-- A walk that is over has given the reason why its root cannot be walked, if there is one. -/
theorem Stage.rootError_of_ended (h : Stage fs root s) (ended : s.step fs config = none)
    (fails : RootFails fs root cause) : s.rootError = some cause := by
  cases h with
  | unseen => cases ended
  | refused fails' quiet => cases ended
  | halted fails' quiet done => rw [fails.unique fails']
  | listed sound listed => exact absurd fails (sound cause)

theorem goesOn_tell {event : Event} (isFailure : event.isFailure = true)
    (inside : further ≠ []) :
    GoesOn fs config (under cursor met) ((under further met).tell event) := by
  have noFile : event.file? = none := by
    cases event <;> first | rfl | cases isFailure
  refine ⟨?_, ?_, rfl, ?_⟩
  · simp [walk, errors, tell, under, isFailure]
  · simp [walk, files, tell, under, noFile]
  · obtain ⟨found, last, moved⟩ := @Cursor.exists_next fs further config.followLinks inside
    cases found <;> simp [State.step, tell, under, moved]

theorem depth_of_start {followLinks : Bool} {event : Event} {depth : Nat}
    (failed : (Cursor.start fs followLinks root).1 = .failure event cause depth) : depth = 0 := by
  simp only [Cursor.start] at failed
  split at failed
  · cases failed
    rfl
  · cases failed
  · cases failed
  · cases failed
  · split at failed
    · have looks := Cursor.looks_follow fs [] root ((Path.fileName? root).getD root)
      generalize Cursor.follow fs [] root ((Path.fileName? root).getD root) = result
        at looks failed
      cases looks with
      | file => cases failed
      | special => cases failed
      | listing => cases failed
      | failure isFailure =>
          cases failed
          rfl
    · split at failed
      · cases failed
        rfl
      · cases failed
      · cases failed

theorem Stage.step_of_failure {event : Event} {depth : Nat} (h : Stage fs root s)
    (failed : s.handed fs config = some (.failure event cause depth)) :
    ∃ t, s.step fs config = some t ∧ s.Endures fs config root t cause depth := by
  cases h with
  | unseen =>
      have begun := stage_start fs config root
      have looked := Option.some.inj failed
      obtain rfl := depth_of_start looked
      refine ⟨_, rfl, ?_⟩
      exact begun.of_rootError (by rw [looked]; rfl)
  | refused fails quiet =>
      cases failed
      exact ⟨_, rfl, fails, refused_of_halted quiet (.inr ⟨_, rfl⟩)⟩
  | halted fails quiet done => cases failed
  | @listed cursor met sound listed =>
      simp only [handed, under, Option.isSome_none, Bool.false_eq_true, if_false,
        Option.bind_eq_some_iff] at failed
      obtain ⟨⟨found, further⟩, moved, rfl⟩ := failed
      obtain ⟨deep, inside, isFailure⟩ := (listed.next moved).2 event cause depth rfl
      obtain ⟨depth, rfl⟩ := Nat.exists_eq_succ_of_ne_zero deep
      refine ⟨(under further met).tell event, ?_, sound, goesOn_tell isFailure inside⟩
      simp only [State.step, under, Option.isSome_none, Bool.false_eq_true, if_false, moved]
      rfl

end State

/-- Every walk ends, and at its end it has an error at its root exactly if the root cannot be looked
at, is a link that leads nowhere, or is or leads to a directory that cannot be listed.  Then that
error is all that there is of the walk.  The errors that it counts are as many as the entries below
the root that it fails on; and on its way, whatever failure it is handed either is the root's own,
which ends the walk, or stands below the root, and then it is counted and the walk goes on. -/
theorem fails_only_at_root (fs : FileSystem) (config : Config) (root : Path) :
    (∃ n, ((State.start root).after fs config n).step fs config = none ∧
      (∀ cause, ((State.start root).after fs config n).rootError = some cause ↔
        RootFails fs root cause) ∧
      (∀ cause, ((State.start root).after fs config n).rootError = some cause →
        ((State.start root).after fs config n).Refused fs config cause) ∧
      ∃ failed : List (List Name), failed.Nodup ∧
        (∀ names, names ∈ failed ↔ Meets fs config root .failed names) ∧
        ((State.start root).after fs config n).walk.errors = failed.length) ∧
    ∀ m event cause depth,
      ((State.start root).after fs config m).handed fs config = some (.failure event cause depth) →
        ∃ t, ((State.start root).after fs config m).step fs config = some t ∧
          ((State.start root).after fs config m).Endures fs config root t cause depth := by
  have stage : ∀ m, State.Stage fs root ((State.start root).after fs config m) :=
    fun m => State.Stage.unseen.after m
  constructor
  · obtain ⟨t, leads, ended, all⟩ := State.endsWith_ofRoot fs config root
    obtain ⟨n, rfl⟩ := leads.exists_after
    refine ⟨n, ended, fun cause => ⟨fun erred => ?_, fun fails => ?_⟩, fun cause erred => ?_, ?_⟩
    · exact (@State.Stage.of_rootError fs config root _ _ (stage n) erred).1
    · exact (stage n).rootError_of_ended ended fails
    · exact ((stage n).of_rootError erred).2
    · rw [all]
      exact exists_failed fs config root
  · intro m event cause depth failed
    exact (stage m).step_of_failure failed

end HiddenText.Walk
