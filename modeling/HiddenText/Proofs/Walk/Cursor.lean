import HiddenText.Proofs.FileSystem.Lookup
import HiddenText.Walk.Cursor
import Mathlib.Logic.Relation

/-! # What a walk meets step by step

Going on step by step, a walk ends, and by then it has met what `Walk.ofRoot` tells
(`leads_ofRoot`).  The listing on top is closed again when the directory it belongs to is done or
left out, so that what was open before goes on where it was. -/
set_option autoImplicit false

namespace HiddenText.Walk

variable {fs : FileSystem} {config : Config}

/-- What a walk meets at an entry on its way, and below it if it enters there. -/
def eventsOf (fs : FileSystem) (config : Config) (ancestors : List Ancestor) (path : Path) :
    Visit → List Event
  | .pass => []
  | .tell event => [event]
  | .enter place => below fs config (⟨place, path⟩ :: ancestors) place path

def atEntry (fs : FileSystem) (config : Config) (ancestors : List Ancestor) (directory : Location)
    (path : Path) (name : Name) : List Event :=
  eventsOf fs config ancestors (path.join name.bytes)
    (visit fs config ancestors directory name (path.join name.bytes))

theorem below_eq (ancestors : List Ancestor) (directory : Location) (path : Path) :
    below fs config ancestors directory path =
      (fs.names directory).flatMap (atEntry fs config ancestors directory path) := by
  rw [below]
  congr 1
  funext name
  rw [atEntry]
  split <;> rename_i visited <;> rw [visited, eventsOf]

namespace State

abbrev Leads (fs : FileSystem) (config : Config) : State → State → Prop :=
  Relation.ReflTransGen fun s t => s.step fs config = some t

theorem Leads.exists_after {s t : State} (h : Leads fs config s t) :
    ∃ n, s.after fs config n = t := by
  induction h using Relation.ReflTransGen.head_induction_on with
  | refl => exact ⟨0, rfl⟩
  | head first _ ih =>
      obtain ⟨n, there⟩ := ih
      exact ⟨n + 1, by rw [after, first]; exact there⟩

/-! ## Any number of steps -/

theorem after_add : ∀ (m n : Nat) (s : State),
    s.after fs config (m + n) = (s.after fs config m).after fs config n := by
  intro m
  induction m with
  | zero => intro n s; rw [Nat.zero_add, after]
  | succ m ih =>
      intro n s
      rw [Nat.add_right_comm, after, after]
      cases first : s.step fs config with
      | some t => exact ih n t
      | none =>
          cases n with
          | zero => rfl
          | succ n => simp only [after, first]

theorem after_of_step_none {s : State} (h : s.step fs config = none) :
    ∀ n, s.after fs config n = s := by
  intro n
  cases n with
  | zero => rfl
  | succ n => rw [after, h]

theorem step_of_rootError {s : State} {cause : IoError} (h : s.rootError = some cause) :
    s.step fs config = none := by
  rw [step, if_pos (by rw [h]; rfl)]

/-- What every step preserves, a walk preserves. -/
theorem after_of_step {holds : State → Prop}
    (keeps : ∀ s t, holds s → s.step fs config = some t → holds t) :
    ∀ (n : Nat) (s : State), holds s → holds (s.after fs config n) := by
  intro n
  induction n with
  | zero => intro s h; exact h
  | succ n ih =>
      intro s h
      rw [after]
      cases first : s.step fs config with
      | none => exact h
      | some t => exact ih t (keeps s t h first)

/-! ## The entries of a directory -/

def under (cursor : Cursor) (met : List Event) : State :=
  { root := none, cursor := cursor, met := met }

theorem leads_close (directory : Ancestor) (outer : Cursor) (met : List Event) :
    Leads fs config (under (⟨directory, []⟩ :: outer) met) (under outer met) :=
  .single rfl

theorem step_entry (directory : Ancestor) (name : Name) (object : Object)
    (rest : List (Except IoError (Name × Object))) (outer : Cursor) (met : List Event) :
    (under (⟨directory, .ok (name, object) :: rest⟩ :: outer) met).step fs config =
      some (take config
        (under (Cursor.look fs config.followLinks (⟨directory, rest⟩ :: outer) directory name
          object).2 met)
        (Cursor.look fs config.followLinks (⟨directory, rest⟩ :: outer) directory name object).1) :=
  rfl

theorem leads_closed {directory : Ancestor} {cause : IoError}
    (h : fs.openDirectory directory.path = .error cause) (listing : Listing) (outer : Cursor)
    (met : List Event) :
    Leads fs config (under (.ofDirectory fs directory :: listing :: outer) met)
      (under (listing :: outer) (met ++ [.failed directory.path cause])) := by
  rw [Listing.ofDirectory, h]
  exact .head rfl (leads_close ..)

/-- What is to be shown of a directory that a walk enters: it goes through the directory and comes
back to the listings that were open before. -/
def Returns (fs : FileSystem) (config : Config) (cursor : Cursor) (directory : Ancestor) : Prop :=
  ∀ met, Leads fs config
    (under (⟨directory, (fs.entries directory.place).map .ok⟩ :: cursor) met)
    (under cursor (met ++ below fs config (directory :: cursor.map Listing.directory)
      directory.place directory.path))

theorem leads_enter_ignored {cursor : Cursor} {directory : Ancestor} {name : Bytes}
    (deep : cursor ≠ []) (ignored : config.ignores name) (met : List Event) :
    Leads fs config
      (take config (under (cursor.enter fs directory name).2 met)
        (cursor.enter fs directory name).1)
      (under cursor (met ++ [.pruned directory.path])) := by
  rw [Cursor.enter, take, if_pos ⟨List.length_pos_iff.mpr deep, ignored⟩]
  exact .refl

theorem take_enter {cursor : Cursor} {directory : Ancestor} {name : Bytes}
    (kept : ¬ config.ignores name) (met : List Event) :
    take config (under (cursor.enter fs directory name).2 met)
        (cursor.enter fs directory name).1 =
      under (.ofDirectory fs directory :: cursor) met := by
  rw [Cursor.enter, take, if_neg (fun h => kept h.2)]

/-- Following a link leaves the listings as they were, whatever the link leads to. -/
theorem leads_follow {cursor : Cursor} {path : Path} {name : Name} (deep : cursor ≠ [])
    (enter : ∀ place,
      visitLink fs config (cursor.map Listing.directory) name path = .enter place →
        Returns fs config cursor ⟨place, path⟩)
    (met : List Event) :
    Leads fs config
      (take config (under (cursor.follow fs path name.bytes).2 met)
        (cursor.follow fs path name.bytes).1)
      (under cursor (met ++ eventsOf fs config (cursor.map Listing.directory) path
        (visitLink fs config (cursor.map Listing.directory) name path))) := by
  obtain ⟨depth, isDeep⟩ := Nat.exists_eq_succ_of_ne_zero (mt List.length_eq_zero_iff.mp deep)
  simp only [visitLink, Cursor.follow] at enter ⊢
  cases followed : fs.stat path with
  | error cause =>
      simp only [isDeep]
      exact .refl
  | ok target =>
      obtain ⟨place, object⟩ := target
      rw [followed] at enter
      cases object with
      | file content readable => exact .refl
      | link led => exact .refl
      | pipe => exact .refl
      | directory listable searchable =>
          simp only at enter ⊢
          cases opened : fs.openDirectory path with
          | error cause =>
              simp only [isDeep]
              exact .refl
          | ok place' =>
              rw [opened] at enter
              simp only at enter ⊢
              cases cyclic : (cursor.map Listing.directory).find? (·.place = place) with
              | some ancestor =>
                  simp only [isDeep]
                  exact .refl
              | none =>
                  rw [cyclic] at enter
                  simp only at enter ⊢
                  by_cases ignored : config.ignores name.bytes
                  · rw [if_pos ignored]
                    exact leads_enter_ignored deep ignored met
                  · rw [if_neg ignored] at enter ⊢
                    rw [take_enter ignored, Listing.ofDirectory, opened]
                    exact enter place rfl met

/-- Going through one entry of a directory leaves the listings as they were, the entry apart. -/
theorem leads_entry {directory : Ancestor} {name : Name} {object : Object}
    {rest : List (Except IoError (Name × Object))} {outer : Cursor}
    (found : fs.get? (directory.place ++ [name]) = some object)
    (enter : ∀ place,
      visit fs config (directory :: outer.map Listing.directory) directory.place name
          (directory.path.join name.bytes) = .enter place →
        Returns fs config (⟨directory, rest⟩ :: outer) ⟨place, directory.path.join name.bytes⟩)
    (met : List Event) :
    Leads fs config (under (⟨directory, .ok (name, object) :: rest⟩ :: outer) met)
      (under (⟨directory, rest⟩ :: outer)
        (met ++ atEntry fs config (directory :: outer.map Listing.directory) directory.place
          directory.path name)) := by
  refine .head (step_entry ..) ?_
  have deep : (⟨directory, rest⟩ : Listing) :: outer ≠ [] := List.cons_ne_nil _ _
  simp only [atEntry, visit, found, Cursor.look] at enter ⊢
  cases object with
  | file content readable => exact .refl
  | pipe => exact .refl
  | link target =>
      simp only at enter ⊢
      by_cases follows : config.followLinks
      · rw [if_pos follows] at enter ⊢
        rw [if_pos follows]
        exact leads_follow deep enter met
      · rw [if_neg follows, if_neg follows]
        exact .refl
  | directory listable searchable =>
      simp only at enter ⊢
      by_cases ignored : config.ignores name.bytes
      · rw [if_pos ignored]
        exact leads_enter_ignored deep ignored met
      · rw [if_neg ignored] at enter ⊢
        rw [take_enter ignored]
        cases opened : fs.openDirectory (directory.path.join name.bytes) with
        | error cause => exact leads_closed opened _ _ met
        | ok place =>
            rw [opened] at enter
            rw [Listing.ofDirectory, opened]
            exact enter _ rfl met

theorem leads_entries {directory : Ancestor} {outer : Cursor}
    (enter : ∀ name place,
      visit fs config (directory :: outer.map Listing.directory) directory.place name
          (directory.path.join name.bytes) = .enter place → ∀ rest,
        Returns fs config (⟨directory, rest⟩ :: outer) ⟨place, directory.path.join name.bytes⟩) :
    ∀ (names : List Name) (met : List Event),
      Leads fs config
        (under (⟨directory, (names.filterMap fun name =>
          (fs.get? (directory.place ++ [name])).map (name, ·)).map .ok⟩ :: outer) met)
        (under outer (met ++ names.flatMap (atEntry fs config
          (directory :: outer.map Listing.directory) directory.place directory.path))) := by
  intro names
  induction names with
  | nil =>
      intro met
      simp only [List.filterMap_nil, List.map_nil, List.flatMap_nil, List.append_nil]
      exact leads_close ..
  | cons name names ih =>
      intro met
      rw [List.filterMap_cons, List.flatMap_cons, ← List.append_assoc]
      cases found : fs.get? (directory.place ++ [name]) with
      | none =>
          have nothing : atEntry fs config (directory :: outer.map Listing.directory)
              directory.place directory.path name = [] := by
            simp [atEntry, visit, found, eventsOf]
          rw [nothing, List.append_nil]
          exact ih met
      | some object =>
          exact (leads_entry found (fun place visited => enter name place visited _) met).trans
            (ih _)

/-- A walk goes through a directory and comes back to the listings that were open before. -/
theorem returns (ancestors : List Ancestor) (place : Location) (path : Path) :
    ∀ cursor : Cursor, ancestors = ⟨place, path⟩ :: cursor.map Listing.directory →
      Returns fs config cursor ⟨place, path⟩ := by
  induction ancestors, place, path using below.induct fs config with
  | case1 ancestors place path ih =>
      -- Whatever listings are open above, so that the hypothesis also serves with this one on top.
      intro cursor inside met
      subst inside
      rw [below_eq]
      apply leads_entries
      intro name place' visited rest
      exact ih name place' visited _ rfl

/-! ## The root -/

def EndsWith (fs : FileSystem) (config : Config) (s : State) (walk : Walk) : Prop :=
  ∃ t, Leads fs config s t ∧ t.step fs config = none ∧ t.walk = walk

theorem EndsWith.of_leads {s t : State} {walk : Walk} (h : Leads fs config s t)
    (h' : EndsWith fs config t walk) : EndsWith fs config s walk := by
  obtain ⟨u, rest, ended, all⟩ := h'
  exact ⟨u, h.trans rest, ended, all⟩

theorem endsWith_nil (met : List Event) : EndsWith fs config (under [] met) { events := met } :=
  ⟨_, .refl, rfl, rfl⟩

theorem endsWith_rootError (cursor : Cursor) (met : List Event) (cause : IoError) :
    EndsWith fs config { under cursor met with rootError := some cause }
      { events := met, rootError := some cause } :=
  ⟨_, .refl, rfl, rfl⟩

/-- A walk that is to go through its root ends with what lies below the root. -/
theorem endsWith_ofDirectory {root : Path} {place : Location} {listable searchable : Bool}
    (h : fs.stat root = .ok (place, .directory listable searchable)) (met : List Event) :
    EndsWith fs config (under [.ofDirectory fs ⟨place, root⟩] met)
      (.ofDirectory fs config root met) := by
  rw [Listing.ofDirectory, Walk.ofDirectory]
  cases opened : fs.openDirectory root with
  | error cause => exact .of_leads (.single rfl) (endsWith_rootError _ met cause)
  | ok place' =>
      obtain rfl := FileSystem.place_of_openDirectory h opened
      exact .of_leads (returns _ place' root [] rfl met) (endsWith_nil _)

/-- The first step of a walk looks at its root. -/
theorem endsWith_start {root : Path} {found : Found} {cursor : Cursor} {walk : Walk}
    (looked : Cursor.start fs config.followLinks root = (found, cursor))
    (h : EndsWith fs config (take config (under cursor []) found) walk) :
    EndsWith fs config (start root) walk := by
  refine .of_leads (.single ?_) h
  rw [step]
  simp only [start, looked]
  rfl

/-- A root that is a link is gone through like what it leads to. -/
theorem endsWith_followed {root : Path} {place : Location} {target : Path}
    (looked : fs.lstat root = .ok (place, .link target)) (follows : config.followLinks = true) :
    EndsWith fs config (start root) (Walk.ofRoot fs config root) := by
  have begins : Cursor.start fs config.followLinks root =
      Cursor.follow fs [] root ((Path.fileName? root).getD root) := by
    rw [Cursor.start, looked]
    exact if_pos follows
  have seen : fs.object config.followLinks root = fs.stat root := by
    rw [follows]
    rfl
  rw [Cursor.follow] at begins
  rw [Walk.ofRoot, seen]
  cases followed : fs.stat root with
  | error cause =>
      rw [followed] at begins
      exact endsWith_start begins (endsWith_rootError _ _ cause)
  | ok found =>
      obtain ⟨place, object⟩ := found
      rw [followed] at begins
      cases object with
      | file content readable => exact endsWith_start begins (endsWith_nil _)
      | pipe => exact endsWith_start begins (endsWith_nil _)
      | link led => exact endsWith_start begins (endsWith_nil _)
      | directory listable searchable =>
          have through : EndsWith fs config (under [.ofDirectory fs ⟨place, root⟩] [])
              (.ofDirectory fs config root []) := endsWith_ofDirectory followed []
          cases opened : fs.openDirectory root with
          | error cause =>
              rw [opened] at begins
              refine endsWith_start begins ?_
              rw [Walk.ofDirectory, opened]
              exact endsWith_rootError _ _ cause
          | ok place' =>
              rw [opened] at begins
              exact endsWith_start begins through

/-- If links are not followed, a root that is a link is handed out as one, and gone through. -/
theorem endsWith_unfollowed {root : Path} {place : Location} {target : Path}
    (looked : fs.lstat root = .ok (place, .link target)) (stays : config.followLinks = false) :
    EndsWith fs config (start root) (Walk.ofRoot fs config root) := by
  have begins := Cursor.start.eq_1 fs config.followLinks root
  rw [looked] at begins
  simp only [if_neg (Bool.eq_false_iff.mp stays)] at begins
  have seen : fs.object config.followLinks root = .ok (place, .link target) := by
    rw [stays]
    exact looked
  rw [Walk.ofRoot, seen]
  cases followed : fs.stat root with
  | error cause =>
      rw [followed] at begins
      exact endsWith_start begins (endsWith_rootError _ _ cause)
  | ok found =>
      obtain ⟨place, object⟩ := found
      rw [followed] at begins
      cases object with
      | file content readable => exact endsWith_start begins (endsWith_nil _)
      | pipe => exact endsWith_start begins (endsWith_nil _)
      | link led => exact endsWith_start begins (endsWith_nil _)
      | directory listable searchable =>
          exact endsWith_start begins (endsWith_ofDirectory followed _)

theorem endsWith_ofRoot (fs : FileSystem) (config : Config) (root : Path) :
    EndsWith fs config (start root) (Walk.ofRoot fs config root) := by
  cases looked : fs.lstat root with
  | error cause =>
      rw [Walk.ofRoot, FileSystem.object_of_lstat_error looked]
      exact endsWith_start (by rw [Cursor.start, looked]) (endsWith_rootError _ _ cause)
  | ok found =>
      obtain ⟨place, object⟩ := found
      cases object with
      | file content readable =>
          rw [Walk.ofRoot, FileSystem.object_of_lstat looked nofun]
          exact endsWith_start (by rw [Cursor.start, looked]) (endsWith_nil _)
      | pipe =>
          rw [Walk.ofRoot, FileSystem.object_of_lstat looked nofun]
          exact endsWith_start (by rw [Cursor.start, looked]) (endsWith_nil _)
      | directory listable searchable =>
          rw [Walk.ofRoot, FileSystem.object_of_lstat looked nofun]
          exact endsWith_start (by rw [Cursor.start, looked])
            (endsWith_ofDirectory (FileSystem.object_of_lstat looked nofun true) [])
      | link target =>
          by_cases follows : config.followLinks
          · exact endsWith_followed looked follows
          · exact endsWith_unfollowed looked (Bool.not_eq_true _ |>.mp follows)

end State
end HiddenText.Walk
