import HiddenText.Proofs.FileSystem.Entries
import HiddenText.Proofs.Scan
import Mathlib.Data.List.Sort

/-! # What a scan does not tell

A scan that follows no links says nothing of what is in files that are ignored, of anything inside
directories with an ignored name, and of links and pipes: two trees that differ in nothing else
have the same outcome (`scanTree_eq_of_treesAgree`).  The walks of the two trees come upon the same
entries in the same order, apart from links and pipes, wherever the trees stand
(`observed_below_eq`). -/
set_option autoImplicit false

namespace HiddenText

/-! ## Trees that differ where it does not matter -/

/-- Neither a file nor a directory: nothing at all, a link or a pipe. -/
def IsPassedOver (object : Option Object) : Prop :=
  (∀ content readable, object ≠ some (.file content readable)) ∧
    ∀ listable searchable, object ≠ some (.directory listable searchable)

theorem IsPassedOver.none : IsPassedOver none := by simp [IsPassedOver]

theorem IsPassedOver.pipe (content : Bytes) (readable : Bool) :
    IsPassedOver (some (.pipe content readable)) := by
  simp [IsPassedOver]

theorem IsPassedOver.link (target : Path) : IsPassedOver (some (.link target)) := by
  simp [IsPassedOver]

theorem IsPassedOver.of_notMem {fs : FileSystem} {place : Location} {name : Name}
    (missing : name ∉ fs.names place) : IsPassedOver (fs.get? (place ++ [name])) := by
  rw [FileSystem.mem_names, not_not] at missing
  rw [missing]
  exact .none

/-- What stands at a place of one tree and of the other, where `names` lead to the directory and
`name` is the entry's. -/
inductive Exchangeable (config : Config) (names : List Name) (name : Name) :
    Option Object → Option Object → Prop
  | same (object : Option Object) : Exchangeable config names name object object
  | ignoredFile {content content' readable readable'}
      (ignored : classify (Path.relative (names ++ [name])) config = .ignored) :
      Exchangeable config names name (some (.file content readable))
        (some (.file content' readable'))
  | ignoredDirectory {listable listable' searchable searchable'}
      (ignored : config.ignores name.bytes = true) :
      Exchangeable config names name (some (.directory listable searchable))
        (some (.directory listable' searchable'))
  | passedOver {object object'} (passed : IsPassedOver object) (passed' : IsPassedOver object') :
      Exchangeable config names name object object'

/-- Names that lead down from a directory through directories, none of them with an ignored name. -/
inductive LeadsDown (fs : FileSystem) (config : Config) (start : Location) : List Name → Prop
  | start : LeadsDown fs config start []
  | enter {names name listable searchable} (above : LeadsDown fs config start names)
      (real : fs.get? (start ++ names ++ [name]) = some (.directory listable searchable))
      (kept : config.ignores name.bytes = false) : LeadsDown fs config start (names ++ [name])

/-- Two directories have the same permissions, and outside of directories with an ignored name the
trees below them differ only in what may be exchanged. -/
structure TreesAgree (config : Config) (fs : FileSystem) (start : Location) (fs' : FileSystem)
    (start' : Location) : Prop where
  top : fs.get? start = fs'.get? start'
  entries : ∀ names, LeadsDown fs config start names → ∀ name,
    Exchangeable config names name (fs.get? (start ++ names ++ [name]))
      (fs'.get? (start' ++ names ++ [name]))

namespace Walk

variable {fs fs' : FileSystem} {config : Config} {ancestors : List Ancestor} {place : Location}
  {path : Path} {name : Name}

/-! ## The entries that a walk meets -/

theorem atEntry_of_file {content : Bytes} {readable : Bool}
    (there : fs.get? (place ++ [name]) = some (.file content readable)) :
    atEntry fs config ancestors place path name = [.file (path.join name.bytes)] := by
  rw [atEntry, visit, there]
  rfl

theorem atEntry_of_ignored {listable searchable : Bool}
    (there : fs.get? (place ++ [name]) = some (.directory listable searchable))
    (ignored : config.ignores name.bytes = true) :
    atEntry fs config ancestors place path name = [.pruned (path.join name.bytes)] := by
  simp only [atEntry, visit, there, ignored, if_true]
  rfl

theorem atEntry_of_directory {listable searchable : Bool}
    (there : fs.get? (place ++ [name]) = some (.directory listable searchable))
    (kept : config.ignores name.bytes = false) :
    atEntry fs config ancestors place path name =
      match fs.openDirectory (path.join name.bytes) with
      | .error cause => [.failed (path.join name.bytes) cause]
      | .ok _ => below fs config (⟨place ++ [name], path.join name.bytes⟩ :: ancestors)
          (place ++ [name]) (path.join name.bytes) := by
  simp only [atEntry, visit, there, kept, Bool.false_eq_true, if_false]
  cases fs.openDirectory (path.join name.bytes) <;> rfl

theorem atEntry_of_passedOver (unfollowed : config.followLinks = false)
    (passed : IsPassedOver (fs.get? (place ++ [name]))) :
    ∀ event ∈ atEntry fs config ancestors place path name,
      event = .special (path.join name.bytes) := by
  obtain ⟨noFile, noDirectory⟩ := passed
  rw [atEntry, visit]
  cases there : fs.get? (place ++ [name]) with
  | none =>
      intro event known
      cases known
  | some object =>
      cases object with
      | file content readable => exact absurd there (noFile content readable)
      | directory listable searchable => exact absurd there (noDirectory listable searchable)
      | pipe => simp [eventsOf]
      | link target => simp [eventsOf, unfollowed]

end Walk

variable {fs fs' : FileSystem} {config : Config} {root root' path path' : Path}

/-- The path of an entry below a canonical root is seen as the names that lead there. -/
theorem relative_of_entry (top : Location) (names : List Name) (name : Name) :
    (Path.stripPrefix? top.path (Location.path (top ++ names ++ [name]))).getD
      (Location.path (top ++ names ++ [name])) = Path.relative (names ++ [name]) := by
  have descended : Location.path (top ++ names ++ [name]) = top.path.descend (names ++ [name]) := by
    rw [Location.descend_path, List.append_assoc]
  rw [descended, Path.stripPrefix?_descend top (List.concat_ne_nil _ _)]
  rfl

/-! ## Two walks -/

section

variable {start start' top top' : Location} {β : Type} {observe : ScanStep → Option β}

def observed (observe : ScanStep → Option β) (fs : FileSystem) (config : Config) (top : Location)
    (events : List Walk.Event) : List β :=
  events.filterMap fun event => observe (.ofEvent fs config top.path event)

/-- An observer who does not see what is passed over, and of what is left out or fails not where it
stands. -/
structure Placeless (observe : ScanStep → Option β) : Prop where
  special (path : Path) : observe (.met (.special path)) = none
  pruned (path path' : Path) : observe (.met (.pruned path)) = observe (.met (.pruned path'))
  failed (path path' : Path) (cause : IoError) :
    observe (.met (.failed path cause)) = observe (.met (.failed path' cause))

theorem observed_eq_nil_of_passedOver (placeless : Placeless observe)
    (unfollowed : config.followLinks = false) {ancestors : List Walk.Ancestor} {place : Location}
    {name : Name} (passed : IsPassedOver (fs.get? (place ++ [name]))) :
    observed observe fs config top (Walk.atEntry fs config ancestors place path name) = [] := by
  rw [observed, List.filterMap_eq_nil_iff]
  intro event met
  rw [Walk.atEntry_of_passedOver unfollowed passed event met]
  exact placeless.special _

theorem observed_singleton_eq {event event' : Walk.Event}
    (same : observe (.ofEvent fs config top.path event) =
      observe (.ofEvent fs' config top'.path event')) :
    observed observe fs config top [event] = observed observe fs' config top' [event'] := by
  simp only [observed, List.filterMap_cons, List.filterMap_nil, same]

theorem observed_file_eq {names : List Name} {name : Name}
    (same : classify (Path.relative (names ++ [name])) config = .ignored ∨
      fs.read (Location.path (top ++ names ++ [name])) =
        fs'.read (Location.path (top' ++ names ++ [name]))) :
    observed observe fs config top [.file (Location.path (top ++ names ++ [name]))] =
      observed observe fs' config top' [.file (Location.path (top' ++ names ++ [name]))] := by
  have inspected := Inspection.ofFile_eq_of_read (relative_of_entry top names name)
    (relative_of_entry top' names name) same
  exact observed_singleton_eq (congrArg (fun i => observe (.inspected i)) inspected)

theorem enterable_congr {searchable : Bool} {name : Name}
    (lengths : FileSystem.pathLimit < path.length ↔ FileSystem.pathLimit < path'.length) :
    FileSystem.enterable searchable path name = FileSystem.enterable searchable path' name := by
  simp only [FileSystem.enterable, lengths]

/-- What stands below two directories is out of reach for the length of its path in both or in
neither. -/
def LengthsAgree (fs : FileSystem) (start top top' : Location) : Prop :=
  ∀ names name, fs.get? (start ++ names ++ [name]) ≠ none →
    (FileSystem.pathLimit < (Location.path (top ++ names ++ [name])).length ↔
      FileSystem.pathLimit < (Location.path (top' ++ names ++ [name])).length)

variable {names : List Name} {name : Name} {listable searchable : Bool}

/-- An entry that may be exchanged is the same to the observer, if what lies below it is. -/
theorem observed_atEntry_eq (unfollowed : config.followLinks = false)
    (placeless : Placeless observe) (lengths : LengthsAgree fs start top top')
    {ancestors ancestors' : List Walk.Ancestor}
    (here : fs.stat (Location.path (top ++ names)) =
      .ok (start ++ names, .directory listable searchable))
    (here' : fs'.stat (Location.path (top' ++ names)) =
      .ok (start' ++ names, .directory listable searchable))
    (exchangeable : Exchangeable config names name (fs.get? (start ++ names ++ [name]))
      (fs'.get? (start' ++ names ++ [name])))
    (deeper : ∀ searchable', config.ignores name.bytes = false →
      fs.get? (start ++ names ++ [name]) = some (.directory true searchable') →
      fs.stat (Location.path (top ++ names ++ [name])) =
        .ok (start ++ names ++ [name], .directory true searchable') →
      fs'.stat (Location.path (top' ++ names ++ [name])) =
        .ok (start' ++ names ++ [name], .directory true searchable') →
      observed observe fs config top (Walk.below fs config
        (⟨start ++ names ++ [name], Location.path (top ++ names ++ [name])⟩ :: ancestors)
        (start ++ names ++ [name]) (Location.path (top ++ names ++ [name]))) =
      observed observe fs' config top' (Walk.below fs' config
        (⟨start' ++ names ++ [name], Location.path (top' ++ names ++ [name])⟩ :: ancestors')
        (start' ++ names ++ [name]) (Location.path (top' ++ names ++ [name])))) :
    observed observe fs config top (Walk.atEntry fs config ancestors (start ++ names)
        (Location.path (top ++ names)) name) =
      observed observe fs' config top' (Walk.atEntry fs' config ancestors' (start' ++ names)
        (Location.path (top' ++ names)) name) := by
  have passed_eq : IsPassedOver (fs.get? (start ++ names ++ [name])) →
      IsPassedOver (fs'.get? (start' ++ names ++ [name])) →
      observed observe fs config top (Walk.atEntry fs config ancestors (start ++ names)
        (Location.path (top ++ names)) name) =
      observed observe fs' config top' (Walk.atEntry fs' config ancestors' (start' ++ names)
        (Location.path (top' ++ names)) name) := by
    intro passed passed'
    rw [observed_eq_nil_of_passedOver placeless unfollowed passed,
      observed_eq_nil_of_passedOver placeless unfollowed passed']
  have entered (object : Object) (there : fs.get? (start ++ names ++ [name]) = some object) :
      FileSystem.enterable searchable (Location.path (top ++ names ++ [name])) name =
        FileSystem.enterable searchable (Location.path (top' ++ names ++ [name])) name := by
    refine enterable_congr (lengths names name ?_)
    rw [there]
    exact nofun
  generalize there : fs.get? (start ++ names ++ [name]) = object at *
  generalize there' : fs'.get? (start' ++ names ++ [name]) = object' at *
  cases exchangeable with
  | passedOver passed passed' => exact passed_eq passed passed'
  | ignoredDirectory ignored =>
      rw [Walk.atEntry_of_ignored there ignored, Walk.atEntry_of_ignored there' ignored]
      exact observed_singleton_eq (placeless.pruned _ _)
  | ignoredFile ignored =>
      rw [Walk.atEntry_of_file there, Walk.atEntry_of_file there', Location.join_path,
        Location.join_path]
      exact observed_file_eq (.inl ignored)
  | same object =>
      cases object with
      | none => exact passed_eq .none .none
      | some object =>
          cases object with
          | pipe content readable => exact passed_eq (.pipe _ _) (.pipe _ _)
          | link target => exact passed_eq (.link target) (.link target)
          | file content readable =>
              have read := FileSystem.read_entry here there
              have read' := FileSystem.read_entry here' there'
              rw [Location.join_path] at read read'
              rw [Walk.atEntry_of_file there, Walk.atEntry_of_file there', Location.join_path,
                Location.join_path]
              refine observed_file_eq (.inr ?_)
              rw [read, read', entered _ rfl]
          | directory listable' searchable' =>
              cases ignored : config.ignores name.bytes with
              | true =>
                  rw [Walk.atEntry_of_ignored there ignored, Walk.atEntry_of_ignored there' ignored]
                  exact observed_singleton_eq (placeless.pruned _ _)
              | false =>
                  have found := FileSystem.object_entry here there nofun true
                  have found' := FileSystem.object_entry here' there' nofun true
                  have opened := FileSystem.openDirectory_entry here there
                  have opened' := FileSystem.openDirectory_entry here' there'
                  rw [Location.join_path] at found found' opened opened'
                  rw [← entered _ rfl] at found' opened'
                  rw [Walk.atEntry_of_directory there ignored,
                    Walk.atEntry_of_directory there' ignored, Location.join_path,
                    Location.join_path, opened, opened']
                  cases admitted : FileSystem.enterable searchable
                      (Location.path (top ++ names ++ [name])) name with
                  | error cause => exact observed_singleton_eq (placeless.failed _ _ cause)
                  | ok done =>
                      rw [admitted] at found found'
                      cases listable' with
                      | false => exact observed_singleton_eq (placeless.failed _ _ _)
                      | true => exact deeper searchable' ignored rfl found found'

/-- The walks below two directories, and what is read on the way, are the same to an observer who
does not see what is passed over nor where the directories stand. -/
theorem observed_below_eq (unfollowed : config.followLinks = false)
    (placeless : Placeless observe) (lengths : LengthsAgree fs start top top')
    (agree : TreesAgree config fs start fs' start')
    (ancestors : List Walk.Ancestor) (place : Location) (path : Path) :
    ∀ (names : List Name) (listable searchable : Bool) (ancestors' : List Walk.Ancestor),
      LeadsDown fs config start names → place = start ++ names →
      path = Location.path (top ++ names) →
      fs.stat path = .ok (start ++ names, .directory listable searchable) →
      fs'.stat (Location.path (top' ++ names)) =
        .ok (start' ++ names, .directory listable searchable) →
      observed observe fs config top (Walk.below fs config ancestors place path) =
        observed observe fs' config top' (Walk.below fs' config ancestors' (start' ++ names)
          (Location.path (top' ++ names))) := by
  induction ancestors, place, path using Walk.below.induct fs config with
  | case1 ancestors place path ih =>
      rintro names listable searchable ancestors' leads rfl rfl here here'
      have entry : ∀ name,
          observed observe fs config top (Walk.atEntry fs config ancestors (start ++ names)
            (Location.path (top ++ names)) name) =
          observed observe fs' config top' (Walk.atEntry fs' config ancestors' (start' ++ names)
            (Location.path (top' ++ names)) name) := by
        intro name
        refine observed_atEntry_eq unfollowed placeless lengths here here'
          (agree.entries names leads name) ?_
        intro searchable' kept there found found'
        have opened := FileSystem.openDirectory_eq_ok_iff.mpr ⟨searchable', found⟩
        rw [← Location.join_path] at opened found
        have entered : Walk.visit fs config ancestors (start ++ names) name
            ((Location.path (top ++ names)).join name.bytes) =
            .enter (start ++ names ++ [name]) :=
          Walk.visit_eq_enter_of_directory ancestors there opened kept
        have further := ih name _ entered (names ++ [name]) true searchable'
          (⟨start' ++ names ++ [name], Location.path (top' ++ names ++ [name])⟩ :: ancestors')
          (.enter leads there kept)
        simp only [← List.append_assoc] at further
        rw [Location.join_path] at further found
        exact further trivial rfl found found'
      rw [Walk.below_eq, Walk.below_eq, observed, observed, List.filterMap_flatMap,
        List.filterMap_flatMap]
      have silent : ∀ name, name ∉ fs.names (start ++ names) ∨ name ∉ fs'.names (start' ++ names) →
          observed observe fs' config top' (Walk.atEntry fs' config ancestors' (start' ++ names)
            (Location.path (top' ++ names)) name) = [] := by
        rintro name (missing | missing)
        · rw [← entry name]
          exact observed_eq_nil_of_passedOver placeless unfollowed (.of_notMem missing)
        · exact observed_eq_nil_of_passedOver placeless unfollowed (.of_notMem missing)
      calc
        _ = (fs.names (start ++ names)).flatMap fun name =>
              observed observe fs' config top' (Walk.atEntry fs' config ancestors' (start' ++ names)
                (Location.path (top' ++ names)) name) :=
          congrArg (List.flatMap · _) (funext entry)
        _ = _ := Ascending.flatMap_eq_of_pairwise (Ascending.ofList_pairwise _)
          (Ascending.ofList_pairwise _) silent

/-- Walks of roots that can be listed, below which the trees agree. -/
theorem observed_ofRoot_eq (placeless : Placeless observe) (unfollowed : config.followLinks = false)
    (opened : fs.openDirectory top.path = .ok start)
    (opened' : fs'.openDirectory top'.path = .ok start')
    (agree : TreesAgree config fs start fs' start') (lengths : LengthsAgree fs start top top') :
    observed observe fs config top (Walk.ofRoot fs config top.path).events =
      observed observe fs' config top' (Walk.ofRoot fs' config top'.path).events := by
  obtain ⟨before, front, all⟩ := Walk.ofRoot_of_openDirectory config opened
  obtain ⟨before', front', all'⟩ := Walk.ofRoot_of_openDirectory config opened'
  have unseen : ∀ {fs : FileSystem} {top : Location} {before : List Walk.Event}
      (rest : List Walk.Event), before = [] ∨ before = [.special top.path] →
        observed observe fs config top (before ++ rest) = observed observe fs config top rest := by
    rintro fs top before rest (rfl | rfl)
    · rfl
    · exact List.filterMap_cons_none (placeless.special top.path)
  obtain ⟨searchable, found⟩ := FileSystem.openDirectory_eq_ok_iff.mp opened
  obtain ⟨searchable', found'⟩ := FileSystem.openDirectory_eq_ok_iff.mp opened'
  have same : some (Object.directory true searchable) = some (.directory true searchable') :=
    (FileSystem.get?_of_stat found).symm.trans (agree.top.trans (FileSystem.get?_of_stat found'))
  cases same
  have below := observed_below_eq unfollowed placeless lengths agree [⟨start, top.path⟩] start
    top.path [] true searchable [⟨start', top'.path⟩] .start (List.append_nil _).symm
    (by rw [List.append_nil])
  simp only [List.append_nil] at below
  rw [all, all', unseen _ front, unseen _ front']
  exact below found found'

end

/-! ## Two scans -/

def ScanStep.failure? : ScanStep → Option Unit
  | .met event => if event.isFailure then some () else none
  | .inspected _ => none

theorem observed_inspection? (top : Location) (events : List Walk.Event) :
    observed ScanStep.inspection? fs config top events =
      (events.filterMap Walk.Event.file?).map (Inspection.ofFile fs config top.path) := by
  rw [← filterMap_inspection?, List.filterMap_map]
  rfl

theorem length_observed_failure? (top : Location) (events : List Walk.Event) :
    (observed ScanStep.failure? fs config top events).length =
      events.countP Walk.Event.isFailure := by
  rw [observed, List.length_filterMap_eq_countP]
  congr 1
  funext event
  cases event <;> rfl

theorem placeless_inspection? : Placeless ScanStep.inspection? where
  special _ := rfl
  pruned _ _ := rfl
  failed _ _ _ := rfl

theorem placeless_failure? : Placeless ScanStep.failure? where
  special _ := rfl
  pruned _ _ := rfl
  failed _ _ _ := rfl

/-- Scans of two roots have the same outcome if the trees below them agree. -/
theorem scanTree_eq_of_lengthsAgree {top top' start start' : Location}
    (unfollowed : config.followLinks = false)
    (valid : validateRoot fs root = .ok top.path) (valid' : validateRoot fs' root' = .ok top'.path)
    (opened : fs.openDirectory top.path = .ok start)
    (opened' : fs'.openDirectory top'.path = .ok start')
    (agree : TreesAgree config fs start fs' start') (lengths : LengthsAgree fs start top top') :
    ∃ outcome, (scanTree fs config root).result = .ok outcome ∧
      (scanTree fs' config root').result = .ok outcome := by
  have inspections :=
    observed_ofRoot_eq placeless_inspection? unfollowed opened opened' agree lengths
  have failures := observed_ofRoot_eq placeless_failure? unfollowed opened opened' agree lengths
  rw [observed_inspection?, observed_inspection?] at inspections
  have errors := congrArg List.length failures
  rw [length_observed_failure?, length_observed_failure?] at errors
  refine ⟨_, scanTree_of_validateRoot config valid, ?_⟩
  rw [scanTree_of_validateRoot config valid', Walk.files, Walk.files, Walk.errors, Walk.errors,
    inspections, errors]

/-- Scans that follow no links have the same outcome if the root's trees agree: whatever stands in
ignored files and in directories with an ignored name, whatever permissions these have, and
whichever links and pipes there are. -/
theorem scanTree_eq_of_treesAgree {canonical : Path} {start start' : Location}
    (unfollowed : config.followLinks = false)
    (valid : validateRoot fs root = .ok canonical) (valid' : validateRoot fs' root = .ok canonical)
    (opened : fs.openDirectory canonical = .ok start)
    (opened' : fs'.openDirectory canonical = .ok start')
    (agree : TreesAgree config fs start fs' start') :
    ∃ outcome, (scanTree fs config root).result = .ok outcome ∧
      (scanTree fs' config root).result = .ok outcome := by
  obtain ⟨top, -, rfl, -⟩ := validateRoot_eq_ok_iff.mp valid
  exact scanTree_eq_of_lengthsAgree unfollowed valid valid' opened opened' agree
    fun _ _ _ => Iff.rfl

namespace Altered

open Walk.Sample

/-- A source file, a file without an extension, a directory that is left out, and a link. -/
def before : FileSystem :=
  { objects :=
      [([top], .directory true true), ([top, leaf], .file (Utf8.encode text) true),
       ([top, kept], .file (Utf8.encode text) true), ([top, build], .directory true true),
       ([top, build, leaf], .file (Utf8.encode text) true), ([top, up], .link [Path.slash])] }

/-- The same source file, but everything else has changed. -/
def after : FileSystem :=
  { objects :=
      [([top], .directory true true), ([top, leaf], .file (Utf8.encode text) true),
       ([top, kept], .file [] false), ([top, build], .directory false false),
       ([top, build, up], .pipe [] true), ([top, up], .pipe [] true)] }

theorem entry_cases (name : Name) :
    (name = leaf ∨ name = kept ∨ name = build ∨ name = up) ∨
      before.get? [top, name] = none ∧ after.get? [top, name] = none := by
  by_cases known : name = leaf ∨ name = kept ∨ name = build ∨ name = up
  · exact .inl known
  · simp only [not_or] at known
    obtain ⟨notLeaf, notKept, notBuild, notUp⟩ := known
    right
    constructor <;>
      simp [FileSystem.get?, before, after, List.lookup_cons, beq_false_of_ne notLeaf,
        beq_false_of_ne notKept, beq_false_of_ne notBuild, beq_false_of_ne notUp]

theorem leadsDown_before {names : List Name} (leads : LeadsDown before .standard [top] names) :
    names = [] := by
  induction leads with
  | start => rfl
  | @enter names name listable searchable above real entered ih =>
      subst ih
      have here : before.get? [top, name] = some (.directory listable searchable) := real
      rcases entry_cases name with (rfl | rfl | rfl | rfl) | ⟨missing, -⟩
      · cases here
      · cases here
      · cases entered
      · cases here
      · rw [missing] at here
        cases here

theorem treesAgree : TreesAgree .standard before [top] after [top] := by
  refine ⟨rfl, fun names leads name => ?_⟩
  obtain rfl := leadsDown_before leads
  rcases entry_cases name with (rfl | rfl | rfl | rfl) | ⟨missing, missing'⟩
  · exact .same _
  · exact .ignoredFile (by decide)
  · exact .ignoredDirectory (by decide)
  · exact .passedOver (.link _) (.pipe _ _)
  · exact .passedOver (missing.symm ▸ .none) (missing'.symm ▸ .none)

end Altered

open Walk.Sample in
theorem scanTree_eq_of_treesAgree_altered :
    Config.standard.followLinks = false ∧
      validateRoot Altered.before (Location.path [top]) = .ok (Location.path [top]) ∧
      validateRoot Altered.after (Location.path [top]) = .ok (Location.path [top]) ∧
      TreesAgree .standard Altered.before [top] Altered.after [top] ∧ ∃ outcome,
        (scanTree Altered.before .standard (Location.path [top])).result = .ok outcome ∧
        (scanTree Altered.after .standard (Location.path [top])).result = .ok outcome :=
  ⟨rfl, rfl, rfl, Altered.treesAgree,
    scanTree_eq_of_treesAgree rfl rfl rfl rfl rfl Altered.treesAgree⟩

end HiddenText
