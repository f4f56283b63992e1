import HiddenText.Proofs.Scan.Policy
import HiddenText.Proofs.Walk.Unlisted

/-! # What a directory that cannot be listed costs

Taking away the permission to list a directory that a walk enters costs the files below it, and
nothing else: one failure is counted in the place of those below the directory, and a scan tells of
all other files what it told of them before (`loses_subtree_of_unlist`). -/
set_option autoImplicit false

namespace HiddenText

variable {fs : FileSystem} {config : Config} {root : Path} {directory : Location}
  {names : List Name} {above : List Location}

/-- A walk meets what another one meets, with one failure in the place of all that the other meets
below a directory. -/
structure Walk.LosesSubtree (walk walk' : Walk) (path : Path) : Prop where
  rootError : walk'.rootError = none
  events : ∃ before inside after, walk.events = before ++ inside ++ after ∧
    walk'.events = before ++ [.failed path .permissionDenied] ++ after ∧
    (∀ event ∈ before ++ after, event.isBelow path = false) ∧
    ∀ event ∈ inside, event.isBelow path = true
  files : walk'.files = walk.files.filter fun p => ¬ path.IsBelow p
  errors : walk'.errors + walk.errorsBelow path = walk.errors + 1

theorem Walk.losesSubtree_of_unlist (unfollowed : config.followLinks = false)
    (route : Walk.Route fs config root names directory above) (proper : names ≠ []) :
    Walk.LosesSubtree (Walk.ofRoot fs config root)
      (Walk.ofRoot (fs.unlist directory) config root) (root.descend names) := by
  obtain ⟨sound, inside, ⟨before, after, met, met', beside⟩, within⟩ :=
    Walk.exists_split_ofRoot unfollowed route proper
  have outside : ∀ event ∈ before ++ after, event.isBelow (root.descend names) = false :=
    fun event known => (beside event known).isBelow_eq proper
  have below : ∀ event ∈ inside, event.isBelow (root.descend names) = true := by
    intro event known
    obtain ⟨name, more, shown⟩ := within event known
    exact Walk.Event.isBelow_of_path? proper shown
  exact ⟨sound, ⟨before, inside, after, met, met', outside, below⟩,
    Walk.files_of_split met met' outside below, Walk.errors_of_split met met' outside below⟩

theorem read_unlist_of_mem_files (unfollowed : config.followLinks = false) {start : Location}
    (opened : fs.openDirectory root = .ok start) {path : Path}
    (met : path ∈ (Walk.ofRoot fs config root).files) :
    (fs.unlist directory).read path = fs.read path := by
  obtain ⟨names, name, ⟨place, above, route, isFile⟩, rfl⟩ :=
    (Walk.mem_files_iff opened path).mp met
  obtain ⟨searchable, here⟩ := route.stat_eq unfollowed
  rw [Path.descend_concat]
  refine FileSystem.read_unlist fun place' listable searchable' isDirectory => ?_
  rcases isFile with ⟨content, readable, there⟩ | ⟨followed, -⟩
  · have isFile := (FileSystem.eq_of_object_entry here there nofun isDirectory).2
    cases isFile
  · rw [unfollowed] at followed
    cases followed

theorem validateRoot_unlist {spelled : Path} {start : Location}
    (opened : (fs.unlist directory).openDirectory root = .ok start)
    (valid : validateRoot fs spelled = .ok root) :
    validateRoot (fs.unlist directory) spelled = .ok root := by
  obtain ⟨place, resolved, rfl, -⟩ := validateRoot_eq_ok_iff.mp valid
  exact validateRoot_eq_ok_iff.mpr
    ⟨place, (FileSystem.canonical_unlist ..).trans resolved, rfl, start, opened⟩

/-- The file system still has the root where it was, so a walk comes upon the same files but for
those below the directory, and reads the same in them. -/
theorem finds_unlist_iff (unfollowed : config.followLinks = false) {start : Location}
    (opened : fs.openDirectory root = .ok start) {path lost : Path}
    (files : (Walk.ofRoot (fs.unlist directory) config root).files =
      (Walk.ofRoot fs config root).files.filter fun p => ¬ lost.IsBelow p)
    {cls : FileClass} {finding : Finding} :
    Finds (fs.unlist directory) config root cls path finding ↔
      Finds fs config root cls path finding ∧ ¬ lost.IsBelow path := by
  rw [Finds, Finds, files, List.mem_filter, decide_eq_true_eq]
  have read (met : path ∈ (Walk.ofRoot fs config root).files) :
      (fs.unlist directory).read path = fs.read path :=
    read_unlist_of_mem_files unfollowed opened met
  constructor
  · rintro ⟨⟨met, outside⟩, tells⟩
    exact ⟨⟨met, (tells_iff_of_read (read met)).mp tells⟩, outside⟩
  · rintro ⟨⟨met, tells⟩, outside⟩
    exact ⟨⟨met, outside⟩, (tells_iff_of_read (read met)).mpr tells⟩

/-- Without the permission to list a directory below the root that a walk enters, the walk ends with
just the files below that directory missing and one failure in the place of those that it counted
there, and it has no error at the root.  A scan still succeeds, whatever threads it has, and tells
of all other files what it told before. -/
theorem loses_subtree_of_unlist (unfollowed : config.followLinks = false)
    (route : Walk.Route fs config root names directory above) (proper : names ≠ []) :
    Walk.State.EndsWith fs config (.start root) (Walk.ofRoot fs config root) ∧
      Walk.State.EndsWith (fs.unlist directory) config (.start root)
        (Walk.ofRoot (fs.unlist directory) config root) ∧
      Walk.LosesSubtree (Walk.ofRoot fs config root)
        (Walk.ofRoot (fs.unlist directory) config root) (root.descend names) ∧
      ∀ spelled, validateRoot fs spelled = .ok root →
        (scanTree fs config spelled).result =
          .ok (.collect
            ((Walk.ofRoot fs config root).files.map (Inspection.ofFile fs config root))
            (Walk.ofRoot fs config root).errors) ∧
        (scanTree (fs.unlist directory) config spelled).result =
          .ok (.collect
            (((Walk.ofRoot fs config root).files.filter fun p =>
              ¬ (root.descend names).IsBelow p).map (Inspection.ofFile fs config root))
            (Walk.ofRoot (fs.unlist directory) config root).errors) ∧
        (∀ processors result, Scans (fs.unlist directory) config processors spelled result →
          ∃ outcome, result = .ok outcome ∧
            outcome.stats.traversalErrors = (Walk.ofRoot (fs.unlist directory) config root).errors ∧
            outcome.Reports (fs.unlist directory) config root) ∧
        ∀ cls path finding, Finds (fs.unlist directory) config root cls path finding ↔
          Finds fs config root cls path finding ∧ ¬ (root.descend names).IsBelow path := by
  obtain ⟨start, -, opened, -⟩ := Walk.below_subset_of_route route
  have loses := Walk.losesSubtree_of_unlist unfollowed route proper
  have outer : start ≠ directory := by
    rw [route.place_eq unfollowed opened]
    exact fun same => proper (List.append_right_eq_self.mp same.symm)
  refine ⟨Walk.State.endsWith_ofRoot .., Walk.State.endsWith_ofRoot .., loses, ?_⟩
  intro spelled valid
  have valid' : validateRoot (fs.unlist directory) spelled = .ok root :=
    validateRoot_unlist (FileSystem.openDirectory_unlist_of_ne outer opened) valid
  have scanned' := scanTree_of_validateRoot config valid'
  refine ⟨scanTree_of_validateRoot config valid, ?_, ?_,
    fun cls path finding => finds_unlist_iff unfollowed opened loses.files⟩
  · rw [scanned', loses.files]
    congr 2
    refine List.map_congr_left fun path known => Inspection.ofFile_eq_of_read rfl rfl (.inr ?_)
    exact read_unlist_of_mem_files unfollowed opened (List.mem_filter.mp known).1
  · intro processors result scans
    obtain ⟨outcome, rfl, reports⟩ := scans.exists_reports valid'
    have agrees := scans.agrees_scanTree
    rw [scanned'] at agrees
    cases agrees with
    | ok agrees => exact ⟨outcome, rfl, congrArg ScanStats.traversalErrors agrees.stats, reports⟩

namespace Unlisted

open Walk.Sample

/-- A directory with a file and with a directory that cannot be listed, and a file beside it. -/
def grove : FileSystem :=
  { objects :=
      [([top], .directory true true), ([top, leaf], .file (Utf8.encode text) true),
       ([top, kept], .directory true true), ([top, kept, leaf], .file (Utf8.encode text) true),
       ([top, kept, up], .directory false true)] }

theorem route_top : Walk.Route grove .standard (Location.path [top]) [] [top] [] := .root rfl

theorem route_kept : Walk.Route grove .standard (Location.path [top]) [kept] [top, kept] [[top]] :=
  .directory route_top rfl rfl rfl

end Unlisted

open Walk.Sample Unlisted in
/-- The file beside the directory is still met, and the one in it is not. -/
theorem loses_subtree_of_unlist_grove :
    Config.standard.followLinks = false ∧
      validateRoot grove (Location.path [top]) = .ok (Location.path [top]) ∧
      Location.path [top, kept, leaf] ∈
        (Walk.ofRoot grove .standard (Location.path [top])).files ∧
      Location.path [top, kept, leaf] ∉
        (Walk.ofRoot (grove.unlist [top, kept]) .standard (Location.path [top])).files ∧
      Location.path [top, leaf] ∈
        (Walk.ofRoot (grove.unlist [top, kept]) .standard (Location.path [top])).files ∧
      ∃ outcome, (scanTree (grove.unlist [top, kept]) .standard (Location.path [top])).result =
        .ok outcome := by
  have opened : grove.openDirectory (Location.path [top]) = .ok [top] := rfl
  have valid : validateRoot grove (Location.path [top]) = .ok (Location.path [top]) := rfl
  have inside : Location.path [top, kept, leaf] ∈
      (Walk.ofRoot grove .standard (Location.path [top])).files :=
    (Walk.mem_files_iff opened _).mpr
      ⟨[kept], leaf, ⟨_, _, route_kept, .inl ⟨_, _, rfl⟩⟩, rfl⟩
  have beside : Location.path [top, leaf] ∈
      (Walk.ofRoot grove .standard (Location.path [top])).files :=
    (Walk.mem_files_iff opened _).mpr ⟨[], leaf, ⟨_, _, route_top, .inl ⟨_, _, rfl⟩⟩, rfl⟩
  have unfollowed : Config.standard.followLinks = false := rfl
  obtain ⟨-, -, loses, scans⟩ :=
    loses_subtree_of_unlist unfollowed route_kept (List.cons_ne_nil _ _)
  refine ⟨unfollowed, valid, inside, ?_, ?_, _, (scans _ valid).2.1⟩
  · rw [loses.files, List.mem_filter]
    exact fun known => absurd known.2 (by decide)
  · rw [loses.files, List.mem_filter]
    exact ⟨beside, by decide⟩

end HiddenText
