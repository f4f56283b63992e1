import HiddenText.Proofs.Classification
import HiddenText.Proofs.Scan

/-! # Leaving out directories saves work and changes no finding

A file below a directory with an ignored name has that name on its path, so its inspection comes
to nothing.  Whether the walk goes through such directories therefore makes no difference to the
findings, nor to the order in which they come (`filterMap_files_eq`): a scan has the buckets of a
scan that goes through every directory. -/
set_option autoImplicit false

namespace HiddenText

namespace Walk

variable {fs : FileSystem} {strict lax : Config} {β : Type}

/-! ## Two walks, one of which leaves out more -/

theorem visit_of_kept (links : strict.followLinks = lax.followLinks) {ancestors : List Ancestor}
    {place : Location} {name : Name} {path : Path} (kept : strict.ignores name.bytes = false)
    (kept' : lax.ignores name.bytes = false) :
    visit fs strict ancestors place name path = visit fs lax ancestors place name path := by
  simp only [visit, visitLink, links, kept, kept']

theorem filterMap_atEntry_of_ignored {f : Path → Option β} {config : Config}
    {ancestors : List Ancestor} {place : Location} {path : Path} {name : Name}
    (passed : ∀ names, name ∈ names → f (path.descend names) = none) :
    ((atEntry fs config ancestors place path name).filterMap Event.file?).filterMap f = [] := by
  rw [List.filterMap_eq_nil_iff]
  intro p met
  obtain ⟨names, rfl⟩ := exists_descend_of_file (mem_filterMap_file?.mp met)
  exact passed (name :: names) (List.mem_cons_self ..)

/-- If what has an ignored name on its path is passed over, it does not matter whether the walk
leaves it out. -/
theorem filterMap_below_eq (links : strict.followLinks = lax.followLinks)
    (fewer : ∀ name, lax.ignores name = true → strict.ignores name = true) (f : Path → Option β)
    (ancestors : List Ancestor) (place : Location) (path : Path) :
    (∀ names : List Name, (∃ name ∈ names, strict.ignores name.bytes = true) →
      f (path.descend names) = none) →
    ((below fs strict ancestors place path).filterMap Event.file?).filterMap f =
      ((below fs lax ancestors place path).filterMap Event.file?).filterMap f := by
  induction ancestors, place, path using below.induct fs strict with
  | case1 ancestors place path ih =>
      intro passed
      rw [below_eq, below_eq]
      simp only [List.filterMap_flatMap]
      congr 1
      funext name
      cases ignored : strict.ignores name.bytes with
      | true =>
          have nothing : ∀ names, name ∈ names → f (path.descend names) = none :=
            fun names known => passed names ⟨name, known, ignored⟩
          rw [filterMap_atEntry_of_ignored nothing, filterMap_atEntry_of_ignored nothing]
      | false =>
          have kept' : lax.ignores name.bytes = false := by
            rw [Bool.eq_false_iff]
            intro left
            rw [fewer _ left] at ignored
            cases ignored
          rw [atEntry, atEntry, ← visit_of_kept links ignored kept']
          cases visited : visit fs strict ancestors place name (path.join name.bytes) with
          | pass => rfl
          | tell event => rfl
          | enter next =>
              refine ih name next visited fun names known => ?_
              obtain ⟨other, listed, left⟩ := known
              exact passed (name :: names) ⟨other, List.mem_cons_of_mem _ listed, left⟩

theorem filterMap_files_eq (links : strict.followLinks = lax.followLinks)
    (fewer : ∀ name, lax.ignores name = true → strict.ignores name = true) (f : Path → Option β)
    {root : Path} {start : Location} (opened : fs.openDirectory root = .ok start)
    (passed : ∀ names : List Name, (∃ name ∈ names, strict.ignores name.bytes = true) →
      f (root.descend names) = none) :
    (Walk.ofRoot fs strict root).files.filterMap f =
      (Walk.ofRoot fs lax root).files.filterMap f := by
  rw [files_ofRoot strict opened, files_ofRoot lax opened]
  exact filterMap_below_eq links fewer f _ start root passed

end Walk

/-! ## A scan -/

variable {fs : FileSystem} {config : Config} {root canonical : Path}

theorem classify_relative_of_ignored {names : List Name} {name : Name} (known : name ∈ names)
    (ignored : config.ignores name.bytes = true) :
    classify (Path.relative names) config = .ignored := by
  have listed : name.bytes ∈ Path.names (Path.relative names) := by
    rw [Path.names_relative (List.ne_nil_of_mem known)]
    exact List.mem_map_of_mem known
  exact classify_of_ignored listed ignored

theorem finding?_ofFile_of_ignored (place : Location) {names : List Name} {name : Name}
    (known : name ∈ names) (ignored : config.ignores name.bytes = true) :
    (Inspection.ofFile fs config place.path (place.path.descend names)).finding? = none := by
  have seen : (Path.stripPrefix? place.path (place.path.descend names)).getD
      (place.path.descend names) = Path.relative names := by
    rw [Path.stripPrefix?_descend place (List.ne_nil_of_mem known)]
    rfl
  rw [Inspection.ofFile_of_ignored seen (classify_relative_of_ignored known ignored)]
  rfl

/-- A scan of a valid root has the buckets that it has if no directory is left out and ignored
files are left to their classification. -/
theorem scanTree_buckets_eq (config : Config) (valid : validateRoot fs root = .ok canonical) :
    ∃ outcome outcome', (scanTree fs config root).result = .ok outcome ∧
      (scanAlong (Walk.ofRoot fs (Walk.unpruned config)) fs config root).result = .ok outcome' ∧
      outcome.blocking = outcome'.blocking ∧ outcome.advisory = outcome'.advisory := by
  refine ⟨_, _, scanTree_of_validateRoot config valid,
    scanAlong_of_validateRoot config valid (rootError_of_validateRoot _ valid), ?_⟩
  obtain ⟨place, -, rfl, start, opened⟩ := validateRoot_eq_ok_iff.mp valid
  have fewer : ∀ name, (Walk.unpruned config).ignores name = true → config.ignores name = true := by
    intro name ignored
    rw [Walk.not_ignores_unpruned] at ignored
    cases ignored
  have links : config.followLinks = (Walk.unpruned config).followLinks := rfl
  have same := Walk.filterMap_files_eq links fewer
    (fun path => (Inspection.ofFile fs config place.path path).finding?) opened
    fun names ⟨name, known, ignored⟩ => finding?_ofFile_of_ignored place known ignored
  simp only [Outcome.collect, Outcome.ofFindings, List.filterMap_map, Function.comp_def, same,
    and_self]

open Walk.Sample in
theorem scanTree_buckets_eq_tree :
    validateRoot tree (Location.path [top]) = .ok (Location.path [top]) ∧
      ∃ outcome outcome', (scanTree tree following (Location.path [top])).result = .ok outcome ∧
        (scanAlong (Walk.ofRoot tree (Walk.unpruned following)) tree following
          (Location.path [top])).result = .ok outcome' ∧
        outcome.blocking = outcome'.blocking ∧ outcome.advisory = outcome'.advisory ∧
        Location.path [top, build, leaf] ∈
          (Walk.ofRoot tree (Walk.unpruned following) (Location.path [top])).files ∧
        Location.path [top, build, leaf] ∉
          (Walk.ofRoot tree following (Location.path [top])).files := by
  have valid : validateRoot tree (Location.path [top]) = .ok (Location.path [top]) := rfl
  obtain ⟨outcome, outcome', scanned, scanned', blocking, advisory⟩ :=
    scanTree_buckets_eq following valid
  refine ⟨valid, outcome, outcome', scanned, scanned', blocking, advisory, ?_, ?_⟩
  · have route : Walk.Route tree (Walk.unpruned following) (Location.path [top]) [build]
        [top, build] [[top]] := .directory (.root opened) rfl rfl rfl
    exact (Walk.mem_files_iff opened _).mpr
      ⟨[build], leaf, ⟨_, _, route, Or.inl ⟨Utf8.encode text, true, rfl⟩⟩, rfl⟩
  · intro met
    have reached : Walk.Reaches tree following (Location.path [top]) [build] leaf :=
      (Walk.descend_mem_files_iff opened [build] leaf).mp met
    have kept := (Walk.reaches_iff.mp reached).2 build (List.mem_singleton_self _)
    exact absurd kept (by decide)

end HiddenText
