import HiddenText.Proofs.Scan.Threads
import Mathlib.Data.List.Perm.Subperm

/-! # What a stricter or a laxer policy finds

Whether a walk comes upon a file depends on the directories and links above it alone, so leaving
out more names only closes routes and following links only opens some (`Walk.files_subset`).  With
fewer restricted codepoints there is less to tell of a file's text.  Hence a policy that leaves out
and allows more finds no more, and a scan that follows links finds no less
(`scans_monotone`). -/
set_option autoImplicit false

namespace HiddenText

variable {fs : FileSystem} {root canonical : Path} {cls : FileClass}

/-- A configuration is another one with names added to those that are left out, codepoints added
to those that are allowed, and restricted ranges removed. -/
structure Config.Narrows (config base : Config) : Prop where
  ignoredNames : base.ignoredNames ⊆ config.ignoredNames
  allowed : base.restricted.allowed ⊆ config.restricted.allowed
  ranges : config.restricted.ranges ⊆ base.restricted.ranges
  others : config = { base with
    ignoredNames := config.ignoredNames, restricted := config.restricted }

def Outcome.findings (o : Outcome) : FileClass → List Finding
  | .source => o.blocking
  | .documentation => o.advisory
  | .ignored => []

def Outcome.Reports (fs : FileSystem) (config : Config) (canonical : Path) (o : Outcome) : Prop :=
  ∀ cls, cls ≠ .ignored →
    Lists fs config canonical (Walk.ofRoot fs config canonical).files cls (o.findings cls)

def Finds (fs : FileSystem) (config : Config) (canonical : Path) (cls : FileClass) (path : Path)
    (finding : Finding) : Prop :=
  path ∈ (Walk.ofRoot fs config canonical).files ∧ Tells fs config canonical cls path finding

/-! ## The files that are met -/

namespace Walk

variable {config base : Config} {names : List Name} {place : Location} {above : List Location}

theorem Route.weaken (links : config.followLinks = true → base.followLinks = true)
    (kept : ∀ name, config.ignores name = false → base.ignores name = false)
    (route : Route fs config root names place above) : Route fs base root names place above := by
  induction route with
  | root opened => exact .root opened
  | directory _ real opened notIgnored ih =>
      exact .directory ih real opened (kept _ notIgnored)
  | link _ isLink followed opened new notIgnored ih =>
      exact .link ih isLink (links followed) opened new (kept _ notIgnored)

theorem IsFile.weaken (links : config.followLinks = true → base.followLinks = true) {name : Name}
    {path : Path} (h : IsFile fs config place name path) : IsFile fs base place name path := by
  rcases h with real | ⟨followed, linked⟩
  · exact .inl real
  · exact .inr ⟨links followed, linked⟩

/-- A file is met whatever else is met: its own ancestors decide. -/
theorem files_subset (links : config.followLinks = true → base.followLinks = true)
    (kept : ∀ name, config.ignores name = false → base.ignores name = false) {start : Location}
    (opened : fs.openDirectory root = .ok start) :
    (Walk.ofRoot fs config root).files ⊆ (Walk.ofRoot fs base root).files := by
  intro path met
  obtain ⟨names, name, ⟨place, above, route, isFile⟩, rfl⟩ := (mem_files_iff opened path).mp met
  exact (mem_files_iff opened _).mpr
    ⟨names, name, ⟨place, above, route.weaken links kept, isFile.weaken links⟩, rfl⟩

end Walk

/-! ## What there is to tell -/

namespace Config.Narrows

variable {config base : Config} (narrows : config.Narrows base)
include narrows

theorem kept (name : Bytes) (h : config.ignores name = false) : base.ignores name = false := by
  rw [ignores, List.contains_eq_mem, decide_eq_false_iff_not] at h ⊢
  exact fun known => h (narrows.ignoredNames known)

theorem restricts {c : Char} (h : config.restricted.Restricts c) : base.restricted.Restricts c := by
  obtain ⟨⟨range, listed, within⟩, notAllowed⟩ := h
  exact ⟨⟨range, narrows.ranges listed, within⟩, fun known => notAllowed (narrows.allowed known)⟩

theorem followLinks_eq : config.followLinks = base.followLinks := by
  rw [narrows.others]

theorem classify_eq {path : Path} (h : classify path config ≠ .ignored) :
    classify path base = classify path config := by
  have kept : ¬ (Path.names path).any config.ignores = true := by
    intro ignored
    rw [classify, if_pos ignored] at h
    exact h rfl
  have kept' : ¬ (Path.names path).any base.ignores = true := by
    simp only [List.any_eq_true, not_exists, not_and, Bool.not_eq_true] at kept ⊢
    exact fun name known => narrows.kept name (kept name known)
  rw [classify, classify, if_neg kept, if_neg kept', narrows.others]

theorem exists_tells {path : Path} {finding : Finding}
    (h : Tells fs config root cls path finding) (told : cls ≠ .ignored) :
    ∃ finding', Tells fs base root cls path finding' ∧ finding'.path = finding.path ∧
      finding.occurrences ≤ finding'.occurrences := by
  obtain ⟨names, text, rfl, rfl, read, ⟨c, within, restricted⟩, rfl⟩ := h
  refine ⟨_, ⟨names, text, rfl, narrows.classify_eq told, read,
    ⟨c, within, narrows.restricts restricted⟩, rfl⟩, rfl, ?_⟩
  apply List.countP_mono_left
  intro d _ counted
  exact decide_eq_true (narrows.restricts (of_decide_eq_true counted))

theorem exists_finds {start : Location} (opened : fs.openDirectory root = .ok start) {path : Path}
    {finding : Finding} (h : Finds fs config root cls path finding) (told : cls ≠ .ignored) :
    ∃ finding', Finds fs base root cls path finding' ∧ finding'.path = finding.path ∧
      finding.occurrences ≤ finding'.occurrences := by
  obtain ⟨met, tells⟩ := h
  have links : config.followLinks = true → base.followLinks = true := by
    rw [narrows.followLinks_eq]
    exact id
  obtain ⟨finding', tells', rest⟩ := narrows.exists_tells tells told
  exact ⟨finding', ⟨Walk.files_subset links narrows.kept opened met, tells'⟩, rest⟩

end Config.Narrows

/-! ## Buckets -/

section

variable {config config' : Config} {files files' : List Path} {bucket bucket' : List Finding}

theorem Lists.of_perm (h : Lists fs config root files cls bucket) (perm : bucket'.Perm bucket)
    (sorted : bucket'.Pairwise Finding.Precedes) : Lists fs config root files cls bucket' := by
  obtain ⟨-, told, rfl, nodup, mem⟩ := h
  obtain ⟨told', all, same⟩ :=
    (iff_of_eq (congrFun₂ (List.eq_map_comp_perm Prod.snd) bucket' told)).mpr perm
  refine ⟨sorted, told', all, (same.map Prod.fst).nodup_iff.mpr nodup, ?_⟩
  intro path finding
  rw [same.mem_iff]
  exact mem path finding

/-- A bucket is contained in another if each of its files is told of there in the same way. -/
theorem Lists.subperm (h : Lists fs config root files cls bucket)
    (h' : Lists fs config' root files' cls bucket')
    (same : ∀ path finding, path ∈ files ∧ Tells fs config root cls path finding →
      path ∈ files' ∧ Tells fs config' root cls path finding) : bucket.Subperm bucket' := by
  obtain ⟨-, told, rfl, nodup, mem⟩ := h
  obtain ⟨-, told', rfl, -, mem'⟩ := h'
  have sub : told ⊆ told' := by
    rintro ⟨path, finding⟩ listed
    exact (mem' path finding).mpr (same path finding ((mem path finding).mp listed))
  obtain ⟨part, perm, sublist⟩ := List.subperm_of_subset (List.Nodup.of_map Prod.fst nodup) sub
  exact ⟨part.map Prod.snd, perm.map _, sublist.map _⟩

end

/-- A scan of a valid root tells of what there is to tell of, whatever threads it has. -/
theorem Scans.exists_reports {config : Config} {processors : Nat}
    {result : Except ScanError Outcome} (h : Scans fs config processors root result)
    (valid : validateRoot fs root = .ok canonical) :
    ∃ outcome, result = .ok outcome ∧ outcome.Reports fs config canonical := by
  obtain ⟨place, -, rfl, start, opened⟩ := validateRoot_eq_ok_iff.mp valid
  have inOrder : ∀ cls, cls ≠ .ignored →
      Lists fs config place.path (Walk.ofRoot fs config place.path).files cls
        (bucket cls (((Walk.ofRoot fs config place.path).files.map
          (Inspection.ofFile fs config place.path)).filterMap Inspection.finding?)) :=
    fun cls told => lists_bucket config opened told
  cases h with
  | refused refused =>
      rw [valid] at refused
      cases refused
  | alone single =>
      refine ⟨_, scanTree_of_validateRoot config valid, fun cls told => ?_⟩
      cases cls with
      | source => exact inOrder _ told
      | documentation => exact inOrder _ told
      | ignored => exact absurd rfl told
  | @together canonical workers s several valid' crewed fits run finished =>
      obtain rfl := Except.ok.inj (valid.symm.trans valid')
      have agrees := (run.inv (Pipeline.start_inv _ _ crewed)).agrees_of_finished finished
        (Walk.ofRoot fs config place.path).errors
      rw [Pipeline.State.result, rootError_of_validateRoot config valid]
      refine ⟨_, rfl, fun cls told => ?_⟩
      cases cls with
      | source =>
          exact (inOrder _ told).of_perm agrees.blocking (Finding.sortByPath_pairwise _)
      | documentation =>
          exact (inOrder _ told).of_perm agrees.advisory (Finding.sortByPath_pairwise _)
      | ignored => exact absurd rfl told

theorem Outcome.Reports.exitStatus_eq_blocking_iff {config : Config} {outcome : Outcome}
    (h : outcome.Reports fs config canonical) :
    outcome.exitStatus = .blocking ↔
      ∃ path finding, Finds fs config canonical .source path finding := by
  rw [outcome.exitStatus_eq_blocking_iff]
  have found := (h .source nofun).ne_nil_iff
  rw [findings] at found
  rw [found]
  constructor
  · rintro ⟨path, met, finding, tells⟩
    exact ⟨path, finding, met, tells⟩
  · rintro ⟨path, finding, met, tells⟩
    exact ⟨path, met, finding, tells⟩

theorem ExitStatus.eq_clean_iff (status : ExitStatus) : status = .clean ↔ status ≠ .blocking := by
  cases status <;> simp

/-- A policy that leaves out more names, allows more codepoints and restricts fewer ranges finds
something only in files in which the other one does too, and there no more; so what is clean stays
clean.  With links followed a scan finds all that it finds without, and finds it the same. -/
theorem scans_monotone (valid : validateRoot fs root = .ok canonical)
    (processors processors' : Nat) :
    (∀ config base : Config, config.Narrows base → ∀ result result',
      Scans fs config processors root result → Scans fs base processors' root result' →
        ∃ outcome outcome', result = .ok outcome ∧ result' = .ok outcome' ∧
          outcome.Reports fs config canonical ∧ outcome'.Reports fs base canonical ∧
          (∀ cls, cls ≠ .ignored → ∀ path finding, Finds fs config canonical cls path finding →
            ∃ finding', Finds fs base canonical cls path finding' ∧
              finding'.path = finding.path ∧ finding.occurrences ≤ finding'.occurrences) ∧
          (outcome'.exitStatus = .clean → outcome.exitStatus = .clean)) ∧
    ∀ config : Config, ∀ result result', Scans fs config processors root result →
      Scans fs { config with followLinks := true } processors' root result' →
        ∃ outcome outcome', result = .ok outcome ∧ result' = .ok outcome' ∧
          outcome.Reports fs config canonical ∧
          outcome'.Reports fs { config with followLinks := true } canonical ∧
          ∀ cls, cls ≠ .ignored →
            (∀ path finding, Finds fs config canonical cls path finding →
              Finds fs { config with followLinks := true } canonical cls path finding) ∧
            (outcome.findings cls).Subperm (outcome'.findings cls) := by
  obtain ⟨place, -, rfl, start, opened⟩ := validateRoot_eq_ok_iff.mp valid
  constructor
  · intro config base narrows result result' scans scans'
    obtain ⟨outcome, rfl, reports⟩ := scans.exists_reports valid
    obtain ⟨outcome', rfl, reports'⟩ := scans'.exists_reports valid
    have finds : ∀ cls, cls ≠ .ignored → ∀ path finding,
        Finds fs config place.path cls path finding →
          ∃ finding', Finds fs base place.path cls path finding' ∧
            finding'.path = finding.path ∧ finding.occurrences ≤ finding'.occurrences :=
      fun cls told path finding found => narrows.exists_finds opened found told
    refine ⟨outcome, outcome', rfl, rfl, reports, reports', finds, ?_⟩
    rw [ExitStatus.eq_clean_iff, ExitStatus.eq_clean_iff, ne_eq, ne_eq, not_imp_not,
      reports.exitStatus_eq_blocking_iff, reports'.exitStatus_eq_blocking_iff]
    rintro ⟨path, finding, found⟩
    obtain ⟨finding', found', -⟩ := finds .source nofun path finding found
    exact ⟨path, finding', found'⟩
  · intro config result result' scans scans'
    obtain ⟨outcome, rfl, reports⟩ := scans.exists_reports valid
    obtain ⟨outcome', rfl, reports'⟩ := scans'.exists_reports valid
    refine ⟨outcome, outcome', rfl, rfl, reports, reports', fun cls told => ?_⟩
    have more : (Walk.ofRoot fs config place.path).files ⊆
        (Walk.ofRoot fs { config with followLinks := true } place.path).files :=
      Walk.files_subset (fun _ => rfl) (fun _ kept => kept) opened
    have finds : ∀ path finding, Finds fs config place.path cls path finding →
        Finds fs { config with followLinks := true } place.path cls path finding :=
      fun path finding ⟨met, tells⟩ => ⟨more met, tells⟩
    exact ⟨finds, (reports cls told).subperm (reports' cls told) finds⟩

def Config.lenient : Config :=
  { Config.standard with
    ignoredNames := "k" :: Config.standard.ignoredNames
    restricted := RestrictedSet.standard.allow '\u202E' }

open Walk.Sample in
theorem scans_monotone_tree :
    validateRoot tree (Location.path [top]) = .ok (Location.path [top]) ∧
      Config.lenient.Narrows .standard ∧ ∃ outcome outcome' linked,
        (scanTree tree .lenient (Location.path [top])).result = .ok outcome ∧
        (scanTree tree .standard (Location.path [top])).result = .ok outcome' ∧
        (scanTree tree following (Location.path [top])).result = .ok linked ∧
        (outcome'.exitStatus = .clean → outcome.exitStatus = .clean) ∧
        outcome'.blocking.Subperm linked.blocking := by
  have valid : validateRoot tree (Location.path [top]) = .ok (Location.path [top]) := rfl
  have narrows : Config.lenient.Narrows .standard :=
    ⟨List.subset_cons_self _ _, List.nil_subset _, List.Subset.refl _, rfl⟩
  obtain ⟨policy, links⟩ := scans_monotone valid 1 1
  obtain ⟨outcome, outcome', scanned, scanned', -, -, -, clean⟩ :=
    policy _ _ narrows _ _ (scans_scanTree ..) (scans_scanTree ..)
  obtain ⟨unlinked, linked, scanned'', followed, -, -, more⟩ :=
    links .standard _ _ (scans_scanTree ..) (scans_scanTree ..)
  obtain rfl := Except.ok.inj (scanned'.symm.trans scanned'')
  exact ⟨valid, narrows, outcome, outcome', linked, scanned, scanned', followed, clean,
    (more .source nofun).2⟩

end HiddenText
