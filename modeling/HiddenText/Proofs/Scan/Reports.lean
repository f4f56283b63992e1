import HiddenText.Proofs.Outcome.Arrival
import HiddenText.Proofs.Scan
import Mathlib.Data.List.Perm.Basic

/-! # What the buckets of a scan hold

Every file that the walk comes upon is told of once, in the bucket of its class, if it can be read
as a text that holds restricted characters; no bucket holds anything else. -/
set_option autoImplicit false

namespace HiddenText

/-- What a scan is to tell of a file, which lies some names below the root. -/
def Tells (fs : FileSystem) (config : Config) (root : Path) (cls : FileClass) (path : Path)
    (finding : Finding) : Prop :=
  ∃ names text, path = root.descend names ∧ classify (Path.relative names) config = cls ∧
    fs.read path = .ok (Utf8.encode text) ∧ (∃ c ∈ text, config.restricted.Restricts c) ∧
    finding =
      { path := String.ofList
          (List.intercalate ['/'] (names.map fun name => Utf8.decodeLossy name.bytes))
        occurrences := text.countP (decide <| config.restricted.Restricts ·)
        samples := (text.filter (decide <| config.restricted.Restricts ·)).eraseDups.take
          config.sampleCap }

/-- A bucket is in the order of the paths' bytes and holds what there is to tell of the files of a
class, once for each. -/
def Lists (fs : FileSystem) (config : Config) (root : Path) (files : List Path) (cls : FileClass)
    (bucket : List Finding) : Prop :=
  bucket.Pairwise Finding.Precedes ∧
    ∃ told : List (Path × Finding), bucket = told.map Prod.snd ∧ (told.map Prod.fst).Nodup ∧
      ∀ path finding, (path, finding) ∈ told ↔
        path ∈ files ∧ Tells fs config root cls path finding

theorem tells_iff_of_read {fs fs' : FileSystem} {config : Config} {root : Path} {cls : FileClass}
    {path : Path} {finding : Finding} (same : fs'.read path = fs.read path) :
    Tells fs' config root cls path finding ↔ Tells fs config root cls path finding := by
  simp only [Tells, same]

theorem Lists.of_read {fs fs' : FileSystem} {config : Config} {root : Path} {files : List Path}
    {cls : FileClass} {bucket : List Finding} (h : Lists fs config root files cls bucket)
    (same : ∀ path ∈ files, fs'.read path = fs.read path) :
    Lists fs' config root files cls bucket := by
  obtain ⟨sorted, told, all, nodup, mem⟩ := h
  refine ⟨sorted, told, all, nodup, ?_⟩
  intro path finding
  rw [mem]
  exact and_congr_right fun met => (tells_iff_of_read (same path met)).symm

/-! ## A bucket of inspections -/

def Inspection.findingOf (cls : FileClass) (i : Inspection) : Option Finding :=
  i.finding?.bind fun (found, finding) => if found = cls then some finding else none

theorem Inspection.findingOf_eq_some_iff {cls : FileClass} {i : Inspection} {finding : Finding} :
    i.findingOf cls = some finding ↔ i.finding? = some (cls, finding) := by
  rw [findingOf]
  cases i.finding? with
  | none => simp
  | some found =>
      obtain ⟨other, finding'⟩ := found
      by_cases same : other = cls
      · simp [same]
      · simp [same]

theorem bucket_eq (cls : FileClass) (inspections : List Inspection) :
    bucket cls (inspections.filterMap Inspection.finding?) =
      Finding.sortByPath (inspections.filterMap (Inspection.findingOf cls)) := by
  rw [bucket, List.filterMap_filterMap]
  rfl

/-- A bucket holds the findings of its class, each with the file that it was found in. -/
theorem exists_told (inspect : Path → Inspection) {files : List Path} (nodup : files.Nodup)
    (cls : FileClass) :
    ∃ told : List (Path × Finding),
      bucket cls ((files.map inspect).filterMap Inspection.finding?) = told.map Prod.snd ∧
        (told.map Prod.fst).Nodup ∧
        ∀ path finding, (path, finding) ∈ told ↔
          path ∈ files ∧ (inspect path).finding? = some (cls, finding) := by
  let inOrder := files.filterMap fun path => ((inspect path).findingOf cls).map (path, ·)
  have findings : inOrder.map Prod.snd =
      (files.map inspect).filterMap (Inspection.findingOf cls) := by
    simp only [inOrder, List.map_filterMap, List.filterMap_map, Option.map_map, Function.comp_def,
      Option.map_id']
  have sorted : (bucket cls ((files.map inspect).filterMap Inspection.finding?)).Perm
      (inOrder.map Prod.snd) := by
    rw [bucket_eq, findings]
    exact Finding.sortByPath_perm _
  obtain ⟨told, all, perm⟩ :=
    (iff_of_eq (congrFun₂ (List.eq_map_comp_perm Prod.snd) _ inOrder)).mpr sorted
  refine ⟨told, all, (perm.map Prod.fst).nodup_iff.mpr ?_, ?_⟩
  · rw [List.map_filterMap]
    refine nodup.filterMap ?_
    intro p p' q from_p from_p'
    simp only [Option.map_map, Option.mem_def, Option.map_eq_some_iff, Function.comp]
      at from_p from_p'
    obtain ⟨-, -, rfl⟩ := from_p
    obtain ⟨-, -, rfl⟩ := from_p'
    rfl
  · intro path finding
    rw [perm.mem_iff, List.mem_filterMap]
    simp only [Option.map_eq_some_iff, Inspection.findingOf_eq_some_iff, Prod.mk.injEq]
    constructor
    · rintro ⟨p, listed, f, found, rfl, rfl⟩
      exact ⟨listed, found⟩
    · rintro ⟨listed, found⟩
      exact ⟨path, listed, finding, found, rfl, rfl⟩

/-! ## A scan -/

variable {fs : FileSystem} {config : Config} {root : Path}

/-- From a canonical root, a path below it is seen as the names that lead there. -/
theorem finding?_ofFile_iff_tells (place : Location) {names : List Name} (h : names ≠ [])
    {cls : FileClass} (told : cls ≠ .ignored) {finding : Finding} :
    (Inspection.ofFile fs config place.path (place.path.descend names)).finding? =
        some (cls, finding) ↔
      Tells fs config place.path cls (place.path.descend names) finding := by
  have seen : (Path.stripPrefix? place.path (place.path.descend names)).getD
      (place.path.descend names) = Path.relative names := by
    rw [Path.stripPrefix?_descend place h]
    rfl
  have shown : Path.shownNames (Path.relative names) = String.ofList
      (List.intercalate ['/'] (names.map fun name => Utf8.decodeLossy name.bytes)) := by
    rw [Path.shownNames, Path.names_relative h, List.map_map]
    rfl
  rw [Inspection.finding?_ofFile_eq_some_iff seen, shown]
  constructor
  · rintro ⟨isClass, -, text, read, restricted, rfl⟩
    exact ⟨names, text, rfl, isClass, read, restricted, rfl⟩
  · rintro ⟨names', text, same, isClass, read, restricted, rfl⟩
    obtain rfl := Path.descend_injective _ same
    exact ⟨isClass, told, text, read, restricted, rfl⟩

theorem finding?_ofFile_iff_tells_of_mem {place start : Location}
    (opened : fs.openDirectory place.path = .ok start) {path : Path}
    (met : path ∈ (Walk.ofRoot fs config place.path).files) {cls : FileClass}
    (told : cls ≠ .ignored) {finding : Finding} :
    (Inspection.ofFile fs config place.path path).finding? = some (cls, finding) ↔
      Tells fs config place.path cls path finding := by
  obtain ⟨names, name, -, rfl⟩ := (Walk.mem_files_iff opened path).mp met
  exact finding?_ofFile_iff_tells place (List.concat_ne_nil _ _) told

/-- Inspecting some of the files of a walk tells of just these. -/
theorem lists_bucket_of_subset {place start : Location}
    (opened : fs.openDirectory place.path = .ok start) {files : List Path} (nodup : files.Nodup)
    (met : files ⊆ (Walk.ofRoot fs config place.path).files) {cls : FileClass}
    (told : cls ≠ .ignored) :
    Lists fs config place.path files cls
      (bucket cls ((files.map (Inspection.ofFile fs config place.path)).filterMap
        Inspection.finding?)) := by
  refine ⟨Finding.sortByPath_pairwise _, ?_⟩
  obtain ⟨pairs, all, nodup, mem⟩ := exists_told (Inspection.ofFile fs config place.path) nodup cls
  refine ⟨pairs, all, nodup, ?_⟩
  intro path finding
  rw [mem]
  exact and_congr_right fun known => finding?_ofFile_iff_tells_of_mem opened (met known) told

theorem lists_bucket (config : Config) {place start : Location}
    (opened : fs.openDirectory place.path = .ok start) {cls : FileClass} (told : cls ≠ .ignored) :
    Lists fs config place.path (Walk.ofRoot fs config place.path).files cls
      (bucket cls (((Walk.ofRoot fs config place.path).files.map
        (Inspection.ofFile fs config place.path)).filterMap Inspection.finding?)) :=
  lists_bucket_of_subset opened (Walk.files_nodup opened) (List.Subset.refl _) told

theorem Lists.ne_nil_iff {files : List Path} {cls : FileClass} {bucket : List Finding}
    (h : Lists fs config root files cls bucket) :
    bucket ≠ [] ↔ ∃ path ∈ files, ∃ finding, Tells fs config root cls path finding := by
  obtain ⟨-, told, rfl, -, mem⟩ := h
  rw [ne_eq, List.map_eq_nil_iff]
  constructor
  · intro some
    obtain ⟨⟨path, finding⟩, listed⟩ := List.exists_mem_of_ne_nil _ some
    obtain ⟨met, tells⟩ := (mem path finding).mp listed
    exact ⟨path, met, finding, tells⟩
  · rintro ⟨path, met, finding, tells⟩
    exact List.ne_nil_of_mem ((mem path finding).mpr ⟨met, tells⟩)

/-- A scan that succeeds tells of every file that the walk comes upon and that holds restricted
characters, once, in the bucket of its class and in the order of the paths, and of nothing else;
it blocks exactly if one of these files is a source file. -/
theorem scanTree_reports {outcome : Outcome}
    (h : (scanTree fs config root).result = .ok outcome) :
    ∃ canonical, validateRoot fs root = .ok canonical ∧
      (∀ path ∈ (Walk.ofRoot fs config canonical).files,
        ∃ names, path = canonical.descend names) ∧
      Lists fs config canonical (Walk.ofRoot fs config canonical).files .source
        outcome.blocking ∧
      Lists fs config canonical (Walk.ofRoot fs config canonical).files .documentation
        outcome.advisory ∧
      (outcome.exitStatus = .blocking ↔ ∃ path ∈ (Walk.ofRoot fs config canonical).files,
        ∃ finding, Tells fs config canonical .source path finding) := by
  obtain ⟨canonical, valid, rfl⟩ := scanTree_result_eq_ok_iff.mp h
  obtain ⟨place, -, rfl, start, opened⟩ := validateRoot_eq_ok_iff.mp valid
  have source := lists_bucket config opened (show FileClass.source ≠ .ignored from nofun)
  refine ⟨place.path, valid, ?_, source, lists_bucket config opened nofun, ?_⟩
  · intro path met
    obtain ⟨names, name, -, rfl⟩ := (Walk.mem_files_iff opened path).mp met
    exact ⟨names ++ [name], rfl⟩
  · rw [← source.ne_nil_iff]
    exact Outcome.exitStatus_eq_blocking_iff _

namespace Walk.Sample

theorem tells_leaf : Tells tree following (Location.path [top]) .source
    (Location.path [top, kept, leaf])
    ⟨String.ofList ['k', '/', 'a', '.', 't', 's'], 2, ['\u202E']⟩ :=
  ⟨[kept, leaf], text, rfl, by decide, rfl, ⟨'\u202E', by decide, by decide⟩, by decide⟩

theorem exists_blocking : ∃ outcome,
    (scanTree tree following (Location.path [top])).result = .ok outcome ∧
      outcome.exitStatus = .blocking := by
  have source := lists_bucket following opened (show FileClass.source ≠ .ignored from nofun)
  refine ⟨_, scanTree_of_validateRoot following rfl, (Outcome.exitStatus_eq_blocking_iff _).mpr ?_⟩
  exact source.ne_nil_iff.mpr ⟨_, met_leaf, _, tells_leaf⟩

end Walk.Sample

open Walk.Sample in
theorem scanTree_reports_tree : ∃ outcome,
    (scanTree tree following (Location.path [top])).result = .ok outcome ∧
      outcome.exitStatus = .blocking ∧
      ⟨String.ofList ['k', '/', 'a', '.', 't', 's'], 2, ['\u202E']⟩ ∈ outcome.blocking := by
  have valid : validateRoot tree (Location.path [top]) = .ok (Location.path [top]) := rfl
  have scanned := scanTree_of_validateRoot following valid
  obtain ⟨canonical, valid', -, ⟨-, told, all, -, mem⟩, -, blocks⟩ := scanTree_reports scanned
  obtain rfl : Location.path [top] = canonical := Except.ok.inj (valid.symm.trans valid')
  refine ⟨_, scanned, blocks.mpr ⟨_, met_leaf, _, tells_leaf⟩, ?_⟩
  rw [all]
  exact List.mem_map_of_mem ((mem _ _).mpr ⟨met_leaf, tells_leaf⟩)

end HiddenText
