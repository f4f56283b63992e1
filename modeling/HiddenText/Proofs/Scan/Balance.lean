import HiddenText.Proofs.Scan.Threads
import HiddenText.Proofs.Walk.Fate

/-! # The statistics add up

Results are recorded one by one, each adding to at most one of two counters and to the findings.
After every step the files recorded are the ignored, the scanned and the skipped ones together
(`Ledger.Holds.balance`), so that the statistics at the end count what the walk met
(`Outcome.Balanced`), in whatever order the results came (`stats_balance`). -/
set_option autoImplicit false

namespace HiddenText

/-! ## Recording results -/

structure Ledger where
  scanned : Nat := 0
  skipped : Nat := 0
  found : List (FileClass × Finding) := []

namespace Ledger

def record (l : Ledger) : Inspection → Ledger
  | .ignored => l
  | .clean => { l with scanned := l.scanned + 1 }
  | .hit cls finding =>
    { l with scanned := l.scanned + 1, found := l.found ++ [(cls, finding)] }
  | .unreadable .. | .notText _ => { l with skipped := l.skipped + 1 }

def outcome (l : Ledger) (visited errors : Nat) : Outcome :=
  .ofFindings l.found
    { filesVisited := visited
      filesScanned := l.scanned
      filesSkipped := l.skipped
      traversalErrors := errors }

structure Holds (l : Ledger) (inspections : List Inspection) : Prop where
  scanned : l.scanned = inspections.countP Inspection.isScanned
  skipped : l.skipped = inspections.countP Inspection.isSkipped
  found : l.found = inspections.filterMap Inspection.finding?

variable {l : Ledger} {inspections : List Inspection}

theorem holds_nil : Holds {} [] := ⟨rfl, rfl, rfl⟩

theorem Holds.record (h : l.Holds inspections) (i : Inspection) :
    (l.record i).Holds (inspections ++ [i]) := by
  obtain ⟨scanned, skipped, found⟩ := h
  constructor
  · rw [List.countP_append, ← scanned]
    cases i <;> rfl
  · rw [List.countP_append, ← skipped]
    cases i <;> rfl
  · rw [List.filterMap_append, ← found]
    cases i <;> simp [Ledger.record, Inspection.finding?]

theorem Holds.foldl_record : ∀ (later : List Inspection) {l : Ledger}
    {earlier : List Inspection}, l.Holds earlier →
      (later.foldl Ledger.record l).Holds (earlier ++ later) := by
  intro later
  induction later with
  | nil =>
      intro l earlier h
      rwa [List.append_nil]
  | cons i later ih =>
      intro l earlier h
      have further := ih (h.record i)
      rwa [List.append_assoc] at further

/-- At every moment each file recorded is ignored, scanned or skipped, and what is scanned is clean
or has a finding. -/
theorem Holds.balance (h : l.Holds inspections) :
    inspections.length = inspections.countP (· = .ignored) + l.scanned + l.skipped ∧
      l.scanned = inspections.countP (· = .clean) + l.found.length := by
  rw [h.scanned, h.skipped, h.found]
  exact ⟨Inspection.length_eq_countP inspections, Inspection.countP_isScanned inspections⟩

/-- Recording one result after the other comes to the outcome that collects them all. -/
theorem outcome_foldl_record (inspections : List Inspection) (errors : Nat) :
    (inspections.foldl Ledger.record {}).outcome inspections.length errors =
      Outcome.collect inspections errors := by
  have h : (inspections.foldl Ledger.record {}).Holds inspections :=
    holds_nil.foldl_record inspections
  rw [outcome, Outcome.collect, h.scanned, h.skipped, h.found]

end Ledger

/-! ## The lengths of the buckets -/

theorem length_bucket (cls : FileClass) (items : List (FileClass × Finding)) :
    (bucket cls items).length = items.countP (·.1 = cls) := by
  rw [bucket, (Finding.sortByPath_perm _).length_eq, List.length_filterMap_eq_countP]
  apply List.countP_congr
  intro item _
  split
  simp_all

theorem length_buckets : ∀ items : List (FileClass × Finding),
    (∀ item ∈ items, item.1 ≠ .ignored) →
      (bucket .source items).length + (bucket .documentation items).length = items.length := by
  intro items classed
  rw [length_bucket, length_bucket]
  induction items with
  | nil => rfl
  | cons item items ih =>
      obtain ⟨here, later⟩ := List.forall_mem_cons.mp classed
      have rest := ih later
      rw [List.countP_cons, List.countP_cons, List.length_cons]
      obtain ⟨cls, finding⟩ := item
      cases cls with
      | source => simp; omega
      | documentation => simp; omega
      | ignored => exact absurd rfl here

/-! ## What the statistics count -/

/-- The statistics of an outcome count the files that were visited and the entries that failed,
each given by the names that lead to it from the root. -/
structure Outcome.Balanced (fs : FileSystem) (config : Config) (root : Path)
    (files failed : List (List Name)) (o : Outcome) : Prop where
  visited : o.stats.filesVisited = files.length
  divided : o.stats.filesVisited =
    files.countP (fun names => classify (Path.relative names) config = .ignored) +
      o.stats.filesScanned + o.stats.filesSkipped
  skipped : o.stats.filesSkipped = files.countP fun names =>
    classify (Path.relative names) config ≠ .ignored ∧ fs.text? (root.descend names) = none
  scanned : o.stats.filesScanned =
    files.countP (fun names => classify (Path.relative names) config ≠ .ignored ∧
      (fs.text? (root.descend names)).any fun text =>
        text.all fun c => ¬ config.restricted.Restricts c) +
      o.blocking.length + o.advisory.length
  failures : o.stats.traversalErrors = failed.length

variable {fs : FileSystem} {config : Config} {root canonical : Path}

section

variable (place : Location) {files : List (List Name)} (proper : ∀ names ∈ files, names ≠ [])
include proper

/-- Which inspections are of a kind is decided file by file. -/
theorem countP_inspections {kind : Inspection → Bool} {counted : List Name → Bool}
    (same : ∀ names path,
      (Path.stripPrefix? place.path path).getD path = Path.relative names →
        path = place.path.descend names →
          (kind (.ofFile fs config place.path path) = true ↔ counted names = true)) :
    ((files.map place.path.descend).map (Inspection.ofFile fs config place.path)).countP kind =
      files.countP counted := by
  rw [List.map_map, List.countP_map]
  apply List.countP_congr
  intro names listed
  apply same names _ ?_ rfl
  rw [Path.stripPrefix?_descend place (proper names listed)]
  rfl

theorem countP_ignored :
    ((files.map place.path.descend).map (Inspection.ofFile fs config place.path)).countP
        (· = .ignored) =
      files.countP fun names => classify (Path.relative names) config = .ignored := by
  apply countP_inspections place proper
  intro names path seen _
  rw [decide_eq_true_eq, decide_eq_true_eq]
  exact Inspection.ofFile_eq_ignored_iff seen

theorem countP_isSkipped :
    ((files.map place.path.descend).map (Inspection.ofFile fs config place.path)).countP
        Inspection.isSkipped =
      files.countP fun names => classify (Path.relative names) config ≠ .ignored ∧
        fs.text? (place.path.descend names) = none := by
  apply countP_inspections place proper
  intro names path seen here
  rw [decide_eq_true_eq, ← here]
  exact Inspection.isSkipped_ofFile_iff seen

theorem countP_clean :
    ((files.map place.path.descend).map (Inspection.ofFile fs config place.path)).countP
        (· = .clean) =
      files.countP fun names => classify (Path.relative names) config ≠ .ignored ∧
        (fs.text? (place.path.descend names)).any fun text =>
          text.all fun c => ¬ config.restricted.Restricts c := by
  apply countP_inspections place proper
  intro names path seen here
  rw [decide_eq_true_eq, decide_eq_true_eq, ← here, Inspection.ofFile_eq_clean_iff seen]
  apply and_congr_right
  intro _
  cases fs.text? path with
  | none => simp
  | some text =>
      simp only [Option.any_some, List.all_eq_true, decide_eq_true_eq]
      constructor
      · intro plain
        obtain ⟨text', same, plain⟩ := plain
        cases same
        exact plain
      · intro plain
        exact ⟨text, rfl, plain⟩

omit proper in
theorem classed_of_ofFile {item : FileClass × Finding}
    (found : item ∈ ((files.map place.path.descend).map
      (Inspection.ofFile fs config place.path)).filterMap Inspection.finding?) :
    item.1 ≠ .ignored := by
  rw [List.mem_filterMap] at found
  obtain ⟨i, listed, found⟩ := found
  obtain ⟨path, -, rfl⟩ := List.mem_map.mp listed
  exact ((Inspection.finding?_ofFile_eq_some_iff rfl).mp found).2.1

/-- Collecting the inspections of files counts them. -/
theorem balanced_collect (failed : List (List Name)) :
    (Outcome.collect ((files.map place.path.descend).map (Inspection.ofFile fs config place.path))
      failed.length).Balanced fs config place.path files failed := by
  have divided := Inspection.length_eq_countP ((files.map place.path.descend).map
    (Inspection.ofFile fs config place.path))
  have scanned := Inspection.countP_isScanned ((files.map place.path.descend).map
    (Inspection.ofFile fs config place.path))
  rw [countP_ignored place proper] at divided
  rw [countP_clean place proper,
    ← length_buckets _ fun _ found => classed_of_ofFile place found] at scanned
  constructor
  · simp only [Outcome.collect, Outcome.ofFindings, List.length_map]
  · exact divided
  · exact countP_isSkipped place proper
  · exact scanned.trans (Nat.add_assoc ..).symm
  · rfl

end

theorem Outcome.Balanced.of_agrees {files failed : List (List Name)} {o o' : Outcome}
    (h : o'.Balanced fs config root files failed) (agrees : o.Agrees o') :
    o.Balanced fs config root files failed := by
  obtain ⟨visited, divided, skipped, scanned, failures⟩ := h
  rw [← agrees.stats] at visited divided skipped scanned failures
  rw [← agrees.blocking.length_eq, ← agrees.advisory.length_eq] at scanned
  exact ⟨visited, divided, skipped, scanned, failures⟩

/-- The walker of a valid root ends, and the statistics of a scan count what it met: the files that
it came upon and the entries that it failed on, each once.  It does not matter in which order the
results are recorded, nor how many threads there are. -/
theorem stats_balance (valid : validateRoot fs root = .ok canonical) :
    Walk.State.EndsWith fs config (.start canonical) (Walk.ofRoot fs config canonical) ∧
      ∃ files failed : List (List Name),
        (Walk.ofRoot fs config canonical).files = files.map canonical.descend ∧
        files.Nodup ∧ (∀ names, names ∈ files ↔ Walk.Meets fs config canonical .file names) ∧
        failed.Nodup ∧ (∀ names, names ∈ failed ↔ Walk.Meets fs config canonical .failed names) ∧
        (∀ order : List Path, order.Perm (Walk.ofRoot fs config canonical).files →
          (((order.map (Inspection.ofFile fs config canonical)).foldl Ledger.record {}).outcome
            order.length (Walk.ofRoot fs config canonical).errors).Balanced
              fs config canonical files failed) ∧
        ∀ processors result, Scans fs config processors root result →
          ∃ outcome, result = .ok outcome ∧ outcome.Balanced fs config canonical files failed := by
  refine ⟨Walk.State.endsWith_ofRoot .., ?_⟩
  have scanned := scanTree_of_validateRoot config valid
  obtain ⟨place, -, rfl, start, opened⟩ := validateRoot_eq_ok_iff.mp valid
  obtain ⟨told, accounts⟩ := @Walk.exists_accounts fs config place.path start opened
  obtain ⟨before, front, all⟩ := Walk.ofRoot_of_openDirectory config opened
  have files : (Walk.ofRoot fs config place.path).files =
      (Walk.entriesOf told .file).map place.path.descend := by
    rw [Walk.files_ofRoot config opened, accounts.filterMap_file?]
  have errors : (Walk.ofRoot fs config place.path).errors =
      (Walk.entriesOf told .failed).length := by
    rw [all, Walk.errors_eq_length accounts front]
  have proper : ∀ names ∈ Walk.entriesOf told .file, names ≠ [] := by
    intro names listed
    obtain ⟨front, name, -, -, rfl, -⟩ := accounts.mem_entriesOf_iff.mp listed
    exact List.concat_ne_nil _ _
  have balanced := @balanced_collect fs config place _ proper (Walk.entriesOf told .failed)
  rw [← files, ← errors] at balanced
  refine ⟨_, _, files, accounts.nodup_entriesOf _, fun _ => accounts.mem_entriesOf_iff,
    accounts.nodup_entriesOf _, fun _ => accounts.mem_entriesOf_iff, ?_, ?_⟩
  · intro order perm
    have number : order.length = (order.map (Inspection.ofFile fs config place.path)).length :=
      (List.length_map _).symm
    rw [number, Ledger.outcome_foldl_record]
    exact balanced.of_agrees (Outcome.agrees_collect_of_perm (perm.map _) _)
  · intro processors result scans
    have agrees := scans.agrees_scanTree
    rw [scanned] at agrees
    cases agrees with
    | ok agrees => exact ⟨_, rfl, balanced.of_agrees agrees⟩

open Walk.Sample in
/-- A file is counted, and so is the link that leads back to the root. -/
theorem stats_balance_tree :
    validateRoot tree (Location.path [top]) = .ok (Location.path [top]) ∧
      ∃ files failed : List (List Name), [kept, leaf] ∈ files ∧ [kept, up] ∈ failed ∧
        ∃ outcome, (scanTree tree following (Location.path [top])).result = .ok outcome ∧
          outcome.stats.filesVisited = files.length ∧
          outcome.stats.traversalErrors = failed.length := by
  have valid : validateRoot tree (Location.path [top]) = .ok (Location.path [top]) := rfl
  have route : Walk.Route tree following (Location.path [top]) [kept] [top, kept] [[top]] :=
    .directory (.root opened) rfl rfl rfl
  have file : Walk.Meets tree following (Location.path [top]) .file [kept, leaf] :=
    ⟨[kept], leaf, _, _, rfl, route, .file (.inl ⟨_, _, rfl⟩)⟩
  have cycle : Walk.Meets tree following (Location.path [top]) .failed [kept, up] :=
    ⟨[kept], up, _, _, rfl, route, .cycle rfl rfl opened (by decide)⟩
  obtain ⟨-, files, failed, -, -, isFile, -, isFailed, -, scans⟩ :=
    @stats_balance tree following _ _ valid
  obtain ⟨outcome, scanned, balanced⟩ :=
    scans 1 _ (scans_scanTree tree following 1 (Location.path [top]))
  exact ⟨valid, files, failed, (isFile _).mpr file, (isFailed _).mpr cycle, outcome, scanned,
    balanced.visited, balanced.failures⟩

end HiddenText
