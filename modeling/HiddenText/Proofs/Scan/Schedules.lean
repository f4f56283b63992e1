import HiddenText.Proofs.Scan.Pipeline
import HiddenText.Proofs.Scan.Reports

/-! # Which scans come out the same whatever the schedule

A bucket keeps findings of one path in the order in which their results came, so the schedule shows
where two findings of one class have the same path and are not the same.  File names that differ
only in bytes that are no UTF-8 give such paths.  Where there are none, every schedule comes to the
outcome of a scan without a pipeline; where there are, holding one file back until all others are
recorded comes to another (`outcome_eq_iff`). -/
set_option autoImplicit false

namespace HiddenText

def SamePathSameFinding (inspect : Path → Inspection) (files : List Path) : Prop :=
  ∀ p ∈ files, ∀ q ∈ files, ∀ cls finding finding',
    (inspect p).finding? = some (cls, finding) → (inspect q).finding? = some (cls, finding') →
      finding.path = finding'.path → finding = finding'

/-! ## Ties that do not show -/

theorem mem_filterMap_findingOf {inspect : Path → Inspection} {files : List Path}
    {cls : FileClass} {finding : Finding} :
    finding ∈ (files.map inspect).filterMap (Inspection.findingOf cls) ↔
      ∃ p ∈ files, (inspect p).finding? = some (cls, finding) := by
  rw [List.filterMap_map, List.mem_filterMap]
  simp only [Function.comp, Inspection.findingOf_eq_some_iff]

theorem bucket_eq_of_perm {inspect : Path → Inspection} {files : List Path}
    (same : SamePathSameFinding inspect files) {inspections : List Inspection}
    (perm : inspections.Perm (files.map inspect)) (cls : FileClass) :
    bucket cls (inspections.filterMap Inspection.finding?) =
      bucket cls ((files.map inspect).filterMap Inspection.finding?) := by
  rw [bucket_eq, bucket_eq, Finding.sortByPath_eq_iff]
  intro path
  have tied := (perm.filterMap (Inspection.findingOf cls)).filter (decide <| ·.path = path)
  refine (Lists.eq_of_perm_of_forall_eq tied.symm ?_).symm
  intro finding listed finding' listed'
  simp only [List.mem_filter, decide_eq_true_eq, mem_filterMap_findingOf] at listed listed'
  obtain ⟨⟨p, known, found⟩, here⟩ := listed
  obtain ⟨⟨q, known', found'⟩, here'⟩ := listed'
  exact same p known q known' cls finding finding' found found' (here.trans here'.symm)

theorem collect_eq_of_perm {inspect : Path → Inspection} {files : List Path}
    (same : SamePathSameFinding inspect files) {inspections : List Inspection}
    (perm : inspections.Perm (files.map inspect)) (errors : Nat) :
    Outcome.collect inspections errors = Outcome.collect (files.map inspect) errors := by
  have stats := Pipeline.stats_of_perm perm errors
  simp only [Outcome.collect, Outcome.ofFindings] at stats ⊢
  rw [bucket_eq_of_perm same perm, bucket_eq_of_perm same perm, stats]

/-! ## Ties that show -/

/-- A file that may as well come last has the findings of those that it would come after. -/
theorem finding_eq_of_bucket_eq {inspect : Path → Inspection} {before after : List Path}
    {p q : Path} {cls : FileClass} {finding finding' : Finding}
    (same : bucket cls (((before ++ after ++ [p]).map inspect).filterMap Inspection.finding?) =
      bucket cls (((before ++ p :: after).map inspect).filterMap Inspection.finding?))
    (found : (inspect p).finding? = some (cls, finding)) (later : q ∈ after)
    (found' : (inspect q).finding? = some (cls, finding')) (tie : finding.path = finding'.path) :
    finding = finding' := by
  rw [bucket_eq, bucket_eq, Finding.sortByPath_eq_iff] at same
  have here := same finding.path
  have first : ([p].map inspect).filterMap (Inspection.findingOf cls) = [finding] := by
    simp [Inspection.findingOf_eq_some_iff.mpr found]
  have split : before ++ p :: after = before ++ ([p] ++ after) := rfl
  rw [split] at here
  simp only [List.map_append, List.filterMap_append, first, List.filter_append, decide_true,
    List.filter_cons_of_pos, List.filter_nil, List.append_assoc] at here
  refine (Lists.eq_of_append_singleton (List.append_cancel_left here) finding' ?_).symm
  rw [List.mem_filter, mem_filterMap_findingOf]
  exact ⟨⟨q, later, found'⟩, decide_eq_true tie.symm⟩

namespace Pipeline

variable {inspect : Path → Inspection} {files : List Path} {s t : State}

theorem Inv.outcome_of_finished (h : Inv inspect files s) (finished : s.finished = true)
    (errors : Nat) : s.outcome errors = Outcome.collect (s.recorded.map Prod.snd) errors := by
  obtain ⟨visited, recorded⟩ := h.recorded_of_finished finished
  have number : (Outcome.collect (s.recorded.map Prod.snd) errors).stats.filesVisited =
      s.visited := by
    rw [visited]
    exact (results_perm recorded).length_eq.trans (List.length_map inspect)
  rw [State.outcome]
  simp only [← number]

/-! ## A file that is held back -/

def waiting (ahead : List Path) (visited : Nat) (workers : List Worker)
    (recorded : List (Path × Inspection)) : State :=
  { ahead := ahead, visited := visited, workers := workers, recorded := recorded }

theorem run_hold (inspect : Path → Inspection) (path : Path) (rest : List Path) (visited : Nat)
    (before after : List Worker) (recorded : List (Path × Inspection)) :
    Run inspect (waiting (path :: rest) visited (before ++ .idle :: after) recorded)
      (waiting rest (visited + 1) (before ++ .inspecting path :: after) recorded) := by
  refine .head (.visit rfl rfl rfl) (.head (.queue rfl ?_ ?_) (.single (.take rfl rfl)))
  · exact Nat.zero_lt_succ _
  · exact ⟨.idle, by simp [waiting], nofun⟩

theorem run_release (inspect : Path → Inspection) (path : Path) (ahead : List Path)
    (visited : Nat) (before after : List Worker) (recorded : List (Path × Inspection)) :
    Run inspect (waiting ahead visited (before ++ .inspecting path :: after) recorded)
      (waiting ahead visited (before ++ .idle :: after)
        (recorded ++ [(path, inspect path)])) := by
  refine .head (.inspect rfl) (.head (.deliver rfl ?_) (.single (.record rfl)))
  exact Nat.zero_lt_succ _

/-- One worker serves files one after the other while the others do nothing. -/
theorem run_serve (inspect : Path → Inspection) (rest : List Path) (before after : List Worker) :
    ∀ (served : List Path) (visited : Nat) (recorded : List (Path × Inspection)),
    Run inspect (waiting (served ++ rest) visited (before ++ .idle :: after) recorded)
      (waiting rest (visited + served.length) (before ++ .idle :: after)
        (recorded ++ served.map fun path => (path, inspect path))) := by
  intro served
  induction served with
  | nil =>
      intro visited recorded
      rw [List.map_nil, List.append_nil]
      exact .refl
  | cons path served ih =>
      intro visited recorded
      have first := (run_hold inspect path (served ++ rest) visited before after recorded).trans
        (run_release inspect path (served ++ rest) (visited + 1) before after recorded)
      have others := ih (visited + 1) (recorded ++ [(path, inspect path)])
      rw [List.append_assoc, Nat.add_right_comm] at others
      exact first.trans others

theorem Step.recorded_prefix (step : Step inspect s t) : s.recorded <+: t.recorded := by
  cases step with
  | record results => exact List.prefix_append _ _
  | _ => exact List.prefix_rfl

theorem Run.recorded_prefix (run : Run inspect s t) : s.recorded <+: t.recorded := by
  induction run with
  | refl => exact List.prefix_rfl
  | tail _ step ih => exact ih.trans step.recorded_prefix

/-- With two workers, any one file can be the last whose result is recorded. -/
theorem exists_run_last (inspect : Path → Inspection) (walk : Walk) {workers : Nat}
    (crew : 2 ≤ workers) {before after : List Path} {path : Path}
    (split : walk.files = before ++ path :: after) :
    ∃ s, Run inspect (start walk workers) s ∧ s.finished = true ∧
      s.recorded = (before ++ after ++ [path]).map fun path => (path, inspect path) := by
  obtain ⟨more, rfl⟩ := Nat.exists_eq_add_of_le crew
  let idle := List.replicate more Worker.idle
  have begun : start walk (2 + more) = waiting (before ++ path :: after) 0
      ([] ++ .idle :: .idle :: idle) [] := by
    rw [start, split, Nat.add_comm]
    rfl
  have served := run_serve inspect (path :: after) [] (.idle :: idle) before 0 []
  have held := served.trans (run_hold inspect path after _ [] (.idle :: idle) _)
  have overtaken := run_serve inspect [] [.inspecting path] idle after
    (0 + before.length + 1) ([] ++ before.map fun path => (path, inspect path))
  rw [List.append_nil] at overtaken
  have released := (held.trans overtaken).trans (run_release inspect path [] _ [] (.idle :: idle) _)
  rw [← begun] at released
  obtain ⟨t, rest, finished⟩ := exists_run_finished inspect (waiting []
    (0 + before.length + 1 + after.length) ([] ++ .idle :: .idle :: idle)
    (([] ++ before.map fun path => (path, inspect path)) ++
      (after.map fun path => (path, inspect path)) ++ [(path, inspect path)]))
  have run : Run inspect (start walk (2 + more)) t := released.trans rest
  refine ⟨t, run, finished, ?_⟩
  -- By now every file has been recorded, so nothing can come after what is there already.
  have recorded := ((run.inv (start_inv inspect walk (by omega))).recorded_of_finished finished).2
  have far := rest.recorded_prefix
  have all := far.eq_of_length ?_
  · rw [← all]
    simp [waiting]
  · rw [recorded.length_eq, split]
    simp [waiting]

/-! ## Which schedules show -/

theorem bucket_of_collect_eq {inspections others : List Inspection} {errors : Nat}
    (h : Outcome.collect inspections errors = Outcome.collect others errors) {cls : FileClass}
    (told : cls ≠ .ignored) :
    bucket cls (inspections.filterMap Inspection.finding?) =
      bucket cls (others.filterMap Inspection.finding?) := by
  cases cls with
  | source => exact congrArg Outcome.blocking h
  | documentation => exact congrArg Outcome.advisory h
  | ignored => exact absurd rfl told

theorem samePathSameFinding_of_outcome (walk : Walk) {workers : Nat} (crew : 2 ≤ workers)
    (honest : ∀ path finding, (inspect path).finding? ≠ some (.ignored, finding))
    (h : ∀ s, Run inspect (start walk workers) s → s.finished = true →
      s.outcome walk.errors = Outcome.collect (walk.files.map inspect) walk.errors) :
    SamePathSameFinding inspect walk.files := by
  have last : ∀ {before after : List Path} {p q : Path} {cls : FileClass}
      {finding finding' : Finding}, walk.files = before ++ p :: after → q ∈ after →
      (inspect p).finding? = some (cls, finding) → (inspect q).finding? = some (cls, finding') →
      finding.path = finding'.path → finding = finding' := by
    intro before after p q cls finding finding' split later found found' tie
    obtain ⟨s, run, finished, recorded⟩ := exists_run_last inspect walk crew split
    have same := h s run finished
    rw [(run.inv (start_inv inspect walk (by omega))).outcome_of_finished finished, recorded,
      List.map_map, split] at same
    refine finding_eq_of_bucket_eq (bucket_of_collect_eq same ?_) found later found' tie
    rintro rfl
    exact honest p finding found
  intro p known q known' cls finding finding' found found' tie
  obtain ⟨before, after, split⟩ := List.append_of_mem known
  rw [split, List.mem_append, List.mem_cons] at known'
  rcases known' with earlier | rfl | later
  · obtain ⟨front, between, rfl⟩ := List.append_of_mem earlier
    rw [List.append_assoc, List.cons_append] at split
    exact (last split (by simp) found' found tie.symm).symm
  · rw [found] at found'
    cases found'
    rfl
  · exact last split later found found' tie

theorem not_found_ignored {fs : FileSystem} {config : Config} {root path : Path}
    {finding : Finding} :
    (Inspection.ofFile fs config root path).finding? ≠ some (.ignored, finding) := by
  intro found
  exact ((Inspection.finding?_ofFile_eq_some_iff rfl).mp found).2.1 rfl

theorem samePathSameFinding_iff {fs : FileSystem} {config : Config} {place start : Location}
    (opened : fs.openDirectory place.path = .ok start) :
    SamePathSameFinding (Inspection.ofFile fs config place.path)
        (Walk.ofRoot fs config place.path).files ↔
      ∀ p ∈ (Walk.ofRoot fs config place.path).files,
        ∀ q ∈ (Walk.ofRoot fs config place.path).files, ∀ cls, cls ≠ .ignored →
          ∀ finding finding', Tells fs config place.path cls p finding →
            Tells fs config place.path cls q finding' → finding.path = finding'.path →
              finding = finding' := by
  constructor
  · intro same p met q met' cls told finding finding' tell tell'
    exact same p met q met' cls finding finding'
      ((finding?_ofFile_iff_tells_of_mem opened met told).mpr tell)
      ((finding?_ofFile_iff_tells_of_mem opened met' told).mpr tell')
  · intro same p met q met' cls finding finding' found found'
    have told : cls ≠ .ignored := by
      rintro rfl
      exact not_found_ignored found
    exact same p met q met' cls told finding finding'
      ((finding?_ofFile_iff_tells_of_mem opened met told).mp found)
      ((finding?_ofFile_iff_tells_of_mem opened met' told).mp found')

theorem bucket_perm {inspections others : List Inspection} (h : inspections.Perm others)
    (cls : FileClass) : (bucket cls (inspections.filterMap Inspection.finding?)).Perm
      (bucket cls (others.filterMap Inspection.finding?)) := by
  rw [bucket_eq, bucket_eq]
  exact ((Finding.sortByPath_perm _).trans (h.filterMap _)).trans (Finding.sortByPath_perm _).symm

/-- With several workers a scan comes to the outcome of a scan without a pipeline, whatever the
schedule, exactly if no two files of a class have different findings for the same path.  The
statistics and the findings in the buckets are the same in any case. -/
theorem outcome_eq_iff {fs : FileSystem} {config : Config} {root canonical : Path} {workers : Nat}
    (crew : 2 ≤ workers) (valid : validateRoot fs root = .ok canonical) :
    ((∀ s, Run (Inspection.ofFile fs config canonical)
          (start (Walk.ofRoot fs config canonical) workers) s → s.finished = true →
        (scanTree fs config root).result =
          .ok (s.outcome (Walk.ofRoot fs config canonical).errors)) ↔
      ∀ p ∈ (Walk.ofRoot fs config canonical).files,
        ∀ q ∈ (Walk.ofRoot fs config canonical).files, ∀ cls, cls ≠ .ignored →
          ∀ finding finding', Tells fs config canonical cls p finding →
            Tells fs config canonical cls q finding' → finding.path = finding'.path →
              finding = finding') ∧
    ∀ s, Run (Inspection.ofFile fs config canonical)
        (start (Walk.ofRoot fs config canonical) workers) s → s.finished = true →
      ∃ outcome, (scanTree fs config root).result = .ok outcome ∧
        (s.outcome (Walk.ofRoot fs config canonical).errors).stats = outcome.stats ∧
        (s.outcome (Walk.ofRoot fs config canonical).errors).blocking.Perm outcome.blocking ∧
        (s.outcome (Walk.ofRoot fs config canonical).errors).advisory.Perm outcome.advisory := by
  obtain ⟨place, -, rfl, root, opened⟩ := validateRoot_eq_ok_iff.mp valid
  have inv : ∀ s, Run (Inspection.ofFile fs config place.path)
      (start (Walk.ofRoot fs config place.path) workers) s →
        Inv (Inspection.ofFile fs config place.path) (Walk.ofRoot fs config place.path).files s :=
    fun s run => run.inv (start_inv _ _ (by omega))
  rw [scanTree_of_validateRoot config valid, ← samePathSameFinding_iff opened]
  refine ⟨⟨?_, ?_⟩, ?_⟩
  · intro h
    refine samePathSameFinding_of_outcome _ crew (fun _ _ => not_found_ignored) ?_
    intro s run finished
    exact (Except.ok.inj (h s run finished)).symm
  · intro same s run finished
    have recorded := ((inv s run).recorded_of_finished finished).2
    rw [(inv s run).outcome_of_finished finished,
      collect_eq_of_perm same (results_perm recorded)]
  · intro s run finished
    have recorded := results_perm ((inv s run).recorded_of_finished finished).2
    refine ⟨_, rfl, (inv s run).stats_of_finished finished _, ?_, ?_⟩
    · rw [(inv s run).outcome_of_finished finished]
      exact bucket_perm recorded .source
    · rw [(inv s run).outcome_of_finished finished]
      exact bucket_perm recorded .documentation

namespace Sample

open Walk.Sample (top)

def first : Name := ⟨0xFE :: Utf8.encode ['.', 't', 's'], by decide⟩
def second : Name := ⟨0xFF :: Utf8.encode ['.', 't', 's'], by decide⟩

/-- Two source files whose names are both shown as U+FFFD before the dot. -/
def twins : FileSystem :=
  { objects :=
      [([top], .directory true true),
       ([top, first], .file (Utf8.encode ['\u202E']) true),
       ([top, second], .file (Utf8.encode ['\u202E', '\u202E']) true)] }

theorem opened : twins.openDirectory (Location.path [top]) = .ok [top] := rfl

theorem first_met : Location.path [top, first] ∈
    (Walk.ofRoot twins .standard (Location.path [top])).files :=
  (Walk.mem_files_iff opened _).mpr
    ⟨[], first, ⟨_, _, .root opened, Or.inl ⟨_, true, rfl⟩⟩, rfl⟩

theorem second_met : Location.path [top, second] ∈
    (Walk.ofRoot twins .standard (Location.path [top])).files :=
  (Walk.mem_files_iff opened _).mpr
    ⟨[], second, ⟨_, _, .root opened, Or.inl ⟨_, true, rfl⟩⟩, rfl⟩

theorem first_tells : Tells twins .standard (Location.path [top]) .source
    (Location.path [top, first])
    ⟨String.ofList ['\uFFFD', '.', 't', 's'], 1, ['\u202E']⟩ :=
  ⟨[first], ['\u202E'], rfl, by decide, rfl, ⟨'\u202E', by decide, by decide⟩, by decide⟩

theorem second_tells : Tells twins .standard (Location.path [top]) .source
    (Location.path [top, second])
    ⟨String.ofList ['\uFFFD', '.', 't', 's'], 2, ['\u202E']⟩ :=
  ⟨[second], ['\u202E', '\u202E'], rfl, by decide, rfl, ⟨'\u202E', by decide, by decide⟩, by decide⟩

end Sample

open Walk.Sample (top) in
open Sample in
/-- The twins are told of in the order in which their results come. -/
theorem outcome_ne_twins : ∃ s,
    Run (Inspection.ofFile twins .standard (Location.path [top]))
      (start (Walk.ofRoot twins .standard (Location.path [top])) 2) s ∧ s.finished = true ∧
    (scanTree twins .standard (Location.path [top])).result ≠
      .ok (s.outcome (Walk.ofRoot twins .standard (Location.path [top])).errors) := by
  have valid : validateRoot twins (Location.path [top]) = .ok (Location.path [top]) := rfl
  have exact_condition := (@outcome_eq_iff twins .standard _ _ 2 (Nat.le_refl 2) valid).1
  apply Classical.byContradiction
  intro none
  have same := exact_condition.mp fun s run finished =>
    Classical.byContradiction fun different => none ⟨s, run, finished, different⟩
  have tie := same _ first_met _ second_met .source nofun _ _ first_tells second_tells rfl
  cases tie

end Pipeline
end HiddenText
