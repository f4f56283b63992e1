import HiddenText.Proofs.Results
import HiddenText.Proofs.Scan.Schedules
import HiddenText.Scan.Pipeline

/-! # What does not depend on the threads

Whatever number of threads a scan has and whatever turns they take, it fails as it would with one
thread, and if it does not fail its outcome differs at most in the order of the findings
(`Scans.agrees`). -/
set_option autoImplicit false

namespace HiddenText

structure Outcome.Agrees (o o' : Outcome) : Prop where
  blocking : o.blocking.Perm o'.blocking
  advisory : o.advisory.Perm o'.advisory
  stats : o.stats = o'.stats

abbrev ScansAgree : Except ScanError Outcome → Except ScanError Outcome → Prop :=
  ResultsAgree Eq Outcome.Agrees

namespace Outcome

theorem Agrees.refl (o : Outcome) : o.Agrees o := ⟨.refl _, .refl _, rfl⟩

theorem Agrees.symm {o o' : Outcome} (h : o.Agrees o') : o'.Agrees o :=
  ⟨h.blocking.symm, h.advisory.symm, h.stats.symm⟩

theorem Agrees.trans {o o' o'' : Outcome} (h : o.Agrees o') (h' : o'.Agrees o'') : o.Agrees o'' :=
  ⟨h.blocking.trans h'.blocking, h.advisory.trans h'.advisory, h.stats.trans h'.stats⟩

theorem Agrees.exitStatus_eq {o o' : Outcome} (h : o.Agrees o') : o.exitStatus = o'.exitStatus := by
  have empty : o.blocking = [] ↔ o'.blocking = [] := by
    rw [← List.length_eq_zero_iff, ← List.length_eq_zero_iff, h.blocking.length_eq]
  rw [exitStatus, exitStatus]
  simp only [empty]

theorem agrees_collect_of_perm {inspections others : List Inspection}
    (perm : inspections.Perm others) (errors : Nat) :
    (collect inspections errors).Agrees (collect others errors) :=
  ⟨Pipeline.bucket_perm perm .source, Pipeline.bucket_perm perm .documentation,
    Pipeline.stats_of_perm perm errors⟩

end Outcome

variable {fs : FileSystem} {config : Config} {processors : Nat} {root canonical : Path}
  {result : Except ScanError Outcome}

theorem Pipeline.Inv.agrees_of_finished {inspect : Path → Inspection} {files : List Path}
    {s : State} (h : Inv inspect files s) (finished : s.finished = true) (errors : Nat) :
    (s.outcome errors).Agrees (.collect (files.map inspect) errors) := by
  rw [h.outcome_of_finished finished]
  exact Outcome.agrees_collect_of_perm (results_perm (h.recorded_of_finished finished).2) errors

theorem Scans.agrees_scanTree (h : Scans fs config processors root result) :
    ScansAgree result (scanTree fs config root).result := by
  cases h with
  | refused refused =>
      rw [scanTree_of_error config refused]
      exact .error rfl
  | alone single => exact .refl (fun _ => rfl) Outcome.Agrees.refl _
  | @together canonical workers s several valid crewed fits run finished =>
      rw [scanTree_of_validateRoot config valid, Pipeline.State.result,
        rootError_of_validateRoot config valid]
      exact .ok ((run.inv (Pipeline.start_inv _ _ crewed)).agrees_of_finished finished _)

theorem Scans.agrees {processors' : Nat} {result' : Except ScanError Outcome}
    (h : Scans fs config processors root result) (h' : Scans fs config processors' root result') :
    ScansAgree result result' := by
  have back : ScansAgree (scanTree fs config root).result result' :=
    h'.agrees_scanTree.symm Eq.symm Outcome.Agrees.symm
  exact h.agrees_scanTree.trans Eq.trans Outcome.Agrees.trans back

/-! ## One file after the other -/

namespace Pipeline

/-- A run in which one worker serves all files records them in the order of the walk. -/
theorem exists_run_in_order (inspect : Path → Inspection) (walk : Walk) {workers : Nat}
    (crewed : 1 ≤ workers) :
    ∃ s, Run inspect (start walk workers) s ∧ s.finished = true ∧
      s.recorded = walk.files.map fun path => (path, inspect path) := by
  obtain ⟨more, rfl⟩ := Nat.exists_eq_add_of_le crewed
  have begun : start walk (1 + more) =
      waiting (walk.files ++ []) 0 ([] ++ .idle :: List.replicate more .idle) [] := by
    rw [start, List.append_nil, Nat.add_comm]
    rfl
  have served := run_serve inspect [] [] (List.replicate more .idle) walk.files 0 []
  rw [← begun, List.nil_append] at served
  obtain ⟨t, rest, finished⟩ := exists_run_finished inspect (waiting [] (0 + walk.files.length)
    ([] ++ .idle :: List.replicate more .idle)
    (walk.files.map fun path => (path, inspect path)))
  have run : Run inspect (start walk (1 + more)) t := served.trans rest
  have recorded := ((run.inv (start_inv inspect walk crewed)).recorded_of_finished finished).2
  refine ⟨t, run, finished, ?_⟩
  exact (rest.recorded_prefix.eq_of_length recorded.length_eq.symm).symm

end Pipeline

theorem scans_scanTree (fs : FileSystem) (config : Config) (processors : Nat) (root : Path) :
    Scans fs config processors root (scanTree fs config root).result := by
  by_cases single : config.threadCount processors ≤ 1
  · exact .alone single
  · have several : 1 < config.threadCount processors := Nat.lt_of_not_le single
    cases valid : validateRoot fs root with
    | error e =>
        rw [scanTree_of_error config valid]
        exact .refused valid
    | ok canonical =>
        obtain ⟨s, run, finished, recorded⟩ := Pipeline.exists_run_in_order
          (Inspection.ofFile fs config canonical) (Walk.ofRoot fs config canonical)
          (Nat.le_refl 1)
        have same : s.result (Walk.ofRoot fs config canonical) canonical =
            (scanTree fs config root).result := by
          have inv := run.inv (Pipeline.start_inv _ _ (Nat.le_refl 1))
          rw [Pipeline.State.result, rootError_of_validateRoot config valid,
            scanTree_of_validateRoot config valid]
          simp only [inv.outcome_of_finished finished, recorded, List.map_map]
          rfl
        rw [← same]
        exact .together several valid (Nat.le_refl 1) (Nat.le_of_lt several) run finished

def Scanner.inOrder (fs : FileSystem) (processors : Nat) : Scanner fs processors where
  scan config root := (scanTree fs config root).result
  sound config root := scans_scanTree fs config processors root

end HiddenText
