import HiddenText.Proofs.Scan
import HiddenText.Scan.Pipeline

/-! # No file is lost between the walk and the collector

What the walk has come upon is on offer, in a queue, with a worker or recorded, and nowhere twice;
the queues keep to their limits (`Inv`, `Step.inv`, `Run.inv`).  A worker stops only when nothing
more will come.  So no state but a finished one is stuck (`exists_step`), and since every step
brings the files nearer to the collector (`Step.work_lt`), every run can be finished. -/
set_option autoImplicit false

namespace HiddenText.Pipeline

def Worker.path? : Worker → Option Path
  | .idle | .stopped => none
  | .inspecting path | .delivering path _ => some path

/-- The files that the walk has come upon, by where they are. -/
def State.known (s : State) : List Path :=
  s.offered.toList ++ s.paths ++ s.workers.filterMap Worker.path? ++ s.results.map Prod.fst ++
    s.recorded.map Prod.fst

/-- What holds at every moment of a run over the files of a walk. -/
structure Inv (inspect : Path → Inspection) (files : List Path) (s : State) : Prop where
  ahead : s.ahead = files.drop s.visited
  visited_le : s.visited ≤ files.length
  conserved : (files.take s.visited).Perm s.known
  delivered : ∀ path result, .delivering path result ∈ s.workers → result = inspect path
  reported : ∀ r ∈ s.results ++ s.recorded, r.2 = inspect r.1
  paths_le : s.paths.length ≤ pathLimit
  results_le : s.results.length ≤ resultLimit
  closed : s.closed = true → s.ahead = [] ∧ s.offered = none
  stopped : .stopped ∈ s.workers → s.closed = true ∧ s.paths = []
  finished : s.finished = true → (∀ w ∈ s.workers, w = .stopped) ∧ s.results = []
  crewed : s.workers ≠ []

variable {inspect : Path → Inspection} {files : List Path} {s t : State}

theorem start_inv (inspect : Path → Inspection) (walk : Walk) {workers : Nat} (h : 1 ≤ workers) :
    Inv inspect walk.files (start walk workers) where
  ahead := rfl
  visited_le := Nat.zero_le _
  conserved := by
    have idle : (List.replicate workers Worker.idle).filterMap Worker.path? = [] := by
      simp [Worker.path?]
    simp [State.known, start, idle]
  delivered := by simp [start]
  reported := by simp [start]
  paths_le := Nat.zero_le _
  results_le := Nat.zero_le _
  closed := by simp [start]
  stopped := by simp [start]
  finished := by simp [start]
  crewed := by
    simp [start]
    omega

theorem known_count (s : State) (p : Path) :
    s.known.count p = s.offered.toList.count p + s.paths.count p +
      (s.workers.filterMap Worker.path?).count p + (s.results.map Prod.fst).count p +
      (s.recorded.map Prod.fst).count p := by
  simp only [State.known, List.count_append]

/-- While a worker goes on, no state is finished. -/
theorem Inv.not_finished (h : Inv inspect files s) {w : Worker} (known : w ∈ s.workers)
    (working : w ≠ .stopped) : s.finished = false := by
  cases done : s.finished with
  | false => rfl
  | true => exact absurd ((h.finished done).1 w known) working

theorem replaced_ne_nil (before after : List Worker) (w : Worker) : before ++ w :: after ≠ [] :=
  List.append_ne_nil_of_right_ne_nil _ (List.cons_ne_nil _ _)

theorem mem_of_mem_replaced {before after : List Worker} {w w' x : Worker}
    (h : x ∈ before ++ w' :: after) : x = w' ∨ x ∈ before ++ w :: after := by
  rcases List.mem_append.mp h with h | h
  · exact Or.inr (List.mem_append_left _ h)
  · rcases List.mem_cons.mp h with h | h
    · exact Or.inl h
    · exact Or.inr (List.mem_append_right _ (List.mem_cons_of_mem _ h))

/-- Where a worker goes on without stopping, those that have stopped are the same. -/
theorem Inv.stopped_of_replaced (h : Inv inspect files s) {before after : List Worker}
    {w w' : Worker} (worker : s.workers = before ++ w :: after) (working : w' ≠ .stopped) :
    .stopped ∈ before ++ w' :: after → s.closed = true ∧ s.paths = [] := by
  intro stopped
  rcases mem_of_mem_replaced (w := w) stopped with same | stopped
  · exact absurd same.symm working
  · rw [← worker] at stopped
    exact h.stopped stopped

theorem Inv.delivered_of_replaced (h : Inv inspect files s) {before after : List Worker}
    {w w' : Worker} (worker : s.workers = before ++ w :: after)
    (honest : ∀ path result, w' = .delivering path result → result = inspect path) :
    ∀ path result, .delivering path result ∈ before ++ w' :: after → result = inspect path := by
  intro path result held
  rcases mem_of_mem_replaced (w := w) held with same | held
  · exact honest path result same.symm
  · rw [← worker] at held
    exact h.delivered path result held

theorem Inv.not_finished_of_worker (h : Inv inspect files s) {before after : List Worker}
    {w : Worker} (worker : s.workers = before ++ w :: after) (working : w ≠ .stopped) :
    s.finished ≠ true := by
  rw [h.not_finished (w := w) (by simp [worker]) working]
  exact Bool.false_ne_true

/-- No path is offered to workers that have all stopped, so none is lost. -/
theorem Inv.offered_ne_some (h : Inv inspect files s) (unserved : ∀ w ∈ s.workers, w = .stopped)
    {path : Path} : s.offered ≠ some path := by
  obtain ⟨w, known⟩ := List.exists_mem_of_ne_nil _ h.crewed
  have closed := (h.stopped (unserved w known ▸ known)).1
  rw [(h.closed closed).2]
  exact nofun

/-- Every step keeps account of the files that the walk has come upon. -/
theorem Step.conserved (step : Step inspect s t) (h : Inv inspect files s) :
    (files.take t.visited).Perm t.known := by
  rw [List.perm_iff_count]
  intro p
  -- A step moves one file from one place to the next: the counts of the two places change.
  have here := List.perm_iff_count.mp h.conserved p
  rw [known_count] at here ⊢
  cases step with
  | @visit path rest ahead free isOpen =>
      have next : files.drop s.visited = path :: rest := h.ahead.symm.trans ahead
      have taken : files.take (s.visited + 1) = files.take s.visited ++ [path] := by
        rw [List.take_add, next]
        rfl
      simp only [free, taken, List.count_append, Option.toList_some, Option.toList_none,
        List.count_nil] at here ⊢
      omega
  | queue offered room served =>
      simp only [offered, List.count_append, Option.toList_some, Option.toList_none,
        List.count_nil] at here ⊢
      omega
  | abandon offered unserved => exact absurd offered (h.offered_ne_some unserved)
  | close ahead free isOpen => exact here
  | take paths worker =>
      simp only [paths, worker, List.filterMap_append, List.filterMap_cons, Worker.path?,
        List.count_append, List.count_cons] at here ⊢
      omega
  | inspect worker =>
      simp only [worker, List.filterMap_append, List.filterMap_cons, Worker.path?,
        List.count_append, List.count_cons] at here ⊢
      omega
  | deliver worker room =>
      simp only [worker, List.filterMap_append, List.filterMap_cons, Worker.path?,
        List.map_append, List.map_cons, List.map_nil, List.count_append, List.count_cons,
        List.count_nil] at here ⊢
      omega
  | stop closed paths worker =>
      simp only [worker, List.filterMap_append, List.filterMap_cons, Worker.path?,
        List.count_append] at here ⊢
      omega
  | record results =>
      simp only [results, List.map_append, List.map_cons, List.map_nil, List.count_append,
        List.count_cons, List.count_nil] at here ⊢
      omega
  | finish workers results running => exact here

theorem Step.inv (step : Step inspect s t) (h : Inv inspect files s) : Inv inspect files t := by
  have conserved := step.conserved h
  cases step with
  | @visit path rest ahead free isOpen =>
      have next : files.drop s.visited = path :: rest := h.ahead.symm.trans ahead
      have within : s.visited < files.length := by
        have := congrArg List.length next
        simp only [List.length_drop, List.length_cons] at this
        omega
      refine { h with ahead := ?_, visited_le := within, conserved := conserved, closed := ?_ }
      · rw [← List.drop_drop, next]
        rfl
      · intro closed
        rw [isOpen] at closed
        cases closed
  | queue offered room served =>
      have isOpen : s.closed ≠ true := by
        intro closed
        have := (h.closed closed).2
        rw [offered] at this
        cases this
      refine { h with conserved := conserved, paths_le := ?_, closed := ?_, stopped := ?_ }
      · rw [List.length_append]
        exact room
      · exact fun closed => absurd closed isOpen
      · exact fun stopped => absurd (h.stopped stopped).1 isOpen
  | abandon offered unserved => exact absurd offered (h.offered_ne_some unserved)
  | close ahead free isOpen =>
      exact { h with
        conserved := conserved
        closed := fun _ => ⟨ahead, free⟩
        stopped := fun stopped => ⟨rfl, (h.stopped stopped).2⟩ }
  | @take path rest before after paths worker =>
      refine { h with
        conserved := conserved, delivered := ?_, paths_le := ?_, stopped := ?_, finished := ?_
        crewed := replaced_ne_nil _ _ _ }
      · exact h.delivered_of_replaced worker nofun
      · have := h.paths_le
        rw [paths, List.length_cons] at this
        exact Nat.le_of_succ_le this
      · intro stopped
        have idle : .stopped ∈ before ++ .inspecting path :: after → _ :=
          h.stopped_of_replaced worker nofun
        have := (idle stopped).2
        rw [paths] at this
        cases this
      · exact fun finished => absurd finished (h.not_finished_of_worker worker nofun)
  | inspect worker =>
      refine { h with
        conserved := conserved, delivered := ?_, stopped := ?_, finished := ?_
        crewed := replaced_ne_nil _ _ _ }
      · refine h.delivered_of_replaced worker ?_
        intro path result same
        cases same
        rfl
      · exact h.stopped_of_replaced worker nofun
      · exact fun finished => absurd finished (h.not_finished_of_worker worker nofun)
  | @deliver path result _ _ worker room =>
      refine { h with
        conserved := conserved, delivered := ?_, reported := ?_, results_le := ?_, stopped := ?_
        finished := ?_
        crewed := replaced_ne_nil _ _ _ }
      · exact h.delivered_of_replaced worker nofun
      · intro r listed
        by_cases old : r ∈ s.results ++ s.recorded
        · exact h.reported r old
        · have new : r = (path, result) := by
            simp only [List.mem_append, List.mem_singleton, not_or] at listed old
            rcases listed with (listed | listed) | listed
            · exact absurd listed old.1
            · exact listed
            · exact absurd listed old.2
          rw [new]
          exact h.delivered path result (by simp [worker])
      · rw [List.length_append]
        exact room
      · exact h.stopped_of_replaced worker nofun
      · exact fun finished => absurd finished (h.not_finished_of_worker worker nofun)
  | stop closed paths worker =>
      refine { h with
        conserved := conserved, delivered := ?_, stopped := fun _ => ⟨closed, paths⟩, finished := ?_
        crewed := replaced_ne_nil _ _ _ }
      · exact h.delivered_of_replaced worker nofun
      · exact fun finished => absurd finished (h.not_finished_of_worker worker nofun)
  | record results =>
      refine { h with conserved := conserved, reported := ?_, results_le := ?_, finished := ?_ }
      · intro r listed
        apply h.reported r
        rw [results]
        simp only [List.mem_append, List.mem_cons, List.not_mem_nil, or_false] at listed ⊢
        rcases listed with waiting | recorded | new
        · exact Or.inl (Or.inr waiting)
        · exact Or.inr recorded
        · exact Or.inl (Or.inl new)
      · have := h.results_le
        rw [results, List.length_cons] at this
        exact Nat.le_of_succ_le this
      · intro finished
        have := (h.finished finished).2
        rw [results] at this
        cases this
  | finish workers results running =>
      exact { h with conserved := conserved, finished := fun _ => ⟨workers, results⟩ }

theorem Run.inv (run : Run inspect s t) (h : Inv inspect files s) : Inv inspect files t := by
  induction run with
  | refl => exact h
  | tail _ step ih => exact step.inv ih

/-! ## No state is stuck -/

/-- Nobody waits for ever: the collector can take a result, or a worker can go on with the file in
its hand, or the walk can, or an idle worker can take a path or stop, or the scan is over. -/
theorem exists_step (inspect : Path → Inspection) (running : s.finished = false) :
    ∃ t, Step inspect s t := by
  cases results : s.results with
  | cons result rest => exact ⟨_, .record results⟩
  | nil =>
      have room : s.results.length < resultLimit := by
        rw [results]
        exact Nat.zero_lt_succ _
      by_cases all : ∀ w ∈ s.workers, w = .stopped
      · exact ⟨_, .finish all results running⟩
      · simp only [Classical.not_forall] at all
        obtain ⟨w, known, working⟩ := all
        obtain ⟨before, after, worker⟩ := List.append_of_mem known
        cases w with
        | stopped => exact absurd rfl working
        | delivering path result => exact ⟨_, .deliver worker room⟩
        | inspecting path => exact ⟨_, .inspect worker⟩
        | idle =>
            cases paths : s.paths with
            | cons path rest => exact ⟨_, .take paths worker⟩
            | nil =>
                cases closed : s.closed with
                | true => exact ⟨_, .stop closed paths worker⟩
                | false =>
                    cases offered : s.offered with
                    | some path =>
                        have room : s.paths.length < pathLimit := by
                          rw [paths]
                          exact Nat.zero_lt_succ _
                        exact ⟨_, .queue offered room ⟨_, known, working⟩⟩
                    | none =>
                        cases ahead : s.ahead with
                        | nil => exact ⟨_, .close ahead offered closed⟩
                        | cons path rest => exact ⟨_, .visit ahead offered closed⟩

/-! ## Every run can be finished -/

def Worker.work : Worker → Nat
  | .stopped => 0
  | .idle => 1
  | .delivering .. => 3
  | .inspecting _ => 4

def Worker.workOfAll : List Worker → Nat
  | [] => 0
  | w :: rest => w.work + workOfAll rest

theorem Worker.workOfAll_replaced (before after : List Worker) (w : Worker) :
    workOfAll (before ++ w :: after) = w.work + workOfAll (before ++ after) := by
  induction before with
  | nil => rfl
  | cons first before ih =>
      rw [List.cons_append, List.cons_append, workOfAll, workOfAll, ih]
      omega

/-- How many steps there are still to take, at most: a file needs six from the walk to the
collector. -/
def State.work (s : State) : Nat :=
  6 * s.ahead.length + 5 * s.offered.toList.length + 4 * s.paths.length +
    Worker.workOfAll s.workers + s.results.length + (if s.closed then 0 else 1) +
    (if s.finished then 0 else 1)

theorem Step.work_lt (step : Step inspect s t) : t.work < s.work := by
  cases step with
  | visit ahead free isOpen =>
      simp only [State.work, ahead, free, Option.toList_some, Option.toList_none, List.length_cons,
        List.length_nil]
      omega
  | queue offered room served =>
      simp only [State.work, offered, Option.toList_some, Option.toList_none, List.length_append,
        List.length_cons, List.length_nil]
      omega
  | abandon offered unserved =>
      simp only [State.work, offered, Option.toList_some, Option.toList_none, List.length_cons,
        List.length_nil, if_true]
      omega
  | close ahead free isOpen =>
      simp only [State.work, isOpen, Bool.false_eq_true, if_true, if_false]
      omega
  | take paths worker =>
      simp only [State.work, paths, worker, Worker.workOfAll_replaced, Worker.work,
        List.length_cons]
      omega
  | inspect worker =>
      simp only [State.work, worker, Worker.workOfAll_replaced, Worker.work]
      omega
  | deliver worker room =>
      simp only [State.work, worker, Worker.workOfAll_replaced, Worker.work, List.length_append,
        List.length_cons, List.length_nil]
      omega
  | stop closed paths worker =>
      simp only [State.work, worker, Worker.workOfAll_replaced, Worker.work]
      omega
  | record results =>
      simp only [State.work, results, List.length_cons]
      omega
  | finish workers results running =>
      simp only [State.work, running, Bool.false_eq_true, if_true, if_false]
      omega

theorem exists_run_finished (inspect : Path → Inspection) (s : State) :
    ∃ t, Run inspect s t ∧ t.finished = true := by
  induction work : s.work using Nat.strongRecOn generalizing s with
  | ind n ih =>
      cases running : s.finished with
      | true => exact ⟨s, .refl, running⟩
      | false =>
          obtain ⟨t, step⟩ := exists_step inspect running
          obtain ⟨u, rest, done⟩ := ih t.work (work ▸ step.work_lt) t rfl
          exact ⟨u, .head step rest, done⟩

/-! ## What has been recorded in the end -/

theorem eq_map_of_reported {pairs : List (Path × Inspection)}
    (h : ∀ r ∈ pairs, r.2 = inspect r.1) :
    pairs = (pairs.map Prod.fst).map fun path => (path, inspect path) := by
  rw [List.map_map]
  refine (List.map_id pairs).symm.trans (List.map_congr_left ?_)
  intro r listed
  exact Prod.ext rfl (h r listed)

theorem Inv.recorded_of_finished (h : Inv inspect files s) (finished : s.finished = true) :
    s.visited = files.length ∧
      s.recorded.Perm (files.map fun path => (path, inspect path)) := by
  obtain ⟨all, results⟩ := h.finished finished
  obtain ⟨w, known⟩ := List.exists_mem_of_ne_nil _ h.crewed
  obtain ⟨closed, paths⟩ := h.stopped (all w known ▸ known)
  obtain ⟨ahead, offered⟩ := h.closed closed
  have visited : s.visited = files.length := by
    have := congrArg List.length h.ahead
    simp only [ahead, List.length_nil, List.length_drop] at this
    have := h.visited_le
    omega
  have emptyHanded : s.workers.filterMap Worker.path? = [] := by
    rw [List.filterMap_eq_nil_iff]
    intro w known
    rw [all w known]
    rfl
  have conserved := h.conserved
  rw [State.known, offered, paths, results, emptyHanded, visited, List.take_length] at conserved
  refine ⟨visited, ?_⟩
  rw [eq_map_of_reported fun r listed => h.reported r (List.mem_append_right _ listed)]
  exact (conserved.map _).symm

theorem results_perm (h : s.recorded.Perm (files.map fun path => (path, inspect path))) :
    (s.recorded.map Prod.snd).Perm (files.map inspect) := by
  have := h.map Prod.snd
  rwa [List.map_map] at this

theorem stats_of_perm {inspections others : List Inspection} (h : inspections.Perm others)
    (errors : Nat) :
    (Outcome.collect inspections errors).stats = (Outcome.collect others errors).stats := by
  simp only [Outcome.collect, Outcome.ofFindings, h.length_eq, h.countP_eq]

theorem Inv.stats_of_finished (h : Inv inspect files s) (finished : s.finished = true)
    (errors : Nat) :
    (s.outcome errors).stats = (Outcome.collect (files.map inspect) errors).stats := by
  obtain ⟨visited, recorded⟩ := h.recorded_of_finished finished
  have same := stats_of_perm (results_perm recorded) errors
  have number : (Outcome.collect (files.map inspect) errors).stats.filesVisited = s.visited := by
    rw [visited]
    exact List.length_map inspect
  rw [State.outcome]
  simp only [same, ← number]

/-! ## A scan by the pipeline -/

/-- However walk, workers and collector take turns, the files that the walk has come upon are each
in one place, none is lost, no state is stuck before the scan is over, and when it is over every
file has been inspected and recorded once and counted as without a pipeline. -/
theorem run_conserves {fs : FileSystem} {config : Config} {root canonical : Path} {workers : Nat}
    (crewed : 1 ≤ workers) (valid : validateRoot fs root = .ok canonical)
    (run : Run (Inspection.ofFile fs config canonical)
      (start (Walk.ofRoot fs config canonical) workers) s) :
    ((Walk.ofRoot fs config canonical).files.take s.visited).Perm
        (s.offered.toList ++ s.paths ++ s.workers.filterMap Worker.path? ++
          s.results.map Prod.fst ++ s.recorded.map Prod.fst) ∧
      s.ahead = (Walk.ofRoot fs config canonical).files.drop s.visited ∧
      s.paths.length ≤ pathLimit ∧ s.results.length ≤ resultLimit ∧
      (s.finished = false → ∃ t, Step (Inspection.ofFile fs config canonical) s t) ∧
      (∃ t, Run (Inspection.ofFile fs config canonical) s t ∧ t.finished = true) ∧
      (s.finished = true →
        s.recorded.Perm ((Walk.ofRoot fs config canonical).files.map fun path =>
          (path, Inspection.ofFile fs config canonical path)) ∧
        s.visited = (Walk.ofRoot fs config canonical).files.length ∧
        ∃ outcome, (scanTree fs config root).result = .ok outcome ∧
          (s.outcome (Walk.ofRoot fs config canonical).errors).stats = outcome.stats) := by
  have h := run.inv (start_inv _ _ crewed)
  refine ⟨h.conserved, h.ahead, h.paths_le, h.results_le, exists_step _, exists_run_finished _ s,
    ?_⟩
  intro finished
  obtain ⟨visited, recorded⟩ := h.recorded_of_finished finished
  have sequential := scanTree_of_validateRoot config valid
  exact ⟨recorded, visited, _, sequential, h.stats_of_finished finished _⟩

open Walk.Sample in
theorem run_conserves_tree : ∃ s,
    Run (Inspection.ofFile tree following (Location.path [top]))
      (start (Walk.ofRoot tree following (Location.path [top])) 2) s ∧ s.finished = true ∧
    Location.path [top, kept, leaf] ∈ s.recorded.map Prod.fst := by
  have valid : validateRoot tree (Location.path [top]) = .ok (Location.path [top]) := rfl
  obtain ⟨-, -, -, -, -, ⟨s, run, finished⟩, -⟩ :=
    @run_conserves _ tree following _ _ 2 (by decide) valid .refl
  obtain ⟨-, -, -, -, -, -, all⟩ := run_conserves (by decide) valid run
  refine ⟨s, run, finished, ?_⟩
  rw [((all finished).1.map Prod.fst).mem_iff, List.map_map]
  exact List.mem_map.mpr ⟨_, met_leaf, rfl⟩

end HiddenText.Pipeline
