import HiddenText.Outcome
import HiddenText.Scan
import HiddenText.Walk
import Mathlib.Logic.Relation

/-! # Scanning with several threads

With one thread a scan takes one file after the other; with more it is a run of the pipeline.  What
it returns may depend on the run, so that a scan is a relation here.  How many of its threads take
part is left open as well. -/
set_option autoImplicit false

namespace HiddenText.Pipeline

/-! ## The pipeline of a parallel scan

The walk, several workers and a collector go on at the same time.  Paths wait in one bounded queue
for a worker, results wait in another for the collector.  Which of them takes the next step is left
open: a run of the pipeline is any sequence of steps.  A path that is offered when no worker is
left is lost, and the walk is given up. -/

/-- How many paths may wait for a worker. -/
def pathLimit : Nat := 1024

/-- How many results may wait for the collector. -/
def resultLimit : Nat := 256

/-- A worker has at most one file in hand, as a path or as the result of its inspection. -/
inductive Worker
  | idle
  | inspecting (path : Path)
  | delivering (path : Path) (result : Inspection)
  | stopped
  deriving DecidableEq

/-- Both queues have their oldest member first.  `offered` is a file that the walk has come upon
and that is not in the queue yet; `closed` says that no more paths will be queued. -/
structure State where
  ahead : List Path
  offered : Option Path := none
  visited : Nat := 0
  closed : Bool := false
  paths : List Path := []
  workers : List Worker
  results : List (Path × Inspection) := []
  recorded : List (Path × Inspection) := []
  finished : Bool := false

/-- Nothing has happened yet, and every worker is idle. -/
def start (walk : Walk) (workers : Nat) : State :=
  { ahead := walk.files, workers := List.replicate workers .idle }

/-- One step of the walk, of a worker or of the collector. -/
inductive Step (inspect : Path → Inspection) : State → State → Prop
  | visit {s path rest} (ahead : s.ahead = path :: rest) (free : s.offered = none)
      (isOpen : s.closed = false) :
      Step inspect s
        { s with ahead := rest, offered := some path, visited := s.visited + 1 }
  | queue {s path} (offered : s.offered = some path) (room : s.paths.length < pathLimit)
      (served : ∃ w ∈ s.workers, w ≠ .stopped) :
      Step inspect s { s with offered := none, paths := s.paths ++ [path] }
  | abandon {s path} (offered : s.offered = some path) (unserved : ∀ w ∈ s.workers, w = .stopped) :
      Step inspect s { s with offered := none, closed := true }
  | close {s} (ahead : s.ahead = []) (free : s.offered = none) (isOpen : s.closed = false) :
      Step inspect s { s with closed := true }
  | take {s path rest before after} (paths : s.paths = path :: rest)
      (worker : s.workers = before ++ .idle :: after) :
      Step inspect s { s with paths := rest, workers := before ++ .inspecting path :: after }
  | inspect {s path before after} (worker : s.workers = before ++ .inspecting path :: after) :
      Step inspect s
        { s with workers := before ++ .delivering path (inspect path) :: after }
  | deliver {s path result before after}
      (worker : s.workers = before ++ .delivering path result :: after)
      (room : s.results.length < resultLimit) :
      Step inspect s
        { s with workers := before ++ .idle :: after, results := s.results ++ [(path, result)] }
  | stop {s before after} (closed : s.closed = true) (paths : s.paths = [])
      (worker : s.workers = before ++ .idle :: after) :
      Step inspect s { s with workers := before ++ .stopped :: after }
  | record {s result rest} (results : s.results = result :: rest) :
      Step inspect s { s with results := rest, recorded := s.recorded ++ [result] }
  | finish {s} (workers : ∀ w ∈ s.workers, w = .stopped) (results : s.results = [])
      (running : s.finished = false) :
      Step inspect s { s with finished := true }

/-- Any number of steps lead from one state to another. -/
abbrev Run (inspect : Path → Inspection) : State → State → Prop :=
  Relation.ReflTransGen (Step inspect)

/-- What the collector makes of the results it has recorded, in the order in which they came. -/
def State.outcome (s : State) (errors : Nat) : Outcome :=
  let collected := Outcome.collect (s.recorded.map Prod.snd) errors
  { collected with stats := { collected.stats with filesVisited := s.visited } }

end HiddenText.Pipeline

/-! ## What a scan may return -/

namespace HiddenText

/-- The number of threads on a machine with that many processors. -/
def Config.threadCount (config : Config) (processors : Nat) : Nat :=
  max 1 (config.threads.getD processors)

/-- What a scan of a root returns once its pipeline is done. -/
def Pipeline.State.result (s : Pipeline.State) (walk : Walk) (root : Path) :
    Except ScanError Outcome :=
  match walk.rootError with
  | some cause => .error (.rootUnreadable root cause)
  | none => .ok (s.outcome walk.errors)

/-- What a scan may return. -/
inductive Scans (fs : FileSystem) (config : Config) (processors : Nat) (root : Path) :
    Except ScanError Outcome → Prop
  | refused {e} (refused : validateRoot fs root = .error e) :
      Scans fs config processors root (.error e)
  | alone (single : config.threadCount processors ≤ 1) :
      Scans fs config processors root (scanTree fs config root).result
  | together {canonical workers s} (several : 1 < config.threadCount processors)
      (valid : validateRoot fs root = .ok canonical) (crewed : 1 ≤ workers)
      (fits : workers ≤ config.threadCount processors)
      (run : Pipeline.Run (Inspection.ofFile fs config canonical)
        (Pipeline.start (Walk.ofRoot fs config canonical) workers) s)
      (finished : s.finished = true) :
      Scans fs config processors root (s.result (Walk.ofRoot fs config canonical) canonical)

/-- For each configuration and each root, one of the results that a scan may have. -/
structure Scanner (fs : FileSystem) (processors : Nat) where
  scan : Config → Path → Except ScanError Outcome
  sound : ∀ config root, Scans fs config processors root (scan config root)

end HiddenText
