import HiddenText.Proofs.Scan.Threads
import HiddenText.Proofs.Walk.Fate

/-! # What the log says

Each event of a walk is logged at most once: a failure with a warning, an entry that is pruned or
passed over as such, and a file that is skipped with the reason.  So the log of a scan, between its
first and its last line, counts what the statistics count (`scanTree_log`). -/
set_option autoImplicit false

namespace HiddenText

def LogEvent.about? : LogEvent → Option Path
  | .directoryPruned path | .entrySkipped path | .entryUnreadable path _ | .cycleSkipped path _ =>
    some path
  | _ => none

def LogEvent.saysUnreadable (line : LogEvent) : Bool :=
  line.level = .debug ∧ line.message = "unreadable file, skipping"

def LogEvent.saysNotText (line : LogEvent) : Bool :=
  line.level = .debug ∧ line.message = "non-text content, skipping"

def Inspection.line? : Inspection → Option LogEvent
  | .unreadable path cause => some (.fileUnreadable path cause)
  | .notText path => some (.fileNotText path)
  | _ => none

def logged (fs : FileSystem) (config : Config) (root : Path) (event : Walk.Event) :
    Option LogEvent :=
  (ScanStep.ofEvent fs config root event).logEvent?

variable {fs : FileSystem} {config : Config} {root canonical : Path}

/-! ## One event -/

theorem logged_file (path : Path) :
    logged fs config root (.file path) = (Inspection.ofFile fs config root path).line? := by
  unfold logged ScanStep.ofEvent
  simp only [Walk.Event.file?]
  cases Inspection.ofFile fs config root path <;> rfl

theorem warnings_of_logged (event : Walk.Event) :
    (logged fs config root event).toList.countP (·.level = .warn) =
      [event].countP Walk.Event.isFailure := by
  cases event with
  | file path =>
      rw [logged_file]
      cases Inspection.ofFile fs config root path <;> rfl
  | _ => rfl

theorem skips_of_logged (event : Walk.Event) :
    (logged fs config root event).toList.countP LogEvent.saysUnreadable +
        (logged fs config root event).toList.countP LogEvent.saysNotText =
      (event.file?.toList.map (Inspection.ofFile fs config root)).countP
        Inspection.isSkipped := by
  cases event with
  | file path =>
      rw [logged_file]
      simp only [Walk.Event.file?, Option.toList, List.map_cons, List.map_nil]
      cases Inspection.ofFile fs config root path <;> rfl
  | _ => rfl

theorem level_ne_info_of_logged {event : Walk.Event} {line : LogEvent}
    (h : logged fs config root event = some line) : line.level ≠ .info := by
  cases event with
  | file path =>
      rw [logged_file] at h
      cases inspected : Inspection.ofFile fs config root path <;>
        rw [inspected] at h <;> cases h <;> exact nofun
  | _ => cases h; exact nofun

/-- A line about an entry is none about the contents of a file. -/
theorem ofWalk_of_logged {event : Walk.Event} {line : LogEvent} {path : Path}
    (h : logged fs config root event = some line) (about : line.about? = some path) :
    LogEvent.ofWalk event = some line := by
  cases event with
  | file path =>
      rw [logged_file] at h
      cases inspected : Inspection.ofFile fs config root path <;>
        rw [inspected] at h <;> cases h <;> cases about
  | _ => exact h

theorem eq_pruned_of_logged {event : Walk.Event} {path : Path}
    (h : logged fs config root event = some (.directoryPruned path)) : event = .pruned path := by
  have written := ofWalk_of_logged h rfl
  cases event <;> cases written
  rfl

theorem eq_special_of_logged {event : Walk.Event} {path : Path}
    (h : logged fs config root event = some (.entrySkipped path)) : event = .special path := by
  have written := ofWalk_of_logged h rfl
  cases event <;> cases written
  rfl

/-- A line about an entry is logged of an event at this entry. -/
theorem path?_of_logged {event : Walk.Event} {line : LogEvent} {path : Path}
    (h : logged fs config root event = some line) (about : line.about? = some path) :
    event.path? = some path := by
  have written := ofWalk_of_logged h about
  cases event with
  | file _ => cases written
  | closedTarget cause =>
      cases written
      cases about
  | _ => cases written; exact about

/-! ## A run of events -/

theorem countP_warnings (events : List Walk.Event) :
    (events.filterMap (logged fs config root)).countP (·.level = .warn) =
      events.countP Walk.Event.isFailure := by
  rw [List.filterMap_eq_flatMap_toList]
  induction events with
  | nil => rfl
  | cons event events ih =>
      rw [List.flatMap_cons, List.countP_append, ih, warnings_of_logged, ← List.countP_append,
        List.singleton_append]

theorem countP_skips (events : List Walk.Event) :
    (events.filterMap (logged fs config root)).countP LogEvent.saysUnreadable +
        (events.filterMap (logged fs config root)).countP LogEvent.saysNotText =
      ((events.filterMap Walk.Event.file?).map (Inspection.ofFile fs config root)).countP
        Inspection.isSkipped := by
  simp only [List.filterMap_eq_flatMap_toList]
  induction events with
  | nil => rfl
  | cons event events ih =>
      have here := @skips_of_logged fs config root event
      simp only [List.flatMap_cons, List.map_append, List.countP_append]
      omega

theorem filter_about? (path : Path) (events : List Walk.Event) :
    (events.filterMap (logged fs config root)).filter (·.about? = some path) =
      ((events.filter (·.path? = some path)).filterMap (logged fs config root)).filter
        (·.about? = some path) := by
  simp only [List.filterMap_eq_flatMap_toList]
  induction events with
  | nil => rfl
  | cons event events ih =>
      by_cases here : event.path? = some path
      · have kept : (event :: events).filter (·.path? = some path) =
            event :: events.filter (·.path? = some path) :=
          List.filter_cons_of_pos (decide_eq_true here)
        rw [kept, List.flatMap_cons, List.flatMap_cons, List.filter_append, List.filter_append, ih]
      · have left : (event :: events).filter (·.path? = some path) =
            events.filter (·.path? = some path) :=
          List.filter_cons_of_neg fun kept => here (of_decide_eq_true kept)
        have elsewhere :
            (logged fs config root event).toList.filter (·.about? = some path) = [] := by
          rw [List.filter_eq_nil_iff]
          intro line known about
          exact here (path?_of_logged (Option.mem_toList.mp known) (of_decide_eq_true about))
        rw [left, List.flatMap_cons, List.filter_append, elsewhere, List.nil_append, ih]

/-! ## A scan -/

structure LogAccounts (fs : FileSystem) (config : Config) (root : Path) (o : Outcome)
    (lines : List LogEvent) : Prop where
  quiet : ∀ line ∈ lines, line.level ≠ .info
  warnings : lines.countP (·.level = .warn) = o.stats.traversalErrors
  skips : lines.countP LogEvent.saysUnreadable + lines.countP LogEvent.saysNotText =
    o.stats.filesSkipped
  pruned : ∀ names, Walk.Meets fs config root .pruned names →
    lines.filter (·.about? = some (root.descend names)) =
      [.directoryPruned (root.descend names)]
  passedOver : ∀ names, Walk.Meets fs config root .passedOver names →
    lines.filter (·.about? = some (root.descend names)) = [.entrySkipped (root.descend names)]
  onlyPruned : ∀ path, .directoryPruned path ∈ lines →
    ∃ names, Walk.Meets fs config root .pruned names ∧ path = root.descend names
  /-- The root itself is passed over if it is a link, and gone through all the same. -/
  onlyPassedOver : ∀ path, .entrySkipped path ∈ lines →
    path = root ∨ ∃ names, Walk.Meets fs config root .passedOver names ∧ path = root.descend names

theorem log_of_result (valid : validateRoot fs root = .ok canonical) {outcome : Outcome}
    (scanned : (scanTree fs config root).result = .ok outcome) :
    (scanTree fs config root).log =
      .scanStarted canonical config.threads ::
        (Walk.ofRoot fs config canonical).events.filterMap (logged fs config canonical) ++
      [.scanFinished outcome.stats outcome.blocking.length outcome.advisory.length] := by
  rw [scanTree_of_validateRoot config valid] at scanned
  obtain rfl := Except.ok.inj scanned
  rw [scanTree, scanAlong, valid]
  simp only [rootError_of_validateRoot config valid, filterMap_inspection?]
  rw [List.filterMap_map]
  rfl

/-- There is one event of an entry that is not entered. -/
theorem filter_path?_ofRoot (config : Config) {start : Location}
    (opened : fs.openDirectory root = .ok start) {fate : Walk.Fate} {write : Path → Walk.Event}
    (as : fate.ToldAs write) {names : List Name} (meets : Walk.Meets fs config root fate names) :
    (Walk.ofRoot fs config root).events.filter (·.path? = some (root.descend names)) =
      [write (root.descend names)] := by
  obtain ⟨told, accounts⟩ := @Walk.exists_accounts fs config root start opened
  obtain ⟨before, front, all⟩ := Walk.ofRoot_of_openDirectory config opened
  have proper : root ≠ root.descend names := by
    obtain ⟨front, name, -, -, rfl, -⟩ := meets
    intro same
    have atRoot : root.descend [] = root.descend (front ++ [name]) := same
    exact List.concat_ne_nil _ _ (Path.descend_injective root atRoot).symm
  have outside : before.filter (·.path? = some (root.descend names)) = [] := by
    rcases front with rfl | rfl
    · rfl
    · simpa [Walk.Event.path?] using proper
  rw [all]
  show (before ++ _).filter _ = _
  rw [List.filter_append, outside, List.nil_append, accounts.filter_path? as meets]

theorem filter_about?_ofRoot (config : Config) {start : Location}
    (opened : fs.openDirectory root = .ok start) {fate : Walk.Fate} {write : Path → Walk.Event}
    (as : fate.ToldAs write) {say : Path → LogEvent}
    (worded : ∀ path, logged fs config root (write path) = some (say path))
    (about : ∀ path, (say path).about? = some path) {names : List Name}
    (meets : Walk.Meets fs config root fate names) :
    ((Walk.ofRoot fs config root).events.filterMap (logged fs config root)).filter
        (·.about? = some (root.descend names)) =
      [say (root.descend names)] := by
  rw [filter_about?, filter_path?_ofRoot config opened as meets,
    List.filterMap_cons_some (worded _), List.filterMap_nil]
  exact List.filter_cons_of_pos (decide_eq_true (about _))

/-- A line of this kind is logged of nothing else, the root apart. -/
theorem exists_meets_of_logged (config : Config) {start : Location}
    (opened : fs.openDirectory root = .ok start) {fate : Walk.Fate} {write : Path → Walk.Event}
    (as : fate.ToldAs write) {path : Path} {line : LogEvent}
    (only : ∀ event, logged fs config root event = some line → event = write path)
    (known : line ∈ (Walk.ofRoot fs config root).events.filterMap (logged fs config root)) :
    write path = .special root ∨
      ∃ names, Walk.Meets fs config root fate names ∧ path = root.descend names := by
  obtain ⟨told, accounts⟩ := @Walk.exists_accounts fs config root start opened
  obtain ⟨before, front, all⟩ := Walk.ofRoot_of_openDirectory config opened
  obtain ⟨event, met, written⟩ := List.mem_filterMap.mp known
  obtain rfl := only event written
  rw [all] at met
  rcases List.mem_append.mp met with early | met
  · rcases front with rfl | rfl
    · cases early
    · exact .inl (List.mem_singleton.mp early)
  · exact .inr (accounts.exists_meets_of_mem as met)

theorem logAccounts_ofRoot {place start : Location}
    (opened : fs.openDirectory place.path = .ok start) :
    LogAccounts fs config place.path
      (.collect ((Walk.ofRoot fs config place.path).files.map
        (Inspection.ofFile fs config place.path)) (Walk.ofRoot fs config place.path).errors)
      ((Walk.ofRoot fs config place.path).events.filterMap (logged fs config place.path)) := by
  constructor
  · intro line known
    obtain ⟨event, -, written⟩ := List.mem_filterMap.mp known
    exact level_ne_info_of_logged written
  · exact countP_warnings _
  · exact countP_skips _
  · intro names meets
    exact filter_about?_ofRoot config opened Walk.toldAs_pruned (fun _ => rfl) (fun _ => rfl) meets
  · intro names meets
    exact filter_about?_ofRoot config opened Walk.toldAs_special (fun _ => rfl) (fun _ => rfl) meets
  · intro path known
    rcases exists_meets_of_logged config opened Walk.toldAs_pruned
      (fun _ => eq_pruned_of_logged) known with same | met
    · cases same
    · exact met
  · intro path known
    rcases exists_meets_of_logged config opened Walk.toldAs_special
      (fun _ => eq_special_of_logged) known with same | met
    · cases same
      exact .inl rfl
    · exact .inr met

/-- With one thread, the log of a scan that succeeds begins with one line for its start and ends
with one for its end, which tells the outcome's counts.  In between there is one warning for each
failure, one line for each file that is skipped, and one for each entry that is pruned or passed
over.  A root that does not pass the check is not logged at all. -/
theorem scanTree_log (single : config.threads = some 1) :
    (∀ outcome, (scanTree fs config root).result = .ok outcome →
      ∃ canonical lines, validateRoot fs root = .ok canonical ∧
        (scanTree fs config root).log =
          .scanStarted canonical (some 1) :: lines ++
            [.scanFinished outcome.stats outcome.blocking.length outcome.advisory.length] ∧
        (scanTree fs config root).log.filter (·.level = .info) =
          [.scanStarted canonical (some 1),
            .scanFinished outcome.stats outcome.blocking.length outcome.advisory.length] ∧
        LogAccounts fs config canonical outcome lines) ∧
      (∀ e, validateRoot fs root = .error e → (scanTree fs config root).log = []) ∧
      ∀ processors result, Scans fs config processors root result →
        result = (scanTree fs config root).result := by
  refine ⟨?_, ?_, ?_⟩
  · intro outcome scanned
    obtain ⟨canonical, valid, rfl⟩ := scanTree_result_eq_ok_iff.mp scanned
    have log := log_of_result valid scanned
    rw [single] at log
    obtain ⟨place, -, rfl, start, opened⟩ := validateRoot_eq_ok_iff.mp valid
    have accounts := @logAccounts_ofRoot fs config _ _ opened
    refine ⟨place.path, _, valid, log, ?_, accounts⟩
    have quiet : ((Walk.ofRoot fs config place.path).events.filterMap
        (logged fs config place.path)).filter (·.level = .info) = [] :=
      List.filter_eq_nil_iff.mpr fun line known =>
        fun isInfo => accounts.quiet line known (of_decide_eq_true isInfo)
    rw [log, List.cons_append, List.filter_cons_of_pos rfl, List.filter_append, quiet]
    rfl
  · intro e refused
    rw [scanTree, scanAlong, refused]
  · intro processors result scans
    cases scans with
    | refused refused => exact (scanTree_of_error config refused).symm
    | alone _ => rfl
    | together several =>
        rw [Config.threadCount, single] at several
        exact absurd several (Nat.lt_irrefl 1)

def Config.alone : Config := { Walk.Sample.following with threads := some 1 }

open Walk.Sample in
/-- The directory that is left out has one line of its own in the log. -/
theorem scanTree_log_alone : Config.alone.threads = some 1 ∧ ∃ outcome lines,
    (scanTree tree .alone (Location.path [top])).result = .ok outcome ∧
      (scanTree tree .alone (Location.path [top])).log =
        .scanStarted (Location.path [top]) (some 1) :: lines ++
          [.scanFinished outcome.stats outcome.blocking.length outcome.advisory.length] ∧
      lines.filter (·.about? = some (Location.path [top, build])) =
        [.directoryPruned (Location.path [top, build])] ∧
      lines.countP (·.level = .warn) = outcome.stats.traversalErrors := by
  have valid : validateRoot tree (Location.path [top]) = .ok (Location.path [top]) := rfl
  have pruned : Walk.Meets tree .alone (Location.path [top]) .pruned [build] :=
    ⟨[], build, _, _, rfl, .root opened, .ignored rfl (by decide)⟩
  have scanned := scanTree_of_validateRoot .alone valid
  obtain ⟨canonical, lines, valid', log, -, accounts⟩ :=
    (@scanTree_log tree .alone (Location.path [top]) rfl).1 _ scanned
  obtain rfl := Except.ok.inj (valid.symm.trans valid')
  exact ⟨rfl, _, lines, scanned, log, accounts.pruned [build] pruned, accounts.warnings⟩

end HiddenText
