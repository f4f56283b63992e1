import HiddenText.CommandLine
import HiddenText.Proofs.Options
import HiddenText.Proofs.Results
import HiddenText.Proofs.Scan.Threads
import HiddenText.Proofs.Sink

/-! # The command line fails closed

The exit code tells of a clean tree or of findings only if all went well: the arguments, the
configuration, the scan and the report (`fails_closed`).  Whatever goes wrong makes it 1. -/
set_option autoImplicit false

namespace HiddenText

def Json.field? (key : String) : Json → Option Json
  | .object fields => fields.lookup key
  | _ => none

theorem Outcome.code_eq_two_iff (o : Outcome) : o.exitStatus.code = 2 ↔ o.blocking ≠ [] := by
  rw [← o.exitStatus_eq_blocking_iff]
  cases o.exitStatus <;> simp [ExitStatus.code]

theorem Outcome.code_eq_zero_iff (o : Outcome) : o.exitStatus.code = 0 ↔ o.blocking = [] := by
  have found : o.exitStatus = .blocking ↔ o.blocking ≠ [] := o.exitStatus_eq_blocking_iff
  cases status : o.exitStatus with
  | clean => simpa [status, ExitStatus.code] using found
  | blocking => simpa [status, ExitStatus.code] using found

namespace CommandLine

variable {fs : FileSystem} {scanner : Config → Path → Except ScanError Outcome}
  {arguments : List Bytes} {options : Options} {config base : Config} {outcome : Outcome}
  {output : Output}

/-! ## The configuration -/

def Loads (fs : FileSystem) (options : Options) (base : Config) : Prop :=
  match options.config with
  | none => base = .standard
  | some path => Config.load fs path = .ok base

def Configures (fs : FileSystem) (options : Options) (config : Config) : Prop :=
  ∃ base allowed, Loads fs options base ∧ options.allow.map Codepoint.parse = allowed.map .ok ∧
    config = override base options allowed

theorem configure_eq_ok_iff : configure base options = .ok config ↔
    ∃ allowed, options.allow.map Codepoint.parse = allowed.map .ok ∧
      config = override base options allowed := by
  simp only [configure, bind_eq_ok_iff, mapError_eq_ok_iff, mapM_eq_ok_iff, pure_eq_ok_iff,
    eq_comm (a := config)]

theorem effective_eq_ok_iff : effective fs options = .ok config ↔ Configures fs options config := by
  have loaded : effective fs options = .ok config ↔
      ∃ base, Loads fs options base ∧ configure base options = .ok config := by
    simp only [effective, Loads]
    cases options.config with
    | none => simp only [bind_eq_ok_iff, pure_eq_ok_iff, eq_comm (a := Config.standard)]
    | some path => simp only [bind_eq_ok_iff, mapError_eq_ok_iff]
  rw [loaded, Configures]
  simp only [configure_eq_ok_iff, exists_and_left]

/-! ## What a run comes to -/

/-- The arguments ask for a scan, the configuration is valid, and the scan has an outcome. -/
structure Reaches (scanner : Config → Path → Except ScanError Outcome) (fs : FileSystem)
    (arguments : List Bytes) (options : Options) (config : Config) (outcome : Outcome) :
    Prop where
  parsed : Request.ofArguments arguments = .ok (.scan options)
  configured : Configures fs options config
  scanned : scanner config (rootOf options) = .ok outcome

def Reported (options : Options) (config : Config) (outcome : Outcome) (output : Output) : Prop :=
  (output.perform
    (Report.actions outcome (options.format.getD .text) config.maxListed)).2 = none

def Completes (scanner : Config → Path → Except ScanError Outcome) (fs : FileSystem)
    (arguments : List Bytes) (output : Output) (outcome : Outcome) : Prop :=
  ∃ options config, Reaches scanner fs arguments options config outcome ∧
    Reported options config outcome output

def AsksForHelp (arguments : List Bytes) : Prop :=
  Request.ofArguments arguments = .ok .help ∨ Request.ofArguments arguments = .ok .version

theorem Reaches.scanWith_eq (h : Reaches scanner fs arguments options config outcome) :
    scanWith scanner fs options output =
      ((Report.write outcome (options.format.getD .text) config.maxListed output).1,
        (Report.write outcome (options.format.getD .text) config.maxListed output).2.mapError
          (⟨.writeReport, ·⟩)) := by
  rw [scanWith, effective_eq_ok_iff.mpr h.configured]
  simp only [h.scanned]

theorem exitCode_of_help (h : AsksForHelp arguments) :
    (runWith scanner fs arguments output).exitCode = 0 := by
  rcases h with asked | asked
  · rw [runWith, asked]
  · rw [runWith, asked]

theorem runWith_of_reported (h : Reaches scanner fs arguments options config outcome)
    (reported : Reported options config outcome output) :
    runWith scanner fs arguments output =
      { exitCode := outcome.exitStatus.code
        output := (output.perform
          (Report.actions outcome (options.format.getD .text) config.maxListed)).1 } := by
  rw [Reported] at reported
  rw [runWith, h.parsed]
  simp only [h.scanWith_eq, Report.write]
  generalize output.perform _ = performed at reported
  obtain ⟨written, failure⟩ := performed
  cases reported
  rfl

theorem exitCode_of_not_reported (h : Reaches scanner fs arguments options config outcome)
    (unreported : ¬ Reported options config outcome output) :
    (runWith scanner fs arguments output).exitCode = 1 := by
  rw [Reported] at unreported
  rw [runWith, h.parsed]
  simp only [h.scanWith_eq, Report.write]
  generalize output.perform _ = performed at unreported
  obtain ⟨written, failure⟩ := performed
  cases failure with
  | none => exact absurd rfl unreported
  | some cause => rfl

theorem exitCode_of_completes (h : Completes scanner fs arguments output outcome) :
    (runWith scanner fs arguments output).exitCode = outcome.exitStatus.code := by
  obtain ⟨options, config, reaches, reported⟩ := h
  rw [runWith_of_reported reaches reported]

theorem out_print_err (output : Output) (text : String) :
    (print output .err text).out = output.out :=
  @Output.sink_perform_of_ne .out [.write .err text.toList] output (by simp [Action.stream])

/-- The exit code is 1 if neither help or the version is asked for nor all goes well. -/
theorem help_or_completes (scanner : Config → Path → Except ScanError Outcome) (fs : FileSystem)
    (arguments : List Bytes) (output : Output) :
    AsksForHelp arguments ∨ (∃ outcome, Completes scanner fs arguments output outcome) ∨
      (runWith scanner fs arguments output).exitCode = 1 ∧
        ((runWith scanner fs arguments output).output.out = output.out ∨
          ∃ options config outcome, Reaches scanner fs arguments options config outcome ∧
            ¬ Reported options config outcome output) := by
  cases parsed : Request.ofArguments arguments with
  | error e =>
      right; right
      rw [runWith, parsed]
      exact ⟨rfl, .inl (out_print_err ..)⟩
  | ok request =>
      cases request with
      | help => exact .inl (.inl parsed)
      | version => exact .inl (.inr parsed)
      | scan options =>
          right
          cases configured : effective fs options with
          | error failure =>
              right
              rw [runWith, parsed]
              simp only [scanWith, configured]
              exact ⟨trivial, .inl (out_print_err ..)⟩
          | ok config =>
              cases scanned : scanner config (rootOf options) with
              | error e =>
                  right
                  rw [runWith, parsed]
                  simp only [scanWith, configured, scanned]
                  exact ⟨trivial, .inl (out_print_err ..)⟩
              | ok outcome =>
                  have reaches : Reaches scanner fs arguments options config outcome :=
                    ⟨parsed, effective_eq_ok_iff.mp configured, scanned⟩
                  by_cases reported : Reported options config outcome output
                  · exact .inl ⟨outcome, options, config, reaches, reported⟩
                  · right
                    exact ⟨exitCode_of_not_reported reaches reported,
                      .inr ⟨options, config, outcome, reaches, reported⟩⟩

/-! ## Outputs that accept everything -/

theorem reported_of_accepting (options : Options) (config : Config) (outcome : Outcome)
    (accepting : output.Accepting) : Reported options config outcome output := by
  obtain ⟨written, performed, -⟩ := Output.perform_of_accepting
    (Report.actions outcome (options.format.getD .text) config.maxListed) accepting
  rw [Reported, performed]

def codeOf (result : Except ScanError Outcome) : Nat :=
  match result with
  | .error _ => 1
  | .ok outcome => outcome.exitStatus.code

theorem exitCode_of_scan (parsed : Request.ofArguments arguments = .ok (.scan options))
    (accepting : output.Accepting) :
    (runWith scanner fs arguments output).exitCode =
      match effective fs options with
      | .error _ => 1
      | .ok config => codeOf (scanner config (rootOf options)) := by
  cases configured : effective fs options with
  | error failure =>
      rw [runWith, parsed]
      simp only [scanWith, configured]
  | ok config =>
      simp only
      cases scanned : scanner config (rootOf options) with
      | error e =>
          rw [runWith, parsed]
          simp only [scanWith, configured, scanned]
          rfl
      | ok outcome =>
          exact exitCode_of_completes ⟨options, config,
            ⟨parsed, effective_eq_ok_iff.mp configured, scanned⟩,
            reported_of_accepting options config outcome accepting⟩

theorem codeOf_eq {result result' : Except ScanError Outcome} (h : ScansAgree result result') :
    codeOf result = codeOf result' := by
  cases h with
  | error same => rfl
  | ok agrees => exact congrArg ExitStatus.code agrees.exitStatus_eq

theorem exitCode_eq_of_alike {processors processors' : Nat} (scanner : Scanner fs processors)
    (scanner' : Scanner fs processors') {arguments' : List Bytes} {output' : Output}
    (alike : ResultsAgree (fun _ _ => True) Request.Alike (Request.ofArguments arguments)
      (Request.ofArguments arguments'))
    (accepting : output.Accepting) (accepting' : output'.Accepting) :
    (runWith scanner.scan fs arguments output).exitCode =
      (runWith scanner'.scan fs arguments' output').exitCode := by
  have scans : ∀ {o o' : Options}, o.Alike o' →
      Request.ofArguments arguments = .ok (.scan o) →
      Request.ofArguments arguments' = .ok (.scan o') →
      (runWith scanner.scan fs arguments output).exitCode =
        (runWith scanner'.scan fs arguments' output').exitCode := by
    rintro o o' ⟨format, rfl, -⟩ parsed parsed'
    rw [exitCode_of_scan parsed accepting, exitCode_of_scan parsed' accepting']
    have same : effective fs { o with format := format } = effective fs o := rfl
    rw [same]
    cases effective fs o with
    | error failure => rfl
    | ok config =>
        exact codeOf_eq ((scanner.sound config (rootOf o)).agrees (scanner'.sound config _))
  generalize parsed : Request.ofArguments arguments = asked at alike
  generalize parsed' : Request.ofArguments arguments' = asked' at alike
  cases alike with
  | error _ =>
      rw [runWith, runWith, parsed, parsed']
  | @ok request request' alike =>
      cases alike with
      | scan alike => exact scans alike parsed parsed'
      | same =>
          cases request with
          | help => rw [exitCode_of_help (.inl parsed), exitCode_of_help (.inl parsed')]
          | version => rw [exitCode_of_help (.inr parsed), exitCode_of_help (.inr parsed')]
          | scan options => exact scans (.refl options) parsed parsed'

/-! ## The exit code -/

theorem exitCode_eq_two_iff : (runWith scanner fs arguments output).exitCode = 2 ↔
    ∃ outcome, Completes scanner fs arguments output outcome ∧ outcome.blocking ≠ [] := by
  constructor
  · intro code
    rcases help_or_completes scanner fs arguments output with help | ⟨outcome, all⟩ | ⟨fails, -⟩
    · rw [exitCode_of_help help] at code
      cases code
    · rw [exitCode_of_completes all] at code
      exact ⟨outcome, all, outcome.code_eq_two_iff.mp code⟩
    · rw [fails] at code
      cases code
  · rintro ⟨outcome, all, found⟩
    rw [exitCode_of_completes all]
    exact outcome.code_eq_two_iff.mpr found

theorem exitCode_eq_zero_iff : (runWith scanner fs arguments output).exitCode = 0 ↔
    AsksForHelp arguments ∨
      ∃ outcome, Completes scanner fs arguments output outcome ∧ outcome.blocking = [] := by
  constructor
  · intro code
    rcases help_or_completes scanner fs arguments output with help | ⟨outcome, all⟩ | ⟨fails, -⟩
    · exact .inl help
    · rw [exitCode_of_completes all] at code
      exact .inr ⟨outcome, all, outcome.code_eq_zero_iff.mp code⟩
    · rw [fails] at code
      cases code
  · rintro (help | ⟨outcome, all, none⟩)
    · exact exitCode_of_help help
    · rw [exitCode_of_completes all]
      exact outcome.code_eq_zero_iff.mpr none

theorem exitCode_eq_one (notBlocking : (runWith scanner fs arguments output).exitCode ≠ 2)
    (notClean : (runWith scanner fs arguments output).exitCode ≠ 0) :
    (runWith scanner fs arguments output).exitCode = 1 ∧
      ((runWith scanner fs arguments output).output.out = output.out ∨
        ∃ options config outcome, Reaches scanner fs arguments options config outcome ∧
          ¬ Reported options config outcome output) := by
  rcases help_or_completes scanner fs arguments output with help | ⟨outcome, all⟩ | fails
  · exact absurd (exitCode_of_help help) notClean
  · rw [exitCode_of_completes all] at notBlocking notClean
    by_cases found : outcome.blocking = []
    · exact absurd (outcome.code_eq_zero_iff.mpr found) notClean
    · exact absurd (outcome.code_eq_two_iff.mpr found) notBlocking
  · exact fails

theorem runWith_json (accepting : output.Accepting) (json : options.format = some .json)
    (reaches : Reaches scanner fs arguments options config outcome) :
    (runWith scanner fs arguments output).exitCode = outcome.exitStatus.code ∧
      (runWith scanner fs arguments output).output.out.accepted =
        output.out.accepted ++ Utf8.encode ((Report.document outcome).write 0 ++ ['\n']) := by
  have reported : Reported options config outcome output :=
    reported_of_accepting options config outcome accepting
  obtain ⟨written, performed, all⟩ := Output.perform_of_accepting
    (Report.actions outcome (options.format.getD .text) config.maxListed) accepting
  rw [runWith_of_reported reaches reported]
  refine ⟨rfl, ?_⟩
  rw [performed]
  apply (all .out).trans
  rw [json]
  rfl

/-- What the exit code of the program says, and what it does not depend on. -/
structure FailsClosed {processors : Nat} (fs : FileSystem) (scanner : Scanner fs processors) :
    Prop where
  blocking (arguments : List Bytes) (output : Output) :
    (runWith scanner.scan fs arguments output).exitCode = 2 ↔
      ∃ outcome, Completes scanner.scan fs arguments output outcome ∧ outcome.blocking ≠ []
  clean (arguments : List Bytes) (output : Output) :
    (runWith scanner.scan fs arguments output).exitCode = 0 ↔ AsksForHelp arguments ∨
      ∃ outcome, Completes scanner.scan fs arguments output outcome ∧ outcome.blocking = []
  failed (arguments : List Bytes) (output : Output)
    (notBlocking : (runWith scanner.scan fs arguments output).exitCode ≠ 2)
    (notClean : (runWith scanner.scan fs arguments output).exitCode ≠ 0) :
    (runWith scanner.scan fs arguments output).exitCode = 1 ∧
      ((runWith scanner.scan fs arguments output).output.out = output.out ∨
        ∃ options config outcome, Reaches scanner.scan fs arguments options config outcome ∧
          ¬ Reported options config outcome output)
  formats (before after : List Bytes) {processors' : Nat} (scanner' : Scanner fs processors')
    {output output' : Output} (accepting : output.Accepting) (accepting' : output'.Accepting) :
    (runWith scanner.scan fs
        (before ++ [Utf8.ofString "--format", Utf8.ofString "text"] ++ after) output).exitCode =
      (runWith scanner'.scan fs
        (before ++ [Utf8.ofString "--format", Utf8.ofString "json"] ++ after) output').exitCode
  document {arguments : List Bytes} {options : Options} {config : Config} {outcome : Outcome}
    {output : Output} (accepting : output.Accepting) (json : options.format = some .json)
    (reaches : Reaches scanner.scan fs arguments options config outcome) :
    ∃ status : ExitStatus,
      (runWith scanner.scan fs arguments output).exitCode = status.code ∧
      (runWith scanner.scan fs arguments output).output.out.accepted =
        output.out.accepted ++ Utf8.encode ((Report.document outcome).write 0 ++ ['\n']) ∧
      (Report.document outcome).field? "exit_code" = some (.number status.code) ∧
      (Report.document outcome).field? "status" = some (.text status.name)

/-- The program itself takes one file after the other, which is one way for a scan to go. -/
theorem run_eq_runWith (fs : FileSystem) (processors : Nat) :
    run fs = runWith (Scanner.inOrder fs processors).scan fs := rfl

/-- The exit code is 2 exactly if the arguments ask for a scan, the configuration file and the
values to allow are valid, the scan finds something in source files, and the report is written and
flushed.  It is 0 exactly if help or the version is asked for or all of this holds of a scan that
finds nothing there.  It is 1 in every other case, and then nothing has been written to standard
output unless it was writing the report that failed. -/
theorem fails_closed {processors : Nat} (fs : FileSystem) (scanner : Scanner fs processors) :
    FailsClosed fs scanner where
  blocking arguments output := exitCode_eq_two_iff
  clean arguments output := exitCode_eq_zero_iff
  failed arguments output notBlocking notClean := exitCode_eq_one notBlocking notClean
  formats before after _ scanner' _ _ accepting accepting' :=
    exitCode_eq_of_alike scanner scanner' (ofArguments_alike before after .text .json)
      accepting accepting'
  document := by
    intro arguments options config outcome output accepting json reaches
    obtain ⟨code, written⟩ := runWith_json accepting json reaches
    exact ⟨outcome.exitStatus, code, written, rfl, rfl⟩

namespace Sample

open Walk.Sample

def asking (format : ReportFormat) : List Bytes :=
  [Utf8.ofString "--follow-links", Utf8.ofString "--format", format.spelling, Location.path [top]]

def asked : Options :=
  { root := some (Location.path [top]), format := some .json, followLinks := true }

end Sample

open Walk.Sample Sample in
/-- A file blocks: the exit code is 2 in both formats, and the document says so. -/
theorem fails_closed_tree : ({} : Output).Accepting ∧ ∃ outcome,
    Reaches (Scanner.inOrder tree 1).scan tree (asking .json) asked following outcome ∧
      (run tree (asking .json) {}).exitCode = 2 ∧
      (run tree (asking .text) {}).exitCode = 2 ∧
      (Report.document outcome).field? "exit_code" = some (.number 2) := by
  have accepting : ({} : Output).Accepting := by
    intro stream
    cases stream <;> exact ⟨rfl, rfl⟩
  obtain ⟨outcome, scanned, blocks⟩ := exists_blocking
  have reaches : Reaches (Scanner.inOrder tree 1).scan tree (asking .json) asked following
      outcome := ⟨by decide +kernel, ⟨.standard, [], rfl, rfl, rfl⟩, scanned⟩
  have closed := fails_closed tree (Scanner.inOrder tree 1)
  have blocking : (run tree (asking .json) {}).exitCode = 2 :=
    (closed.blocking _ _).mpr ⟨outcome, ⟨_, _, reaches, reported_of_accepting _ _ _ accepting⟩,
      outcome.exitStatus_eq_blocking_iff.mp blocks⟩
  obtain ⟨status, code, -, field, -⟩ := closed.document accepting rfl reaches
  rw [show status.code = 2 from code.symm.trans blocking] at field
  have same := closed.formats [Utf8.ofString "--follow-links"] [Location.path [top]]
    (Scanner.inOrder tree 1) accepting accepting
  exact ⟨accepting, outcome, reaches, blocking, same.trans blocking, field⟩

end CommandLine
end HiddenText
