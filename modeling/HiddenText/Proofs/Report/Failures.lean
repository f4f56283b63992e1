import HiddenText.Proofs.Sink
import HiddenText.Report

/-! # Reports to sinks that fail

A report is delivered whole or says what failed (`write_contract`): it succeeds exactly if both of
its texts fit and the flushes it asks for work, and whatever happens the sinks hold first parts of
the texts.  The advisory section comes before anything on standard error, so that a failure in it
leaves standard error alone, and a failure there leaves just that section on standard output.
Into how many writes a text is cut makes no difference. -/
set_option autoImplicit false

namespace HiddenText.Report

variable {o : Outcome} {format : ReportFormat} {maxListed : Nat} {output : Output}

/-- What a report comes to on a stream if nothing limits it. -/
def fullText (o : Outcome) (format : ReportFormat) (maxListed : Nat) (stream : Stream) : Bytes :=
  ((write o format maxListed {}).1.sink stream).accepted

def advisorySection (o : Outcome) (maxListed : Nat) : List Action :=
  (advisoryLines o maxListed).map (writeLine .out)

theorem write_output (o : Outcome) (format : ReportFormat) (maxListed : Nat) (output : Output) :
    (write o format maxListed output).1 = (output.perform (actions o format maxListed)).1 := by
  rw [write]
  split
  · rename_i performed
    rw [performed]
  · rename_i performed
    rw [performed]

theorem write_eq_ok_iff {status : ExitStatus} : (write o format maxListed output).2 = .ok status ↔
    status = o.exitStatus ∧ (output.perform (actions o format maxListed)).2 = none := by
  rw [write]
  split
  · rename_i performed
    simp [performed, eq_comm]
  · rename_i performed
    simp [performed]

theorem write_eq_error_iff {e : ScanError} : (write o format maxListed output).2 = .error e ↔
    ∃ cause, e = .reportUnwritten cause ∧
      (output.perform (actions o format maxListed)).2 = some cause := by
  rw [write]
  split
  · rename_i performed
    simp [performed]
  · rename_i performed
    simp [performed, eq_comm]

theorem fullText_eq (o : Outcome) (format : ReportFormat) (maxListed : Nat) (stream : Stream) :
    fullText o format maxListed stream = Action.bytesOn stream (actions o format maxListed) := by
  have accepting : ({} : Output).Accepting := fun stream => by cases stream <;> exact ⟨rfl, rfl⟩
  obtain ⟨written, performed, all⟩ :=
    Output.perform_of_accepting (actions o format maxListed) accepting
  rw [fullText, write_output, performed]
  cases stream <;> exact all _

/-! ## Where the actions go -/

theorem advisorySection_out {action : Action} (h : action ∈ advisorySection o maxListed) :
    action.stream = .out := by
  obtain ⟨line, -, rfl⟩ := List.mem_map.mp h
  rfl

theorem mem_actions_flush_out (o : Outcome) (format : ReportFormat) (maxListed : Nat) :
    .flush .out ∈ actions o format maxListed := by
  cases format with
  | text => simp [actions, textActions]
  | json => simp [actions, jsonActions]

theorem mem_textActions_flush_err :
    .flush .err ∈ actions o .text maxListed ↔ o.blocking ≠ [] := by
  by_cases found : o.blocking = []
  · simp [actions, textActions, writeLine, found]
  · simp [actions, textActions, writeLine, found]

theorem jsonActions_stream_ne {action : Action} (h : action ∈ jsonActions o) :
    action.stream ≠ .err := by
  simp only [jsonActions, List.mem_cons, List.not_mem_nil, or_false] at h
  rcases h with rfl | rfl | rfl <;> exact Stream.out_ne_err

/-- If anything goes to standard error, nothing follows the advisory section on standard output. -/
theorem textActions_of_blocking (maxListed : Nat) (found : o.blocking ≠ []) : ∃ rest,
    textActions o maxListed = advisorySection o maxListed ++ rest ∧
      ∀ action ∈ rest, action.textOn .out = [] := by
  refine ⟨(blockingLines o maxListed).map (writeLine .err) ++ [.flush .err] ++ [.flush .out],
    ?_, ?_⟩
  · rw [textActions, if_neg found, List.append_assoc, advisorySection]
  · intro action known
    simp only [List.mem_append, List.mem_map, List.mem_singleton] at known
    rcases known with (⟨line, -, rfl⟩ | rfl) | rfl <;> rfl

theorem textActions_out (clean : o.blocking = []) {action : Action}
    (h : action ∈ textActions o maxListed) : action.stream = .out := by
  rw [textActions, if_pos clean] at h
  simp only [List.mem_append, List.mem_map, List.mem_singleton] at h
  rcases h with (⟨line, -, rfl⟩ | rfl) | rfl <;> rfl

/-- Before anything on standard error, the advisory section and nothing else has been written to
standard output. -/
theorem bytesOn_out_of_err {before after : List Action} {action : Action}
    (split : textActions o maxListed = before ++ action :: after) (onErr : action.stream = .err) :
    Action.bytesOn .out before = Action.bytesOn .out (advisorySection o maxListed) := by
  have found : o.blocking ≠ [] := by
    intro clean
    have known : action ∈ textActions o maxListed := by simp [split]
    rw [textActions_out clean known] at onErr
    cases onErr
  obtain ⟨rest, parts, silent⟩ := textActions_of_blocking maxListed found
  rw [parts] at split
  rcases List.append_eq_append_iff.mp split with ⟨more, rfl, tail⟩ | ⟨more, advisory, tail⟩
  · have quiet : Action.bytesOn .out more = [] := by
      rw [Action.bytesOn, List.flatMap_eq_nil_iff.mpr fun action known =>
        silent action (by simp [tail, known])]
      rfl
    rw [Action.bytesOn_append, quiet, List.append_nil]
  · cases more with
    | nil => rw [advisory, List.append_nil]
    | cons first others =>
        cases tail
        have inside : action ∈ advisorySection o maxListed := by simp [advisory]
        rw [advisorySection_out inside] at onErr
        cases onErr

/-! ## What a report comes to -/

theorem accepted_of_write (o : Outcome) (format : ReportFormat) (maxListed : Nat)
    (output : Output) (stream : Stream) : ∃ part,
      part <+: fullText o format maxListed stream ∧
        ((write o format maxListed output).1.sink stream).accepted =
          (output.sink stream).accepted ++ part ∧
        ((output.perform (actions o format maxListed)).2 = none →
          part = fullText o format maxListed stream) := by
  obtain ⟨part, first, performed, whole⟩ :=
    Output.sink_perform stream (actions o format maxListed) output
  rw [fullText_eq, write_output, performed]
  exact ⟨part, first, rfl, whole⟩

theorem exists_ok_iff : (∃ status, (write o format maxListed output).2 = .ok status) ↔
    ∀ stream, (output.sink stream).Fits (fullText o format maxListed stream) ∧
      (.flush stream ∈ actions o format maxListed → (output.sink stream).flushFailure = none) := by
  simp only [write_eq_ok_iff, exists_eq_left, Output.perform_eq_none_iff, Sink.Takes, fullText_eq]

theorem write_of_accepting (o : Outcome) (format : ReportFormat) (maxListed : Nat)
    (accepting : output.Accepting) : (write o format maxListed output).2 = .ok o.exitStatus := by
  obtain ⟨written, performed, -⟩ :=
    Output.perform_of_accepting (actions o format maxListed) accepting
  apply write_eq_ok_iff.mpr
  exact ⟨rfl, by rw [performed]⟩

theorem text_ok_iff : (∃ status, (write o .text maxListed output).2 = .ok status) ↔
    output.out.Fits (fullText o .text maxListed .out) ∧
      output.err.Fits (fullText o .text maxListed .err) ∧
      output.out.flushFailure = none ∧ (o.blocking ≠ [] → output.err.flushFailure = none) := by
  rw [exists_ok_iff]
  constructor
  · intro taken
    obtain ⟨out, flushed⟩ := taken .out
    obtain ⟨err, flushes⟩ := taken .err
    exact ⟨out, err, flushed (mem_actions_flush_out o .text maxListed),
      fun found => flushes (mem_textActions_flush_err.mpr found)⟩
  · rintro ⟨out, err, flushed, flushes⟩ stream
    cases stream with
    | out => exact ⟨out, fun _ => flushed⟩
    | err => exact ⟨err, fun asked => flushes (mem_textActions_flush_err.mp asked)⟩

theorem fullText_json_err (o : Outcome) (maxListed : Nat) :
    fullText o .json maxListed .err = [] := by
  rw [fullText_eq]
  exact Action.bytesOn_of_ne fun action => jsonActions_stream_ne

theorem json_ok_iff : (∃ status, (write o .json maxListed output).2 = .ok status) ↔
    output.out.Fits (fullText o .json maxListed .out) ∧ output.out.flushFailure = none := by
  rw [exists_ok_iff]
  constructor
  · intro taken
    obtain ⟨out, flushed⟩ := taken .out
    exact ⟨out, flushed (mem_actions_flush_out o .json maxListed)⟩
  · rintro ⟨out, flushed⟩ stream
    cases stream with
    | out => exact ⟨out, fun _ => flushed⟩
    | err =>
        refine ⟨?_, fun asked => absurd rfl (jsonActions_stream_ne asked)⟩
        rw [fullText_json_err]
        exact Sink.fits_nil _

theorem err_of_failsAt_advisory {before : List Action} {action : Action} {cause : IoError}
    (first : output.FailsAt (actions o .text maxListed) before action cause)
    (inside : before ++ [action] <+: advisorySection o maxListed) :
    (write o .text maxListed output).1.err = output.err := by
  have onOut (known : Action) (h : known ∈ before ++ [action]) : known.stream ≠ .err := by
    rw [advisorySection_out (inside.subset h)]
    exact Stream.out_ne_err
  have performed : (output.perform (before ++ [action])).1.sink .err = output.sink .err :=
    Output.sink_perform_of_ne onOut
  rw [Output.perform_append_of_taken first.taken, Output.perform_of_failed first.fails,
    ← first.perform_eq, ← write_output] at performed
  exact performed

theorem out_of_failsAt_err {before : List Action} {action : Action} {cause : IoError}
    (first : output.FailsAt (actions o .text maxListed) before action cause)
    (onErr : action.stream = .err) :
    (write o .text maxListed output).1.out.accepted =
      output.out.accepted ++ Action.bytesOn .out (advisorySection o maxListed) := by
  obtain ⟨after, split⟩ := first.split
  obtain ⟨part, -, performed, whole⟩ := Output.sink_perform .out before output
  have untouched : ((output.perform before).1.act action).1.sink .out =
      (output.perform before).1.sink .out :=
    Output.sink_act_of_ne (onErr ▸ Stream.out_ne_err.symm)
  rw [write_output, first.perform_eq, ← bytesOn_out_of_err split onErr, ← whole first.taken]
  exact congrArg Sink.accepted (untouched.trans performed)

structure WriteContract (o : Outcome) (maxListed : Nat) (output : Output) : Prop where
  /-- The texts may be written in any pieces. -/
  pieces (format : ReportFormat) (cut : List Action)
    (same : Output.Pieces (actions o format maxListed) cut) :
    output.perform cut = output.perform (actions o format maxListed)
  accepted (format : ReportFormat) (stream : Stream) : ∃ part,
    part <+: fullText o format maxListed stream ∧
      ((write o format maxListed output).1.sink stream).accepted =
        (output.sink stream).accepted ++ part
  text_ok : (∃ status, (write o .text maxListed output).2 = .ok status) ↔
    output.out.Fits (fullText o .text maxListed .out) ∧
      output.err.Fits (fullText o .text maxListed .err) ∧
      output.out.flushFailure = none ∧ (o.blocking ≠ [] → output.err.flushFailure = none)
  json_ok : (∃ status, (write o .json maxListed output).2 = .ok status) ↔
    output.out.Fits (fullText o .json maxListed .out) ∧ output.out.flushFailure = none
  json_err : (write o .json maxListed output).1.err = output.err
  ok (format : ReportFormat) (status : ExitStatus)
    (written : (write o format maxListed output).2 = .ok status) :
    status = o.exitStatus ∧ ∀ stream, ((write o format maxListed output).1.sink stream).accepted =
      (output.sink stream).accepted ++ fullText o format maxListed stream
  error (format : ReportFormat) (e : ScanError)
    (failed : (write o format maxListed output).2 = .error e) :
    ∃ before action cause, e = .reportUnwritten cause ∧
      output.FailsAt (actions o format maxListed) before action cause
  advisory_error (before : List Action) (action : Action) (cause : IoError)
    (first : output.FailsAt (actions o .text maxListed) before action cause)
    (inside : before ++ [action] <+: advisorySection o maxListed) :
    (write o .text maxListed output).1.err = output.err
  err_error (before : List Action) (action : Action) (cause : IoError)
    (first : output.FailsAt (actions o .text maxListed) before action cause)
    (onErr : action.stream = .err) :
    (write o .text maxListed output).1.out.accepted =
      output.out.accepted ++ Action.bytesOn .out (advisorySection o maxListed)

/-- A report is delivered whole or says what failed.  In text it succeeds exactly if both texts fit
and the flush of standard output works, and that of standard error as well if there is anything on
it; in JSON only standard output counts. -/
theorem write_contract (o : Outcome) (maxListed : Nat) (output : Output) :
    WriteContract o maxListed output where
  pieces _ _ same := Output.perform_of_pieces same output
  accepted format stream := by
    obtain ⟨part, first, written, -⟩ := accepted_of_write o format maxListed output stream
    exact ⟨part, first, written⟩
  text_ok := text_ok_iff
  json_ok := json_ok_iff
  json_err := by
    rw [write_output]
    exact @Output.sink_perform_of_ne .err _ output fun action => jsonActions_stream_ne
  ok := by
    intro format status written
    obtain ⟨exit, taken⟩ := write_eq_ok_iff.mp written
    refine ⟨exit, fun stream => ?_⟩
    obtain ⟨part, -, accepted, whole⟩ := accepted_of_write o format maxListed output stream
    rw [accepted, whole taken]
  error := by
    intro format e failed
    obtain ⟨cause, rfl, failure⟩ := write_eq_error_iff.mp failed
    obtain ⟨before, action, first⟩ := Output.exists_failsAt _ failure
    exact ⟨before, action, cause, rfl, first⟩
  advisory_error _ _ _ first inside := err_of_failsAt_advisory first inside
  err_error _ _ _ first onErr := out_of_failsAt_err first onErr

end HiddenText.Report
