import HiddenText.Options
import HiddenText.Proofs.Results

/-! # Reading the same options with another format

Two readers that differ only in the report format go on alike: in the end they ask for the same
but for the format, or both give up (`ofArguments_alike`). -/
set_option autoImplicit false

namespace HiddenText

def ReportFormat.spelling : ReportFormat → Bytes
  | .text => Utf8.ofString "text"
  | .json => Utf8.ofString "json"

def Options.Alike (o o' : Options) : Prop :=
  ∃ format : Option ReportFormat, o' = { o with format := format } ∧
    format.isSome = o.format.isSome

/-- The same parameter is pending, with the same value unless that is a format. -/
def PendingAlike (pending pending' : Option (Parameter × Option Bytes)) : Prop :=
  pending' = pending ∨ ∃ f f' : ReportFormat,
    pending = some (.format, some f.spelling) ∧ pending' = some (.format, some f'.spelling)

structure ArgumentReader.Alike (r r' : ArgumentReader) : Prop where
  options : r.options.Alike r'.options
  pending : PendingAlike r.pending r'.pending
  expecting : r'.expecting = r.expecting
  ended : r'.ended = r.ended
  rootSeen : r'.rootSeen = r.rootSeen

/-- Reading ends in the same way, but perhaps for another fault. -/
inductive Ending.Alike : Ending → Ending → Prop
  | same (ending : Ending) : Ending.Alike ending ending
  | faults (e e' : UsageError) : Ending.Alike (.fault e) (.fault e')

inductive Request.Alike : Request → Request → Prop
  | same (request : Request) : Request.Alike request request
  | scan {o o' : Options} (alike : o.Alike o') : Request.Alike (.scan o) (.scan o')

/-! ## Setting a parameter -/

namespace Options

theorem Alike.refl (o : Options) : o.Alike o := ⟨o.format, rfl, rfl⟩

theorem once_alike {α : Type} {parameter : Parameter} {old old' : Option α}
    (seen : old'.isSome = old.isSome) {value value' : Except UsageError α}
    {update update' : α → Options}
    (alike : ResultsAgree Eq (fun v v' => (update v).Alike (update' v')) value value') :
    ResultsAgree Eq Alike (once parameter old value update)
      (once parameter old' value' update') := by
  rw [once, once, seen]
  split
  · exact .error rfl
  · cases alike with
    | error same => exact .error same
    | ok alike => exact .ok alike

theorem Alike.put {o o' : Options} (h : o.Alike o') (parameter : Parameter) (value : Bytes) :
    ResultsAgree Eq Alike (o.put parameter value) (o'.put parameter value) := by
  obtain ⟨format, rfl, seen⟩ := h
  have sameValue : ∀ {α : Type} (given : Except UsageError α) {update update' : α → Options},
      (∀ v, (update v).Alike (update' v)) →
        ResultsAgree Eq (fun v v' => (update v).Alike (update' v')) given given := by
    intro α given update update' alike
    cases given with
    | error e => exact .error rfl
    | ok v => exact .ok (alike v)
  cases parameter with
  | root => exact once_alike rfl (sameValue _ fun v => ⟨format, rfl, seen⟩)
  | config => exact once_alike rfl (sameValue _ fun v => ⟨format, rfl, seen⟩)
  | threads => exact once_alike rfl (sameValue _ fun v => ⟨format, rfl, seen⟩)
  | maxListed => exact once_alike rfl (sameValue _ fun v => ⟨format, rfl, seen⟩)
  | sampleCap => exact once_alike rfl (sameValue _ fun v => ⟨format, rfl, seen⟩)
  | allow =>
      rw [Options.put, Options.put]
      cases text value with
      | error e => exact .error rfl
      | ok v => exact .ok ⟨format, rfl, seen⟩
  | format => exact once_alike seen (sameValue _ fun v => ⟨some v, rfl, rfl⟩)

theorem reportFormat_spelling (f : ReportFormat) :
    (text f.spelling >>= reportFormat) = .ok f := by
  cases f <;> rfl

theorem Alike.put_format {o o' : Options} (h : o.Alike o') (f f' : ReportFormat) :
    ResultsAgree Eq Alike (o.put .format f.spelling) (o'.put .format f'.spelling) := by
  obtain ⟨format, rfl, seen⟩ := h
  refine once_alike seen ?_
  rw [reportFormat_spelling, reportFormat_spelling]
  exact .ok ⟨some f', rfl, rfl⟩

end Options

/-! ## Taking an argument -/

namespace ArgumentReader

variable {r r' : ArgumentReader}

abbrev ReadsAlike : Except Ending ArgumentReader → Except Ending ArgumentReader → Prop :=
  ResultsAgree Ending.Alike ArgumentReader.Alike

theorem Alike.refl (r : ArgumentReader) : r.Alike r := ⟨.refl _, .inl rfl, rfl, rfl, rfl⟩

theorem settle_of_value {parameter : Parameter} {value : Bytes}
    (h : r.pending = some (parameter, some value)) :
    r.settle = ((r.options.put parameter value).mapError Ending.fault >>= fun options =>
      .ok { r with options := options, pending := none, expecting := false }) := by
  rw [settle, h]
  simp only
  cases r.options.put parameter value <;> rfl

theorem Alike.settle_of_values (h : r.Alike r') {parameter : Parameter} {value value' : Bytes}
    (here : r.pending = some (parameter, some value))
    (there : r'.pending = some (parameter, some value'))
    (put : ResultsAgree Eq Options.Alike (r.options.put parameter value)
      (r'.options.put parameter value')) :
    ReadsAlike r.settle r'.settle := by
  rw [settle_of_value here, settle_of_value there]
  apply ResultsAgree.bind (put.mapError ?_)
  · intro o o' alike
    exact .ok ⟨alike, .inl rfl, rfl, h.ended, h.rootSeen⟩
  · rintro e _ rfl
    exact .same _

theorem Alike.settle (h : r.Alike r') : ReadsAlike r.settle r'.settle := by
  rcases h.pending with same | ⟨f, f', here, there⟩
  · cases here : r.pending with
    | none =>
        rw [ArgumentReader.settle, ArgumentReader.settle, same, here]
        exact .ok ⟨h.options, .inl rfl, rfl, h.ended, h.rootSeen⟩
    | some given =>
        obtain ⟨parameter, value⟩ := given
        cases value with
        | none =>
            rw [ArgumentReader.settle, ArgumentReader.settle, same, here]
            exact .error (.same _)
        | some value =>
            exact h.settle_of_values here (same.trans here) (h.options.put parameter value)
  · exact h.settle_of_values here there (h.options.put_format f f')

theorem Alike.await (h : r.Alike r') (parameter : Parameter) (value : Option Bytes)
    (expecting : Bool) :
    ArgumentReader.Alike { r with pending := some (parameter, value), expecting := expecting }
      { r' with pending := some (parameter, value), expecting := expecting } :=
  ⟨h.options, .inl rfl, rfl, h.ended, h.rootSeen⟩

theorem Alike.takeFlag (h : r.Alike r') (flag : Flag) :
    ReadsAlike (r.takeFlag flag) (r'.takeFlag flag) := by
  apply ResultsAgree.bind h.settle
  intro s s' alike
  cases flag with
  | help => exact .error (.same _)
  | version => exact .error (.same _)
  | followLinks =>
      obtain ⟨format, same, seen⟩ := alike.options
      simp only [same]
      split
      · exact .error (.same _)
      · have options : Options.Alike { s.options with followLinks := true }
            { s.options with format := format, followLinks := true } := ⟨format, rfl, seen⟩
        exact .ok ⟨options, alike.pending, alike.expecting, alike.ended, alike.rootSeen⟩

theorem Alike.takeLong (h : r.Alike r') (option : Bytes) :
    ReadsAlike (r.takeLong option) (r'.takeLong option) := by
  rw [ArgumentReader.takeLong, ArgumentReader.takeLong]
  obtain ⟨name, value⟩ := splitEquals option
  simp only
  split
  · apply ResultsAgree.bind h.settle
    intro s s' alike
    exact (alike.await _ _ _).settle
  · apply ResultsAgree.bind h.settle
    intro s s' alike
    exact .ok (alike.await _ _ _)
  · exact .error (.same _)
  · exact h.takeFlag _
  · exact .error (.same _)

theorem Alike.takeShort (h : r.Alike r') (letters : Bytes) :
    ReadsAlike (r.takeShort letters) (r'.takeShort letters) := by
  rw [ArgumentReader.takeShort, ArgumentReader.takeShort]
  split
  · exact h.takeFlag _
  · exact h.takeFlag _
  · exact .error (.same _)
  · exact .error (.same _)

theorem Alike.takeRoot (h : r.Alike r') (argument : Bytes) :
    ReadsAlike (r.takeRoot argument) (r'.takeRoot argument) := by
  rw [ArgumentReader.takeRoot, ArgumentReader.takeRoot, h.rootSeen]
  split
  · exact .error (.same _)
  · apply ResultsAgree.bind h.settle
    intro s s' alike
    exact .ok ⟨alike.options, .inl rfl, alike.expecting, alike.ended, rfl⟩

theorem Alike.takePlain (h : r.Alike r') (argument : Bytes) :
    ReadsAlike (r.takePlain argument) (r'.takePlain argument) := by
  rw [ArgumentReader.takePlain, ArgumentReader.takePlain, h.expecting, h.ended]
  rcases h.pending with same | ⟨f, f', here, there⟩
  · rw [same]
    split
    · exact .ok ⟨h.options, .inl rfl, rfl, rfl, h.rootSeen⟩
    · exact h.takeRoot argument
  · rw [here, there]
    cases r.expecting && !r.ended with
    | true => exact .ok ⟨h.options, .inl rfl, rfl, rfl, h.rootSeen⟩
    | false => exact h.takeRoot argument

theorem Alike.take (h : r.Alike r') (argument : Bytes) :
    ReadsAlike (r.take argument) (r'.take argument) := by
  rw [ArgumentReader.take.eq_def, ArgumentReader.take.eq_def, h.ended]
  split
  · exact h.takePlain argument
  · split
    · split
      · split
        · split
          · exact .ok ⟨h.options, h.pending, h.expecting, rfl, h.rootSeen⟩
          · exact h.takeLong _
        · exact h.takeShort _
      · exact h.takePlain _
    · exact h.takePlain argument

theorem Alike.foldlM_take : ∀ (arguments : List Bytes) {r r' : ArgumentReader}, r.Alike r' →
    ReadsAlike (arguments.foldlM ArgumentReader.take r)
      (arguments.foldlM ArgumentReader.take r') := by
  intro arguments
  induction arguments with
  | nil => intro r r' h; exact .ok h
  | cons argument rest ih =>
      intro r r' h
      rw [List.foldlM_cons, List.foldlM_cons]
      exact ResultsAgree.bind (h.take argument) fun s s' alike => ih alike

/-! ## Where the two part -/

theorem ended_of_settle {s : ArgumentReader} (h : r.settle = .ok s) : s.ended = r.ended := by
  cases here : r.pending with
  | none =>
      rw [settle, here] at h
      cases h
      rfl
  | some given =>
      obtain ⟨parameter, value⟩ := given
      cases value with
      | none =>
          rw [settle, here] at h
          cases h
      | some value =>
          rw [settle_of_value here] at h
          cases put : r.options.put parameter value with
          | error e =>
              rw [put] at h
              cases h
          | ok options =>
              rw [put] at h
              cases h
              rfl

theorem take_of_ended {argument : Bytes} (ended : r.ended = true) :
    r.take argument = r.takeRoot argument := by
  rw [take.eq_def, if_pos ended, takePlain, ended]
  simp only [Bool.not_true, Bool.and_false]

theorem seen_of_takeRoot {argument : Bytes} {s : ArgumentReader}
    (h : r.takeRoot argument = .ok s) : s.ended = r.ended ∧ s.rootSeen = true := by
  rw [takeRoot] at h
  split at h
  · cases h
  · cases settled : r.settle with
    | error ending =>
        rw [settled] at h
        cases h
    | ok settled' =>
        rw [settled] at h
        cases h
        have kept : settled'.ended = r.ended := ended_of_settle settled
        exact ⟨kept, rfl⟩

theorem take_format (r : ArgumentReader) (notEnded : r.ended = false) :
    r.take (Utf8.ofString "--format") = r.settle >>= fun s =>
      .ok { s with pending := some (.format, none), expecting := true } := by
  rw [take.eq_def, notEnded]
  rfl

theorem take_spelling (f : ReportFormat) (notEnded : r.ended = false)
    (expecting : r.expecting = true) {parameter : Parameter}
    (pending : r.pending = some (parameter, none)) : r.take f.spelling =
      .ok { r with pending := some (parameter, some f.spelling), expecting := false } := by
  have plain : r.take f.spelling = r.takePlain f.spelling := by
    rw [take.eq_def, notEnded]
    cases f <;> rfl
  rw [plain, takePlain, expecting, notEnded, pending]
  rfl

theorem foldlM_take_format (r : ArgumentReader) (f f' : ReportFormat) :
    ReadsAlike ([Utf8.ofString "--format", f.spelling].foldlM ArgumentReader.take r)
      ([Utf8.ofString "--format", f'.spelling].foldlM ArgumentReader.take r) := by
  simp only [List.foldlM_cons, List.foldlM_nil]
  cases ended : r.ended with
  | true =>
      -- Both arguments are taken for a root, and only one root may be given.
      rw [take_of_ended ended]
      cases taken : r.takeRoot (Utf8.ofString "--format") with
      | error ending => exact .error (.same _)
      | ok s =>
          obtain ⟨kept, seen⟩ := seen_of_takeRoot taken
          have refused : ∀ g : ReportFormat, s.take g.spelling =
              .error (.fault (.unexpectedArgument (Utf8.shown g.spelling))) := by
            intro g
            rw [take_of_ended (kept.trans ended), takeRoot, if_pos seen]
          simp only [bind, Except.bind, refused]
          exact .error (.faults _ _)
  | false =>
      rw [take_format r ended]
      cases settled : r.settle with
      | error ending => exact .error (.same _)
      | ok s =>
          have notEnded : s.ended = false := (ended_of_settle settled).trans ended
          have given := fun g : ReportFormat => @take_spelling
            { s with pending := some (.format, none), expecting := true } g notEnded rfl _ rfl
          simp only [bind, Except.bind, given]
          exact .ok ⟨.refl _, .inr ⟨f, f', rfl, rfl⟩, rfl, rfl, rfl⟩

end ArgumentReader

theorem Request.alike_of_reads {x x' : Except Ending ArgumentReader}
    (h : ArgumentReader.ReadsAlike x x') :
    ResultsAgree (fun _ _ => True) Request.Alike (Request.ofRead x) (Request.ofRead x') := by
  cases h with
  | ok alike => exact .ok (.scan alike.options)
  | @error ending ending' alike =>
      cases alike with
      | faults e e' => exact .error trivial
      | same =>
          cases ending with
          | help => exact .ok (.same _)
          | version => exact .ok (.same _)
          | fault e => exact .error trivial

/-- With another format, the same is asked for but for the format, or nothing in either case. -/
theorem ofArguments_alike (before after : List Bytes) (f f' : ReportFormat) :
    ResultsAgree (fun _ _ => True) Request.Alike
      (Request.ofArguments (before ++ [Utf8.ofString "--format", f.spelling] ++ after))
      (Request.ofArguments (before ++ [Utf8.ofString "--format", f'.spelling] ++ after)) := by
  apply Request.alike_of_reads
  simp only [List.foldlM_append]
  cases begun : before.foldlM ArgumentReader.take {} with
  | error ending => exact .error (.same _)
  | ok r =>
      have parted := ArgumentReader.foldlM_take_format r f f'
      have rejoined := parted.bind fun s s' alike => alike.foldlM_take after
      exact rejoined.bind fun s s' alike => alike.settle

end HiddenText
