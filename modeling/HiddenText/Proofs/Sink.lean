import HiddenText.Proofs.Text.Utf8
import HiddenText.Sink

/-! # What reaches the sinks

Actions are taken exactly if each stream takes its own part of them, whatever the other does
(`perform_eq_none_iff`).  What a stream has accepted in the end is what it had and a first part of
what was written to it, all of it if nothing failed (`sink_perform`).  If something failed it is
one action, with all before it taken (`exists_failsAt`).  A text may as well be written in pieces
(`perform_of_pieces`). -/
set_option autoImplicit false

namespace HiddenText

def Sink.Accepting (s : Sink) : Prop := s.limit = none ∧ s.flushFailure = none

def Output.Accepting (o : Output) : Prop := ∀ stream, (o.sink stream).Accepting

def Sink.Fits (s : Sink) (bytes : Bytes) : Prop :=
  ∀ limit failure, s.limit = some (limit, failure) → bytes.length ≤ limit - s.accepted.length

def Sink.accept (s : Sink) (bytes : Bytes) : Sink := { s with accepted := s.accepted ++ bytes }

theorem Stream.out_ne_err : Stream.out ≠ .err := by decide

namespace Action

def stream : Action → Stream
  | .write stream _ => stream
  | .flush stream => stream

def textOn (stream : Stream) : Action → List Char
  | .write target text => if target = stream then text else []
  | .flush _ => []

def bytesOn (stream : Stream) (actions : List Action) : Bytes :=
  Utf8.encode (actions.flatMap (textOn stream))

theorem textOn_of_ne {action : Action} {stream : Stream} (h : action.stream ≠ stream) :
    action.textOn stream = [] := by
  cases action with
  | write target text => exact if_neg h
  | flush target => rfl

theorem bytesOn_append (stream : Stream) (first second : List Action) :
    bytesOn stream (first ++ second) = bytesOn stream first ++ bytesOn stream second := by
  rw [bytesOn, List.flatMap_append, Utf8.encode_append]
  rfl

theorem bytesOn_cons (stream : Stream) (action : Action) (rest : List Action) :
    bytesOn stream (action :: rest) =
      Utf8.encode (action.textOn stream) ++ bytesOn stream rest := by
  rw [bytesOn, List.flatMap_cons, Utf8.encode_append]
  rfl

theorem bytesOn_of_ne {stream : Stream} {actions : List Action}
    (others : ∀ action ∈ actions, action.stream ≠ stream) : bytesOn stream actions = [] := by
  rw [bytesOn, List.flatMap_eq_nil_iff.mpr fun action known => textOn_of_ne (others action known)]
  rfl

end Action

namespace Sink

variable {s : Sink}

theorem accept_nil (s : Sink) : s.accept [] = s := by
  rw [accept, List.append_nil]

theorem accept_append (s : Sink) (first second : Bytes) :
    s.accept (first ++ second) = (s.accept first).accept second := by
  simp only [accept, List.append_assoc]

theorem fits_of_accepting (h : s.Accepting) (bytes : Bytes) : s.Fits bytes := by
  intro limit failure limited
  rw [h.1] at limited
  cases limited

theorem fits_nil (s : Sink) : s.Fits [] := fun _ _ _ => Nat.zero_le _

theorem fits_append (s : Sink) (first second : Bytes) :
    s.Fits (first ++ second) ↔ s.Fits first ∧ (s.accept first).Fits second := by
  simp only [Fits, accept, List.length_append]
  constructor
  · intro all
    refine ⟨fun limit failure limited => ?_, fun limit failure limited => ?_⟩
    · have bound := all limit failure limited
      omega
    · have bound := all limit failure limited
      omega
  · rintro ⟨first, second⟩ limit failure limited
    have bound := first limit failure limited
    have later := second limit failure limited
    omega

theorem fits_iff_of_limit {limit : Nat} {failure : IoError} (h : s.limit = some (limit, failure))
    (bytes : Bytes) : s.Fits bytes ↔ bytes.length ≤ limit - s.accepted.length := by
  constructor
  · exact fun fits => fits limit failure h
  · intro room limit' failure' limited
    rw [h] at limited
    cases limited
    exact room

theorem write_of_fits {bytes : Bytes} (h : s.Fits bytes) :
    s.write bytes = (s.accept bytes, none) := by
  rw [write]
  split
  · rfl
  · rename_i limit failure limited
    exact if_pos ((fits_iff_of_limit limited bytes).mp h)

theorem write_of_not_fits {bytes : Bytes} (h : ¬ s.Fits bytes) : ∃ limit failure,
    s.limit = some (limit, failure) ∧
      s.write bytes = (s.accept (bytes.take (limit - s.accepted.length)), some failure) := by
  cases limited : s.limit with
  | none =>
      refine absurd (fun limit failure bounded => ?_) h
      rw [limited] at bounded
      cases bounded
  | some bound =>
      obtain ⟨limit, failure⟩ := bound
      rw [fits_iff_of_limit limited] at h
      refine ⟨limit, failure, rfl, ?_⟩
      simp only [write, limited, accept, if_neg h]

theorem write_append_of_fits {first : Bytes} (h : s.Fits first) (second : Bytes) :
    s.write (first ++ second) = (s.accept first).write second := by
  by_cases fits : (s.accept first).Fits second
  · rw [write_of_fits fits, write_of_fits ((s.fits_append first second).mpr ⟨h, fits⟩),
      accept_append]
  · obtain ⟨limit, failure, limited, written⟩ := write_of_not_fits fits
    have whole : ¬ s.Fits (first ++ second) := fun both => fits ((s.fits_append _ _).mp both).2
    obtain ⟨limit', failure', limited', written'⟩ := write_of_not_fits whole
    cases limited.symm.trans limited'
    have room := (fits_iff_of_limit limited' first).mp h
    rw [written, written', List.take_append, List.take_of_length_le room, accept_append]
    simp only [accept, List.length_append, Nat.sub_sub]

theorem write_append_of_not_fits {first : Bytes} (h : ¬ s.Fits first) (second : Bytes) :
    s.write (first ++ second) = s.write first := by
  obtain ⟨limit, failure, limited, written⟩ := write_of_not_fits h
  have whole : ¬ s.Fits (first ++ second) := fun both => h ((s.fits_append _ _).mp both).1
  obtain ⟨limit', failure', limited', written'⟩ := write_of_not_fits whole
  cases limited.symm.trans limited'
  have full := Nat.le_of_not_le (mt (fits_iff_of_limit limited first).mpr h)
  rw [written, written', List.take_append_of_le_length full]

/-- A sink takes its part of actions: what they write to it fits, and flushing works if they
flush it. -/
def Takes (s : Sink) (stream : Stream) (actions : List Action) : Prop :=
  s.Fits (Action.bytesOn stream actions) ∧ (.flush stream ∈ actions → s.flushFailure = none)

theorem takes_nil (s : Sink) (stream : Stream) : s.Takes stream [] :=
  ⟨s.fits_nil, fun flushed => nomatch flushed⟩

theorem takes_cons (s : Sink) (stream : Stream) (action : Action) (rest : List Action) :
    s.Takes stream (action :: rest) ↔ s.Takes stream [action] ∧
      (s.accept (Utf8.encode (action.textOn stream))).Takes stream rest := by
  have alone : Action.bytesOn stream [action] = Utf8.encode (action.textOn stream) := by
    rw [Action.bytesOn_cons]
    exact List.append_nil _
  rw [Takes, Takes, Takes, Action.bytesOn_cons, alone, fits_append, List.mem_cons,
    List.mem_singleton]
  constructor
  · rintro ⟨⟨here, later⟩, flushes⟩
    exact ⟨⟨here, fun same => flushes (.inl same)⟩, later, fun known => flushes (.inr known)⟩
  · rintro ⟨⟨here, same⟩, later, known⟩
    exact ⟨⟨here, later⟩, fun flushed => flushed.elim same known⟩

end Sink

namespace Output

variable {o : Output}

theorem sink_setSink_self (o : Output) (s : Sink) (stream : Stream) :
    (o.setSink s stream).sink stream = s := by
  cases stream <;> rfl

theorem setSink_setSink (o : Output) (s s' : Sink) (stream : Stream) :
    (o.setSink s stream).setSink s' stream = o.setSink s' stream := by
  cases stream <;> rfl

theorem sink_setSink_of_ne (o : Output) (s : Sink) {stream other : Stream} (h : other ≠ stream) :
    (o.setSink s other).sink stream = o.sink stream := by
  cases stream <;> cases other <;> first | rfl | exact absurd rfl h

/-! ## One action -/

theorem sink_act (o : Output) (action : Action) (stream : Stream) : ∃ part,
    part <+: Utf8.encode (action.textOn stream) ∧
      (o.act action).1.sink stream = (o.sink stream).accept part ∧
      ((o.act action).2 = none → part = Utf8.encode (action.textOn stream)) := by
  cases action with
  | flush target => exact ⟨[], List.nil_prefix, (Sink.accept_nil _).symm, fun _ => rfl⟩
  | write target text =>
      rw [Action.textOn]
      by_cases same : target = stream
      · subst same
        rw [if_pos rfl]
        simp only [act, sink_setSink_self]
        by_cases fits : (o.sink target).Fits (Utf8.encode text)
        · rw [Sink.write_of_fits fits]
          exact ⟨_, List.prefix_refl _, rfl, fun _ => rfl⟩
        · obtain ⟨limit, failure, -, written⟩ := Sink.write_of_not_fits fits
          rw [written]
          exact ⟨_, List.take_prefix _ _, rfl, fun taken => by cases taken⟩
      · rw [if_neg same]
        refine ⟨[], List.nil_prefix, ?_, fun _ => rfl⟩
        rw [Sink.accept_nil]
        exact sink_setSink_of_ne o _ same

theorem sink_act_of_ne {action : Action} {stream : Stream} (h : action.stream ≠ stream) :
    (o.act action).1.sink stream = o.sink stream := by
  obtain ⟨part, first, acted, -⟩ := sink_act o action stream
  rw [Action.textOn_of_ne h] at first
  rw [acted, List.prefix_nil.mp first, Sink.accept_nil]

theorem act_eq_none_iff (o : Output) (action : Action) :
    (o.act action).2 = none ↔ ∀ stream, (o.sink stream).Takes stream [action] := by
  cases action with
  | flush target =>
      constructor
      · intro flushed stream
        refine ⟨Sink.fits_nil _, fun known => ?_⟩
        cases List.mem_singleton.mp known
        exact flushed
      · intro taken
        exact (taken target).2 (List.mem_singleton_self _)
  | write target text =>
      have own : Action.bytesOn target [.write target text] = Utf8.encode text := by
        simp [Action.bytesOn, Action.textOn]
      have taken : (o.act (.write target text)).2 = none ↔
          (o.sink target).Fits (Utf8.encode text) := by
        by_cases fits : (o.sink target).Fits (Utf8.encode text)
        · simp [act, Sink.write_of_fits fits, fits]
        · obtain ⟨limit, failure, -, written⟩ := Sink.write_of_not_fits fits
          simp [act, written, fits]
      refine taken.trans ⟨fun fits stream => ⟨?_, by simp⟩, fun all => own ▸ (all target).1⟩
      by_cases same : target = stream
      · subst same
        rw [own]
        exact fits
      · rw [Action.bytesOn_of_ne (by simpa [Action.stream] using same)]
        exact Sink.fits_nil _

/-! ## Many actions -/

theorem perform_of_taken {action : Action} (h : (o.act action).2 = none) (rest : List Action) :
    o.perform (action :: rest) = (o.act action).1.perform rest := by
  rw [perform]
  split
  · rename_i acted
    rw [acted]
  · rename_i acted
    rw [acted] at h
    cases h

theorem perform_of_failed {action : Action} {cause : IoError} (h : (o.act action).2 = some cause)
    (rest : List Action) : o.perform (action :: rest) = o.act action := by
  rw [perform]
  split
  · rename_i acted
    rw [acted] at h
    cases h
  · rename_i acted
    rw [acted]

/-- A stream has accepted a first part of what was written to it, all of it if nothing failed. -/
theorem sink_perform (stream : Stream) : ∀ (actions : List Action) (o : Output), ∃ part,
    part <+: Action.bytesOn stream actions ∧
      (o.perform actions).1.sink stream = (o.sink stream).accept part ∧
      ((o.perform actions).2 = none → part = Action.bytesOn stream actions) := by
  intro actions
  induction actions with
  | nil => exact fun o => ⟨[], List.nil_prefix, (Sink.accept_nil _).symm, fun _ => rfl⟩
  | cons action rest ih =>
      intro o
      obtain ⟨here, first, acted, whole⟩ := sink_act o action stream
      rw [Action.bytesOn_cons]
      cases failure : (o.act action).2 with
      | none =>
          obtain ⟨later, firstLater, performed, wholeLater⟩ := ih (o.act action).1
          rw [perform_of_taken failure, ← whole failure]
          refine ⟨here ++ later, (List.prefix_append_right_inj here).mpr firstLater, ?_, ?_⟩
          · rw [performed, acted, Sink.accept_append]
          · exact fun all => by rw [wholeLater all]
      | some cause =>
          rw [perform_of_failed failure]
          refine ⟨here, first.trans (List.prefix_append _ _), acted, fun all => ?_⟩
          rw [failure] at all
          cases all

/-- Actions are taken exactly if each stream takes its own part of them. -/
theorem perform_eq_none_iff : ∀ (actions : List Action) (o : Output),
    (o.perform actions).2 = none ↔ ∀ stream, (o.sink stream).Takes stream actions := by
  intro actions
  induction actions with
  | nil => exact fun o => ⟨fun _ stream => Sink.takes_nil _ stream, fun _ => rfl⟩
  | cons action rest ih =>
      intro o
      have parts : (∀ stream, (o.sink stream).Takes stream (action :: rest)) ↔
          (o.act action).2 = none ∧ ∀ stream,
            ((o.sink stream).accept (Utf8.encode (action.textOn stream))).Takes stream rest := by
        rw [act_eq_none_iff, ← forall_and]
        exact forall_congr' fun stream => Sink.takes_cons _ stream action rest
      rw [parts]
      cases failure : (o.act action).2 with
      | some cause =>
          rw [perform_of_failed failure, failure]
          constructor
          · intro taken
            cases taken
          · rintro ⟨taken, -⟩
            cases taken
      | none =>
          rw [perform_of_taken failure, ih]
          have moved (stream : Stream) : (o.act action).1.sink stream =
              (o.sink stream).accept (Utf8.encode (action.textOn stream)) := by
            obtain ⟨part, -, acted, whole⟩ := sink_act o action stream
            rw [acted, whole failure]
          simp only [moved, true_and]

theorem sink_perform_of_ne {stream : Stream} {actions : List Action} {o : Output}
    (others : ∀ action ∈ actions, action.stream ≠ stream) :
    (o.perform actions).1.sink stream = o.sink stream := by
  obtain ⟨part, first, performed, -⟩ := sink_perform stream actions o
  rw [Action.bytesOn_of_ne others] at first
  rw [performed, List.prefix_nil.mp first, Sink.accept_nil]

theorem perform_of_accepting (actions : List Action) {o : Output} (h : o.Accepting) :
    ∃ o' : Output, o.perform actions = (o', none) ∧ ∀ stream,
      (o'.sink stream).accepted =
        (o.sink stream).accepted ++ Action.bytesOn stream actions := by
  have taken : (o.perform actions).2 = none := (perform_eq_none_iff actions o).mpr
    fun stream => ⟨Sink.fits_of_accepting (h stream) _, fun _ => (h stream).2⟩
  refine ⟨(o.perform actions).1, Prod.ext rfl taken, fun stream => ?_⟩
  obtain ⟨part, -, performed, whole⟩ := sink_perform stream actions o
  rw [performed, whole taken]
  rfl

/-! ## The action that fails -/

/-- Actions come to their end at one of them, which fails; those before it are taken. -/
structure FailsAt (o : Output) (actions before : List Action) (action : Action)
    (cause : IoError) : Prop where
  split : ∃ after, actions = before ++ action :: after
  taken : (o.perform before).2 = none
  fails : ((o.perform before).1.act action).2 = some cause

theorem perform_append_of_taken {first : List Action} : ∀ {o : Output},
    (o.perform first).2 = none → ∀ second,
      o.perform (first ++ second) = (o.perform first).1.perform second := by
  induction first with
  | nil => exact fun _ second => rfl
  | cons action rest ih =>
      intro o taken second
      cases failure : (o.act action).2 with
      | some cause =>
          rw [perform_of_failed failure, failure] at taken
          cases taken
      | none =>
          rw [perform_of_taken failure] at taken
          rw [List.cons_append, perform_of_taken failure, perform_of_taken failure]
          exact ih taken second

theorem FailsAt.perform_eq {actions before : List Action} {action : Action} {cause : IoError}
    (h : o.FailsAt actions before action cause) :
    o.perform actions = (o.perform before).1.act action := by
  obtain ⟨after, rfl⟩ := h.split
  rw [perform_append_of_taken h.taken, perform_of_failed h.fails]

theorem exists_failsAt : ∀ (actions : List Action) {o : Output} {cause : IoError},
    (o.perform actions).2 = some cause →
      ∃ before action, o.FailsAt actions before action cause := by
  intro actions
  induction actions with
  | nil =>
      intro o cause failed
      cases failed
  | cons action rest ih =>
      intro o cause failed
      cases failure : (o.act action).2 with
      | some here =>
          rw [perform_of_failed failure, failure] at failed
          cases failed
          exact ⟨[], action, ⟨rest, rfl⟩, rfl, failure⟩
      | none =>
          rw [perform_of_taken failure] at failed
          obtain ⟨before, last, ⟨after, split⟩, taken, fails⟩ := ih failed
          refine ⟨action :: before, last, ⟨after, congrArg (action :: ·) split⟩, ?_, ?_⟩
          · rw [perform_of_taken failure]
            exact taken
          · rw [perform_of_taken failure]
            exact fails

/-! ## Writing in pieces -/

theorem perform_append_of_failed {first : List Action} {cause : IoError} : ∀ {o : Output},
    (o.perform first).2 = some cause → ∀ second,
      o.perform (first ++ second) = o.perform first := by
  intro o failed second
  obtain ⟨before, action, ⟨after, rfl⟩, taken, fails⟩ := exists_failsAt first failed
  rw [List.append_assoc, perform_append_of_taken taken, perform_append_of_taken taken,
    List.cons_append, perform_of_failed fails, perform_of_failed fails]

theorem perform_writes (stream : Stream) : ∀ (pieces : List (List Char)) (o : Output),
    o.perform (pieces.map (.write stream)) = o.act (.write stream pieces.flatten) := by
  intro pieces
  induction pieces with
  | nil =>
      intro o
      have unchanged : o.setSink (o.sink stream) stream = o := by cases stream <;> rfl
      have written : (o.sink stream).write (Utf8.encode [].flatten) = (o.sink stream, none) :=
        (Sink.write_of_fits (o.sink stream).fits_nil).trans
          (congrArg (·, none) (Sink.accept_nil _))
      simp only [act, written, unchanged, List.map_nil, perform]
  | cons piece rest ih =>
      intro o
      rw [List.map_cons, List.flatten_cons]
      by_cases fits : (o.sink stream).Fits (Utf8.encode piece)
      · have taken : (o.act (.write stream piece)).2 = none := by
          rw [act, Sink.write_of_fits fits]
        rw [perform_of_taken taken, ih, act, act, act, Sink.write_of_fits fits, Utf8.encode_append,
          Sink.write_append_of_fits fits]
        simp only [sink_setSink_self, setSink_setSink]
      · obtain ⟨limit, failure, -, written⟩ := Sink.write_of_not_fits fits
        have failed : (o.act (.write stream piece)).2 = some failure := by
          rw [act, written]
        rw [perform_of_failed failed, act, act, Utf8.encode_append,
          Sink.write_append_of_not_fits fits]

/-- The same actions, with each text cut into pieces. -/
inductive Pieces : List Action → List Action → Prop
  | nil : Pieces [] []
  | flush {actions cut} (stream : Stream) (rest : Pieces actions cut) :
      Pieces (.flush stream :: actions) (.flush stream :: cut)
  | write {actions cut} (stream : Stream) (pieces : List (List Char)) (rest : Pieces actions cut) :
      Pieces (.write stream pieces.flatten :: actions) (pieces.map (.write stream) ++ cut)

theorem perform_of_pieces {actions cut : List Action} (h : Pieces actions cut) :
    ∀ o : Output, o.perform cut = o.perform actions := by
  induction h with
  | nil => exact fun o => rfl
  | flush stream rest ih =>
      intro o
      rw [perform, perform, act]
      split
      · exact ih _
      · rfl
  | write stream pieces rest ih =>
      intro o
      have whole := perform_writes stream pieces o
      cases failure : (o.act (.write stream pieces.flatten)).2 with
      | none =>
          rw [perform_of_taken failure, ← whole, ← ih]
          exact perform_append_of_taken (whole ▸ failure) _
      | some cause =>
          rw [perform_of_failed failure, ← whole]
          exact perform_append_of_failed (whole ▸ failure) _

end Output
end HiddenText
