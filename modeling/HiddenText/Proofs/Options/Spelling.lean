import HiddenText.Proofs.Options
import Mathlib.Tactic.ByContra

/-! # What a command line spells

A command line spells values of parameters and flags.  It asks for a scan exactly if it spells
such things and they can be given one after the other (`ofArguments_eq_scan_iff`); that values are
examined late makes no difference to that. -/
set_option autoImplicit false

namespace HiddenText

open ArgumentReader (dash equalsSign)

inductive Token
  | value (parameter : Parameter) (value : Bytes)
  | followLinks
  deriving DecidableEq, Repr

/-- The argument is no option.  A single dash is none. -/
def IsPlain (argument : Bytes) : Prop := ∀ b rest, argument ≠ dash :: b :: rest

/-- The arguments spell the tokens.  After two dashes every argument is a root. -/
inductive Spells : List Token → List Bytes → Prop
  | nil : Spells [] []
  | joined {name value : Bytes} {parameter : Parameter} {tokens : List Token}
      {arguments : List Bytes} (named : Parameter.named? name = some parameter)
      (more : Spells tokens arguments) :
      Spells (.value parameter value :: tokens)
        ((dash :: dash :: (name ++ equalsSign :: value)) :: arguments)
  | apart {name value : Bytes} {parameter : Parameter} {tokens : List Token}
      {arguments : List Bytes} (named : Parameter.named? name = some parameter)
      (plain : IsPlain value) (more : Spells tokens arguments) :
      Spells (.value parameter value :: tokens) ((dash :: dash :: name) :: value :: arguments)
  | followLinks {tokens : List Token} {arguments : List Bytes} (more : Spells tokens arguments) :
      Spells (.followLinks :: tokens) (Utf8.ofString "--follow-links" :: arguments)
  | root {path : Path} {tokens : List Token} {arguments : List Bytes} (plain : IsPlain path)
      (more : Spells tokens arguments) : Spells (.value .root path :: tokens) (path :: arguments)
  | stop (roots : List Path) :
      Spells (roots.map (.value .root ·)) (Utf8.ofString "--" :: roots)

def Options.give (o : Options) : Token → Except UsageError Options
  | .value parameter value => o.put parameter value
  | .followLinks =>
    if o.followLinks then .error (.repeatedOption Flag.followLinks.shown)
    else .ok { o with followLinks := true }

/-! ## Giving -/

namespace Options

variable {o o' : Options} {parameter : Parameter} {value : Bytes}

theorem once_eq_ok_iff {α β : Type} {old : Option α} {value : Except UsageError α}
    {update : α → β} {b : β} : once parameter old value update = .ok b ↔
      old = none ∧ ∃ a, value = .ok a ∧ update a = b := by
  rw [once]
  cases old with
  | none => simp [map_eq_ok_iff]
  | some a => simp

theorem put_root_eq_ok_iff : o.put .root value = .ok o' ↔
    o.root = none ∧ value ≠ [] ∧ o' = { o with root := some value } := by
  rw [put, once_eq_ok_iff, nonempty]
  split
  · rename_i empty
    simp [empty]
  · rename_i some
    simp [some, eq_comm]

theorem root_of_put (other : parameter ≠ .root) (given : o.put parameter value = .ok o') :
    o'.root = o.root := by
  cases parameter with
  | root => exact absurd rfl other
  | allow =>
      obtain ⟨_, -, rfl⟩ := map_eq_ok_iff.mp given
      rfl
  | config | threads | maxListed | sampleCap | format =>
      obtain ⟨-, _, -, rfl⟩ := once_eq_ok_iff.mp given
      rfl

theorem foldlM_give_cons_iff {token : Token} {tokens : List Token} :
    (token :: tokens).foldlM give o = .ok o' ↔
      ∃ next, o.give token = .ok next ∧ tokens.foldlM give next = .ok o' := by
  rw [List.foldlM_cons, bind_eq_ok_iff]

end Options

/-! ## Names -/

theorem Parameter.mem_of_named? {name : Bytes} {parameter : Parameter}
    (named : named? name = some parameter) :
    name ∈ ["config", "threads", "max-listed", "sample-cap", "allow", "format"].map
      Utf8.ofString := by
  by_contra other
  simp only [List.map_cons, List.map_nil, List.mem_cons, List.not_mem_nil, or_false,
    not_or] at other
  simp only [named?, other, if_false] at named
  cases named

theorem Parameter.plain_of_named? {name : Bytes} {parameter : Parameter}
    (named : named? name = some parameter) :
    name ≠ [] ∧ equalsSign ∉ name ∧ parameter ≠ .root := by
  have all : ∀ name ∈ ["config", "threads", "max-listed", "sample-cap", "allow", "format"].map
      Utf8.ofString, name ≠ [] ∧ equalsSign ∉ name ∧ named? name ≠ some .root := by
    decide +kernel
  obtain ⟨some, plain, other⟩ := all name (mem_of_named? named)
  exact ⟨some, plain, fun root => other (root ▸ named)⟩

theorem Flag.named?_eq_followLinks_iff {name : Bytes} :
    named? name = some .followLinks ↔ name = Utf8.ofString "follow-links" := by
  constructor
  · intro named
    by_contra other
    simp only [named?, other, if_false] at named
    split at named
    · cases named
    · split at named <;> cases named
  · rintro rfl
    rfl

namespace ArgumentReader

variable {r r' s : ArgumentReader} {arguments : List Bytes} {tokens : List Token} {o : Options}

/-! ## Cutting at the equals sign -/

theorem splitEquals_of_plain {option : Bytes} (plain : equalsSign ∉ option) :
    splitEquals option = (option, none) := by
  induction option with
  | nil => rfl
  | cons b option ih =>
      rw [List.mem_cons, not_or] at plain
      rw [splitEquals, if_neg (Ne.symm plain.1), ih plain.2]

theorem splitEquals_append {name : Bytes} (plain : equalsSign ∉ name) (value : Bytes) :
    splitEquals (name ++ equalsSign :: value) = (name, some value) := by
  induction name with
  | nil => exact if_pos rfl
  | cons b name ih =>
      rw [List.mem_cons, not_or] at plain
      rw [List.cons_append, splitEquals, if_neg (Ne.symm plain.1), ih plain.2]

theorem whole_of_splitEquals : ∀ {option name : Bytes} {value : Option Bytes},
    splitEquals option = (name, value) →
      option = name ++ (value.map (equalsSign :: ·)).getD [] := by
  intro option
  induction option with
  | nil =>
      intro name value cut
      cases cut
      rfl
  | cons b option ih =>
      intro name value cut
      rw [splitEquals] at cut
      split at cut
      · rename_i sign
        cases cut
        rw [sign]
        rfl
      · cases cut
        rw [List.cons_append, ← ih rfl]

/-! ## Settling -/

theorem settle_eq_ok_iff : r.settle = .ok s ↔
    (r.pending = none ∧ s = { r with expecting := false }) ∨
      ∃ parameter value options, r.pending = some (parameter, some value) ∧
        r.options.put parameter value = .ok options ∧
        s = { r with options := options, pending := none, expecting := false } := by
  cases pending : r.pending with
  | none => simp [settle, pending, eq_comm]
  | some given =>
      obtain ⟨parameter, value⟩ := given
      cases value with
      | none => simp [settle, pending]
      | some value =>
          rw [settle_of_value pending, bind_eq_ok_iff]
          simp only [mapError_eq_ok_iff, Except.ok.injEq]
          constructor
          · rintro ⟨options, put, rfl⟩
            exact .inr ⟨parameter, value, options, rfl, put, rfl⟩
          · rintro (⟨none, -⟩ | ⟨_, _, options, same, put, rfl⟩)
            · cases none
            · cases same
              exact ⟨options, put, rfl⟩

theorem settled_of_settle (h : r.settle = .ok s) :
    s.pending = none ∧ s.expecting = false ∧ s.ended = r.ended ∧ s.rootSeen = r.rootSeen := by
  rcases settle_eq_ok_iff.mp h with ⟨none, rfl⟩ | ⟨_, _, _, -, -, rfl⟩
  · exact ⟨none, rfl, rfl, rfl⟩
  · exact ⟨rfl, rfl, rfl, rfl⟩

theorem settle_of_settled (none : s.pending = none) (quiet : s.expecting = false) :
    s.settle = .ok s := by
  refine settle_eq_ok_iff.mpr (.inl ⟨none, ?_⟩)
  rw [← quiet]

theorem settle_stopped :
    settle { r with ended := true } = r.settle.map ({ · with ended := true }) := by
  cases pending : r.pending with
  | none => simp only [settle, pending, Except.map]
  | some given =>
      obtain ⟨parameter, value⟩ := given
      cases value with
      | none => simp only [settle, pending, Except.map]
      | some value =>
          simp only [settle, pending]
          cases r.options.put parameter value <;> rfl

/-- What is done succeeds just if settling does, and just as it does after that. -/
def Late (f : ArgumentReader → Except Ending ArgumentReader) : Prop :=
  ∀ r r', f r = .ok r' ↔ ∃ s, r.settle = .ok s ∧ f s = .ok r'

theorem late_settle_bind (g : ArgumentReader → Except Ending ArgumentReader) :
    Late fun r => r.settle >>= g := by
  intro r r'
  rw [bind_eq_ok_iff]
  refine exists_congr fun s => and_congr_right fun settled => ?_
  obtain ⟨none, quiet, -, -⟩ := settled_of_settle settled
  simp only [settle_of_settled none quiet, bind, Except.bind]

theorem late_error (ending : Ending) : Late fun _ => .error ending := by
  intro r r'
  constructor
  · intro taken
    cases taken
  · rintro ⟨s, settled, taken⟩
    cases taken

theorem late_takeFlag (flag : Flag) : Late (takeFlag · flag) := late_settle_bind _

theorem late_takeLong (option : Bytes) : Late (takeLong · option) := by
  unfold takeLong
  obtain ⟨name, value⟩ := splitEquals option
  dsimp only
  split
  · exact late_settle_bind _
  · exact late_settle_bind _
  · exact late_error _
  · exact late_takeFlag _
  · exact late_error _

theorem late_takeShort (letters : Bytes) : Late (takeShort · letters) := by
  unfold takeShort
  split
  · exact late_takeFlag _
  · exact late_takeFlag _
  · exact late_error _
  · exact late_error _

theorem late_takeRoot (argument : Bytes) : Late (takeRoot · argument) := by
  intro r r'
  have kept : ∀ s, r.settle = .ok s → s.rootSeen = r.rootSeen :=
    fun s settled => (settled_of_settle settled).2.2.2
  simp only [takeRoot]
  cases seen : r.rootSeen with
  | true =>
      constructor
      · intro taken
        cases taken
      · rintro ⟨s, settled, taken⟩
        rw [kept s settled, seen] at taken
        cases taken
  | false =>
      refine (late_settle_bind _ r r').trans ?_
      refine exists_congr fun s => and_congr_right fun settled => ?_
      rw [kept s settled, seen]
      rfl

/-! ## Taking arguments by their form -/

theorem take_stop (going : r.ended = false) :
    r.take (Utf8.ofString "--") = .ok { r with ended := true } := by
  rw [take.eq_def, going]
  rfl

theorem take_long (going : r.ended = false) {option : Bytes} (some : option ≠ []) :
    r.take (dash :: dash :: option) = r.takeLong option := by
  rw [take, going]
  simp only [Bool.false_eq_true, if_false, if_true, some]

theorem take_plain (going : r.ended = false) {argument : Bytes} (plain : IsPlain argument) :
    r.take argument = r.takePlain argument := by
  rw [take.eq_def, going]
  simp only [Bool.false_eq_true, if_false]
  split
  · rename_i first second rest
    rw [if_neg]
    rintro rfl
    exact plain second rest rfl
  · rfl

theorem take_short (going : r.ended = false) {b : UInt8} {rest : Bytes} (other : b ≠ dash) :
    r.take (dash :: b :: rest) = r.takeShort (b :: rest) := by
  rw [take, going]
  simp only [Bool.false_eq_true, if_false, if_true, other]

theorem takePlain_of_quiet (quiet : r.expecting = false) (argument : Bytes) :
    r.takePlain argument = r.takeRoot argument := by
  rw [takePlain, quiet]
  rfl

theorem forms (argument : Bytes) : argument = Utf8.ofString "--" ∨
    (∃ option, argument = dash :: dash :: option ∧ option ≠ []) ∨
      (∃ b rest, argument = dash :: b :: rest ∧ b ≠ dash) ∨ IsPlain argument := by
  by_cases plain : IsPlain argument
  · exact .inr (.inr (.inr plain))
  · obtain ⟨b, rest, rfl⟩ : ∃ b rest, argument = dash :: b :: rest := by
      simpa [IsPlain] using plain
    by_cases isDash : b = dash
    · subst isDash
      by_cases none : rest = []
      · rw [none]
        exact .inl rfl
      · exact .inr (.inl ⟨rest, rfl, none⟩)
    · exact .inr (.inr (.inl ⟨b, rest, rfl, isDash⟩))

/-- An argument that does not end the options is taken by settling what is pending first. -/
theorem exists_late {argument : Bytes} (other : argument ≠ Utf8.ofString "--") :
    ∃ f, Late f ∧ ∀ r : ArgumentReader, r.ended = false → r.expecting = false →
      r.take argument = f r := by
  rcases forms argument with stop | ⟨option, rfl, some⟩ | ⟨b, rest, rfl, short⟩ | plain
  · exact absurd stop other
  · exact ⟨_, late_takeLong option, fun r going _ => take_long going some⟩
  · exact ⟨_, late_takeShort (b :: rest), fun r going _ => take_short going short⟩
  · exact ⟨_, late_takeRoot argument, fun r going quiet =>
      (take_plain going plain).trans (takePlain_of_quiet quiet argument)⟩

theorem late_take {argument : Bytes} (quiet : r.expecting = false)
    (going : r.ended = true ∨ argument ≠ Utf8.ofString "--") :
    r.take argument = .ok r' ↔ ∃ s, r.settle = .ok s ∧ s.take argument = .ok r' := by
  cases ended : r.ended with
  | true =>
      rw [take_of_ended ended]
      refine (late_takeRoot argument r r').trans (exists_congr fun s => and_congr_right fun h => ?_)
      rw [take_of_ended ((settled_of_settle h).2.2.1.trans ended)]
  | false =>
      obtain ⟨f, late, same⟩ := exists_late (going.resolve_left (by simp [ended]))
      rw [same r ended quiet]
      refine (late r r').trans (exists_congr fun s => and_congr_right fun h => ?_)
      obtain ⟨-, quiet', ended', -⟩ := settled_of_settle h
      rw [same s (ended'.trans ended) quiet']

/-! ## Reading to the end -/

def Reads (r : ArgumentReader) (arguments : List Bytes) (o : Options) : Prop :=
  ∃ s, (arguments.foldlM take r >>= settle) = .ok s ∧ s.options = o

theorem reads_nil_iff : r.Reads [] o ↔ ∃ s, r.settle = .ok s ∧ s.options = o := Iff.rfl

theorem reads_cons_iff {argument : Bytes} : r.Reads (argument :: arguments) o ↔
    ∃ r', r.take argument = .ok r' ∧ r'.Reads arguments o := by
  simp only [Reads, List.foldlM_cons, bind_eq_ok_iff]
  constructor
  · rintro ⟨s, ⟨t, ⟨r', taken, others⟩, settled⟩, same⟩
    exact ⟨r', taken, s, ⟨t, others, settled⟩, same⟩
  · rintro ⟨r', taken, s, ⟨t, others, settled⟩, same⟩
    exact ⟨s, ⟨t, ⟨r', taken, others⟩, settled⟩, same⟩

/-- It makes no difference that what is pending is settled late. -/
theorem reads_iff_settled : ∀ {arguments : List Bytes} {r : ArgumentReader},
    r.expecting = false → (r.Reads arguments o ↔ ∃ s, r.settle = .ok s ∧ s.Reads arguments o) := by
  intro arguments
  induction arguments with
  | nil =>
      intro r quiet
      simp only [reads_nil_iff]
      refine exists_congr fun s => and_congr_right fun settled => ?_
      obtain ⟨none, quiet, -, -⟩ := settled_of_settle settled
      simp [settle_of_settled none quiet]
  | cons argument arguments ih =>
      intro r quiet
      simp only [reads_cons_iff]
      by_cases stop : r.ended = false ∧ argument = Utf8.ofString "--"
      · obtain ⟨going, rfl⟩ := stop
        simp only [take_stop going, Except.ok.injEq, exists_eq_left']
        rw [@ih { r with ended := true } quiet]
        simp only [settle_stopped, map_eq_ok_iff]
        constructor
        · rintro ⟨_, ⟨s, settled, rfl⟩, others⟩
          have going' : s.ended = false := (settled_of_settle settled).2.2.1.trans going
          exact ⟨s, settled, _, take_stop going', others⟩
        · rintro ⟨s, settled, r', taken, others⟩
          rw [take_stop ((settled_of_settle settled).2.2.1.trans going)] at taken
          cases taken
          exact ⟨_, ⟨s, settled, rfl⟩, others⟩
      · have going : r.ended = true ∨ argument ≠ Utf8.ofString "--" := by
          cases ended : r.ended with
          | true => exact .inl rfl
          | false => exact .inr fun same => stop ⟨ended, same⟩
        simp only [late_take quiet going]
        constructor
        · rintro ⟨r', ⟨s, settled, taken⟩, others⟩
          exact ⟨s, settled, r', taken, others⟩
        · rintro ⟨s, settled, r', taken, others⟩
          exact ⟨r', ⟨s, settled, taken⟩, others⟩

/-! ## Readers with nothing pending -/

def ready (ended : Bool) (o : Options) : ArgumentReader where
  options := o
  ended := ended
  rootSeen := o.root.isSome

def await (parameter : Parameter) (o : Options) : ArgumentReader where
  options := o
  pending := some (parameter, none)
  expecting := true
  rootSeen := o.root.isSome

variable {ended : Bool} {o' : Options} {parameter : Parameter} {argument value : Bytes}

theorem settle_ready (ended : Bool) (o : Options) : (ready ended o).settle = .ok (ready ended o) :=
  settle_of_settled rfl rfl

theorem settle_await (parameter : Parameter) (o : Options) :
    (await parameter o).settle = .error (.fault (.valueMissing parameter)) := rfl

/-- Once the value is there, the parameter is as good as set. -/
theorem reads_of_value (other : parameter ≠ .root) :
    Reads { ready ended o with pending := some (parameter, some value) } arguments o' ↔
      ∃ next, o.put parameter value = .ok next ∧ (ready ended next).Reads arguments o' := by
  rw [reads_iff_settled rfl]
  simp only [settle_eq_ok_iff, ready]
  constructor
  · rintro ⟨_, (⟨none, -⟩ | ⟨_, _, next, same, put, rfl⟩), others⟩
    · cases none
    · cases same
      refine ⟨next, put, ?_⟩
      rwa [Options.root_of_put other put]
  · rintro ⟨next, put, others⟩
    refine ⟨_, .inr ⟨_, _, next, rfl, put, rfl⟩, ?_⟩
    rwa [Options.root_of_put other put] at others

/-- A second root is refused at once, as it would be later. -/
theorem reads_takeRoot :
    (∃ r', (ready ended o).takeRoot argument = .ok r' ∧ r'.Reads arguments o') ↔
      ∃ next, o.put .root argument = .ok next ∧ (ready ended next).Reads arguments o' := by
  cases root : o.root with
  | some path =>
      have refused : (ready ended o).takeRoot argument =
          .error (.fault (.unexpectedArgument (Utf8.shown argument))) := by
        simp [takeRoot, ready, root]
      simp [refused, Options.put_root_eq_ok_iff, root]
  | none =>
      have taken : (ready ended o).takeRoot argument = .ok
          { ready ended o with pending := some (.root, some argument), rootSeen := true } := by
        simp [takeRoot, ready, root, settle, bind, Except.bind]
      simp only [taken, Except.ok.injEq, exists_eq_left']
      rw [reads_iff_settled rfl]
      simp only [settle_eq_ok_iff]
      constructor
      · rintro ⟨_, (⟨none, -⟩ | ⟨_, _, next, same, put, rfl⟩), others⟩
        · cases none
        · cases same
          refine ⟨next, put, ?_⟩
          obtain ⟨-, -, rfl⟩ := Options.put_root_eq_ok_iff.mp put
          exact others
      · rintro ⟨next, put, others⟩
        refine ⟨_, .inr ⟨_, _, next, rfl, put, rfl⟩, ?_⟩
        obtain ⟨-, -, rfl⟩ := Options.put_root_eq_ok_iff.mp put
        exact others

theorem reads_stop_iff :
    (ready false o).Reads (Utf8.ofString "--" :: arguments) o' ↔
      (ready true o).Reads arguments o' := by
  rw [reads_cons_iff, take_stop rfl]
  simp only [Except.ok.injEq, exists_eq_left']
  rfl

theorem reads_ended_iff : ∀ {arguments : List Bytes} {o : Options},
    (ready true o).Reads arguments o' ↔
      (arguments.map (Token.value .root ·)).foldlM Options.give o = .ok o' := by
  intro arguments
  induction arguments with
  | nil =>
      intro o
      rw [reads_nil_iff, settle_ready]
      simp [ready, pure_eq_ok_iff]
  | cons argument arguments ih =>
      intro o
      rw [reads_cons_iff, take_of_ended rfl, reads_takeRoot, List.map_cons,
        Options.foldlM_give_cons_iff]
      simp only [ih, Options.give]

theorem reads_plain_iff (plain : IsPlain argument) :
    (ready false o).Reads (argument :: arguments) o' ↔
      ∃ next, o.put .root argument = .ok next ∧ (ready false next).Reads arguments o' := by
  rw [reads_cons_iff, take_plain rfl plain, takePlain_of_quiet rfl, reads_takeRoot]

theorem reads_await_iff (other : parameter ≠ .root) (plain : IsPlain argument) :
    (await parameter o).Reads (argument :: arguments) o' ↔
      ∃ next, o.put parameter argument = .ok next ∧ (ready false next).Reads arguments o' := by
  have taken : (await parameter o).take argument =
      .ok { ready false o with pending := some (parameter, some argument) } := by
    rw [take_plain rfl plain]
    rfl
  rw [reads_cons_iff, taken, ← reads_of_value other]
  simp only [Except.ok.injEq, exists_eq_left']

/-- Only a plain argument can be the value. -/
theorem exists_plain_of_await (read : (await parameter o).Reads arguments o') :
    ∃ argument rest, arguments = argument :: rest ∧ IsPlain argument := by
  have missing : ∀ s, (await parameter o).settle ≠ .ok s := by
    intro s settled
    rw [settle_await] at settled
    cases settled
  cases arguments with
  | nil =>
      obtain ⟨s, settled, -⟩ := reads_nil_iff.mp read
      exact absurd settled (missing s)
  | cons argument rest =>
      refine ⟨argument, rest, rfl, ?_⟩
      obtain ⟨r', taken, others⟩ := reads_cons_iff.mp read
      rcases forms argument with rfl | ⟨option, rfl, some⟩ | ⟨b, rest, rfl, short⟩ | plain
      · exfalso
        rw [take_stop rfl] at taken
        cases taken
        have missing' : ∀ s, settle { await parameter o with ended := true } ≠ .ok s := by
          intro s settled
          rw [settle_stopped, settle_await] at settled
          cases settled
        cases rest with
        | nil =>
            obtain ⟨s, settled, -⟩ := reads_nil_iff.mp others
            exact missing' s settled
        | cons root rest =>
            obtain ⟨r', taken, -⟩ := reads_cons_iff.mp others
            rw [take_of_ended rfl] at taken
            obtain ⟨s, settled, -⟩ := (late_takeRoot root _ _).mp taken
            exact missing' s settled
      · rw [take_long rfl some] at taken
        obtain ⟨s, settled, -⟩ := (late_takeLong option _ _).mp taken
        exact absurd settled (missing s)
      · rw [take_short rfl short] at taken
        obtain ⟨s, settled, -⟩ := (late_takeShort _ _ _).mp taken
        exact absurd settled (missing s)
      · exact plain

/-! ## Options by name -/

theorem takeLong_joined {name : Bytes} (named : Parameter.named? name = some parameter)
    (value : Bytes) : (ready false o).takeLong (name ++ equalsSign :: value) =
      settle { ready false o with pending := some (parameter, some value) } := by
  obtain ⟨-, plain, -⟩ := Parameter.plain_of_named? named
  rw [takeLong, splitEquals_append plain]
  simp only [named, settle_ready]
  rfl

theorem takeLong_apart {name : Bytes} (named : Parameter.named? name = some parameter) :
    (ready false o).takeLong name = .ok (await parameter o) := by
  obtain ⟨-, plain, -⟩ := Parameter.plain_of_named? named
  rw [takeLong, splitEquals_of_plain plain]
  simp only [named, settle_ready]
  rfl

theorem takeLong_followLinks : (ready false o).takeLong (Utf8.ofString "follow-links") =
    ((o.give .followLinks).map (ready false)).mapError .fault := by
  have flag : (ready false o).takeLong (Utf8.ofString "follow-links") =
      (ready false o).takeFlag .followLinks := rfl
  rw [flag, takeFlag, settle_ready, Options.give]
  show (if o.followLinks then _ else _) = _
  cases o.followLinks <;> rfl

theorem cases_of_takeLong {option : Bytes}
    (taken : (ready false o).takeLong option = .ok r') :
    (∃ name parameter value, option = name ++ equalsSign :: value ∧
        Parameter.named? name = some parameter) ∨
      (∃ parameter, Parameter.named? option = some parameter) ∨
        option = Utf8.ofString "follow-links" := by
  cases cut : splitEquals option with
  | mk name value =>
      have whole := whole_of_splitEquals cut
      cases named : Parameter.named? name with
      | some parameter =>
          cases value with
          | none => exact .inr (.inl ⟨parameter, by rwa [whole, Option.map_none,
              Option.getD_none, List.append_nil]⟩)
          | some value => exact .inl ⟨name, parameter, value, whole, named⟩
      | none =>
          cases flagged : Flag.named? name with
          | none =>
              simp only [takeLong, cut, named, flagged] at taken
              cases taken
          | some flag =>
              cases value with
              | some value =>
                  simp only [takeLong, cut, named, flagged] at taken
                  cases taken
              | none =>
                  simp only [takeLong, cut, named, flagged, takeFlag, settle_ready] at taken
                  cases flag with
                  | help => cases taken
                  | version => cases taken
                  | followLinks =>
                      rw [Option.map_none, Option.getD_none, List.append_nil] at whole
                      exact .inr (.inr (whole.trans (Flag.named?_eq_followLinks_iff.mp flagged)))

/-! ## What is asked for -/

theorem reads_of_spells (spelled : Spells tokens arguments) : ∀ {o : Options},
    tokens.foldlM Options.give o = .ok o' → (ready false o).Reads arguments o' := by
  induction spelled with
  | nil =>
      intro o given
      refine reads_nil_iff.mpr ⟨_, settle_ready false o, ?_⟩
      exact Except.ok.inj given
  | @joined name value parameter tokens arguments named more ih =>
      intro o given
      obtain ⟨next, put, given⟩ := Options.foldlM_give_cons_iff.mp given
      obtain ⟨-, -, other⟩ := Parameter.plain_of_named? named
      rw [reads_cons_iff, take_long rfl (by simp), takeLong_joined named]
      have late := (@reads_of_value arguments o false o' parameter value other).mpr
        ⟨next, put, ih given⟩
      obtain ⟨s, settled, others⟩ := (reads_iff_settled rfl).mp late
      exact ⟨s, settled, others⟩
  | apart named plain more ih =>
      intro o given
      obtain ⟨next, put, given⟩ := Options.foldlM_give_cons_iff.mp given
      obtain ⟨some, -, other⟩ := Parameter.plain_of_named? named
      rw [reads_cons_iff, take_long rfl some, takeLong_apart named]
      exact ⟨_, rfl, (reads_await_iff other plain).mpr ⟨next, put, ih given⟩⟩
  | followLinks more ih =>
      intro o given
      obtain ⟨next, put, given⟩ := Options.foldlM_give_cons_iff.mp given
      have form : Utf8.ofString "--follow-links" =
          dash :: dash :: Utf8.ofString "follow-links" := rfl
      rw [reads_cons_iff, form, take_long rfl (by decide), takeLong_followLinks, put]
      exact ⟨_, rfl, ih given⟩
  | root plain more ih =>
      intro o given
      obtain ⟨next, put, given⟩ := Options.foldlM_give_cons_iff.mp given
      exact (reads_plain_iff plain).mpr ⟨next, put, ih given⟩
  | stop roots =>
      intro o given
      exact reads_stop_iff.mpr (reads_ended_iff.mpr given)

theorem exists_spells {arguments : List Bytes} {o : Options}
    (read : (ready false o).Reads arguments o') :
    ∃ tokens, Spells tokens arguments ∧ tokens.foldlM Options.give o = .ok o' := by
  induction length : arguments.length using Nat.strongRecOn generalizing arguments o with
  | ind n ih =>
  cases arguments with
  | nil =>
      obtain ⟨s, settled, same⟩ := reads_nil_iff.mp read
      rw [settle_ready] at settled
      cases settled
      exact ⟨[], .nil, congrArg Except.ok same⟩
  | cons argument rest =>
      have shorter : rest.length < n := by
        rw [← length]
        exact Nat.lt_succ_self _
      rcases forms argument with rfl | ⟨option, rfl, some⟩ | ⟨b, letters, rfl, short⟩ | plain
      · have given := reads_ended_iff.mp (reads_stop_iff.mp read)
        exact ⟨_, .stop rest, given⟩
      · obtain ⟨r', taken, others⟩ := reads_cons_iff.mp read
        rw [take_long rfl some] at taken
        rcases cases_of_takeLong taken with ⟨name, parameter, value, rfl, named⟩ |
            ⟨parameter, named⟩ | rfl
        · obtain ⟨-, -, other⟩ := Parameter.plain_of_named? named
          rw [takeLong_joined named] at taken
          obtain ⟨next, put, others⟩ := (reads_of_value other).mp
            ((reads_iff_settled rfl).mpr ⟨r', taken, others⟩)
          obtain ⟨tokens, spelled, given⟩ := ih _ shorter others rfl
          exact ⟨_, .joined named spelled, Options.foldlM_give_cons_iff.mpr ⟨next, put, given⟩⟩
        · obtain ⟨-, -, other⟩ := Parameter.plain_of_named? named
          rw [takeLong_apart named] at taken
          cases taken
          obtain ⟨value, rest, rfl, plain⟩ := exists_plain_of_await others
          obtain ⟨next, put, others⟩ := (reads_await_iff other plain).mp others
          obtain ⟨tokens, spelled, given⟩ := ih _ (Nat.lt_of_succ_lt shorter) others rfl
          exact ⟨_, .apart named plain spelled, Options.foldlM_give_cons_iff.mpr ⟨next, put, given⟩⟩
        · rw [takeLong_followLinks, mapError_eq_ok_iff, map_eq_ok_iff] at taken
          obtain ⟨next, put, rfl⟩ := taken
          obtain ⟨tokens, spelled, given⟩ := ih _ shorter others rfl
          exact ⟨_, .followLinks spelled, Options.foldlM_give_cons_iff.mpr ⟨next, put, given⟩⟩
      · obtain ⟨r', taken, -⟩ := reads_cons_iff.mp read
        rw [take_short rfl short, takeShort] at taken
        split at taken <;> cases taken
      · obtain ⟨next, put, others⟩ := (reads_plain_iff plain).mp read
        obtain ⟨tokens, spelled, given⟩ := ih _ shorter others rfl
        exact ⟨_, .root plain spelled, Options.foldlM_give_cons_iff.mpr ⟨next, put, given⟩⟩

end ArgumentReader

/-- Arguments ask for a scan with these options exactly if they spell things that make them. -/
theorem ofArguments_eq_scan_iff {arguments : List Bytes} {o : Options} :
    Request.ofArguments arguments = .ok (.scan o) ↔
      ∃ tokens, Spells tokens arguments ∧ tokens.foldlM Options.give {} = .ok o := by
  have read : Request.ofArguments arguments = .ok (.scan o) ↔
      (ArgumentReader.ready false {}).Reads arguments o := by
    show Request.ofRead (arguments.foldlM ArgumentReader.take {} >>= ArgumentReader.settle) = _ ↔
      ∃ s, (arguments.foldlM ArgumentReader.take {} >>= ArgumentReader.settle) = .ok s ∧ _
    cases arguments.foldlM ArgumentReader.take {} >>= ArgumentReader.settle with
    | ok r => simp [Request.ofRead]
    | error ending => cases ending <;> simp [Request.ofRead]
  rw [read]
  constructor
  · exact ArgumentReader.exists_spells
  · rintro ⟨tokens, spelled, given⟩
    exact ArgumentReader.reads_of_spells spelled given

end HiddenText
