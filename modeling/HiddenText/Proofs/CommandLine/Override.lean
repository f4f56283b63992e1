import HiddenText.Proofs.Codepoint.RestrictedSet
import HiddenText.Proofs.CommandLine
import HiddenText.Proofs.Options.Spelling

/-! # What is in effect

What is given on the command line comes before what the configuration file says, and the allowed
codepoints of both are allowed (`effective_of_arguments`).  Only `auto` is no number of threads
and leaves that of the file in force. -/
set_option autoImplicit false

namespace HiddenText

def Token.allowed? : Token → Option String
  | .value .allow bytes => (Options.text bytes).toOption
  | _ => none

namespace Options

variable {α : Type} {parameter : Parameter} {held : Options → Option α}
  {examine : Bytes → Except UsageError α} {o o' : Options} {token : Token} {tokens : List Token}

/-! ## One token -/

theorem give_followLinks_eq_ok_iff : o.give .followLinks = .ok o' ↔
    o.followLinks = false ∧ o' = { o with followLinks := true } := by
  rw [give]
  cases o.followLinks <;> simp [eq_comm]

/-- What a token leaves as it was. -/
structure Frame (o : Options) (token : Token) (o' : Options) : Prop where
  config : (∀ value, token ≠ .value .config value) → o'.config = o.config
  threads : (∀ value, token ≠ .value .threads value) → o'.threads = o.threads
  maxListed : (∀ value, token ≠ .value .maxListed value) → o'.maxListed = o.maxListed
  sampleCap : (∀ value, token ≠ .value .sampleCap value) → o'.sampleCap = o.sampleCap
  followLinks : token ≠ .followLinks → o'.followLinks = o.followLinks
  allow : o'.allow = o.allow ++ token.allowed?.toList

theorem frame_of_give (given : o.give token = .ok o') : Frame o token o' := by
  have same : ∀ texts : List String, texts = texts ++ [] := fun _ => (List.append_nil _).symm
  cases token with
  | followLinks =>
      obtain ⟨-, rfl⟩ := give_followLinks_eq_ok_iff.mp given
      exact ⟨fun _ => rfl, fun _ => rfl, fun _ => rfl, fun _ => rfl, fun other => absurd rfl other,
        same _⟩
  | value parameter value =>
      cases parameter with
      | allow =>
          obtain ⟨text, read, rfl⟩ := map_eq_ok_iff.mp given
          refine ⟨fun _ => rfl, fun _ => rfl, fun _ => rfl, fun _ => rfl, fun _ => rfl, ?_⟩
          rw [Token.allowed?, read]
          rfl
      | root | format =>
          obtain ⟨-, _, -, rfl⟩ := once_eq_ok_iff.mp given
          exact ⟨fun _ => rfl, fun _ => rfl, fun _ => rfl, fun _ => rfl, fun _ => rfl, same _⟩
      | config =>
          obtain ⟨-, _, -, rfl⟩ := once_eq_ok_iff.mp given
          exact ⟨fun other => absurd rfl (other value), fun _ => rfl, fun _ => rfl, fun _ => rfl,
            fun _ => rfl, same _⟩
      | threads =>
          obtain ⟨-, _, -, rfl⟩ := once_eq_ok_iff.mp given
          exact ⟨fun _ => rfl, fun other => absurd rfl (other value), fun _ => rfl, fun _ => rfl,
            fun _ => rfl, same _⟩
      | maxListed =>
          obtain ⟨-, _, -, rfl⟩ := once_eq_ok_iff.mp given
          exact ⟨fun _ => rfl, fun _ => rfl, fun other => absurd rfl (other value), fun _ => rfl,
            fun _ => rfl, same _⟩
      | sampleCap =>
          obtain ⟨-, _, -, rfl⟩ := once_eq_ok_iff.mp given
          exact ⟨fun _ => rfl, fun _ => rfl, fun _ => rfl, fun other => absurd rfl (other value),
            fun _ => rfl, same _⟩

/-! ## All tokens -/

/-- The options hold here what the one value of this parameter comes to. -/
structure Holds (parameter : Parameter) (held : Options → Option α)
    (examine : Bytes → Except UsageError α) : Prop where
  set : ∀ {o o' value}, o.put parameter value = .ok o' →
    held o = none ∧ ∃ a, examine value = .ok a ∧ held o' = some a
  keep : ∀ {o o' token}, o.give token = .ok o' → (∀ value, token ≠ .value parameter value) →
    held o' = held o

theorem held_of_once {old : Option α} {value : Except UsageError α} {update : α → Options}
    (given : once parameter old value update = .ok o') (updates : ∀ a, held (update a) = some a) :
    old = none ∧ ∃ a, value = .ok a ∧ held o' = some a := by
  obtain ⟨none, a, examined, rfl⟩ := once_eq_ok_iff.mp given
  exact ⟨none, a, examined, updates a⟩

theorem holds_config : Holds .config Options.config (nonempty .config) where
  set given := held_of_once given fun _ => rfl
  keep given := (frame_of_give given).config

theorem holds_threads : Holds .threads Options.threads (text · >>= threadCount) where
  set given := held_of_once given fun _ => rfl
  keep given := (frame_of_give given).threads

theorem holds_maxListed : Holds .maxListed Options.maxListed (text · >>= count .maxListed) where
  set given := held_of_once given fun _ => rfl
  keep given := (frame_of_give given).maxListed

theorem holds_sampleCap : Holds .sampleCap Options.sampleCap (text · >>= count .sampleCap) where
  set given := held_of_once given fun _ => rfl
  keep given := (frame_of_give given).sampleCap

theorem Holds.absent (h : Holds parameter held examine) : ∀ {tokens : List Token} {o : Options},
    tokens.foldlM give o = .ok o' → (∀ value, .value parameter value ∉ tokens) →
    held o' = held o := by
  intro tokens
  induction tokens with
  | nil =>
      intro o given _
      cases given
      rfl
  | cons token tokens ih =>
      intro o given absent
      obtain ⟨next, first, others⟩ := foldlM_give_cons_iff.mp given
      rw [ih others fun value mem => absent value (List.mem_cons_of_mem _ mem)]
      refine h.keep first fun value same => absent value (same ▸ List.mem_cons_self ..)

theorem Holds.given (h : Holds parameter held examine) : ∀ {tokens : List Token} {o : Options}
    {value : Bytes}, tokens.foldlM give o = .ok o' → .value parameter value ∈ tokens →
    held o = none ∧ ∃ a, examine value = .ok a ∧ held o' = some a := by
  intro tokens
  induction tokens with
  | nil => intro o value _ mem; cases mem
  | cons token tokens ih =>
      intro o value given mem
      obtain ⟨next, first, others⟩ := foldlM_give_cons_iff.mp given
      rcases List.mem_cons.mp mem with rfl | later
      · obtain ⟨none, a, examined, some⟩ := h.set first
        refine ⟨none, a, examined, ?_⟩
        rw [h.absent others, some]
        intro value' later
        rw [(ih others later).1] at some
        cases some
      · obtain ⟨none, a, examined, some⟩ := ih others later
        refine ⟨?_, a, examined, some⟩
        by_cases same : ∃ value', token = .value parameter value'
        · obtain ⟨value', rfl⟩ := same
          obtain ⟨-, b, -, some'⟩ := h.set first
          rw [none] at some'
          cases some'
        · rw [← h.keep first (not_exists.mp same), none]

theorem allow_of_give : ∀ {tokens : List Token} {o : Options}, tokens.foldlM give o = .ok o' →
    o'.allow = o.allow ++ tokens.filterMap Token.allowed? := by
  intro tokens
  induction tokens with
  | nil =>
      intro o given
      cases given
      exact (List.append_nil _).symm
  | cons token tokens ih =>
      intro o given
      obtain ⟨next, first, others⟩ := foldlM_give_cons_iff.mp given
      rw [ih others, (frame_of_give first).allow, List.append_assoc, List.filterMap_cons]
      cases token.allowed? <;> rfl

theorem followLinks_of_give : ∀ {tokens : List Token} {o : Options},
    tokens.foldlM give o = .ok o' →
    (o'.followLinks = true ↔ o.followLinks = true ∨ .followLinks ∈ tokens) := by
  intro tokens
  induction tokens with
  | nil =>
      intro o given
      cases given
      simp
  | cons token tokens ih =>
      intro o given
      obtain ⟨next, first, others⟩ := foldlM_give_cons_iff.mp given
      rw [ih others, List.mem_cons]
      by_cases flag : token = .followLinks
      · subst flag
        obtain ⟨-, rfl⟩ := give_followLinks_eq_ok_iff.mp first
        simp
      · rw [(frame_of_give first).followLinks flag]
        simp [Ne.symm flag]

/-! ## Values -/

def IsAuto (text : String) : Prop := text.toList.map Char.toLower = "auto".toList

theorem text_eq_ok_iff {value : Bytes} {s : String} :
    text value = .ok s ↔ value = Utf8.ofString s := by
  rw [Utf8.ofString, ← Utf8.decode_eq_some_iff, text]
  cases Utf8.decode value with
  | none => simp
  | some read =>
      simp only [Except.ok.injEq, Option.some.injEq]
      rw [← String.toList_inj, String.toList_ofList]

theorem threadCount_eq_ok_iff {text : String} {threads : Option Nat} :
    threadCount text = .ok threads ↔ (IsAuto text ∧ threads = none) ∨
      ¬ IsAuto text ∧ ∃ n, Whole.read text.toList = .ok n ∧ 0 < n ∧ threads = some n := by
  by_cases auto : IsAuto text
  · have read : threadsOf? text.toList = some none := if_pos auto
    rw [threadCount, read]
    simp [auto, eq_comm]
  · rw [threadCount, threadsOf?, if_neg (show ¬ text.toList.map Char.toLower = _ from auto)]
    cases Whole.read text.toList with
    | error fault => simp [auto]
    | ok n =>
        by_cases positive : 0 < n
        · simp [auto, Nat.succ_le_iff, positive, eq_comm]
        · simp [auto, Nat.succ_le_iff, positive]

theorem nonempty_eq_ok_iff {value path : Path} :
    nonempty parameter value = .ok path ↔ value ≠ [] ∧ value = path := by
  rw [nonempty]
  split
  · rename_i empty
    simp [empty]
  · rename_i some
    simp [some]

theorem count_eq_ok_iff {text : String} {n : Nat} :
    count parameter text = .ok n ↔ Whole.read text.toList = .ok n := mapError_eq_ok_iff

end Options

namespace CommandLine

open Options (IsAuto)

variable {fs : FileSystem} {arguments : List Bytes} {options : Options} {tokens : List Token}
  {base config : Config}

/-- The value of the parameter decides if it is given, and otherwise it is as before. -/
def GivenOr {β : Type} (tokens : List Token) (parameter : Parameter) (denotes : Bytes → β → Prop)
    (before after : β) : Prop :=
  (∀ value, .value parameter value ∈ tokens → denotes value after) ∧
    ((∀ value, .value parameter value ∉ tokens) → after = before)

def Starts (fs : FileSystem) (tokens : List Token) (base : Config) : Prop :=
  GivenOr tokens .config (fun path base => Config.load fs path = .ok base) .standard base

def AllowsCodepoints (tokens : List Token) : Prop :=
  ∀ text, .value .allow (Utf8.ofString text) ∈ tokens → ∃ c, Codepoint.parse text = .ok c

def DenotesCount (value : Bytes) (n : Nat) : Prop :=
  ∃ text, value = Utf8.ofString text ∧ Whole.read text.toList = .ok n

/-- What is given comes before what the configuration says. -/
structure Overrides (tokens : List Token) (base config : Config) : Prop where
  maxListed : GivenOr tokens .maxListed DenotesCount base.maxListed config.maxListed
  sampleCap : GivenOr tokens .sampleCap DenotesCount base.sampleCap config.sampleCap
  /-- Here `auto` is the same as nothing. -/
  threads : GivenOr tokens .threads
    (fun value threads => ∃ text, value = Utf8.ofString text ∧
      (IsAuto text → threads = base.threads) ∧
      (¬ IsAuto text → ∃ n, Whole.read text.toList = .ok n ∧ 0 < n ∧ threads = some n))
    base.threads config.threads
  followLinks : config.followLinks = true ↔ .followLinks ∈ tokens ∨ base.followLinks = true
  allowed : ∀ c, c ∈ config.restricted.allowed ↔ c ∈ base.restricted.allowed ∨
    ∃ text, .value .allow (Utf8.ofString text) ∈ tokens ∧ Codepoint.parse text = .ok c
  ranges : config.restricted.ranges = base.restricted.ranges
  sourceExtensions : config.sourceExtensions = base.sourceExtensions
  documentationExtensions : config.documentationExtensions = base.documentationExtensions
  ignoredNames : config.ignoredNames = base.ignoredNames

/-! ## The configuration in effect -/

section

variable (given : tokens.foldlM Options.give {} = .ok options)

include given

theorem mem_allow_iff {text : String} :
    text ∈ options.allow ↔ .value .allow (Utf8.ofString text) ∈ tokens := by
  have all : options.allow = tokens.filterMap Token.allowed? :=
    (Options.allow_of_give given).trans (List.nil_append _)
  have said : ∀ token : Token, token.allowed? = some text ↔
      token = .value .allow (Utf8.ofString text) := by
    intro token
    rw [Token.allowed?.eq_def]
    split
    · simp [toOption_eq_some_iff, Options.text_eq_ok_iff]
    · rename_i other
      simpa using fun same => other _ same
  rw [all, List.mem_filterMap]
  simp only [said, exists_eq_right]

theorem held_cases {α : Type} {parameter : Parameter} {held : Options → Option α}
    {examine : Bytes → Except UsageError α} (h : Options.Holds parameter held examine)
    (nothing : held {} = none) {β : Type} {denotes : Bytes → β → Prop} {before after : β}
    (value : ∀ v a, examine v = .ok a → held options = some a → denotes v after)
    (none : held options = none → after = before) :
    GivenOr tokens parameter denotes before after := by
  constructor
  · intro v mem
    obtain ⟨-, a, examined, some⟩ := h.given given mem
    exact value v a examined some
  · intro absent
    exact none ((h.absent given absent).trans nothing)

theorem givenOr_count {parameter : Parameter} {held : Options → Option Nat}
    (h : Options.Holds parameter held (Options.text · >>= Options.count parameter))
    (nothing : held {} = none) (before : Nat) :
    GivenOr tokens parameter DenotesCount before ((held options).getD before) := by
  refine held_cases given h nothing (fun _ n examined some => ?_) fun none => ?_
  · obtain ⟨text, read, counted⟩ := bind_eq_ok_iff.mp examined
    rw [some]
    exact ⟨text, Options.text_eq_ok_iff.mp read, Options.count_eq_ok_iff.mp counted⟩
  · rw [none]
    rfl

theorem starts_iff : Starts fs tokens base ↔ Loads fs options base := by
  have holds := Options.holds_config
  constructor
  · rintro ⟨value, default⟩
    rw [Loads]
    split
    case h_1 none =>
      refine default fun path mem => ?_
      obtain ⟨-, a, -, some⟩ := holds.given given mem
      rw [none] at some
      cases some
    case h_2 path some =>
      by_cases named : ∃ path, Token.value .config path ∈ tokens
      · obtain ⟨path, mem⟩ := named
        obtain ⟨-, a, examined, some'⟩ := holds.given given mem
        obtain ⟨-, rfl⟩ := Options.nonempty_eq_ok_iff.mp examined
        rw [some, Option.some.injEq] at some'
        exact some' ▸ value path mem
      · rw [holds.absent given (not_exists.mp named)] at some
        cases some
  · intro loads
    rw [Loads] at loads
    refine held_cases given holds rfl (fun path a examined some => ?_) fun none => ?_
    · obtain ⟨-, rfl⟩ := Options.nonempty_eq_ok_iff.mp examined
      rwa [some] at loads
    · rwa [none] at loads

theorem overrides_override {allowed : List Char}
    (read : options.allow.map Codepoint.parse = allowed.map .ok) :
    Overrides tokens base (override base options allowed) where
  maxListed := givenOr_count given Options.holds_maxListed rfl _
  sampleCap := givenOr_count given Options.holds_sampleCap rfl _
  threads := by
    refine held_cases given Options.holds_threads rfl (fun _ t examined some => ?_)
      fun none => ?_
    · obtain ⟨text, read, counted⟩ := bind_eq_ok_iff.mp examined
      refine ⟨text, Options.text_eq_ok_iff.mp read, ?_⟩
      rcases Options.threadCount_eq_ok_iff.mp counted with
        ⟨auto, rfl⟩ | ⟨fixed, n, whole, positive, rfl⟩
      · refine ⟨fun _ => ?_, fun fixed => absurd auto fixed⟩
        rw [override, some]
      · refine ⟨fun auto => absurd auto fixed, fun _ => ⟨n, whole, positive, ?_⟩⟩
        rw [override, some]
    · rw [override, none]
  followLinks := by
    have followed := Options.followLinks_of_give given
    show (options.followLinks || base.followLinks) = true ↔ _
    rw [Bool.or_eq_true, followed]
    simp
  allowed := fun c => by
    show c ∈ (allowed.foldl RestrictedSet.allow base.restricted).allowed ↔ _
    rw [RestrictedSet.mem_allowed_foldl_allow, mem_iff_of_map_eq_ok read]
    simp only [mem_allow_iff given]
  ranges := RestrictedSet.ranges_foldl_allow _ _
  sourceExtensions := rfl
  documentationExtensions := rfl
  ignoredNames := rfl

end

/-- Whatever arguments ask for a scan spell things that are given.  With a configuration file that
is valid, and codepoints to allow that are, the configuration in effect is that of the file with
what is given put before it, and the scan is made with it and no other.  Of the values that can be
given only `auto` changes nothing. -/
theorem effective_of_arguments (parsed : Request.ofArguments arguments = .ok (.scan options)) :
    ∃ tokens, Spells tokens arguments ∧ tokens.foldlM Options.give {} = .ok options ∧
      ∀ fs base, Starts fs tokens base → AllowsCodepoints tokens →
        ∃ config, effective fs options = .ok config ∧ Overrides tokens base config ∧
          ∀ scanner output, runWith scanner fs arguments output =
            runWith (fun _ root => scanner config root) fs arguments output := by
  obtain ⟨tokens, spelled, given⟩ := ofArguments_eq_scan_iff.mp parsed
  refine ⟨tokens, spelled, given, fun fs base starts allows => ?_⟩
  have denote : ∀ text ∈ options.allow, ∃ c, Codepoint.parse text = .ok c :=
    fun text mem => allows text ((mem_allow_iff given).mp mem)
  obtain ⟨allowed, read⟩ := exists_map_eq_ok_iff.mpr denote
  have configured : effective fs options = .ok (override base options allowed) :=
    effective_eq_ok_iff.mpr ⟨base, allowed, (starts_iff given).mp starts, read, rfl⟩
  refine ⟨_, configured, overrides_override given read, fun scanner output => ?_⟩
  simp only [runWith, parsed, scanWith, configured]

def oneThread : FileSystem where
  objects := [([⟨Utf8.ofString "c.toml", by decide⟩],
    .file (Utf8.ofString "threads = 1\n") true)]

/-- The file fixes one thread, and asking for an automatic number changes nothing. -/
theorem effective_of_arguments_auto :
    Request.ofArguments (["--config", "c.toml", "--threads", "auto"].map Utf8.ofString) =
        .ok (.scan { config := some (Utf8.ofString "c.toml"), threads := some none }) ∧
      effective oneThread
          { config := some (Utf8.ofString "c.toml"), threads := some none } =
        .ok { Config.standard with threads := some 1 } ∧
      ∃ tokens,
        Spells tokens (["--config", "c.toml", "--threads", "auto"].map Utf8.ofString) ∧
        Overrides tokens { Config.standard with threads := some 1 }
          { Config.standard with threads := some 1 } := by
  have parsed : Request.ofArguments
      (["--config", "c.toml", "--threads", "auto"].map Utf8.ofString) =
        .ok (.scan { config := some (Utf8.ofString "c.toml"), threads := some none }) := by
    decide +kernel
  have loaded : Config.load oneThread (Utf8.ofString "c.toml") =
      .ok { Config.standard with threads := some 1 } :=
    toOption_eq_some_iff.mp (by decide +kernel)
  obtain ⟨tokens, spelled, given, overrides⟩ := effective_of_arguments parsed
  have starts : Starts oneThread tokens { Config.standard with threads := some 1 } :=
    (starts_iff given).mpr loaded
  have allows : AllowsCodepoints tokens := by
    intro text mem
    cases (mem_allow_iff given).mpr mem
  obtain ⟨config, configured, decided, -⟩ := overrides oneThread _ starts allows
  have same : effective oneThread
      { config := some (Utf8.ofString "c.toml"), threads := some none } =
        .ok { Config.standard with threads := some 1 } := by
    refine effective_eq_ok_iff.mpr ⟨_, [], loaded, rfl, rfl⟩
  rw [same] at configured
  cases configured
  exact ⟨parsed, same, tokens, spelled, decided⟩

end CommandLine
end HiddenText
