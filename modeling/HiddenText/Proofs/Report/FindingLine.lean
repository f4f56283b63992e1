import HiddenText.Proofs.Codepoint.Label
import HiddenText.Proofs.Lists
import HiddenText.Report

/-! # The line of a finding

A line shows a path as it is, then how many occurrences there are and the samples.  Whatever the
path says, the line can be read back from its end (`findingLine_injective`): neither digits nor
samples contain a parenthesis, and digits no space. -/
set_option autoImplicit false

namespace HiddenText.Report

/-! ## Codepoints -/

/-- The characters that labels and names are made of. -/
def isPlain (d : Char) : Bool := d.isUpper || d.isDigit || d == '+' || d == '-' || d == ' '

theorem isPlain_digit : ∀ {d : Nat}, d < 16 → isPlain (Hex.digit .upper d) = true := by
  decide

theorem digit_ne_space : ∀ {d : Nat}, d < 16 → Hex.digit .upper d ≠ ' ' := by
  decide

theorem isPlain_label {c d : Char} (known : d ∈ (Codepoint.label c).toList) :
    isPlain d = true := by
  rw [Codepoint.label_toList] at known
  simp only [List.mem_cons] at known
  rcases known with rfl | rfl | digit
  · rfl
  · rfl
  · obtain ⟨v, low, rfl⟩ := Hex.exists_digit_of_mem_fixed digit
    exact isPlain_digit low

theorem space_notMem_label (c : Char) : ' ' ∉ (Codepoint.label c).toList := by
  rw [Codepoint.label_toList]
  intro known
  simp only [List.mem_cons, Char.reduceEq, false_or] at known
  obtain ⟨v, low, space⟩ := Hex.exists_digit_of_mem_fixed known
  exact digit_ne_space low space.symm

theorem isPlain_name {c : Char} {name : String} (named : Codepoint.name? c = some name) :
    name.toList.all isPlain = true := by
  rw [Codepoint.name?] at named
  split at named <;> first | (cases named; decide) | cases named

theorem isPlain_describe {c d : Char} (known : d ∈ (describe c).toList) : isPlain d = true := by
  rw [describe] at known
  split at known
  · rename_i name named
    rw [String.toList_append, String.toList_append, List.mem_append, List.mem_append] at known
    rcases known with (label | space) | name
    · exact isPlain_label label
    · rw [List.mem_singleton.mp space]
      rfl
    · exact List.all_eq_true.mp (isPlain_name named) d name
  · exact isPlain_label known

/-- What is said of a codepoint begins with its label, and nothing follows that without a space. -/
theorem exists_describe (c : Char) : ∃ more,
    (describe c).toList ++ [' '] = (Codepoint.label c).toList ++ ' ' :: more := by
  rw [describe]
  split
  · rename_i name named
    refine ⟨name.toList ++ [' '], ?_⟩
    simp only [String.toList_append, List.append_assoc]
    rfl
  · exact ⟨[], rfl⟩

theorem describe_injective : Function.Injective fun c => (describe c).toList := by
  intro c c' same
  obtain ⟨more, spaced⟩ := exists_describe c
  obtain ⟨more', spaced'⟩ := exists_describe c'
  rw [show (describe c).toList = (describe c').toList from same, spaced'] at spaced
  have labels := Lists.eq_of_append_cons_eq (space_notMem_label c') (space_notMem_label c) spaced
  exact (Codepoint.label_injective (String.toList_inj.mp labels.1)).symm

/-! ## Samples -/

def furtherSamples (samples : List Char) : List Char :=
  samples.flatMap fun c => ',' :: ' ' :: (describe c).toList

def samplesText (samples : List Char) : List Char :=
  (String.intercalate ", " (samples.map describe)).toList

theorem samplesText_cons (c : Char) (rest : List Char) :
    samplesText (c :: rest) = (describe c).toList ++ furtherSamples rest := by
  rw [samplesText, String.toList_intercalate]
  induction rest generalizing c with
  | nil => simp [furtherSamples]
  | cons d rest ih =>
      have tail := ih d
      rw [furtherSamples, List.flatMap_cons, ← furtherSamples]
      simp only [List.map_cons, List.intercalate_cons_cons] at tail ⊢
      rw [tail]
      simp

theorem isPlain_or_of_mem_samplesText {samples : List Char} {d : Char}
    (known : d ∈ samplesText samples) : isPlain d = true ∨ d = ',' := by
  cases samples with
  | nil => cases known
  | cons c rest =>
      rw [samplesText_cons, List.mem_append, furtherSamples, List.mem_flatMap] at known
      rcases known with first | ⟨e, -, later⟩
      · exact .inl (isPlain_describe first)
      · simp only [List.mem_cons] at later
        rcases later with rfl | rfl | described
        · exact .inr rfl
        · exact .inl rfl
        · exact .inl (isPlain_describe described)

theorem comma_notMem_describe (c : Char) : ',' ∉ (describe c).toList :=
  fun known => absurd (isPlain_describe known) (by decide)

theorem furtherSamples_cons (c : Char) (rest : List Char) : furtherSamples (c :: rest) =
    ',' :: (' ' :: (describe c).toList ++ furtherSamples rest) := rfl

/-- A description ends where a comma or nothing follows. -/
theorem eq_of_describe_append_eq {c c' : Char} {rest rest' : List Char}
    (same : (describe c).toList ++ furtherSamples rest =
      (describe c').toList ++ furtherSamples rest') :
    c = c' ∧ furtherSamples rest = furtherSamples rest' := by
  have ended : ∀ rest, ∃ more, furtherSamples rest ++ [','] = ',' :: more := by
    intro rest
    cases rest with
    | nil => exact ⟨[], rfl⟩
    | cons d rest => exact ⟨_, rfl⟩
  obtain ⟨more, comma⟩ := ended rest
  obtain ⟨more', comma'⟩ := ended rest'
  have closed : (describe c).toList ++ ',' :: more = (describe c').toList ++ ',' :: more' := by
    rw [← comma, ← comma', ← List.append_assoc, same, List.append_assoc]
  obtain ⟨described, rfl⟩ := Lists.eq_of_append_cons_eq (comma_notMem_describe c)
    (comma_notMem_describe c') closed
  exact ⟨describe_injective described, List.append_cancel_right (comma.trans comma'.symm)⟩

theorem furtherSamples_injective : Function.Injective furtherSamples := by
  intro samples
  induction samples with
  | nil =>
      rintro (_ | ⟨c, rest⟩) same
      · rfl
      · cases same
  | cons c rest ih =>
      rintro (_ | ⟨c', rest'⟩) same
      · cases same
      · rw [furtherSamples_cons, furtherSamples_cons] at same
        obtain ⟨rfl, further⟩ := eq_of_describe_append_eq (List.cons.inj (List.cons.inj same).2).2
        rw [ih further]

theorem describe_ne_nil (c : Char) : (describe c).toList ≠ [] := by
  intro none
  obtain ⟨more, spaced⟩ := exists_describe c
  rw [none, Codepoint.label_toList] at spaced
  cases spaced

theorem samplesText_injective : Function.Injective samplesText := by
  intro samples samples' same
  have filled : ∀ c rest, samplesText (c :: rest) ≠ [] := by
    intro c rest none
    rw [samplesText_cons] at none
    exact describe_ne_nil c (List.append_eq_nil_iff.mp none).1
  cases samples with
  | nil =>
      cases samples' with
      | nil => rfl
      | cons c' rest' => exact absurd same.symm (filled c' rest')
  | cons c rest =>
      cases samples' with
      | nil => exact absurd same (filled c rest)
      | cons c' rest' =>
          rw [samplesText_cons, samplesText_cons] at same
          obtain ⟨rfl, further⟩ := eq_of_describe_append_eq same
          rw [furtherSamples_injective further]

/-! ## Lines -/

def remark (f : Finding) : List Char :=
  [':', ' '] ++ f.occurrences.repr.toList ++ " occurrence".toList ++
    '(' :: ("s): ".toList ++ samplesText f.samples)

theorem findingLine_toList (f : Finding) :
    (findingLine f).toList = [' ', ' '] ++ f.path.toList ++ remark f := by
  have parted : " occurrence(s): ".toList = " occurrence".toList ++ '(' :: "s): ".toList := rfl
  simp only [findingLine, String.toList_append, parted, remark, samplesText, List.append_assoc,
    List.cons_append]
  rfl

theorem isDigit_of_mem_repr {n : Nat} {d : Char} (known : d ∈ n.repr.toList) :
    d.isDigit = true := by
  rw [Nat.repr_eq_ofList_toDigits, String.toList_ofList] at known
  exact Nat.isDigit_of_mem_toDigits (by decide) (by decide) known

theorem repr_injective : Function.Injective Nat.repr := by
  intro n n' same
  have read : ∀ n, Nat.ofDigitChars 10 n.repr.toList 0 = n := by
    intro n
    rw [Nat.repr_eq_ofList_toDigits, String.toList_ofList]
    exact Nat.ofDigitChars_toDigits (by decide) (by decide)
  rw [← read n, same, read n']

theorem notMem_samplesText {samples : List Char} {d : Char} (apart : isPlain d = false)
    (other : d ≠ ',') : d ∉ samplesText samples := by
  intro known
  rcases isPlain_or_of_mem_samplesText known with plain | comma
  · rw [apart] at plain
    cases plain
  · exact other comma

theorem newline_notMem_remark (f : Finding) : '\n' ∉ remark f := by
  have digits : '\n' ∉ f.occurrences.repr.toList :=
    fun known => absurd (isDigit_of_mem_repr known) (by decide)
  have samples : '\n' ∉ samplesText f.samples := notMem_samplesText (by decide) (by decide)
  simp only [remark, List.mem_append, List.mem_cons, List.not_mem_nil, or_false, not_or]
  exact ⟨⟨⟨by decide, digits⟩, by decide⟩, by decide, by decide, samples⟩

theorem paren_mem_remark (f : Finding) : '(' ∈ remark f := by
  rw [remark]
  exact List.mem_append_right _ (List.mem_cons_self ..)

theorem findingLine_injective : Function.Injective findingLine := by
  intro f f' same
  have closing : ∀ samples, '(' ∉ "s): ".toList ++ samplesText samples := by
    intro samples
    rw [List.mem_append, not_or]
    exact ⟨by decide, notMem_samplesText (by decide) (by decide)⟩
  have spaceless : ∀ n : Nat, ' ' ∉ n.repr.toList :=
    fun n known => absurd (isDigit_of_mem_repr known) (by decide)
  have lines := congrArg String.toList same
  simp only [findingLine_toList, remark, ← List.append_assoc] at lines
  obtain ⟨counted, behind⟩ := Lists.eq_of_append_cons_eq_of_notMem_right
    (closing f.samples) (closing f'.samples) lines
  have samples := samplesText_injective (List.append_cancel_left behind)
  have upToCount : [' ', ' '] ++ f.path.toList ++ [':'] ++ ' ' :: f.occurrences.repr.toList =
      [' ', ' '] ++ f'.path.toList ++ [':'] ++ ' ' :: f'.occurrences.repr.toList := by
    simpa using List.append_cancel_right counted
  obtain ⟨upToPath, digits⟩ := Lists.eq_of_append_cons_eq_of_notMem_right
    (spaceless f.occurrences) (spaceless f'.occurrences) upToCount
  have paths := List.append_cancel_left (List.append_cancel_right upToPath)
  cases f
  cases f'
  simp only [Finding.mk.injEq]
  exact ⟨String.toList_inj.mp paths, repr_injective (String.toList_inj.mp digits), samples⟩

end HiddenText.Report
