import HiddenText.Codepoint
import HiddenText.Proofs.Codepoint.Label
import HiddenText.Proofs.Results

/-! # What denotes a range

A text denotes a range if it denotes one codepoint, or if what stands before its first two dots and
what stands after them do, and the first is not greater than the second (`parse_dotted`).  A label
of a range denotes that range, so that each range has one text to which all others come when they
are read and shown again. -/
set_option autoImplicit false

namespace HiddenText.CodepointRange

/-! ## The first two dots -/

/-- The text falls into what stands before its first two dots and what stands after them. -/
def CutsAtDots (text before after : List Char) : Prop :=
  text = before ++ '.' :: '.' :: after ∧ ¬ ['.', '.'] <:+: before ++ ['.']

theorem cutsAtDots_nil_iff {text after : List Char} :
    CutsAtDots text [] after ↔ text = '.' :: '.' :: after :=
  and_iff_left (by decide)

theorem cutsAtDots_cons_iff {c : Char} {text before after : List Char} :
    CutsAtDots (c :: text) (c :: before) after ↔
      ¬ ['.', '.'] <+: c :: text ∧ CutsAtDots text before after := by
  -- Whether dots stand at the front is seen from the part before the cut and one dot more.
  have front : text = before ++ '.' :: '.' :: after →
      (['.', '.'] <+: c :: text ↔ ['.', '.'] <+: c :: (before ++ ['.'])) := by
    rintro rfl
    have part : c :: (before ++ ['.']) <+: c :: (before ++ '.' :: '.' :: after) :=
      ⟨'.' :: after, by simp⟩
    constructor
    · intro dots
      exact List.prefix_of_prefix_length_le dots part (by simp)
    · intro dots
      exact dots.trans part
  rw [CutsAtDots, CutsAtDots, List.cons_append, List.cons_append, List.cons.injEq,
    List.infix_cons_iff, not_or]
  constructor
  · rintro ⟨⟨-, same⟩, here, first⟩
    exact ⟨(front same).not.mpr here, same, first⟩
  · rintro ⟨here, same, first⟩
    exact ⟨⟨rfl, same⟩, (front same).not.mp here, first⟩

theorem splitDots_cons {c : Char} {text : List Char} (other : ¬ ['.', '.'] <+: c :: text) :
    splitDots (c :: text) =
      (splitDots text).map fun (before, after) => (c :: before, after) := by
  rw [splitDots]
  rintro more rfl rfl
  exact other ⟨more, rfl⟩

theorem splitDots_eq_none_iff {text : List Char} :
    splitDots text = none ↔ ¬ ['.', '.'] <:+: text := by
  induction text with
  | nil => simp [splitDots]
  | cons c text ih =>
      rw [List.infix_cons_iff, not_or, ← ih]
      by_cases here : ['.', '.'] <+: c :: text
      · obtain ⟨after, same⟩ := here
        rw [← same]
        simp [splitDots]
      · rw [splitDots_cons here, Option.map_eq_none_iff]
        exact (and_iff_right here).symm

theorem cutsAtDots_here_iff {rest before after : List Char} :
    CutsAtDots ('.' :: '.' :: rest) before after ↔ before = [] ∧ rest = after := by
  cases before with
  | nil => simp [cutsAtDots_nil_iff]
  | cons c before =>
      constructor
      · intro cuts
        obtain ⟨rfl, -⟩ := List.cons.inj cuts.1
        exact absurd ⟨rest, rfl⟩ (cutsAtDots_cons_iff.mp cuts).1
      · rintro ⟨none, -⟩
        cases none

theorem cutsAtDots_further_iff {c : Char} {text before after : List Char}
    (other : ¬ ['.', '.'] <+: c :: text) :
    CutsAtDots (c :: text) before after ↔
      ∃ front, CutsAtDots text front after ∧ c :: front = before := by
  constructor
  · intro cuts
    cases before with
    | nil => exact absurd ⟨after, (cutsAtDots_nil_iff.mp cuts).symm⟩ other
    | cons d front =>
        obtain ⟨rfl, -⟩ := List.cons.inj cuts.1
        exact ⟨front, (cutsAtDots_cons_iff.mp cuts).2, rfl⟩
  · rintro ⟨front, cuts, rfl⟩
    exact cutsAtDots_cons_iff.mpr ⟨other, cuts⟩

theorem splitDots_eq_some_iff {after : List Char} : ∀ {text before : List Char},
    splitDots text = some (before, after) ↔ CutsAtDots text before after := by
  intro text
  induction text with
  | nil =>
      intro before
      simp [splitDots, CutsAtDots]
  | cons c text ih =>
      intro before
      by_cases here : ['.', '.'] <+: c :: text
      · obtain ⟨rest, same⟩ := here
        rw [← same, List.cons_append, List.singleton_append, cutsAtDots_here_iff]
        simp [splitDots, eq_comm]
      · rw [splitDots_cons here, cutsAtDots_further_iff here, Option.map_eq_some_iff]
        simp only [← ih, Prod.exists, Prod.mk.injEq]
        constructor
        · rintro ⟨front, rest, found, same, rfl⟩
          exact ⟨front, found, same⟩
        · rintro ⟨front, found, same⟩
          exact ⟨front, after, found, same, rfl⟩

/-! ## Reading -/

theorem between_eq_ok_iff {lo hi : Char} {r : CodepointRange} :
    between lo hi = .ok r ↔ lo ≤ hi ∧ r.first = lo ∧ r.last = hi := by
  rw [between]
  split
  · rename_i ordered
    rw [Except.ok.injEq]
    constructor
    · rintro rfl
      exact ⟨ordered, rfl, rfl⟩
    · rintro ⟨-, rfl, rfl⟩
      rfl
  · rename_i reversed
    simp [reversed]

theorem parse_of_undotted {input : String} {r : CodepointRange}
    (undotted : ¬ ['.', '.'] <:+: input.toList) :
    parse input = .ok r ↔ Codepoint.parse input = .ok r.first ∧ r.last = r.first := by
  rw [parse, splitDots_eq_none_iff.mpr undotted, map_eq_ok_iff]
  constructor
  · rintro ⟨c, read, rfl⟩
    exact ⟨read, rfl⟩
  · rintro ⟨read, same⟩
    refine ⟨r.first, read, ?_⟩
    cases r
    cases same
    rfl

theorem parse_of_cutsAtDots {input : String} {before after : List Char} {r : CodepointRange}
    (cuts : CutsAtDots input.toList before after) :
    parse input = .ok r ↔ Codepoint.parse (String.ofList before) = .ok r.first ∧
      Codepoint.parse (String.ofList after) = .ok r.last := by
  rw [parse, splitDots_eq_some_iff.mpr cuts]
  simp only [bind_eq_ok_iff, between_eq_ok_iff]
  constructor
  · rintro ⟨lo, low, hi, high, -, rfl, rfl⟩
    exact ⟨low, high⟩
  · rintro ⟨low, high⟩
    exact ⟨r.first, low, r.last, high, r.first_le_last, rfl, rfl⟩

theorem dotted_of_cutsAtDots {text before after : List Char}
    (cuts : CutsAtDots text before after) : ['.', '.'] <:+: text :=
  ⟨before, after, by simp [cuts.1]⟩

theorem cutsAtDots_or (text : List Char) :
    ¬ ['.', '.'] <:+: text ∨ ∃ before after, CutsAtDots text before after := by
  cases split : splitDots text with
  | none => exact .inl (splitDots_eq_none_iff.mp split)
  | some parts => exact .inr ⟨parts.1, parts.2, splitDots_eq_some_iff.mp split⟩

/-! ## Labels -/

theorem dot_notMem_label (c : Char) : '.' ∉ (Codepoint.label c).toList := by
  have digits : ∀ d < 16, Hex.digit .upper d ≠ '.' := by decide
  rw [Codepoint.label_toList]
  intro known
  simp only [List.mem_cons, Char.reduceEq, false_or] at known
  obtain ⟨d, low, dot⟩ := Hex.exists_digit_of_mem_fixed known
  exact digits d low dot.symm

theorem undotted_label (c : Char) : ¬ ['.', '.'] <:+: (Codepoint.label c).toList :=
  fun dots => dot_notMem_label c (dots.subset (List.mem_cons_self ..))

theorem cutsAtDots_labels (lo hi : Char) :
    CutsAtDots (Codepoint.label lo ++ ".." ++ Codepoint.label hi).toList
      (Codepoint.label lo).toList (Codepoint.label hi).toList := by
  refine ⟨?_, fun dots => ?_⟩
  · rw [String.toList_append, String.toList_append, List.append_assoc]
    rfl
  · have twice := dots.sublist.count_le '.'
    rw [List.count_append, List.count_eq_zero_of_not_mem (dot_notMem_label lo)] at twice
    exact absurd twice (by decide)

theorem parse_label (r : CodepointRange) : parse (label r) = .ok r := by
  rw [label]
  split
  · rename_i same
    exact (parse_of_undotted (undotted_label r.first)).mpr ⟨Codepoint.parse_label _, same.symm⟩
  · refine (parse_of_cutsAtDots (cutsAtDots_labels r.first r.last)).mpr ⟨?_, ?_⟩
    · rw [String.ofList_toList, Codepoint.parse_label]
    · rw [String.ofList_toList, Codepoint.parse_label]

theorem label_injective : Function.Injective label := by
  intro r s same
  have read := congrArg parse same
  rw [parse_label, parse_label] at read
  exact Except.ok.inj read

/-! ## All texts of a range -/

theorem parse_eq_ok_iff {input : String} {r : CodepointRange} :
    parse input = .ok r ↔
      ¬ ['.', '.'] <:+: input.toList ∧ Codepoint.parse input = .ok r.first ∧ r.last = r.first ∨
      ∃ before after, CutsAtDots input.toList before after ∧
        Codepoint.parse (String.ofList before) = .ok r.first ∧
        Codepoint.parse (String.ofList after) = .ok r.last := by
  rcases cutsAtDots_or input.toList with undotted | ⟨before, after, cuts⟩
  · rw [parse_of_undotted undotted]
    constructor
    · exact fun read => .inl ⟨undotted, read⟩
    · rintro (⟨-, read⟩ | ⟨before, after, cuts, -⟩)
      · exact read
      · exact absurd (dotted_of_cutsAtDots cuts) undotted
  · rw [parse_of_cutsAtDots cuts]
    constructor
    · exact fun read => .inr ⟨before, after, cuts, read⟩
    · rintro (⟨undotted, -⟩ | ⟨before', after', cuts', read⟩)
      · exact absurd (dotted_of_cutsAtDots cuts) undotted
      · have same := (splitDots_eq_some_iff.mpr cuts').symm.trans (splitDots_eq_some_iff.mpr cuts)
        cases same
        exact read

/-- A range has ends in order, and is made of two codepoints in order, of one codepoint, or read
from a text: of one codepoint if there are not two dots side by side in it, and otherwise of two
that are in order, around the first two dots.  It is read from its label, and other ranges have
other labels; so showing what was read and reading that again changes nothing. -/
theorem parse_dotted :
    (∀ r : CodepointRange, r.first ≤ r.last ∧ r.first.toNat.isValidChar ∧
      r.last.toNat.isValidChar ∧ parse (label r) = .ok r) ∧
      (∀ lo hi r, between lo hi = .ok r ↔ lo ≤ hi ∧ r.first = lo ∧ r.last = hi) ∧
      (∀ c, (single c).first = c ∧ (single c).last = c) ∧
      (∀ input r, parse input = .ok r ↔
        ¬ ['.', '.'] <:+: input.toList ∧ Codepoint.parse input = .ok r.first ∧ r.last = r.first ∨
        ∃ before after, CutsAtDots input.toList before after ∧
          Codepoint.parse (String.ofList before) = .ok r.first ∧
          Codepoint.parse (String.ofList after) = .ok r.last) ∧
      (∀ input, (∃ r, parse input = .ok r) ↔
        ¬ ['.', '.'] <:+: input.toList ∧ (∃ c, Codepoint.parse input = .ok c) ∨
        ∃ before after lo hi, CutsAtDots input.toList before after ∧
          Codepoint.parse (String.ofList before) = .ok lo ∧
          Codepoint.parse (String.ofList after) = .ok hi ∧ lo ≤ hi) ∧
      (∀ r s, label r = label s ↔ r = s) ∧
      ∀ input, ((parse input).map label).bind (fun text => (parse text).map label) =
        (parse input).map label := by
  refine ⟨fun r => ⟨r.first_le_last, r.first.valid, r.last.valid, parse_label r⟩,
    fun lo hi r => between_eq_ok_iff, fun c => ⟨rfl, rfl⟩, fun input r => parse_eq_ok_iff,
    fun input => ?_, fun r s => label_injective.eq_iff, fun input => ?_⟩
  · simp only [parse_eq_ok_iff]
    constructor
    · rintro ⟨r, ⟨undotted, read, -⟩ | ⟨before, after, cuts, low, high⟩⟩
      · exact .inl ⟨undotted, r.first, read⟩
      · exact .inr ⟨before, after, r.first, r.last, cuts, low, high, r.first_le_last⟩
    · rintro (⟨undotted, c, read⟩ | ⟨before, after, lo, hi, cuts, low, high, ordered⟩)
      · exact ⟨single c, .inl ⟨undotted, read, rfl⟩⟩
      · exact ⟨⟨lo, hi, ordered⟩, .inr ⟨before, after, cuts, low, high⟩⟩
  · cases parse input with
    | error e => rfl
    | ok r =>
        show (parse (label r)).map label = _
        rw [parse_label]

end HiddenText.CodepointRange
