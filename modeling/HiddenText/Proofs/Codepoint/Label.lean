import HiddenText.Proofs.Codepoint.Spelling
import Mathlib.Algebra.Group.Nat.Defs

/-! # Labels and spellings denote their codepoints

Every spelling of a codepoint is read as that codepoint (`parse_spelling`), its label with as many
digits as it has among them (`parse_label`).  What carries this is that the digits of a number are
a numeral of it, whatever the case of each (`Hex.Numeral.of_lowerCase`) and with any number of
zeros before them (`Hex.Numeral.zeros`). -/
set_option autoImplicit false

namespace HiddenText

namespace Hex

/-! ## Digits of a fixed number -/

theorem valueFrom?_fixed (case : Case) : ∀ (width n seen : Nat),
    valueFrom? seen (fixed case width n) = some (16 ^ width * seen + n % 16 ^ width) := by
  intro width
  induction width with
  | zero =>
      intro n seen
      simp [fixed, valueFrom?, Nat.mod_one]
  | succ width ih =>
      intro n seen
      have last : n % 16 ^ (width + 1) = 16 * (n / 16 % 16 ^ width) + n % 16 := by
        rw [Nat.pow_succ, Nat.mul_comm, Nat.mod_mul]
        omega
      rw [fixed, valueFrom?_append, ih, Option.bind_some, valueFrom?,
        digitValue?_digit case (Nat.mod_lt n (by decide)), Option.bind_some, valueFrom?, last,
        Nat.pow_succ]
      congr 1
      rw [Nat.mul_add, Nat.mul_comm (16 ^ width) 16, Nat.mul_assoc]
      omega

theorem value?_fixed (case : Case) {width n : Nat} (fits : n < 16 ^ width) :
    value? (fixed case width n) = some n := by
  rw [value?, valueFrom?_fixed, Nat.mod_eq_of_lt fits]
  simp

theorem exists_digit_of_mem_fixed {case : Case} {c : Char} : ∀ {width n : Nat},
    c ∈ fixed case width n → ∃ d, d < 16 ∧ c = digit case d := by
  intro width
  induction width with
  | zero =>
      intro n known
      cases known
  | succ width ih =>
      intro n known
      rw [fixed, List.mem_append, List.mem_singleton] at known
      rcases known with earlier | last
      · exact ih earlier
      · exact ⟨n % 16, Nat.mod_lt n (by decide), last⟩

theorem numeral_fixed (case : Case) {width n : Nat} (fits : n < 16 ^ width)
    (positive : 0 < width) : Numeral (fixed case width n) n := by
  refine numeral_iff.mpr ⟨?_, value?_fixed case fits⟩
  obtain ⟨width, rfl⟩ := Nat.exists_eq_add_one.mpr positive
  exact List.append_ne_nil_of_right_ne_nil _ (List.cons_ne_nil _ _)

/-! ## All digits of a number -/

theorem digit_digitChar {d : Nat} (low : d < 16) : Digit d.digitChar d := by
  have table : ∀ d < 16, d.digitChar = digit .lower d := by decide
  exact ⟨low, .lower, table d low⟩

theorem numeral_toDigits (n : Nat) : Numeral (Nat.toDigits 16 n) n := by
  induction n using Nat.strongRecOn with
  | ind n ih =>
      by_cases small : n < 16
      · rw [Nat.toDigits_of_lt_base small]
        exact .digit (digit_digitChar small)
      · have earlier := ih (n / 16) (by omega)
        have whole := earlier.further (digit_digitChar (Nat.mod_lt n (by decide)))
        rw [Nat.div_add_mod] at whole
        rwa [Nat.toDigits_of_base_le (by decide) (Nat.le_of_not_lt small)]

theorem digitValue?_toLower (c : Char) : digitValue? c.toLower = digitValue? c := by
  by_cases capital : c.val ≥ 'A'.val ∧ c.val ≤ 'Z'.val
  · have table : ∀ n < 91, 65 ≤ n →
        digitValue? (Char.ofNat n).toLower = digitValue? (Char.ofNat n) := by decide
    have low : 65 ≤ c.toNat := capital.1
    have high : c.toNat ≤ 90 := capital.2
    have same := table c.toNat (by omega) low
    rwa [Char.ofNat_toNat] at same
  · have same : c.toLower = c := dif_neg capital
    rw [same]

theorem digit_toLower_iff {c : Char} {d : Nat} : Digit c.toLower d ↔ Digit c d := by
  rw [← digitValue?_eq_some_iff, digitValue?_toLower, digitValue?_eq_some_iff]

theorem Numeral.of_lowerCase {lower : List Char} {n : Nat} (h : Numeral lower n) :
    ∀ {digits : List Char}, digits.map Char.toLower = lower → Numeral digits n := by
  induction h with
  | digit h =>
      intro digits same
      obtain ⟨c, rfl, rfl⟩ := List.map_eq_singleton_iff.mp same
      exact .digit (digit_toLower_iff.mp h)
  | further _ h ih =>
      intro digits same
      obtain ⟨front, last, rfl, earlier, single⟩ := List.map_eq_append_iff.mp same
      obtain ⟨c, rfl, rfl⟩ := List.map_eq_singleton_iff.mp single
      exact .further (ih earlier) (digit_toLower_iff.mp h)

theorem Numeral.zeros {digits : List Char} {n : Nat} (h : Numeral digits n) (count : Nat) :
    Numeral (List.replicate count '0' ++ digits) n := by
  induction count with
  | zero => exact h
  | succ count ih =>
      obtain ⟨-, value⟩ := numeral_iff.mp ih
      exact numeral_iff.mpr ⟨List.cons_ne_nil _ _, value⟩

end Hex

namespace Codepoint

theorem label_fits (c : Char) : c.toNat < 16 ^ labelWidth c := by
  have bound : c.toNat < 0x110000 := by
    rcases c.valid with low | high
    · exact Nat.lt_trans low (by decide)
    · exact high.2
  rw [labelWidth]
  split
  · assumption
  · split
    · assumption
    · exact Nat.lt_trans bound (by decide)

theorem labelWidth_pos (c : Char) : 0 < labelWidth c := by
  rw [labelWidth]
  split
  · decide
  · split <;> decide

theorem label_toList (c : Char) :
    (label c).toList = 'U' :: '+' :: Hex.fixed .upper (labelWidth c) c.toNat :=
  String.toList_ofList

theorem parse_label (c : Char) : parse (label c) = .ok c := by
  have digits := Hex.numeral_fixed .upper (label_fits c) (labelWidth_pos c)
  refine parse_eq_ok_iff.mpr (.inl ⟨_, ⟨[], ['U', '+'], [], ?_⟩, digits⟩)
  refine ⟨List.forall_mem_nil _, by decide, List.forall_mem_nil _, ?_⟩
  rw [label_toList, List.append_nil]
  rfl

theorem label_injective : Function.Injective label := by
  intro c c' same
  have read := congrArg parse same
  rw [parse_label, parse_label] at read
  exact Except.ok.inj read

/-- A codepoint is read from its hexadecimal digits in any mixture of cases, after any number of
zeros and one marker or none, with any white space around, and from its label; other codepoints
have other labels. -/
theorem parse_spelling (c : Char) :
    (∀ (before marker digits after : List Char) (zeros : Nat),
      (∀ b ∈ before, Blank.isBlank b = true) → (∀ b ∈ after, Blank.isBlank b = true) →
      marker ∈ markers → digits.map Char.toLower = Nat.toDigits 16 c.toNat →
      parse (String.ofList
        (before ++ (marker ++ (List.replicate zeros '0' ++ digits)) ++ after)) = .ok c) ∧
      parse (label c) = .ok c ∧ ∀ d, label c = label d ↔ c = d := by
  refine ⟨?_, parse_label c, fun d => label_injective.eq_iff⟩
  intro before marker digits after zeros front back known lower
  have numeral : Hex.Numeral (List.replicate zeros '0' ++ digits) c.toNat :=
    ((Hex.numeral_toDigits c.toNat).of_lowerCase lower).zeros zeros
  refine parse_eq_ok_iff.mpr (.inl ⟨_, ⟨before, marker, after, ?_⟩, numeral⟩)
  exact ⟨front, known, back, String.toList_ofList⟩

/-- The byte order mark between an ideographic space and an ordinary one. -/
theorem parse_spelling_mark :
    (∀ b ∈ ['\u3000'], Blank.isBlank b = true) ∧ (∀ b ∈ [' '], Blank.isBlank b = true) ∧
      ['0', 'X'] ∈ markers ∧ ['f', 'E', 'F', 'f'].map Char.toLower = Nat.toDigits 16 0xFEFF ∧
      parse "\u30000X000000fEFf " = .ok '\uFEFF' := by
  have front : ∀ b ∈ ['\u3000'], Blank.isBlank b = true :=
    List.forall_mem_singleton.mpr (by decide)
  have back : ∀ b ∈ [' '], Blank.isBlank b = true := List.forall_mem_singleton.mpr (by decide)
  have marker : ['0', 'X'] ∈ markers := by decide
  have lower : ['f', 'E', 'F', 'f'].map Char.toLower = Nat.toDigits 16 0xFEFF := by decide
  exact ⟨front, back, marker, lower, (parse_spelling '\uFEFF').1 ['\u3000'] ['0', 'X']
    ['f', 'E', 'F', 'f'] [' '] 6 front back marker lower⟩

end Codepoint
end HiddenText
