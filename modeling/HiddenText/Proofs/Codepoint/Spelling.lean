import HiddenText.Codepoint
import HiddenText.Proofs.Results
import Mathlib.Data.List.TakeWhile
import Mathlib.Data.List.Induction

/-! # What spells a codepoint

`Spells` is the grammar of labels and of the looser spellings: white space, one marker or none,
hexadecimal digits, and white space again.  What is read is this grammar and the same with a plus
sign before the digits (`parse_grammar`).  A text has at most one part that can stand in it as its
digits (`encloses_iff`), and digits have at most one value (`Hex.numeral_iff`). -/
set_option autoImplicit false

namespace HiddenText

/-! ## Numerals -/

namespace Hex

def Digit (c : Char) (d : Nat) : Prop := d < 16 ∧ ∃ case, c = digit case d

/-- One digit or more, the most significant first, denote a number. -/
inductive Numeral : List Char → Nat → Prop
  | digit {c : Char} {d : Nat} (h : Digit c d) : Numeral [c] d
  | further {digits : List Char} {n : Nat} {c : Char} {d : Nat} (earlier : Numeral digits n)
      (h : Digit c d) : Numeral (digits ++ [c]) (16 * n + d)

theorem digitValue?_digit (case : Case) : ∀ {d : Nat}, d < 16 →
    digitValue? (digit case d) = some d := by
  cases case <;> decide

theorem digitValue?_eq_some_iff {c : Char} {d : Nat} : digitValue? c = some d ↔ Digit c d := by
  constructor
  · intro value
    rw [digitValue?] at value
    split at value
    · rename_i decimal
      have low : 48 ≤ c.toNat := decimal.1
      have high : c.toNat ≤ 57 := decimal.2
      cases value
      refine ⟨by omega, .lower, ?_⟩
      rw [digit, if_pos (by omega), Nat.add_sub_cancel' low, Char.ofNat_toNat]
    · split at value
      · rename_i letter
        have low : 97 ≤ c.toNat := letter.1
        have high : c.toNat ≤ 102 := letter.2
        cases value
        refine ⟨by omega, .lower, ?_⟩
        rw [digit, if_neg (by omega), Nat.add_sub_cancel' (by omega), Char.ofNat_toNat]
      · split at value
        · rename_i letter
          have low : 65 ≤ c.toNat := letter.1
          have high : c.toNat ≤ 70 := letter.2
          cases value
          refine ⟨by omega, .upper, ?_⟩
          rw [digit, if_neg (by omega), Nat.add_sub_cancel' (by omega), Char.ofNat_toNat]
        · cases value
  · rintro ⟨low, case, rfl⟩
    exact digitValue?_digit case low

theorem valueFrom?_append : ∀ (digits more : List Char) (seen : Nat),
    valueFrom? seen (digits ++ more) =
      (valueFrom? seen digits).bind fun n => valueFrom? n more := by
  intro digits more
  induction digits with
  | nil => exact fun seen => rfl
  | cons c rest ih =>
      intro seen
      rw [List.cons_append, valueFrom?, valueFrom?]
      cases digitValue? c with
      | none => rfl
      | some d => exact ih _

theorem value?_concat_eq_some_iff {digits : List Char} {c : Char} {n : Nat} :
    value? (digits ++ [c]) = some n ↔
      ∃ m d, value? digits = some m ∧ Digit c d ∧ n = 16 * m + d := by
  rw [value?, valueFrom?_append, Option.bind_eq_some_iff]
  apply exists_congr
  intro m
  simp only [valueFrom?, Option.bind_eq_some_iff, digitValue?_eq_some_iff, Option.some.injEq]
  constructor
  · rintro ⟨value, d, here, rfl⟩
    exact ⟨d, value, here, rfl⟩
  · rintro ⟨d, value, here, rfl⟩
    exact ⟨value, d, here, rfl⟩

theorem numeral_iff : ∀ {digits : List Char} {n : Nat},
    Numeral digits n ↔ digits ≠ [] ∧ value? digits = some n := by
  intro digits n
  constructor
  · intro numeral
    induction numeral with
    | digit h =>
        refine ⟨List.cons_ne_nil _ _, ?_⟩
        rw [← List.nil_append [_], value?_concat_eq_some_iff]
        exact ⟨0, _, rfl, h, by omega⟩
    | further _ h ih =>
        refine ⟨List.append_ne_nil_of_right_ne_nil _ (List.cons_ne_nil _ _), ?_⟩
        rw [value?_concat_eq_some_iff]
        exact ⟨_, _, ih.2, h, rfl⟩
  · rintro ⟨some, value⟩
    induction digits using List.reverseRecOn generalizing n with
    | nil => exact absurd rfl some
    | append_singleton digits c ih =>
        obtain ⟨m, d, earlier, h, rfl⟩ := value?_concat_eq_some_iff.mp value
        by_cases first : digits = []
        · subst first
          cases earlier
          rw [Nat.mul_zero, Nat.zero_add]
          exact .digit h
        · exact .further (ih first earlier) h

end Hex

/-! ## White space -/

namespace Blank

theorem dropWhile_of_kept {core : List Char} (some : core ≠ [])
    (kept : ∀ c ∈ core, isBlank c = false) (more : List Char) :
    (core ++ more).dropWhile isBlank = core ++ more := by
  obtain ⟨c, rest, rfl⟩ := List.exists_cons_of_ne_nil some
  exact List.dropWhile_cons_of_neg (by simp [kept c])

theorem trim_around {before core after : List Char} (front : ∀ c ∈ before, isBlank c = true)
    (kept : ∀ c ∈ core, isBlank c = false) (back : ∀ c ∈ after, isBlank c = true) :
    trim (before ++ core ++ after) = core := by
  rw [trim, List.append_assoc, List.dropWhile_append_of_pos front]
  by_cases none : core = []
  · rw [none, List.nil_append, List.dropWhile_eq_nil_iff.mpr back]
    rfl
  · have kept' : ∀ c ∈ core.reverse, isBlank c = false :=
      fun c known => kept c (List.mem_reverse.mp known)
    have back' : ∀ c ∈ after.reverse, isBlank c = true :=
      fun c known => back c (List.mem_reverse.mp known)
    have turned := dropWhile_of_kept (mt List.reverse_eq_nil_iff.mp none) kept' []
    rw [List.append_nil] at turned
    rw [dropWhile_of_kept none kept, List.reverse_append, List.dropWhile_append_of_pos back',
      turned, List.reverse_reverse]

theorem exists_trim (text : List Char) : ∃ before after, (∀ c ∈ before, isBlank c = true) ∧
    (∀ c ∈ after, isBlank c = true) ∧ text = before ++ trim text ++ after := by
  let rest := text.dropWhile isBlank
  refine ⟨text.takeWhile isBlank, (rest.reverse.takeWhile isBlank).reverse,
    fun c known => List.mem_takeWhile_imp known,
    fun c known => List.mem_takeWhile_imp (List.mem_reverse.mp known), ?_⟩
  calc text = text.takeWhile isBlank ++ rest := List.takeWhile_append_dropWhile.symm
    _ = text.takeWhile isBlank ++
          (rest.reverse.takeWhile isBlank ++ rest.reverse.dropWhile isBlank).reverse := by
        rw [List.takeWhile_append_dropWhile (l := rest.reverse), List.reverse_reverse]
    _ = text.takeWhile isBlank ++ trim text ++ (rest.reverse.takeWhile isBlank).reverse := by
        rw [List.reverse_append, List.append_assoc]
        rfl

end Blank

namespace Codepoint

/-! ## The grammar -/

def markers : List (List Char) := [[], ['U', '+'], ['u', '+'], ['0', 'x'], ['0', 'X']]

/-- The text is `core` after one marker or none, with white space on both sides. -/
def Encloses (text core : List Char) : Prop :=
  ∃ before marker after, (∀ c ∈ before, Blank.isBlank c = true) ∧ marker ∈ markers ∧
    (∀ c ∈ after, Blank.isBlank c = true) ∧ text = before ++ (marker ++ core) ++ after

def Spells (text : List Char) (n : Nat) : Prop :=
  ∃ digits, Encloses text digits ∧ Hex.Numeral digits n

def SpellsSigned (text : List Char) (n : Nat) : Prop :=
  ∃ digits, Encloses text ('+' :: digits) ∧ Hex.Numeral digits n

def Plain (c : Char) : Prop := Blank.isBlank c = false ∧ c ∉ ['U', 'u', 'x', 'X']

instance (c : Char) : Decidable (Plain c) := inferInstanceAs (Decidable (_ ∧ _))

theorem plain_digit (case : Hex.Case) : ∀ {d : Nat}, d < 16 → Plain (Hex.digit case d) := by
  cases case <;> decide

theorem plain_of_numeral {digits : List Char} {n : Nat} (numeral : Hex.Numeral digits n) :
    ∀ c ∈ digits, Plain c := by
  have single : ∀ {c d}, Hex.Digit c d → Plain c := by
    rintro c d ⟨low, case, rfl⟩
    exact plain_digit case low
  induction numeral with
  | digit h =>
      intro c known
      rw [List.mem_singleton.mp known]
      exact single h
  | further _ h ih =>
      intro c known
      rcases List.mem_append.mp known with earlier | last
      · exact ih c earlier
      · rw [List.mem_singleton.mp last]
        exact single h

theorem exists_marker (text : List Char) :
    ∃ marker ∈ markers, text = marker ++ dropMarker text := by
  rw [dropMarker.eq_def]
  split
  · exact ⟨['U', '+'], by decide, rfl⟩
  · exact ⟨['u', '+'], by decide, rfl⟩
  · exact ⟨['0', 'x'], by decide, rfl⟩
  · exact ⟨['0', 'X'], by decide, rfl⟩
  · exact ⟨[], by decide, rfl⟩

theorem dropMarker_of_plain {text : List Char} (plain : ∀ c ∈ text, Plain c) :
    dropMarker text = text := by
  have letters : ∀ c ∈ text, c ∉ ['U', 'u', 'x', 'X'] := fun c known => (plain c known).2
  rw [dropMarker.eq_def]
  split <;> simp_all

theorem dropMarker_append {marker core : List Char} (known : marker ∈ markers)
    (plain : ∀ c ∈ core, Plain c) : dropMarker (marker ++ core) = core := by
  simp only [markers, List.mem_cons, List.not_mem_nil, or_false] at known
  rcases known with rfl | rfl | rfl | rfl | rfl
  · exact dropMarker_of_plain plain
  · rfl
  · rfl
  · rfl
  · rfl

theorem isBlank_of_marker {marker : List Char} (known : marker ∈ markers) :
    ∀ c ∈ marker, Blank.isBlank c = false := by
  have none : (markers.all fun marker => marker.all (!Blank.isBlank ·)) = true := by decide
  intro c mem
  simpa using List.all_eq_true.mp (List.all_eq_true.mp none marker known) c mem

/-- What is left of a text without its white space and its marker is enclosed in it, and of plain
characters nothing else is. -/
theorem encloses_rest (text : List Char) : Encloses text (dropMarker (Blank.trim text)) := by
  obtain ⟨before, after, front, back, split⟩ := Blank.exists_trim text
  obtain ⟨marker, known, rest⟩ := exists_marker (Blank.trim text)
  exact ⟨before, marker, after, front, known, back, rest ▸ split⟩

theorem encloses_iff {text core : List Char} (plain : ∀ c ∈ core, Plain c) :
    Encloses text core ↔ dropMarker (Blank.trim text) = core := by
  constructor
  · rintro ⟨before, marker, after, front, known, back, rfl⟩
    have kept : ∀ c ∈ marker ++ core, Blank.isBlank c = false := by
      intro c mem
      rcases List.mem_append.mp mem with inMarker | inCore
      · exact isBlank_of_marker known c inMarker
      · exact (plain c inCore).1
    rw [Blank.trim_around front kept back, dropMarker_append known plain]
  · rintro rfl
    exact encloses_rest text

/-! ## Reading -/

theorem number?_eq_some_iff {digits : List Char} {n : Nat} : number? digits = some n ↔
    n < 0x100000000 ∧
      (Hex.Numeral digits n ∨ ∃ rest, digits = '+' :: rest ∧ Hex.Numeral rest n) := by
  have value : ∀ unsigned : List Char, (if unsigned = [] then none
      else (Hex.value? unsigned).filter (· < 0x100000000)) = some n ↔
        n < 0x100000000 ∧ Hex.Numeral unsigned n := by
    intro unsigned
    rw [Hex.numeral_iff]
    by_cases none : unsigned = []
    · simp [none]
    · simp [none, Option.filter_eq_some_iff, and_comm]
  by_cases sign : ∃ rest, digits = '+' :: rest
  · obtain ⟨rest, rfl⟩ := sign
    have noDigit : ¬ Hex.Numeral ('+' :: rest) n := by
      intro numeral
      cases (Hex.numeral_iff.mp numeral).2
    refine (value rest).trans ?_
    simp [noDigit]
  · have noSign : ∀ rest, digits ≠ '+' :: rest := fun rest same => sign ⟨rest, same⟩
    have unsigned : number? digits = if digits = [] then none
        else (Hex.value? digits).filter (· < 0x100000000) := by
      rw [number?]
      exact noSign
    rw [unsigned, value]
    simp [noSign]

theorem number?_rest_eq_some_iff {text : List Char} {n : Nat} :
    number? (dropMarker (Blank.trim text)) = some n ↔
      n < 0x100000000 ∧ (Spells text n ∨ SpellsSigned text n) := by
  have spells : Spells text n ↔ Hex.Numeral (dropMarker (Blank.trim text)) n := by
    constructor
    · rintro ⟨digits, within, numeral⟩
      rwa [(encloses_iff (plain_of_numeral numeral)).mp within]
    · intro numeral
      exact ⟨_, encloses_rest text, numeral⟩
  have signed : SpellsSigned text n ↔
      ∃ rest, dropMarker (Blank.trim text) = '+' :: rest ∧ Hex.Numeral rest n := by
    apply exists_congr
    intro digits
    apply and_congr_left
    intro numeral
    apply encloses_iff
    intro c known
    rcases List.mem_cons.mp known with rfl | digit
    · decide
    · exact plain_of_numeral numeral c digit
  rw [number?_eq_some_iff, spells, signed]

theorem ofNat?_eq_some_iff {n : Nat} {c : Char} : ofNat? n = some c ↔ c.toNat = n := by
  rw [ofNat?]
  split
  · rename_i valid
    rw [Option.some.injEq]
    constructor
    · rintro rfl
      rw [Char.ofNat, dif_pos valid]
      rfl
    · rintro rfl
      exact Char.ofNat_toNat c
  · rename_i invalid
    constructor
    · intro h
      cases h
    · rintro rfl
      exact absurd c.valid invalid

theorem toNat_lt (c : Char) : c.toNat < 0x100000000 := c.val.toNat_lt

theorem read_eq_ok_iff {text : List Char} {c : Char} :
    read text = .ok c ↔ Spells text c.toNat ∨ SpellsSigned text c.toNat := by
  have number : read text = .ok c ↔ number? (dropMarker (Blank.trim text)) = some c.toNat := by
    rw [read]
    by_cases none : dropMarker (Blank.trim text) = []
    · rw [if_pos none, none]
      constructor <;> intro h <;> cases h
    · rw [if_neg none]
      cases number? (dropMarker (Blank.trim text)) with
      | none => simp
      | some n =>
          rw [Option.some.injEq, eq_comm (a := n), ← ofNat?_eq_some_iff]
          cases scalar : ofNat? n <;> simp [scalar]
  rw [number, number?_rest_eq_some_iff]
  exact and_iff_right (toNat_lt c)

/-- When a text that denotes no codepoint is at fault in this way. -/
def AtFault (text : List Char) : CodepointFault → Prop
  | .empty => Encloses text []
  | .notHexadecimal =>
    ¬ Encloses text [] ∧ ∀ n, Spells text n ∨ SpellsSigned text n → 0x100000000 ≤ n
  | .notScalar => ∃ n, (Spells text n ∨ SpellsSigned text n) ∧ n < 0x100000000 ∧ ¬ n.isValidChar
  | .reversed => False

theorem encloses_nil_iff {text : List Char} :
    Encloses text [] ↔ dropMarker (Blank.trim text) = [] :=
  encloses_iff (List.forall_mem_nil _)

theorem atFault_of_read {text : List Char} {fault : CodepointFault}
    (failed : read text = .error fault) : AtFault text fault := by
  rw [read] at failed
  by_cases none : dropMarker (Blank.trim text) = []
  · rw [if_pos none] at failed
    cases failed
    exact encloses_nil_iff.mpr none
  · rw [if_neg none] at failed
    cases number : number? (dropMarker (Blank.trim text)) with
    | none =>
        rw [number] at failed
        cases failed
        refine ⟨fun empty => none (encloses_nil_iff.mp empty), fun n spelled => ?_⟩
        apply Nat.le_of_not_lt
        intro small
        rw [number?_rest_eq_some_iff.mpr ⟨small, spelled⟩] at number
        cases number
    | some n =>
        rw [number] at failed
        obtain ⟨small, spelled⟩ := number?_rest_eq_some_iff.mp number
        cases scalar : ofNat? n with
        | some c => simp [scalar] at failed
        | none =>
            simp only [scalar] at failed
            cases failed
            refine ⟨n, spelled, small, fun valid => ?_⟩
            rw [ofNat?, if_pos valid] at scalar
            cases scalar

theorem read_of_atFault {text : List Char} {fault : CodepointFault} (h : AtFault text fault) :
    read text = .error fault := by
  rw [read]
  cases fault with
  | empty => rw [if_pos (encloses_nil_iff.mp h)]
  | notHexadecimal =>
      obtain ⟨some, large⟩ := h
      rw [if_neg fun none => some (encloses_nil_iff.mpr none)]
      cases number : number? (dropMarker (Blank.trim text)) with
      | none => rfl
      | some n =>
          obtain ⟨small, spelled⟩ := number?_rest_eq_some_iff.mp number
          exact absurd (large n spelled) (Nat.not_le_of_lt small)
  | notScalar =>
      obtain ⟨n, spelled, small, invalid⟩ := h
      have number := number?_rest_eq_some_iff.mpr ⟨small, spelled⟩
      have some : dropMarker (Blank.trim text) ≠ [] := by
        intro none
        rw [none] at number
        cases number
      rw [if_neg some, number]
      simp only [ofNat?, if_neg invalid]
  | reversed => cases h

theorem parse_eq_ok_iff {input : String} {c : Char} :
    parse input = .ok c ↔ Spells input.toList c.toNat ∨ SpellsSigned input.toList c.toNat := by
  rw [← read_eq_ok_iff, parse, mapError_eq_ok_iff]

theorem parse_eq_error_iff {input : String} {e : InvalidCodepoint} :
    parse input = .error e ↔ e.input = input ∧ AtFault input.toList e.fault := by
  have fault : AtFault input.toList e.fault ↔ read input.toList = .error e.fault :=
    ⟨read_of_atFault, atFault_of_read⟩
  obtain ⟨given, cause⟩ := e
  rw [fault, parse]
  cases read input.toList with
  | error other => simp [Except.mapError, eq_comm]
  | ok c => simp [Except.mapError]

/-- A text is read as a codepoint if and only if it spells its number, or would do so without a
plus sign right before the digits; any text whose number is a scalar value is read.  The error of
any other text carries the text as it was given, and tells whether nothing is left of it besides
white space and a marker, or no number of 32 bits is, or one that is no scalar value. -/
theorem parse_grammar (input : String) :
    (∀ c, parse input = .ok c ↔
        Spells input.toList c.toNat ∨ SpellsSigned input.toList c.toNat) ∧
      ((∃ c, parse input = .ok c) ↔
        ∃ n, (Spells input.toList n ∨ SpellsSigned input.toList n) ∧
          n ≤ 0x10FFFF ∧ ¬ (0xD800 ≤ n ∧ n ≤ 0xDFFF)) ∧
      ∀ e, parse input = .error e ↔ e.input = input ∧ AtFault input.toList e.fault := by
  refine ⟨fun c => parse_eq_ok_iff, ?_, fun e => parse_eq_error_iff⟩
  constructor
  · rintro ⟨c, read⟩
    have valid : c.toNat.isValidChar := c.valid
    exact ⟨c.toNat, parse_eq_ok_iff.mp read, by omega, by omega⟩
  · rintro ⟨n, spelled, high, low⟩
    have valid : n.isValidChar := by
      by_cases small : n < 0xD800
      · exact .inl small
      · exact .inr (by omega)
    obtain ⟨c, rfl⟩ : ∃ c : Char, c.toNat = n :=
      ⟨Char.ofNat n, ofNat?_eq_some_iff.mp (if_pos valid)⟩
    exact ⟨c, parse_eq_ok_iff.mpr spelled⟩

/-- A second plus sign is passed over, though no number is spelled with it. -/
theorem parse_grammar_plus :
    parse "U++202E" = .ok '\u202E' ∧ ∀ n, ¬ Spells "U++202E".toList n := by
  have signed : SpellsSigned "U++202E".toList 0x202E :=
    ⟨['2', '0', '2', 'E'],
      ⟨[], ['U', '+'], [], List.forall_mem_nil _, by decide, List.forall_mem_nil _, rfl⟩,
      Hex.numeral_iff.mpr (by decide)⟩
  refine ⟨((parse_grammar _).1 '\u202E').mpr (.inr signed), ?_⟩
  rintro n ⟨digits, within, numeral⟩
  have rest : dropMarker (Blank.trim "U++202E".toList) = ['+', '2', '0', '2', 'E'] := by decide
  obtain rfl := rest.symm.trans ((encloses_iff (plain_of_numeral numeral)).mp within)
  cases (Hex.numeral_iff.mp numeral).2

end Codepoint
end HiddenText
