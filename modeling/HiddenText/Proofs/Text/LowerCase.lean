import HiddenText.Proofs.Text.Utf8
import HiddenText.Text.Characters

/-! # Lower case is reached in one pass

A character of a text in lower case is left as it is wherever it stands, so that putting such a
text into lower case changes nothing (`ofText_ofText`).  What is not left as it is becomes letters
and a combining mark: no white space, dot or slash comes from any other character (`inert`). -/
set_option autoImplicit false

namespace HiddenText

/-! ## The table leads nowhere twice -/

namespace CaseTable

def Run.target (r : Run) (n : Nat) : Nat := (n + r.shift).toNat

/-- No member of `r` is mapped to a member of `s`: their ranges do not meet, or one lies in the
gaps of the other. -/
def Run.clearOf (r s : Run) : Bool :=
  (r.target r.last).blt s.first || s.last.blt (r.target r.first) ||
    ((r.stride == 2 || r.first == r.last) && s.stride == 2 &&
      (r.target r.first + s.first) % 2 == 1)

def Run.misses (r : Run) (range : Nat × Nat) : Bool :=
  (r.target r.last).blt range.1 || range.2.blt (r.target r.first)

theorem lowerRuns_clear : (lowerRuns.all fun r => lowerRuns.all r.clearOf) = true := by
  decide +kernel

/-- What lies below the small letters, the capital I with dot, surrogates, and white space. -/
def avoided : List (Nat × Nat) := (0, 0x60) :: (0x130, 0x130) :: (0xD800, 0xDFFF) :: Blank.ranges

theorem lowerRuns_miss : (lowerRuns.all fun r => avoided.all r.misses) = true := by decide +kernel

theorem lowerRuns_bounded :
    (lowerRuns.all fun r => r.first.ble r.last && (r.target r.last).blt 0x110000 &&
      (0 ≤ r.first + r.shift)) = true := by
  decide +kernel

theorem Run.holds_iff {r : Run} {n : Nat} :
    r.holds n = true ↔ r.first ≤ n ∧ n ≤ r.last ∧ (n - r.first) % r.stride = 0 := by
  simp [holds, and_assoc]

variable {r : Run} {n : Nat}

theorem target_bounds (mem : r ∈ lowerRuns) (held : r.holds n = true) :
    r.target r.first ≤ r.target n ∧ r.target n ≤ r.target r.last ∧
      (r.target n : Int) = n + r.shift ∧ (r.target r.first : Int) = r.first + r.shift ∧
      r.target n < 0x110000 := by
  have bounded := List.all_eq_true.mp lowerRuns_bounded r mem
  simp only [Bool.and_eq_true, Nat.ble_eq, Nat.blt_eq, decide_eq_true_eq] at bounded
  obtain ⟨low, high, -⟩ := Run.holds_iff.mp held
  simp only [Run.target] at bounded ⊢
  omega

theorem target_misses (mem : r ∈ lowerRuns) (held : r.holds n = true) :
    ∀ range ∈ avoided, ¬ (range.1 ≤ r.target n ∧ r.target n ≤ range.2) := by
  intro range known
  have misses := List.all_eq_true.mp (List.all_eq_true.mp lowerRuns_miss r mem) range known
  simp only [Run.misses, Bool.or_eq_true, Nat.blt_eq] at misses
  obtain ⟨low, high, -⟩ := target_bounds mem held
  omega

theorem not_holds_target (mem : r ∈ lowerRuns) (held : r.holds n = true) :
    ∀ s ∈ lowerRuns, s.holds (r.target n) = false := by
  intro s known
  have clear := List.all_eq_true.mp (List.all_eq_true.mp lowerRuns_clear r mem) s known
  simp only [Run.clearOf, Bool.or_eq_true, Bool.and_eq_true, Nat.blt_eq, beq_iff_eq] at clear
  obtain ⟨low, high, image, start, -⟩ := target_bounds mem held
  obtain ⟨first, last, step⟩ := Run.holds_iff.mp held
  rw [Bool.eq_false_iff]
  intro holds
  obtain ⟨above, below, even⟩ := Run.holds_iff.mp holds
  rcases clear with (before | behind) | ⟨⟨two | one, stride⟩, odd⟩
  · omega
  · omega
  · rw [two] at step
    rw [stride] at even
    omega
  · rw [stride] at even
    omega

end CaseTable

namespace LowerCase

/-! ## Single characters -/

def Settled (c : Char) : Prop := ofChar c = [c]

/-- No other character is mapped to the character. -/
def Inert (c : Char) : Prop := c.toNat < 0x61 ∨ Blank.isBlank c = true

instance (c : Char) : Decidable (Settled c) := inferInstanceAs (Decidable (_ = _))

instance (c : Char) : Decidable (Inert c) := inferInstanceAs (Decidable (_ ∨ _))

theorem settled_toLower {c : Char} (ascii : c.toNat < 0x80) :
    Settled c.toLower ∧ (Inert c.toLower → c.toLower = c) := by
  have table : ∀ n < 128, Settled (Char.ofNat n).toLower ∧
      (Inert (Char.ofNat n).toLower → (Char.ofNat n).toLower = Char.ofNat n) := by decide
  have entry := table c.toNat ascii
  rwa [Char.ofNat_toNat] at entry

theorem settled_of_letter {c : Char} (low : 0x61 ≤ c.toNat) (ascii : c.toNat < 0x80) :
    Settled c := by
  have table : ∀ n < 128, 0x61 ≤ n → (Char.ofNat n).toLower = Char.ofNat n := by decide
  have same := table c.toNat ascii low
  rw [Char.ofNat_toNat] at same
  exact same ▸ (settled_toLower ascii).1

theorem settled_of_notHeld {c : Char} (high : 0x80 ≤ c.toNat) (dotless : c.toNat ≠ 0x130)
    (free : ∀ s ∈ CaseTable.lowerRuns, s.holds c.toNat = false) : Settled c := by
  have other : c ≠ '\u0130' := by
    rintro rfl
    exact dotless rfl
  have none : CaseTable.lowerRuns.find? (·.holds c.toNat) = none :=
    List.find?_eq_none.mpr fun s mem => by simp [free s mem]
  rw [Settled, ofChar, if_neg (Nat.not_lt.mpr high), if_neg other, none]

theorem not_inert_of_avoided {c : Char}
    (avoids : ∀ range ∈ CaseTable.avoided, ¬ (range.1 ≤ c.toNat ∧ c.toNat ≤ range.2)) :
    ¬ Inert c := by
  rintro (low | blank)
  · exact avoids (0, 0x60) (by simp [CaseTable.avoided]) ⟨Nat.zero_le _, by omega⟩
  · obtain ⟨range, mem, within⟩ := List.any_eq_true.mp blank
    exact avoids range (by simp [CaseTable.avoided, mem]) (by simpa using within)

/-- What a run leads to is settled, and is nothing that stays by itself. -/
theorem settled_target {r : CaseTable.Run} {n : Nat} (mem : r ∈ CaseTable.lowerRuns)
    (held : r.holds n = true) :
    Settled (Char.ofNat (r.target n)) ∧ ¬ Inert (Char.ofNat (r.target n)) := by
  obtain ⟨-, -, -, -, bound⟩ := CaseTable.target_bounds mem held
  have misses := CaseTable.target_misses mem held
  have low := misses (0, 0x60) (by simp [CaseTable.avoided])
  have dotless := misses (0x130, 0x130) (by simp [CaseTable.avoided])
  have scalar := misses (0xD800, 0xDFFF) (by simp [CaseTable.avoided])
  have valid : (r.target n).isValidChar := by
    rw [Nat.isValidChar]
    omega
  have same : (Char.ofNat (r.target n)).toNat = r.target n := Utf8.toNat_val_ofNat valid
  refine ⟨?_, not_inert_of_avoided (by rwa [same])⟩
  by_cases ascii : r.target n < 0x80
  · exact settled_of_letter (by omega) (by omega)
  · refine settled_of_notHeld (by omega) (by omega) ?_
    rw [same]
    exact CaseTable.not_holds_target mem held

theorem ofChar_ne_nil (c : Char) : ofChar c ≠ [] := by
  rw [ofChar]
  split
  · exact List.cons_ne_nil _ _
  · split
    · exact List.cons_ne_nil _ _
    · split <;> exact List.cons_ne_nil _ _

/-- What a character becomes is settled; what stays by itself comes from nothing else. -/
theorem settled_of_mem_ofChar {c d : Char} (mem : d ∈ ofChar c) :
    Settled d ∧ (Inert d → d = c) := by
  rw [ofChar] at mem
  split at mem
  case isTrue ascii =>
    rw [List.mem_singleton.mp mem]
    exact settled_toLower ascii
  case isFalse high =>
    split at mem
    case isTrue dotted =>
      have pieces : ∀ d ∈ ['i', '\u0307'], Settled d ∧ ¬ Inert d := List.forall_mem_cons.mpr
        ⟨by decide +kernel, List.forall_mem_singleton.mpr (by decide +kernel)⟩
      obtain ⟨settled, mapped⟩ := pieces d mem
      exact ⟨settled, fun inert => absurd inert mapped⟩
    case isFalse dotless =>
      split at mem
      case h_1 r found =>
        rw [List.mem_singleton.mp mem]
        have held : r.holds c.toNat = true := by simpa using List.find?_some found
        obtain ⟨settled, mapped⟩ := settled_target (List.mem_of_find?_eq_some found) held
        exact ⟨settled, fun inert => absurd inert mapped⟩
      case h_2 none =>
        rw [List.mem_singleton.mp mem]
        refine ⟨settled_of_notHeld (Nat.not_lt.mp high) ?_ ?_, fun _ => rfl⟩
        · intro same
          exact dotless (Char.ofNat_toNat c ▸ same ▸ rfl)
        · intro s known
          simpa using List.find?_eq_none.mp none s known

/-! ## Texts -/

/-- The piece that a character becomes, in whatever text it stands. -/
theorem exists_piece (before : List Char) (c : Char) (rest : List Char) :
    ∃ piece, after before (c :: rest) = piece ++ after (c :: before) rest ∧ piece ≠ [] ∧
      ∀ d ∈ piece, Settled d ∧ (Inert d → d = c) := by
  have sigmas : ∀ d ∈ ['\u03C2', '\u03C3'], Settled d ∧ ¬ Inert d := List.forall_mem_cons.mpr
    ⟨by decide +kernel, List.forall_mem_singleton.mpr (by decide +kernel)⟩
  by_cases sigma : c = '\u03A3'
  · have either : ∃ d ∈ ['\u03C2', '\u03C3'],
        after before (c :: rest) = [d] ++ after (c :: before) rest := by
      rw [after, if_pos sigma]
      split
      · exact ⟨_, List.mem_cons_self .., rfl⟩
      · exact ⟨_, List.mem_cons_of_mem _ (List.mem_cons_self ..), rfl⟩
    obtain ⟨d, known, whole⟩ := either
    obtain ⟨settled, mapped⟩ := sigmas d known
    refine ⟨[d], whole, List.cons_ne_nil _ _, ?_⟩
    intro e mem
    rw [List.mem_singleton.mp mem]
    exact ⟨settled, fun inert => absurd inert mapped⟩
  · refine ⟨ofChar c, ?_, ofChar_ne_nil c, fun d mem => settled_of_mem_ofChar mem⟩
    rw [after, if_neg sigma]

theorem mem_after {d : Char} : ∀ {text before : List Char}, d ∈ after before text →
    Settled d ∧ (Inert d → d ∈ text) := by
  intro text
  induction text with
  | nil =>
      intro before mem
      cases mem
  | cons c text ih =>
      intro before mem
      obtain ⟨piece, whole, -, pieces⟩ := exists_piece before c text
      rw [whole, List.mem_append] at mem
      rcases mem with here | later
      · obtain ⟨settled, same⟩ := pieces d here
        exact ⟨settled, fun inert => same inert ▸ List.mem_cons_self ..⟩
      · obtain ⟨settled, further⟩ := ih later
        exact ⟨settled, fun inert => List.mem_cons_of_mem _ (further inert)⟩

theorem settled_of_mem_ofText {text : List Char} {d : Char} (mem : d ∈ ofText text) :
    Settled d := (mem_after mem).1

theorem mem_of_mem_ofText {text : List Char} {d : Char} (mem : d ∈ ofText text)
    (inert : Inert d) : d ∈ text := (mem_after mem).2 inert

theorem after_of_settled : ∀ {text : List Char} (before : List Char), (∀ c ∈ text, Settled c) →
    after before text = text := by
  intro text
  induction text with
  | nil =>
      intro before _
      rfl
  | cons c text ih =>
      intro before settled
      have here : ofChar c = [c] := settled c (List.mem_cons_self ..)
      have sigma : c ≠ '\u03A3' := by
        rintro rfl
        exact absurd here (by decide +kernel)
      rw [after, if_neg sigma, here, ih _ fun d mem => settled d (List.mem_cons_of_mem c mem)]
      rfl

theorem ofText_of_settled {text : List Char} (settled : ∀ c ∈ text, Settled c) :
    ofText text = text := after_of_settled [] settled

theorem ofText_ofText (text : List Char) : ofText (ofText text) = ofText text :=
  ofText_of_settled fun _ mem => settled_of_mem_ofText mem

theorem after_eq_nil_iff {text before : List Char} : after before text = [] ↔ text = [] := by
  cases text with
  | nil => exact iff_of_true rfl rfl
  | cons c text =>
      obtain ⟨piece, whole, some, -⟩ := exists_piece before c text
      rw [whole, List.append_eq_nil_iff]
      exact iff_of_false (fun none => some none.1) (List.cons_ne_nil _ _)

theorem head?_after {d : Char} {text before : List Char}
    (first : (after before text).head? = some d) (inert : Inert d) : text.head? = some d := by
  cases text with
  | nil => cases first
  | cons c text =>
      obtain ⟨piece, whole, some, pieces⟩ := exists_piece before c text
      obtain ⟨e, more, rfl⟩ := List.exists_cons_of_ne_nil some
      rw [whole] at first
      obtain rfl := Option.some.inj first
      exact congrArg Option.some ((pieces e (List.mem_cons_self ..)).2 inert).symm

theorem getLast?_after {d : Char} (inert : Inert d) : ∀ {text before : List Char},
    (after before text).getLast? = some d → text.getLast? = some d := by
  intro text
  induction text with
  | nil =>
      intro before last
      cases last
  | cons c text ih =>
      intro before last
      obtain ⟨piece, whole, -, pieces⟩ := exists_piece before c text
      rw [whole, List.getLast?_append] at last
      cases final : (after (c :: before) text).getLast? with
      | none =>
          have none : text = [] := after_eq_nil_iff.mp (List.getLast?_eq_none_iff.mp final)
          rw [final, Option.none_or] at last
          rw [none, (pieces d (List.mem_of_getLast? last)).2 inert]
          rfl
      | some e =>
          rw [final, Option.some_or] at last
          rw [List.getLast?_cons, ih (final.trans last)]
          rfl

end LowerCase
end HiddenText
