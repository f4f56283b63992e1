import HiddenText.Proofs.Text.Utf8
import Mathlib.Data.List.Infix

/-! # Well-formed byte strings

A byte string is well-formed if it is cut into sequences, each as short as the value that it spells
allows, and that value a scalar value.  These are the byte strings that are read as a text
(`decode_eq_none_iff`).

A byte that does not continue a sequence begins one.  So wherever such a byte stands in the encoding
of a text, the text can be cut there (`exists_cut_of_begins`), and the encoding of a character is
found in it only where that character stands (`encodeChar_prefix_drop_iff`). -/
set_option autoImplicit false

namespace HiddenText.Utf8

/-- One sequence: bytes that spell a scalar value, no more of them than it takes. -/
inductive Sequence : Bytes → Prop
  | one {a : UInt8} (lead : a.toNat < 0x80) : Sequence [a]
  | two {a b : UInt8} (lead : 0xC0 ≤ a.toNat ∧ a.toNat < 0xE0)
      (second : continuation.holds b = true)
      (shortest : 0x80 ≤ extend (a.toNat % 32) [b]) : Sequence [a, b]
  | three {a b c : UInt8} (lead : 0xE0 ≤ a.toNat ∧ a.toNat < 0xF0)
      (second : continuation.holds b = true) (third : continuation.holds c = true)
      (shortest : 0x800 ≤ extend (a.toNat % 16) [b, c])
      (scalar : (extend (a.toNat % 16) [b, c]).isValidChar) : Sequence [a, b, c]
  | four {a b c d : UInt8} (lead : 0xF0 ≤ a.toNat ∧ a.toNat < 0xF8)
      (second : continuation.holds b = true) (third : continuation.holds c = true)
      (fourth : continuation.holds d = true)
      (shortest : 0x10000 ≤ extend (a.toNat % 8) [b, c, d])
      (scalar : (extend (a.toNat % 8) [b, c, d]).isValidChar) : Sequence [a, b, c, d]

inductive WellFormed : Bytes → Prop
  | nil : WellFormed []
  | cons {sequence rest : Bytes} (first : Sequence sequence) (more : WellFormed rest) :
      WellFormed (sequence ++ rest)

variable {bytes : Bytes} {text : List Char} {c : Char}

/-! ## Sequences and characters -/

theorem exists_encodeChar_of_sequence (h : Sequence bytes) :
    ∃ c, String.utf8EncodeChar c = bytes := by
  cases h with
  | one lead => exact ⟨_, encodeChar_one lead⟩
  | @two a b lead second shortest =>
      rw [continuation_holds_iff] at second
      simp only [extend, List.foldl_cons, List.foldl_nil] at shortest
      exact ⟨_, encodeChar_two (by omega) second rfl⟩
  | @three a b c lead second third shortest scalar =>
      rw [continuation_holds_iff] at second third
      simp only [extend, List.foldl_cons, List.foldl_nil, Nat.isValidChar] at shortest scalar
      have narrowed : (Utf8.second a).holds b = true := by
        rw [second_holds_iff]
        omega
      exact ⟨_, encodeChar_three lead narrowed third rfl⟩
  | @four a b c d lead second third fourth shortest scalar =>
      rw [continuation_holds_iff] at second third fourth
      simp only [extend, List.foldl_cons, List.foldl_nil, Nat.isValidChar] at shortest scalar
      have narrowed : (Utf8.second a).holds b = true := by
        rw [second_holds_iff]
        omega
      exact ⟨_, encodeChar_four (by omega) narrowed third fourth rfl⟩

theorem Completes.exists_cons {range : ByteRange} {pending : List ByteRange} {tail : Bytes}
    (h : Completes (range :: pending) tail) :
    ∃ b rest, tail = b :: rest ∧ range.holds b = true ∧ Completes pending rest := by
  cases tail with
  | nil => exact absurd h id
  | cons b rest => exact ⟨b, rest, rfl, h⟩

theorem Completes.eq_nil {tail : Bytes} (h : Completes [] tail) : tail = [] := by
  cases tail with
  | nil => rfl
  | cons b rest => exact absurd h id

/-- Whatever completes an announced sequence makes it one. -/
theorem sequence_of_announced {b : UInt8} {value : Nat} {pending : List ByteRange} {tail : Bytes}
    (h : announced b = some (value, pending)) (complete : Completes pending tail)
    (scalar : (extend value tail).isValidChar) : Sequence (b :: tail) := by
  rw [announced_eq] at h
  split at h
  · cases h
  · split at h
    · cases h
      obtain ⟨c, _, rfl, hc, complete⟩ := complete.exists_cons
      obtain rfl := complete.eq_nil
      refine .two (by omega) hc ?_
      rw [continuation_holds_iff] at hc
      simp only [extend, List.foldl_cons, List.foldl_nil]
      omega
    · split at h
      · cases h
        obtain ⟨c, _, rfl, hc, complete⟩ := complete.exists_cons
        obtain ⟨d, _, rfl, hd, complete⟩ := complete.exists_cons
        obtain rfl := complete.eq_nil
        rw [second_holds_iff] at hc
        refine .three (by omega) ((continuation_holds_iff c).mpr (by omega)) hd ?_ scalar
        simp only [extend, List.foldl_cons, List.foldl_nil]
        omega
      · split at h
        · cases h
          obtain ⟨c, _, rfl, hc, complete⟩ := complete.exists_cons
          obtain ⟨d, _, rfl, hd, complete⟩ := complete.exists_cons
          obtain ⟨e, _, rfl, he, complete⟩ := complete.exists_cons
          obtain rfl := complete.eq_nil
          rw [second_holds_iff] at hc
          refine .four (by omega) ((continuation_holds_iff c).mpr (by omega)) hd he ?_ scalar
          simp only [extend, List.foldl_cons, List.foldl_nil]
          omega
        · cases h

theorem sequence_encodeChar (c : Char) : Sequence (String.utf8EncodeChar c) := by
  rcases encodeChar_cases c with ⟨b, low, -, encoded⟩ |
      ⟨b, tail, value, pending, encoded, -, lead, complete, reached⟩
  · rw [encoded]
    exact .one low
  · rw [encoded]
    exact sequence_of_announced lead complete (by rw [reached]; exact c.valid)

theorem wellFormed_encode (text : List Char) : WellFormed (encode text) := by
  induction text with
  | nil => exact .nil
  | cons c text ih => exact .cons (sequence_encodeChar c) ih

theorem wellFormed_iff : WellFormed bytes ↔ ∃ text, bytes = encode text := by
  constructor
  · intro h
    induction h with
    | nil => exact ⟨[], rfl⟩
    | cons first more ih =>
        obtain ⟨c, rfl⟩ := exists_encodeChar_of_sequence first
        obtain ⟨text, rfl⟩ := ih
        exact ⟨c :: text, rfl⟩
  · rintro ⟨text, rfl⟩
    exact wellFormed_encode text

theorem decode_eq_none_iff (bytes : Bytes) : decode bytes = none ↔ ¬ WellFormed bytes := by
  rw [wellFormed_iff, Option.eq_none_iff_forall_ne_some, not_exists]
  simp only [ne_eq, decode_eq_some_iff]

instance (bytes : Bytes) : Decidable (WellFormed bytes) :=
  decidable_of_iff (decode bytes ≠ none) (not_congr (decode_eq_none_iff bytes) |>.trans not_not)

-- Cut short, out of place, not the shortest, a surrogate, and past the last scalar value.
example : ∀ bytes ∈ ([[0xE2, 0x80], [0x80], [0xC0, 0xAF], [0xED, 0xA0, 0x80],
    [0xF4, 0x90, 0x80, 0x80]] : List Bytes), ¬ WellFormed bytes := by decide

/-! ## Where sequences begin -/

theorem Sequence.exists_cons (h : Sequence bytes) :
    ∃ lead tail, bytes = lead :: tail ∧ continuation.holds lead = false ∧
      ∀ b ∈ tail, continuation.holds b = true := by
  have begins : ∀ {b : UInt8}, ¬ (128 ≤ b.toNat ∧ b.toNat ≤ 191) →
      continuation.holds b = false := by
    intro b outside
    rw [← Bool.not_eq_true, continuation_holds_iff]
    exact outside
  cases h with
  | one lead => exact ⟨_, _, rfl, begins (by omega), nofun⟩
  | two lead second shortest =>
      exact ⟨_, _, rfl, begins (by omega), List.forall_mem_singleton.mpr second⟩
  | three lead second third shortest scalar =>
      exact ⟨_, _, rfl, begins (by omega), by simp [second, third]⟩
  | four lead second third fourth shortest scalar =>
      exact ⟨_, _, rfl, begins (by omega), by simp [second, third, fourth]⟩

/-- A text can be cut before every byte that does not continue a sequence. -/
theorem exists_cut_of_begins {b : UInt8} (begins : continuation.holds b = false) :
    ∀ (text : List Char) (front back : Bytes), encode text = front ++ b :: back →
      ∃ before after, text = before ++ after ∧ front = encode before ∧
        b :: back = encode after := by
  intro text
  induction text with
  | nil =>
      intro front back written
      cases front <;> cases written
  | cons c text ih =>
      intro front back written
      cases front with
      | nil => exact ⟨[], c :: text, rfl, rfl, written.symm⟩
      | cons first front =>
          obtain ⟨lead, tail, encoded, -, continues⟩ := (sequence_encodeChar c).exists_cons
          rw [encode_cons, encoded, List.cons_append, List.cons_append, List.cons.injEq,
            List.append_eq_append_iff] at written
          obtain ⟨rfl, ⟨front', rfl, further⟩ | ⟨inside, split, further⟩⟩ := written
          · obtain ⟨before, after, rfl, rfl, here⟩ := ih _ _ further
            exact ⟨c :: before, after, rfl, by rw [← List.cons_append, ← encoded]; rfl, here⟩
          · -- The byte is not inside this sequence, whose bytes after the first continue it.
            cases inside with
            | nil =>
                rw [List.append_nil] at split
                refine ⟨[c], text, rfl, ?_, further⟩
                rw [← split, ← encoded]
                simp [encode]
            | cons b' inside =>
                cases further
                have continued := continues b (by rw [split]; simp)
                rw [begins] at continued
                cases continued

theorem eq_of_encodeChar_append {c c' : Char} {rest rest' : Bytes}
    (h : String.utf8EncodeChar c ++ rest = String.utf8EncodeChar c' ++ rest') : c = c' := by
  have read : ∀ (c : Char) (rest : Bytes),
      (String.utf8EncodeChar c ++ rest).toByteArray.utf8DecodeChar? 0 = some c := by
    intro c rest
    rw [List.toByteArray_append]
    exact ByteArray.utf8DecodeChar?_utf8EncodeChar_append
  have same := read c rest
  rw [h, read] at same
  exact (Option.some.inj same).symm

/-- The encoding of a character stands in the encoding of a text just where the character stands in
the text. -/
theorem encodeChar_prefix_drop_iff {offset : Nat} :
    String.utf8EncodeChar c <+: (encode text).drop offset ↔
      ∃ before after, text = before ++ c :: after ∧ offset = (encode before).length := by
  constructor
  · rintro ⟨rest, found⟩
    obtain ⟨lead, tail, encoded, begins, -⟩ := (sequence_encodeChar c).exists_cons
    have inside : offset ≤ (encode text).length := by
      by_contra beyond
      rw [List.drop_of_length_le (by omega), encoded] at found
      cases found
    have written : encode text = (encode text).take offset ++ lead :: (tail ++ rest) := by
      rw [← List.cons_append, ← encoded, found, List.take_append_drop]
    obtain ⟨before, after, rfl, front, back⟩ := exists_cut_of_begins begins text _ _ written
    rw [← List.cons_append, ← encoded] at back
    cases after with
    | nil =>
        rw [encoded] at back
        cases back
    | cons c' after =>
        obtain rfl := eq_of_encodeChar_append back
        refine ⟨before, after, rfl, ?_⟩
        rw [← front, List.length_take, Nat.min_eq_left inside]
  · rintro ⟨before, after, rfl, rfl⟩
    rw [encode_append, List.drop_left]
    exact List.prefix_append ..

/-! ## Bytes that stand alone -/

theorem encode_around {b : UInt8} (low : b.toNat < 0x80) (before after : List Char) :
    encode (before ++ Char.ofNat b.toNat :: after) = encode before ++ b :: encode after := by
  rw [encode_append, encode_cons, encodeChar_one low]
  rfl

theorem wellFormed_encode_append_iff {back : Bytes} : ∀ text : List Char,
    WellFormed (encode text ++ back) ↔ WellFormed back := by
  intro text
  induction text with
  | nil => exact Iff.rfl
  | cons c text ih =>
      rw [← ih, encode_cons, List.append_assoc]
      refine ⟨fun formed => ?_, .cons (sequence_encodeChar c)⟩
      obtain ⟨text', written⟩ := wellFormed_iff.mp formed
      cases text' with
      | nil =>
          obtain ⟨lead, tail, encoded, -⟩ := (sequence_encodeChar c).exists_cons
          rw [encoded] at written
          cases written
      | cons c' text' =>
          rw [encode_cons] at written
          obtain rfl := eq_of_encodeChar_append written
          exact wellFormed_iff.mpr ⟨text', List.append_cancel_left written⟩

/-- A byte below 128 is a character of its own wherever it stands. -/
theorem wellFormed_around_iff {front back : Bytes} {b : UInt8} (low : b.toNat < 0x80) :
    WellFormed (front ++ b :: back) ↔ WellFormed front ∧ WellFormed back := by
  simp only [wellFormed_iff]
  constructor
  · rintro ⟨text, written⟩
    obtain ⟨lead, tail, same, begins, -⟩ := (Sequence.one low).exists_cons
    cases same
    obtain ⟨before, after, rfl, rfl, here⟩ := exists_cut_of_begins begins text _ _ written.symm
    cases after with
    | nil => cases here
    | cons c after =>
        rw [encode_cons, ← List.singleton_append, ← encodeChar_one low] at here
        obtain rfl := eq_of_encodeChar_append here
        exact ⟨⟨before, rfl⟩, after, List.append_cancel_left here⟩
  · rintro ⟨⟨before, rfl⟩, after, rfl⟩
    exact ⟨_, (encode_around low before after).symm⟩

end HiddenText.Utf8
