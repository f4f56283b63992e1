import HiddenText.Toml.Reader
import Mathlib.Data.List.TakeWhile

/-! # What readers read

A reader takes a value from the front of a text and leaves the rest, or it refuses the text.  The
lemmas follow the ways in which readers are put together. -/
set_option autoImplicit false

namespace HiddenText.Toml.Reader

variable {α β : Type} {r r' : Reader α} {s : Reader β} {text rest rest' : List Char} {a : α} {b : β}

def Reads (r : Reader α) (text : List Char) (a : α) (rest : List Char) : Prop :=
  r text = some (a, rest)

def Refuses (r : Reader α) (text : List Char) : Prop := r text = none

/-! ## One after the other -/

theorem Reads.bind {f : α → Reader β} (h : Reads r text a rest) (h' : Reads (f a) rest b rest') :
    Reads (r >>= f) text b rest' := by
  show (r text).bind (fun p => f p.1 p.2) = some (b, rest')
  rw [show r text = some (a, rest) from h]
  exact h'

theorem Refuses.bind {f : α → Reader β} (h : Refuses r text) : Refuses (r >>= f) text := by
  show (r text).bind (fun p => f p.1 p.2) = none
  rw [show r text = none from h]
  rfl

theorem Reads.refuses_bind {f : α → Reader β} (h : Reads r text a rest)
    (h' : Refuses (f a) rest) : Refuses (r >>= f) text := by
  show (r text).bind (fun p => f p.1 p.2) = none
  rw [show r text = some (a, rest) from h]
  exact h'

theorem reads_pure (a : α) (text : List Char) : Reads (pure a) text a text := rfl

theorem Reads.map (f : α → β) (h : Reads r text a rest) : Reads (f <$> r) text (f a) rest := by
  show (r text).bind (fun p => some (f p.1, p.2)) = some (f a, rest)
  rw [show r text = some (a, rest) from h]
  rfl

theorem Refuses.map (f : α → β) (h : Refuses r text) : Refuses (f <$> r) text := by
  show (r text).bind (fun p => some (f p.1, p.2)) = none
  rw [show r text = none from h]
  rfl

theorem Reads.seqRight (h : Reads r text a rest) (h' : Reads s rest b rest') :
    Reads (r *> s) text b rest' := h.bind h'

theorem Reads.seqLeft (h : Reads r text a rest) (h' : Reads s rest b rest') :
    Reads (r <* s) text a rest' := h.bind (h'.bind (reads_pure a rest'))

theorem Refuses.seqLeft (h : Refuses r text) : Refuses (r <* s) text := h.bind

/-! ## One or the other -/

theorem orElse_apply (text : List Char) : (r <|> r') text = (r text).or (r' text) := by
  show (r text).orElse (fun _ => r' text) = _
  cases r text <;> rfl

theorem Reads.orElse (h : Reads r text a rest) : Reads (r <|> r') text a rest := by
  rw [Reads, orElse_apply, show r text = some (a, rest) from h]
  rfl

theorem Refuses.orElse_eq (h : Refuses r text) : (r <|> r') text = r' text := by
  rw [orElse_apply, show r text = none from h]
  rfl

theorem Refuses.reads_orElse (h : Refuses r text) (h' : Reads r' text a rest) :
    Reads (r <|> r') text a rest := h.orElse_eq.trans h'

theorem Refuses.orElse (h : Refuses r text) (h' : Refuses r' text) : Refuses (r <|> r') text :=
  h.orElse_eq.trans h'

theorem Refuses.optional (h : Refuses r text) : Reads (optional r) text none text :=
  (h.map some).reads_orElse (reads_pure none text)

/-! ## Repetition -/

theorem Refuses.repeated (h : Refuses r text) : Reads (repeated r) text [] text := by
  rw [Reads, Reader.repeated, gather, show r text = none from h]

theorem Reads.repeated {as : List α} (h : Reads r text a rest) (less : rest.length < text.length)
    (h' : Reads (repeated r) rest as rest') : Reads (repeated r) text (a :: as) rest' := by
  rw [Reads, Reader.repeated, Option.some.injEq] at h' ⊢
  rw [gather, show r text = some (a, rest) from h]
  simp only [less, if_true, h']

theorem Reads.separated {as : List α} (h : Reads r text a rest)
    (h' : Reads (Reader.repeated (s *> r)) rest as rest') :
    Reads (separated r s) text (a :: as) rest' :=
  Reads.orElse (h.bind (h'.bind (reads_pure (a :: as) rest')))

theorem Refuses.separated (h : Refuses r text) : Reads (separated r s) text [] text :=
  Refuses.reads_orElse h.bind (reads_pure [] text)

/-! ## Characters -/

theorem reads_satisfying {p : Char → Bool} {c : Char} (h : p c = true) (rest : List Char) :
    Reads (satisfying p) (c :: rest) c rest := by
  rw [Reads, satisfying, if_pos h]

def Ends (p : Char → Bool) (text : List Char) : Prop := ∀ c, text.head? = some c → p c = false

theorem ends_nil (p : Char → Bool) : Ends p [] := nofun

theorem ends_cons_iff {p : Char → Bool} {c : Char} : Ends p (c :: rest) ↔ p c = false := by
  simp [Ends]

theorem Ends.refuses_satisfying {p : Char → Bool} (h : Ends p text) :
    Refuses (satisfying p) text := by
  cases text with
  | nil => rfl
  | cons c rest => rw [Refuses, satisfying, if_neg (by simp [ends_cons_iff.mp h])]

theorem reads_char (c : Char) (rest : List Char) : Reads (char c) (c :: rest) () rest :=
  (reads_satisfying (decide_eq_true rfl) rest).map _

theorem refuses_char {c : Char} (h : Ends (· = c) text) : Refuses (char c) text :=
  h.refuses_satisfying.map _

theorem reads_takeWhile {p : Char → Bool} (taken : List Char) (all : ∀ c ∈ taken, p c = true)
    (h : Ends p rest) : Reads (takeWhile p) (taken ++ rest) taken rest := by
  have none : rest.takeWhile p = [] ∧ rest.dropWhile p = rest := by
    cases rest with
    | nil => exact ⟨rfl, rfl⟩
    | cons c rest =>
        have other : ¬ p c = true := by simp [ends_cons_iff.mp h]
        exact ⟨List.takeWhile_cons_of_neg other, List.dropWhile_cons_of_neg other⟩
  rw [Reads, takeWhile, List.takeWhile_append_of_pos all, List.dropWhile_append_of_pos all,
    none.1, none.2, List.append_nil]

theorem reads_spaces (h : Ends isSpace text) : Reads spaces text () text :=
  (reads_takeWhile [] (List.forall_mem_nil _) h).map _

theorem reads_blank (h : Ends isSpace text) : Reads spaces (' ' :: text) () text :=
  (reads_takeWhile [' '] (List.forall_mem_singleton.mpr rfl) h).map _

theorem reads_exactly {p : Char → Bool} (taken : List Char) (all : ∀ c ∈ taken, p c = true)
    (rest : List Char) : Reads (exactly taken.length p) (taken ++ rest) taken rest := by
  rw [Reads, exactly]
  simp [List.takeWhile_eq_self_iff.mpr all]

end HiddenText.Toml.Reader
