import Mathlib.Data.List.Infix
import Mathlib.Data.List.Rotate

/-! # Lists

Lists that are cut at a separator, lists whose members are all the same, and lists that are written
and read back member by member. -/
set_option autoImplicit false

namespace HiddenText.Lists

variable {α β : Type}

/-! ## Separators -/

/-- The first place at which two lists have a separator is the same. -/
theorem eq_of_append_cons_eq {a : α} {x x' z z' : List α} (unmet : a ∉ x) (unmet' : a ∉ x')
    (same : x ++ a :: z = x' ++ a :: z') : x = x' ∧ z = z' := by
  rcases List.append_eq_append_iff.mp same with ⟨more, rfl, rest⟩ | ⟨more, rfl, rest⟩
  · cases more with
    | nil => exact ⟨(List.append_nil x).symm, (List.cons.inj rest).2⟩
    | cons b more =>
        obtain ⟨rfl, -⟩ := List.cons.inj rest
        exact absurd (List.mem_append_right x (List.mem_cons_self ..)) unmet'
  · cases more with
    | nil => exact ⟨List.append_nil x', (List.cons.inj rest).2.symm⟩
    | cons b more =>
        obtain ⟨rfl, -⟩ := List.cons.inj rest
        exact absurd (List.mem_append_right x' (List.mem_cons_self ..)) unmet

theorem eq_of_append_cons_eq_of_notMem_right {a : α} {x x' z z' : List α} (unmet : a ∉ z)
    (unmet' : a ∉ z') (same : x ++ a :: z = x' ++ a :: z') : x = x' ∧ z = z' := by
  have turned : z.reverse ++ a :: x.reverse = z'.reverse ++ a :: x'.reverse := by
    simpa using congrArg List.reverse same
  obtain ⟨behind, front⟩ := eq_of_append_cons_eq (by simpa using unmet) (by simpa using unmet')
    turned
  exact ⟨List.reverse_inj.mp front, List.reverse_inj.mp behind⟩

/-- What has no separator in it stands on one side of every separator. -/
theorem infix_append_cons_iff {a : α} {w front rest : List α} (unmet : a ∉ w) :
    w <:+: front ++ a :: rest ↔ w <:+: front ∨ w <:+: rest := by
  have apart : ∀ {w' : List α}, a ∉ w' → w' <+: a :: rest → w' = [] := by
    intro w' unmet' first
    cases w' with
    | nil => rfl
    | cons b w' =>
        obtain ⟨rfl, -⟩ := List.cons_prefix_cons.mp first
        exact absurd (List.mem_cons_self ..) unmet'
  rw [List.infix_append_iff, List.infix_cons_iff]
  constructor
  · rintro (inFront | (first | inRest) | ⟨before, after, rfl, ends, first⟩)
    · exact .inl inFront
    · rw [apart unmet first]
      exact .inl (List.nil_infix)
    · exact .inr inRest
    · rw [List.mem_append, not_or] at unmet
      rw [apart unmet.2 first, List.append_nil]
      exact .inl ends.isInfix
  · rintro (inFront | inRest)
    · exact .inl inFront
    · exact .inr (.inl (.inr inRest))

theorem infix_intercalate_iff {a : α} {w : List α} (unmet : a ∉ w) (filled : w ≠ [])
    {parts : List (List α)} :
    w <:+: List.intercalate [a] parts ↔ ∃ part ∈ parts, w <:+: part := by
  induction parts with
  | nil => simp [filled]
  | cons part rest ih =>
      cases rest with
      | nil => simp
      | cons next rest =>
          rw [List.intercalate_cons_cons, List.append_assoc, List.singleton_append,
            infix_append_cons_iff unmet, ih]
          simp only [List.exists_mem_cons_iff]

/-! ## Members that are all the same -/

theorem eq_of_append_singleton {x : α} {xs : List α} (turned : xs ++ [x] = x :: xs) :
    ∀ y ∈ xs, y = x := by
  have fixed : (x :: xs).rotate 1 = x :: xs := by
    rw [List.rotate_cons_succ, List.rotate_zero, turned]
  obtain ⟨a, constant⟩ := (@List.rotate_one_eq_self_iff_eq_replicate _ ⟨x⟩ _).mp fixed
  have all : ∀ y ∈ x :: xs, y = a := fun y listed => List.eq_of_mem_replicate (constant ▸ listed)
  intro y listed
  exact (all y (List.mem_cons_of_mem _ listed)).trans (all x (List.mem_cons_self ..)).symm

theorem eq_of_perm_of_forall_eq {xs ys : List α} (perm : xs.Perm ys)
    (same : ∀ x ∈ xs, ∀ y ∈ xs, x = y) : xs = ys := by
  cases xs with
  | nil => exact (List.perm_nil.mp perm.symm).symm
  | cons x xs =>
      have constant : x :: xs = List.replicate (xs.length + 1) x :=
        List.eq_replicate_of_mem fun y listed => same y listed x (List.mem_cons_self ..)
      rw [constant] at perm ⊢
      exact (List.perm_replicate.mp perm.symm).symm

/-! ## Reading back -/

theorem mapM_map_eq_some {write : α → β} {read : β → Option α} (h : ∀ a, read (write a) = some a)
    (as : List α) : (as.map write).mapM read = some as := by
  induction as with
  | nil => rfl
  | cons a rest ih => simp [h, ih]

end HiddenText.Lists
