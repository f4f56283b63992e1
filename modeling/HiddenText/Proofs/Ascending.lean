import HiddenText.Ascending
import Mathlib.Data.List.Sort
import Mathlib.Order.Defs.Unbundled

/-! # Strictly ascending lists are strictly ascending

Whatever the order and the multiplicity in which values are put in, each is listed once. -/
set_option autoImplicit false

namespace HiddenText.Ascending

variable {α : Type} [LT α] [DecidableLT α] [DecidableEq α]

theorem length_insert_le (x : α) : ∀ ys : List α, (insert x ys).length ≤ ys.length + 1 := by
  intro ys
  induction ys with
  | nil => exact Nat.le_refl 1
  | cons y ys ih =>
      rw [insert]
      split
      · exact Nat.le_refl _
      · split
        · exact Nat.le_add_right ..
        · exact Nat.succ_le_succ ih

theorem length_ofList_le (xs : List α) : (ofList xs).length ≤ xs.length := by
  induction xs with
  | nil => exact Nat.le_refl 0
  | cons x xs ih => exact Nat.le_trans (length_insert_le x _) (Nat.succ_le_succ ih)

variable [IsTrans α (· < ·)] [Std.Trichotomous (fun x y : α => x < y)]

theorem insert_pairwise (x : α) : ∀ {ys : List α}, ys.Pairwise (· < ·) →
    (insert x ys).Pairwise (· < ·) := by
  intro ys
  induction ys with
  | nil => intro _; exact List.pairwise_singleton _ _
  | cons y ys ih =>
      intro h
      obtain ⟨first, rest⟩ := List.pairwise_cons.mp h
      rw [insert]
      by_cases less : x < y
      · rw [if_pos less, List.pairwise_cons]
        refine ⟨?_, h⟩
        intro z hz
        rcases List.mem_cons.mp hz with rfl | hz
        · exact less
        · exact Trans.trans less (first z hz)
      · rw [if_neg less]
        by_cases same : x = y
        · rw [if_pos same]
          exact h
        · rw [if_neg same, List.pairwise_cons]
          refine ⟨?_, ih rest⟩
          intro z hz
          rcases (mem_insert z x ys).mp hz with rfl | hz
          · apply Decidable.byContradiction
            intro greater
            exact same (Std.Trichotomous.trichotomous (r := fun x y : α => x < y) z y less greater)
          · exact first z hz

theorem ofList_pairwise (xs : List α) : (ofList xs).Pairwise (· < ·) := by
  induction xs with
  | nil => exact List.Pairwise.nil
  | cons x xs ih => exact insert_pairwise x ih

theorem ofList_nodup [Std.Irrefl (fun x y : α => x < y)] (xs : List α) : (ofList xs).Nodup := by
  refine (ofList_pairwise xs).imp ?_
  rintro x y less rfl
  exact irrefl x less

theorem ofList_eq_iff [Std.Irrefl (fun x y : α => x < y)] (xs ys : List α) :
    ofList xs = ofList ys ↔ ∀ x, x ∈ xs ↔ x ∈ ys := by
  constructor
  · intro same x
    rw [← mem_ofList x xs, same, mem_ofList]
  · intro same
    refine (ofList_pairwise xs).eq_of_mem_iff (ofList_pairwise ys) fun x => ?_
    rw [mem_ofList, mem_ofList]
    exact same x

omit [DecidableLT α] [Std.Trichotomous (fun x y : α => x < y)] in
/-- Ascending lists that are gone through give the same if they differ only in members that give
nothing. -/
theorem flatMap_eq_of_pairwise [Std.Irrefl (fun x y : α => x < y)] {β : Type} {f : α → List β}
    {xs ys : List α} (hxs : xs.Pairwise (· < ·)) (hys : ys.Pairwise (· < ·))
    (only : ∀ x, x ∉ xs ∨ x ∉ ys → f x = []) : xs.flatMap f = ys.flatMap f := by
  have telling : ∀ zs : List α, zs.flatMap f = (zs.filter (f · ≠ [])).flatMap f := by
    intro zs
    induction zs with
    | nil => rfl
    | cons z zs ih =>
        by_cases silent : f z = []
        · rw [List.flatMap_cons, silent, List.nil_append, ih,
            List.filter_cons_of_neg (by simp [silent])]
        · rw [List.filter_cons_of_pos (by simpa using silent), List.flatMap_cons, List.flatMap_cons,
            ih]
  have same : xs.filter (f · ≠ []) = ys.filter (f · ≠ []) := by
    refine (hxs.filter _).eq_of_mem_iff (hys.filter _) fun x => ?_
    simp only [List.mem_filter, ne_eq, decide_not, Bool.not_eq_true', decide_eq_false_iff_not]
    by_cases both : x ∈ xs ∧ x ∈ ys
    · simp [both]
    · simp [only x (not_and_or.mp both)]
  rw [telling xs, telling ys, same]

end HiddenText.Ascending
