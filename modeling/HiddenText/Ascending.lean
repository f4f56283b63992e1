/-! # Strictly ascending lists

A set of ordered values is kept as the list of its members in strictly ascending order.  `insert`
puts a value in its place and drops a repetition; `ofList` builds the list of a collection in any
order and multiplicity. -/
set_option autoImplicit false

namespace HiddenText.Ascending

variable {α : Type} [LT α] [DecidableLT α] [DecidableEq α]

def insert (x : α) : List α → List α
  | [] => [x]
  | y :: ys => if x < y then x :: y :: ys else if x = y then y :: ys else y :: insert x ys

def ofList (xs : List α) : List α := xs.foldr insert []

theorem mem_insert (a x : α) : ∀ ys : List α, a ∈ insert x ys ↔ a = x ∨ a ∈ ys := by
  intro ys
  induction ys with
  | nil => simp [insert]
  | cons y ys ih =>
      simp only [insert]
      split
      · simp
      · split
        · rename_i h; subst h; simp
        · simp only [List.mem_cons, ih]
          exact or_left_comm

theorem mem_ofList (a : α) : ∀ xs : List α, a ∈ ofList xs ↔ a ∈ xs := by
  intro xs
  induction xs with
  | nil => simp [ofList]
  | cons x xs ih =>
      have ih' : a ∈ xs.foldr insert [] ↔ a ∈ xs := ih
      simp only [ofList, List.foldr_cons, mem_insert, List.mem_cons, ih']

end HiddenText.Ascending
