import HiddenText.Proofs.Codepoint.Label
import HiddenText.Proofs.Json.Grammar

/-! # Written values are JSON

The written form of a value is a text of the grammar, and denotes that value (`denotes_write`).
The escapes of a string stand for its characters (`chars_quote`), and the digits of a number make
a number without a leading zero (`number_toDigits`). -/
set_option autoImplicit false

namespace HiddenText.Json

mutual

def tree : Json → Tree
  | .text s => .text s
  | .number n => .number (Nat.toDigits 10 n)
  | .array items => .array (trees items)
  | .object fields => .object (fieldTrees fields)

def trees : List Json → List Tree
  | [] => []
  | item :: rest => tree item :: trees rest

def fieldTrees : List (String × Json) → List (String × Tree)
  | [] => []
  | (key, value) :: rest => (key, tree value) :: fieldTrees rest

end

theorem trees_eq_map : ∀ items : List Json, trees items = items.map tree := by
  intro items
  induction items with
  | nil => rfl
  | cons item rest ih => rw [trees, ih, List.map_cons]

/-! ## Strings -/

theorem chars_escape (c : Char) {t s rest : List Char} (more : Chars t s rest) :
    Chars (escape c ++ t) (c :: s) rest := by
  rw [escape.eq_def]
  split
  · exact .escape rfl more
  · exact .escape rfl more
  · exact .escape rfl more
  · exact .escape rfl more
  · exact .escape rfl more
  · exact .escape rfl more
  · exact .escape rfl more
  · rename_i notQuote notBackslash _ _ _ _ _
    split
    · rename_i control
      have value := Hex.value?_fixed .lower (Nat.lt_trans control (show 0x20 < 16 ^ 4 by decide))
      have unit := Chars.unit value c.valid more
      rw [Char.ofNat_toNat] at unit
      exact unit
    · rename_i printable
      exact .plain notQuote notBackslash (Nat.le_of_not_lt printable) more

theorem chars_escapes : ∀ (s rest : List Char), Chars (s.flatMap escape ++ '"' :: rest) s rest := by
  intro s rest
  induction s with
  | nil => exact .close rest
  | cons c s ih =>
      rw [List.flatMap_cons, List.append_assoc]
      exact chars_escape c ih

/-! ## Numbers -/

theorem digitChar_ne_zero : ∀ {d : Nat}, d < 10 → d ≠ 0 → d.digitChar ≠ '0' := by
  decide

theorem head_toDigits : ∀ n : Nat, n ≠ 0 → (Nat.toDigits 10 n).head? ≠ some '0' := by
  intro n
  induction n using Nat.strongRecOn with
  | ind n ih =>
      intro positive
      by_cases small : n < 10
      · rw [Nat.toDigits_of_lt_base small]
        exact fun same => digitChar_ne_zero small positive (Option.some.inj same)
      · rw [Nat.toDigits_of_base_le (by decide) (Nat.le_of_not_lt small), List.head?_append]
        have shorter := ih (n / 10) (by omega) (by omega)
        cases front : (Nat.toDigits 10 (n / 10)).head? with
        | none => exact absurd (List.head?_eq_none_iff.mp front) Nat.toDigits_ne_nil
        | some c =>
            rw [front] at shorter
            exact shorter

theorem number_toDigits (n : Nat) : Number (Nat.toDigits 10 n) := by
  refine ⟨[], Nat.toDigits 10 n, [], [], by simp, ?_, .inl rfl, .inl rfl, by simp⟩
  by_cases zero : n = 0
  · subst zero
    exact .inl rfl
  · refine .inr ⟨⟨Nat.toDigits_ne_nil, fun c known => ?_⟩, head_toDigits n zero⟩
    exact Nat.isDigit_of_mem_toDigits (by decide) (by decide) known

/-! ## Values -/

theorem space_newLine (level : Nat) (rest : List Char) : Space (newLine level ++ rest) rest := by
  have blanks : ∀ count : Nat, Space (List.replicate count ' ' ++ rest) rest := by
    intro count
    induction count with
    | zero => exact .none rest
    | succ count ih => exact .more (by decide) ih
  exact .more (by decide) (blanks _)

mutual

theorem spells_write : ∀ (value : Json) (level : Nat) (rest : List Char),
    Spells (write level value ++ rest) (.value value.tree) rest
  | .text s, level, rest => by
      have chars := Spells.text (chars_escapes s.toList rest)
      rw [String.ofList_toList] at chars
      simpa only [write, quote, tree, List.cons_append, List.append_assoc, List.nil_append]
        using chars
  | .number n, level, rest => .number (number_toDigits n) rfl
  | .array [], level, rest => .emptyArray (.none _)
  | .array (item :: more), level, rest => by
      have first := spells_write item (level + 1)
        (writeItems (level + 1) more ++ (newLine level ++ ']' :: rest))
      have items := spells_items more level rest (space_newLine (level + 1) _) first
      simpa only [write, tree, trees, List.cons_append, List.append_assoc, List.nil_append]
        using Spells.array items
  | .object [], level, rest => .emptyObject (.none _)
  | .object ((key, value) :: more), level, rest => by
      have first := spells_write value (level + 1)
        (writeFields (level + 1) more ++ (newLine level ++ '\x7d' :: rest))
      have fields := spells_fields key more level rest (space_newLine (level + 1) _) first
      simpa only [write, quote, tree, fieldTrees, List.cons_append, List.append_assoc,
        List.nil_append] using Spells.object fields

/-- The items after one that has been read, up to the end of the array. -/
theorem spells_items : ∀ (more : List Json) (level : Nat) (rest : List Char)
    {t start : List Char} {tree : Tree}, Space t start →
      Spells start (.value tree) (writeItems (level + 1) more ++ (newLine level ++ ']' :: rest)) →
      Spells t (.items (tree :: trees more)) rest
  | [], level, rest, _, _, _, space, item => .lastItem space item (space_newLine level _)
  | next :: more, level, rest, _, _, _, space, item => by
      have second := spells_write next (level + 1)
        (writeItems (level + 1) more ++ (newLine level ++ ']' :: rest))
      have others := spells_items more level rest (space_newLine (level + 1) _) second
      simp only [writeItems, List.cons_append, List.append_assoc] at item
      exact .item space item (.none _) others

/-- A field whose value has been read and those after it, up to the end of the object. -/
theorem spells_fields : ∀ (key : String) (more : List (String × Json)) (level : Nat)
    (rest : List Char) {t start : List Char} {tree : Tree},
      Space t ('"' :: (key.toList.flatMap escape ++ '"' :: ':' :: ' ' :: start)) →
      Spells start (.value tree)
        (writeFields (level + 1) more ++ (newLine level ++ '\x7d' :: rest)) →
      Spells t (.fields ((key, tree) :: fieldTrees more)) rest
  | key, [], level, rest, _, start, tree, space, value => by
      have field := Spells.lastField space (chars_escapes key.toList _) (.none _)
        (.more (by decide) (.none start)) value (space_newLine level _)
      rw [String.ofList_toList] at field
      exact field
  | key, (name, next) :: more, level, rest, _, start, tree, space, value => by
      have second := spells_write next (level + 1)
        (writeFields (level + 1) more ++ (newLine level ++ '\x7d' :: rest))
      have others := spells_fields name more level rest (space_newLine (level + 1) _) second
      simp only [writeFields, quote, List.cons_append, List.append_assoc, List.nil_append] at value
      have field := Spells.field space (chars_escapes key.toList _) (.none _)
        (.more (by decide) (.none start)) value (.none _) others
      rw [String.ofList_toList] at field
      exact field

end

theorem spells_document (value : Json) (level : Nat) :
    Spells (write level value) (.value value.tree) [] := by
  have written := spells_write value level []
  rw [List.append_nil] at written
  exact written

theorem denotes_write (value : Json) (level : Nat) : Denotes (write level value) value.tree :=
  ⟨_, [], .none _, spells_document value level, .none []⟩

end HiddenText.Json
