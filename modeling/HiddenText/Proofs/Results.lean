/-! # Results

When computations that may fail have a value, one after another or a list of them, and when two
such computations agree: both fail, or neither does. -/
set_option autoImplicit false

namespace HiddenText

theorem bind_eq_ok_iff {ε α β : Type} {x : Except ε α} {f : α → Except ε β} {b : β} :
    (x >>= f) = .ok b ↔ ∃ a, x = .ok a ∧ f a = .ok b := by
  cases x <;> simp [bind, Except.bind]

theorem map_eq_ok_iff {ε α β : Type} {x : Except ε α} {f : α → β} {b : β} :
    x.map f = .ok b ↔ ∃ a, x = .ok a ∧ f a = b := by
  cases x <;> simp [Except.map]

theorem toOption_eq_some_iff {ε α : Type} {x : Except ε α} {a : α} :
    x.toOption = some a ↔ x = .ok a := by
  cases x <;> simp [Except.toOption]

theorem mapError_eq_ok_iff {ε δ α : Type} {x : Except ε α} {f : ε → δ} {a : α} :
    x.mapError f = .ok a ↔ x = .ok a := by
  cases x with
  | error e => exact ⟨nofun, nofun⟩
  | ok b =>
      show Except.ok b = Except.ok a ↔ _
      rw [Except.ok.injEq, Except.ok.injEq]

theorem mapError_eq_error_iff {ε δ α : Type} {x : Except ε α} {f : ε → δ} {d : δ} :
    x.mapError f = .error d ↔ ∃ e, x = .error e ∧ f e = d := by
  cases x with
  | error e =>
      show Except.error (f e) = Except.error d ↔ _
      simp
  | ok a =>
      show Except.ok a = Except.error d ↔ _
      simp

theorem pure_eq_ok_iff {ε α : Type} {a b : α} : (pure a : Except ε α) = .ok b ↔ a = b :=
  iff_of_eq (Except.ok.injEq a b)

theorem mapM_eq_ok_iff {ε α β : Type} {f : α → Except ε β} : ∀ {xs : List α} {ys : List β},
    xs.mapM f = .ok ys ↔ xs.map f = ys.map .ok := by
  intro xs
  induction xs with
  | nil =>
      intro ys
      rw [List.mapM_nil, List.map_nil, eq_comm (a := []), List.map_eq_nil_iff]
      exact ⟨fun h => (Except.ok.inj h).symm, fun h => h ▸ rfl⟩
  | cons x xs ih =>
      intro ys
      rw [List.mapM_cons, List.map_cons]
      cases here : f x with
      | error e => cases ys <;> simp [bind, Except.bind]
      | ok y =>
          cases later : xs.mapM f with
          | error e =>
              have none : ∀ zs : List β, xs.map f ≠ zs.map .ok := by
                intro zs all
                rw [ih.mpr all] at later
                cases later
              cases ys <;> simp [bind, Except.bind, none]
          | ok zs =>
              have all : xs.map f = zs.map .ok := ih.mp later
              rw [all]
              cases ys with
              | nil => simp [bind, Except.bind, pure, Except.pure]
              | cons z ys =>
                  simp [bind, Except.bind, pure, Except.pure, List.map_inj_right]

theorem exists_map_eq_ok_iff {ε α β : Type} {f : α → Except ε β} {xs : List α} :
    (∃ ys : List β, xs.map f = ys.map .ok) ↔ ∀ x ∈ xs, ∃ y, f x = .ok y := by
  induction xs with
  | nil => exact iff_of_true ⟨[], rfl⟩ (List.forall_mem_nil _)
  | cons x xs ih =>
      rw [List.forall_mem_cons, ← ih]
      constructor
      · rintro ⟨ys, all⟩
        cases ys with
        | nil => cases all
        | cons y ys =>
            obtain ⟨first, others⟩ := List.cons.inj all
            exact ⟨⟨y, first⟩, ys, others⟩
      · rintro ⟨⟨y, first⟩, ys, others⟩
        exact ⟨y :: ys, by rw [List.map_cons, List.map_cons, first, others]⟩

theorem mem_iff_of_map_eq_ok {ε α β : Type} {f : α → Except ε β} {xs : List α} {ys : List β}
    (all : xs.map f = ys.map .ok) (y : β) : y ∈ ys ↔ ∃ x ∈ xs, f x = .ok y := by
  have same : Except.ok y ∈ xs.map f ↔ Except.ok y ∈ ys.map (Except.ok (ε := ε)) := by rw [all]
  simpa using same.symm

theorem bind_eq_error_iff {ε α β : Type} {x : Except ε α} {f : α → Except ε β} {e : ε} :
    (x >>= f) = .error e ↔ x = .error e ∨ ∃ a, x = .ok a ∧ f a = .error e := by
  cases x <;> simp [bind, Except.bind]

theorem map_eq_error_iff {ε α β : Type} {x : Except ε α} {f : α → β} {e : ε} :
    x.map f = .error e ↔ x = .error e := by
  cases x <;> simp [Except.map]

/-- The computation fails with `e` at some member of the list, and at none before it. -/
def FirstFault {ε α β : Type} (f : α → Except ε β) (xs : List α) (e : ε) : Prop :=
  ∃ before x after, xs = before ++ x :: after ∧ (∀ y ∈ before, ∃ b, f y = .ok b) ∧
    f x = .error e

theorem firstFault_cons_iff {ε α β : Type} {f : α → Except ε β} {x : α} {xs : List α} {e : ε} :
    FirstFault f (x :: xs) e ↔ f x = .error e ∨ (∃ b, f x = .ok b) ∧ FirstFault f xs e := by
  constructor
  · rintro ⟨before, y, after, whole, good, fault⟩
    cases before with
    | nil =>
        obtain ⟨rfl, -⟩ := List.cons.inj whole
        exact .inl fault
    | cons z before =>
        obtain ⟨rfl, rfl⟩ := List.cons.inj whole
        obtain ⟨first, good⟩ := List.forall_mem_cons.mp good
        exact .inr ⟨first, before, y, after, rfl, good, fault⟩
  · rintro (fault | ⟨first, before, y, after, rfl, good, fault⟩)
    · exact ⟨[], x, xs, rfl, List.forall_mem_nil _, fault⟩
    · exact ⟨x :: before, y, after, rfl, List.forall_mem_cons.mpr ⟨first, good⟩, fault⟩

theorem mapM_eq_error_iff {ε α β : Type} {f : α → Except ε β} {xs : List α} {e : ε} :
    xs.mapM f = .error e ↔ FirstFault f xs e := by
  induction xs with
  | nil =>
      rw [List.mapM_nil]
      refine iff_of_false nofun ?_
      rintro ⟨before, x, after, whole, -⟩
      exact List.append_ne_nil_of_right_ne_nil before (List.cons_ne_nil x after) whole.symm
  | cons x xs ih =>
      rw [List.mapM_cons, firstFault_cons_iff, bind_eq_error_iff]
      cases here : f x with
      | error e' => simp
      | ok b =>
          rw [← ih]
          simp [bind_eq_error_iff, pure, Except.pure]

/-- Both results are faults, or both are values, and related as such. -/
inductive ResultsAgree {ε ε' α α' : Type} (faults : ε → ε' → Prop) (values : α → α' → Prop) :
    Except ε α → Except ε' α' → Prop
  | error {e e'} (h : faults e e') : ResultsAgree faults values (.error e) (.error e')
  | ok {a a'} (h : values a a') : ResultsAgree faults values (.ok a) (.ok a')

namespace ResultsAgree

variable {ε ε' α α' β β' : Type} {faults : ε → ε' → Prop} {values : α → α' → Prop}
  {x : Except ε α} {x' : Except ε' α'}

theorem bind {values' : β → β' → Prop} (h : ResultsAgree faults values x x')
    {next : α → Except ε β} {next' : α' → Except ε' β'}
    (onward : ∀ a a', values a a' → ResultsAgree faults values' (next a) (next' a')) :
    ResultsAgree faults values' (x >>= next) (x' >>= next') := by
  cases h with
  | error h => exact .error h
  | ok h => exact onward _ _ h

theorem mapError {δ δ' : Type} {faults' : δ → δ' → Prop} (h : ResultsAgree faults values x x')
    {f : ε → δ} {f' : ε' → δ'} (fails : ∀ e e', faults e e' → faults' (f e) (f' e')) :
    ResultsAgree faults' values (x.mapError f) (x'.mapError f') := by
  cases h with
  | error h => exact .error (fails _ _ h)
  | ok h => exact .ok h

theorem eq_error_iff {x' : Except ε α'} (h : ResultsAgree Eq values x x') (e : ε) :
    x = .error e ↔ x' = .error e := by
  cases h with
  | error same => rw [same, Except.error.injEq, Except.error.injEq]
  | ok h => exact ⟨nofun, nofun⟩

section

variable {faults : ε → ε → Prop} {values : α → α → Prop} {x y z : Except ε α}

theorem refl (fault : ∀ e, faults e e) (value : ∀ a, values a a) :
    ∀ x, ResultsAgree faults values x x
  | .error e => .error (fault e)
  | .ok a => .ok (value a)

theorem symm (fault : ∀ {e e'}, faults e e' → faults e' e)
    (value : ∀ {a a'}, values a a' → values a' a) (h : ResultsAgree faults values x y) :
    ResultsAgree faults values y x := by
  cases h with
  | error h => exact .error (fault h)
  | ok h => exact .ok (value h)

theorem trans (fault : ∀ {e e' e''}, faults e e' → faults e' e'' → faults e e'')
    (value : ∀ {a a' a''}, values a a' → values a' a'' → values a a'')
    (h : ResultsAgree faults values x y) (h' : ResultsAgree faults values y z) :
    ResultsAgree faults values x z := by
  cases h with
  | error h =>
      cases h' with
      | error h' => exact .error (fault h h')
  | ok h =>
      cases h' with
      | ok h' => exact .ok (value h h')

end

end ResultsAgree
end HiddenText
