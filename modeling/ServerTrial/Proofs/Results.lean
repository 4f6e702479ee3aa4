import Mathlib.Data.List.Basic

/-!
# Results that may fail

What a sequence of steps, or a step for each element of a list, yields: the first failure decides.
-/

namespace ServerTrial

section Except

variable {ε ε' α β : Type}

theorem bind_eq_ok {x : Except ε α} {f : α → Except ε β} {b : β} (h : x >>= f = .ok b) :
    ∃ a, x = .ok a ∧ f a = .ok b := by
  cases x with
  | error e => cases h
  | ok a => exact ⟨a, rfl, h⟩

theorem bind_eq_error_iff {x : Except ε α} {next : α → Except ε β} {e : ε} :
    x >>= next = .error e ↔ x = .error e ∨ ∃ a, x = .ok a ∧ next a = .error e := by
  cases x <;> simp [bind, Except.bind]

theorem mapError_eq_ok {x : Except ε α} {f : ε → ε'} {a : α} (h : x.mapError f = .ok a) : x = .ok a := by
  cases x with
  | error e => cases h
  | ok b => rw [Except.ok.inj h]

theorem forM_eq_ok {xs : List α} {f : α → Except ε Unit} (h : xs.forM f = .ok ()) :
    ∀ x ∈ xs, f x = .ok () := by
  induction xs with
  | nil => intro x hx; cases hx
  | cons x xs ih =>
    rw [List.forM_eq_forM, List.forM_cons] at h
    obtain ⟨_, first, rest⟩ := bind_eq_ok h
    exact List.forall_mem_cons.2 ⟨first, ih rest⟩

theorem forM_of_ok {xs : List α} {f : α → Except ε Unit} (passed : ∀ x ∈ xs, f x = .ok ()) : xs.forM f = .ok () := by
  induction xs with
  | nil => rfl
  | cons x xs ih =>
    rw [List.forall_mem_cons] at passed
    rw [List.forM_eq_forM, List.forM_cons, passed.1]
    exact ih passed.2

/-- The first failure decides. -/
theorem forM_eq_error_iff {xs : List α} {f : α → Except ε Unit} {e : ε} :
    xs.forM f = .error e ↔
      ∃ before x after, xs = before ++ x :: after ∧ (∀ y ∈ before, f y = .ok ()) ∧ f x = .error e := by
  induction xs with
  | nil =>
    constructor
    · intro h
      cases h
    · rintro ⟨before, x, after, split, -⟩
      simp at split
  | cons x xs ih =>
    rw [List.forM_eq_forM, List.forM_cons, bind_eq_error_iff, ← List.forM_eq_forM, ih]
    constructor
    · rintro (first | ⟨_, first, before, y, after, rfl, passed, failed⟩)
      · exact ⟨[], x, xs, rfl, List.forall_mem_nil _, first⟩
      · exact ⟨x :: before, y, after, rfl, List.forall_mem_cons.2 ⟨first, passed⟩, failed⟩
    · rintro ⟨before, y, after, split, passed, failed⟩
      cases before with
      | nil =>
        rw [(List.cons.inj split).1]
        exact .inl failed
      | cons z before =>
        obtain ⟨rfl, rfl⟩ := List.cons.inj split
        rw [List.forall_mem_cons] at passed
        exact .inr ⟨(), passed.1, before, y, after, rfl, passed.2, failed⟩

end Except

end ServerTrial
