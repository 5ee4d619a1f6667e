/-!
# Checks

Programs in `Except` that check one thing after the other: what they have checked when they pass.
-/

namespace Goble

variable {ε α : Type}

theorem bind_eq_ok {check : Except ε Unit} {rest : Unit → Except ε α} {a : α} :
    check >>= rest = .ok a ↔ check = .ok () ∧ rest () = .ok a := by
  cases check with
  | error error => simp [bind, Except.bind]
  | ok _ => simp [bind, Except.bind]

/-- A program after another. -/
theorem exists_of_bind_eq_ok {β : Type} {first : Except ε β} {rest : β → Except ε α} {a : α}
    (h : first >>= rest = .ok a) : ∃ b, first = .ok b ∧ rest b = .ok a := by
  cases first with
  | error error => cases h
  | ok b => exact ⟨b, rfl, h⟩

theorem ite_error_eq_ok {p : Prop} [Decidable p] {error : ε} {rest : Except ε α} {a : α} :
    (if p then .error error else rest) = .ok a ↔ ¬ p ∧ rest = .ok a := by
  by_cases hp : p
  · simp [hp]
  · simp [hp]

theorem forM_eq_ok {check : α → Except ε Unit} {xs : List α} :
    xs.forM check = .ok () ↔ ∀ x ∈ xs, check x = .ok () := by
  induction xs with
  | nil => simp [List.forM, pure, Except.pure]
  | cons x xs ih => rw [List.forM, bind_eq_ok, ih, List.forall_mem_cons]

end Goble
