import Mathlib.Order.Bounds.Basic

/-!
# Occurrences and what is due

A schedule is seen here only as the set of times at which something occurs. `IsNext` says that
a value is the first occurrence after a time, `Due` that something has occurred between two times.
Whoever keeps the next occurrence after the last time it looked can tell what is due from that
value alone (`IsNext.due_iff`), and need not compute it again while nothing is (`IsNext.later`).
-/

namespace Goble

variable {Time : Type*} [LinearOrder Time] {occurs : Time → Prop} {since now : Time}

def Due (occurs : Time → Prop) (since now : Time) : Prop := ∃ u, occurs u ∧ since < u ∧ u ≤ now

def IsNext (occurs : Time → Prop) (since : Time) : Option Time → Prop
  | some u => IsLeast {v | occurs v ∧ since < v} u
  | none => ∀ v, occurs v → v ≤ since

theorem not_due_self : ¬ Due occurs now now :=
  fun ⟨_, _, hafter, hle⟩ => (hafter.trans_le hle).false

namespace IsNext

theorem lt {u : Time} (h : IsNext occurs since (some u)) : since < u := h.1.2

theorem due_iff {u : Time} (h : IsNext occurs since (some u)) : Due occurs since now ↔ u ≤ now := by
  constructor
  · rintro ⟨v, hv, hafter, hle⟩
    exact (h.2 ⟨hv, hafter⟩).trans hle
  · exact fun hle => ⟨u, h.1.1, h.1.2, hle⟩

theorem not_due (h : IsNext occurs since none) : ¬ Due occurs since now :=
  fun ⟨v, hv, hafter, _⟩ => (hafter.trans_le (h v hv)).false

theorem later {next : Option Time} (h : IsNext occurs since next) (hle : since ≤ now)
    (hnot : ¬ Due occurs since now) : IsNext occurs now next := by
  cases next with
  | none => exact fun v hv => (h v hv).trans hle
  | some u =>
    have hafter : now < u := lt_of_not_ge fun hle' => hnot (h.due_iff.mpr hle')
    exact ⟨⟨h.1.1, hafter⟩, fun v hv => h.2 ⟨hv.1, hle.trans_lt hv.2⟩⟩

theorem unique {next next' : Option Time} (h : IsNext occurs since next)
    (h' : IsNext occurs since next') : next = next' := by
  cases next with
  | none =>
    cases next' with
    | none => rfl
    | some u' => exact absurd (h u' h'.1.1) (not_le_of_gt h'.lt)
  | some u =>
    cases next' with
    | none => exact absurd (h' u h.1.1) (not_le_of_gt h.lt)
    | some u' => exact congrArg some (IsLeast.unique h h')

end IsNext

end Goble
