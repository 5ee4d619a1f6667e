import Mathlib.Algebra.Ring.Nat
import Mathlib.Data.List.Basic

/-!
# Arithmetic and indexing that can panic

Sums and products of `w`-bit integers, differences, and a list that is written to by position.
`none` is the panic. A reader that walks over a list with a position never reads past its end:
`Stands` relates the position to what is still to be read.
-/

namespace Goble

variable {w : Nat}

namespace Checked

variable {α β : Type*}

def add (w a b : Nat) : Option Nat := if a + b < 2 ^ w then some (a + b) else none

def sub (a b : Nat) : Option Nat := if b ≤ a then some (a - b) else none

def mul (w a b : Nat) : Option Nat := if a * b < 2 ^ w then some (a * b) else none

def set (xs : List α) (i : Nat) (x : α) : Option (List α) :=
  if i < xs.length then some (xs.set i x) else none

/-- The largest `w`-bit integer in place of an overflow. -/
def saturatingAdd (w a b : Nat) : Nat := min (a + b) (2 ^ w - 1)

def saturatingMul (w a b : Nat) : Nat := min (a * b) (2 ^ w - 1)

variable {a b : Nat}

theorem add_eq (h : a + b < 2 ^ w) : add w a b = some (a + b) := if_pos h

theorem sub_eq (h : b ≤ a) : sub a b = some (a - b) := if_pos h

theorem mul_eq (h : a * b < 2 ^ w) : mul w a b = some (a * b) := if_pos h

theorem set_eq {xs : List α} {i : Nat} (h : i < xs.length) (x : α) :
    set xs i x = some (xs.set i x) := if_pos h

theorem saturatingAdd_eq (h : a + b < 2 ^ w) : saturatingAdd w a b = a + b :=
  Nat.min_eq_left (Nat.le_sub_one_of_lt h)

theorem saturatingMul_eq (h : a * b < 2 ^ w) : saturatingMul w a b = a * b :=
  Nat.min_eq_left (Nat.le_sub_one_of_lt h)

/-- A loop that may panic, the outer `none`, and may stop early, the inner one. -/
def fold (turn : β → α → Option (Option β)) (b : β) : List α → Option (Option β)
  | [] => some (some b)
  | x :: xs =>
    match turn b x with
    | none => none
    | some none => some none
    | some (some b) => fold turn b xs

theorem fold_eq {turn : β → α → Option β} {turnAt : β → α → Option (Option β)} (xs : List α)
    (b : β) (h : ∀ x ∈ xs, ∀ b, turnAt b x = some (turn b x)) :
    fold turnAt b xs = some (xs.foldlM turn b) := by
  induction xs generalizing b with
  | nil => rfl
  | cons x xs ih =>
    obtain ⟨hx, hxs⟩ := List.forall_mem_cons.mp h
    rw [fold, hx b, List.foldlM_cons]
    cases turn b x with
    | none => rfl
    | some b => exact ih b hxs

end Checked

/-- A reader of the list at a position, and what it has still to read. -/
structure Stands {α : Type*} (data : List α) (index : Nat) (rest : List α) : Prop where
  le : index ≤ data.length
  drop : data.drop index = rest

namespace Stands

variable {α : Type*} {data rest : List α} {index : Nat} {x : α}

theorem start (data : List α) : Stands data 0 data := ⟨Nat.zero_le _, rfl⟩

theorem length_eq (h : Stands data index rest) : index + rest.length = data.length := by
  rw [← h.drop, List.length_drop]
  exact Nat.add_sub_cancel' h.le

theorem get_nil (h : Stands data index []) : data[index]? = none := by
  have hlength := h.length_eq
  exact List.getElem?_eq_none (Nat.le_of_eq hlength.symm)

theorem lt (h : Stands data index (x :: rest)) : index < data.length := by
  have hlength := h.length_eq
  rw [List.length_cons] at hlength
  omega

theorem get_cons (h : Stands data index (x :: rest)) : data[index]? = some x := by
  have hget : (data.drop index)[0]? = some x := by
    rw [h.drop]
    rfl
  rwa [List.getElem?_drop, Nat.add_zero] at hget

theorem next (h : Stands data index (x :: rest)) : Stands data (index + 1) rest := by
  refine ⟨h.lt, ?_⟩
  rw [← List.drop_drop, h.drop]
  rfl

/-- A position of the list is one more than it a number that fits as well. -/
theorem add_one (h : Stands data index (x :: rest)) (hw : data.length < 2 ^ w) :
    Checked.add w index 1 = some (index + 1) :=
  Checked.add_eq (Nat.lt_of_le_of_lt h.lt hw)

end Stands

end Goble
