import Mathlib.Data.List.Basic

/-!
# Successive leftmost matches

A pattern is known by where it matches (`occurs text i j`: from position `i` to before `j`) and is
searched for from a position on: `Leftmost` says that the search answers a match that starts
nowhere later than any other. The successive matches of a text (`findIter`) are then found one
after the end of the other, and one that is not among them starts within one that is
(`findIter_covers`).
-/

namespace Goble

variable {α : Type*}

/-- A search from a position on: the match that starts first. -/
structure Leftmost (occurs : List α → Nat → Nat → Prop)
    (findAt : List α → Nat → Option (Nat × Nat)) : Prop where
  found : ∀ text start i j, findAt text start = some (i, j) →
    start ≤ i ∧ i ≤ j ∧ j ≤ text.length ∧ occurs text i j
  leftmost : ∀ text start i j, findAt text start = some (i, j) →
    ∀ i' j', start ≤ i' → occurs text i' j' → i ≤ i'
  complete : ∀ text start, findAt text start = none →
    ∀ i j, start ≤ i → ¬ occurs text i j

variable (findAt : List α → Nat → Option (Nat × Nat))

/-- The matches from a position on. An empty match where the last one ended is passed over, and
the search goes on after one more entry. -/
def findFrom (text : List α) : Nat → Nat → Option Nat → List (Nat × Nat)
  | 0, _, _ => []
  | turns + 1, start, last =>
    match findAt text start with
    | none => []
    | some (i, j) =>
      if i = j ∧ last = some j then
        match findAt text (start + 1) with
        | none => []
        | some (i, j) => (i, j) :: findFrom text turns j (some j)
      else (i, j) :: findFrom text turns j (some j)

/-- Every turn but the first moves on, so there are no more than twice as many as entries. -/
def findIter (text : List α) : List (Nat × Nat) :=
  findFrom findAt text (2 * text.length + 2) 0 none

variable {findAt} {occurs : List α → Nat → Nat → Prop} {text : List α}

theorem mem_findFrom (h : Leftmost occurs findAt) {turns start : Nat} {last : Option Nat}
    {i j : Nat} (hmem : (i, j) ∈ findFrom findAt text turns start last) :
    i ≤ j ∧ j ≤ text.length ∧ occurs text i j := by
  induction turns generalizing start last with
  | zero => cases hmem
  | succ turns ih =>
    have hcons {start i' j' : Nat} (hfind : findAt text start = some (i', j'))
        (hmem : (i, j) ∈ (i', j') :: findFrom findAt text turns j' (some j')) :
        i ≤ j ∧ j ≤ text.length ∧ occurs text i j := by
      obtain hfirst | hlater := List.mem_cons.mp hmem
      · obtain ⟨rfl, rfl⟩ := Prod.mk.inj hfirst
        exact (h.found _ _ _ _ hfind).2
      · exact ih hlater
    rw [findFrom] at hmem
    split at hmem
    · cases hmem
    · next i' j' hfind =>
      split at hmem
      · split at hmem
        · cases hmem
        · next hfind' => exact hcons hfind' hmem
      · exact hcons hfind hmem

/-- A pattern that does not match the empty text: each turn moves on past its match. -/
theorem findFrom_covers (h : Leftmost occurs findAt) (hne : ∀ i, ¬ occurs text i i) {turns : Nat}
    (start : Nat) (last : Option Nat) (hturns : text.length < start + turns) {i j : Nat}
    (hstart : start ≤ i) (hi : i < text.length) (hoccurs : occurs text i j) :
    ∃ found ∈ findFrom findAt text turns start last, found.1 ≤ i ∧ i < found.2 := by
  induction turns generalizing start last with
  | zero => omega
  | succ turns ih =>
    rw [findFrom]
    cases hfind : findAt text start with
    | none => exact absurd hoccurs (h.complete _ _ hfind i j hstart)
    | some found =>
      obtain ⟨i', j'⟩ := found
      obtain ⟨hle, hle', -, hoccurs'⟩ := h.found _ _ _ _ hfind
      have hleft := h.leftmost _ _ _ _ hfind i j hstart hoccurs
      have hlt : i' < j' := by
        refine Nat.lt_of_le_of_ne hle' fun heq => hne j' ?_
        rwa [heq] at hoccurs'
      dsimp only
      rw [if_neg fun hempty => Nat.ne_of_lt hlt hempty.1]
      by_cases hcovered : i < j'
      · exact ⟨(i', j'), List.mem_cons_self, hleft, hcovered⟩
      · obtain ⟨found, hmem, hfound⟩ :=
          ih j' (some j') (by omega) (Nat.not_lt.mp hcovered)
        exact ⟨found, List.mem_cons_of_mem _ hmem, hfound⟩

/-- **A match that is not reported starts within one that is**, which starts before it. -/
theorem findIter_covers (h : Leftmost occurs findAt) (hne : ∀ i, ¬ occurs text i i) {i j : Nat}
    (hi : i < text.length) (hoccurs : occurs text i j) :
    ∃ found ∈ findIter findAt text, found.1 ≤ i ∧ i < found.2 :=
  findFrom_covers h hne 0 none (by omega) (Nat.zero_le i) hi hoccurs

theorem mem_findIter (h : Leftmost occurs findAt) {i j : Nat}
    (hmem : (i, j) ∈ findIter findAt text) : i ≤ j ∧ j ≤ text.length ∧ occurs text i j :=
  mem_findFrom h hmem

end Goble
