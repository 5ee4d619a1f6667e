import Mathlib.Data.List.Basic

/-!
# The length of a longest common sublist

`LongestCommon n xs ys` says that `n` is the length of a longest list contained in both. It
determines `n` (`LongestCommon.unique`), and it is computed from the ends of the two lists: equal
ones belong to some longest common sublist (`LongestCommon.cons_same`), and of two different ones at
least one is in none (`LongestCommon.cons_ne`). What two lists share at their start or at their end
therefore counts in full (`LongestCommon.append_left`, `LongestCommon.append_right`).
-/

namespace Goble

variable {α : Type*} {xs ys : List α} {x y : α} {m n : Nat}

structure LongestCommon (n : Nat) (xs ys : List α) : Prop where
  exists_common : ∃ zs : List α, zs.Sublist xs ∧ zs.Sublist ys ∧ zs.length = n
  le : ∀ zs : List α, zs.Sublist xs → zs.Sublist ys → zs.length ≤ n

namespace LongestCommon

theorem unique (h : LongestCommon m xs ys) (h' : LongestCommon n xs ys) : m = n := by
  obtain ⟨zs, hxs, hys, rfl⟩ := h.exists_common
  obtain ⟨zs', hxs', hys', rfl⟩ := h'.exists_common
  exact Nat.le_antisymm (h'.le zs hxs hys) (h.le zs' hxs' hys')

theorem nil_left (ys : List α) : LongestCommon 0 [] ys := by
  refine ⟨⟨[], List.nil_sublist _, List.nil_sublist _, rfl⟩, fun zs hxs _ => ?_⟩
  rw [List.sublist_nil.mp hxs]
  exact Nat.le_refl 0

theorem nil_right (xs : List α) : LongestCommon 0 xs [] := by
  refine ⟨⟨[], List.nil_sublist _, List.nil_sublist _, rfl⟩, fun zs _ hys => ?_⟩
  rw [List.sublist_nil.mp hys]
  exact Nat.le_refl 0

/-- A common sublist of two lists that start alike loses at most its first entry to the tails. -/
theorem cons_same (h : LongestCommon n xs ys) (x : α) :
    LongestCommon (n + 1) (x :: xs) (x :: ys) := by
  constructor
  · obtain ⟨zs, hxs, hys, hlength⟩ := h.exists_common
    exact ⟨x :: zs, hxs.cons_cons x, hys.cons_cons x, congrArg (· + 1) hlength⟩
  · intro zs hxs hys
    have htail := h.le zs.tail hxs.tail hys.tail
    rw [List.length_tail] at htail
    omega

/-- Two lists that start with different entries: a common sublist passes over one of them. -/
theorem cons_ne (hne : x ≠ y) (hleft : LongestCommon m xs (y :: ys))
    (hright : LongestCommon n (x :: xs) ys) :
    LongestCommon (max m n) (x :: xs) (y :: ys) := by
  constructor
  · obtain hle | hle := Nat.le_total m n
    · rw [Nat.max_eq_right hle]
      obtain ⟨zs, hxs, hys, hlength⟩ := hright.exists_common
      exact ⟨zs, hxs, hys.cons y, hlength⟩
    · rw [Nat.max_eq_left hle]
      obtain ⟨zs, hxs, hys, hlength⟩ := hleft.exists_common
      exact ⟨zs, hxs.cons x, hys, hlength⟩
  · intro zs hxs hys
    obtain hskip | ⟨zs', rfl, -⟩ := List.sublist_cons_iff.mp hxs
    · exact Nat.le_trans (hleft.le zs hskip hys) (Nat.le_max_left m n)
    · obtain hskip | ⟨zs'', heq, -⟩ := List.sublist_cons_iff.mp hys
      · exact Nat.le_trans (hright.le _ hxs hskip) (Nat.le_max_right m n)
      · exact absurd (List.cons.inj heq).1 hne

protected theorem reverse (h : LongestCommon n xs ys) : LongestCommon n xs.reverse ys.reverse := by
  constructor
  · obtain ⟨zs, hxs, hys, hlength⟩ := h.exists_common
    exact ⟨zs.reverse, hxs.reverse, hys.reverse, by rw [List.length_reverse, hlength]⟩
  · intro zs hxs hys
    have hback := h.le zs.reverse (List.reverse_sublist.mp (by rwa [List.reverse_reverse]))
      (List.reverse_sublist.mp (by rwa [List.reverse_reverse]))
    rwa [List.length_reverse] at hback

theorem append_left (h : LongestCommon n xs ys) (front : List α) :
    LongestCommon (front.length + n) (front ++ xs) (front ++ ys) := by
  induction front with
  | nil =>
    rw [List.length_nil, Nat.zero_add]
    exact h
  | cons a front ih =>
    rw [List.length_cons, Nat.succ_add]
    exact ih.cons_same a

theorem append_right (h : LongestCommon n xs ys) (back : List α) :
    LongestCommon (n + back.length) (xs ++ back) (ys ++ back) := by
  have hreverse := (h.reverse.append_left back.reverse).reverse
  rwa [← List.reverse_append, ← List.reverse_append, List.reverse_reverse, List.reverse_reverse,
    List.length_reverse, Nat.add_comm] at hreverse

end LongestCommon

end Goble
