import Mathlib.Algebra.BigOperators.Group.List.Basic
import Mathlib.Algebra.Order.Group.Int
import Mathlib.Algebra.Ring.Int.Defs

/-!
# Balanced lists and the scan for a partner

One entry opens, another closes, and the rest is neutral. `excess` counts what a list opens beyond
what it closes; a list is `Balanced` when it ends even and never falls below where it began. The
partner of an opening entry is found by a scan that keeps the depth (`partner`): it is the first
closing entry after a balanced list (`partner_eq_some_iff`), and a scan that finds none never falls
below (`partner_spec`).

Read backwards, with the two entries exchanged, a balanced list is balanced again
(`Balanced.reverse`), so a scan in the other direction needs no argument of its own.
-/

namespace Goble

variable {α : Type*} [DecidableEq α] {opening closing : α}

/-- What an entry adds to the depth. -/
def weight (opening closing a : α) : Int :=
  if a = opening then 1 else if a = closing then -1 else 0

def excess (opening closing : α) (l : List α) : Int := (l.map (weight opening closing)).sum

/-- From depth `d` on, the list never falls below zero. -/
def Holds (opening closing : α) (d : Int) (l : List α) : Prop :=
  ∀ front, front <+: l → 0 ≤ d + excess opening closing front

structure Balanced (opening closing : α) (l : List α) : Prop where
  holds : Holds opening closing 0 l
  even : excess opening closing l = 0

def partner (opening closing : α) : Nat → List α → Option Nat
  | _, [] => none
  | d, a :: l =>
    if a = opening then (partner opening closing (d + 1) l).map (· + 1)
    else if a = closing then
      if d = 0 then some 0 else (partner opening closing (d - 1) l).map (· + 1)
    else (partner opening closing d l).map (· + 1)

theorem weight_closing (hne : opening ≠ closing) : weight opening closing closing = -1 := by
  rw [weight, if_neg hne.symm, if_pos rfl]

theorem weight_swap (hne : opening ≠ closing) (a : α) :
    weight closing opening a = -weight opening closing a := by
  unfold weight
  split_ifs with hclosing hopening
  · exact absurd (hopening.symm.trans hclosing) hne
  all_goals rfl

variable {l m front : List α} {a : α} {d : Int} {n depth : Nat}

@[simp] theorem excess_nil : excess opening closing [] = 0 := rfl

@[simp] theorem excess_cons :
    excess opening closing (a :: l) = weight opening closing a + excess opening closing l := by
  rw [excess, List.map_cons, List.sum_cons, excess]

@[simp] theorem excess_append :
    excess opening closing (l ++ m) = excess opening closing l + excess opening closing m := by
  rw [excess, List.map_append, List.sum_append, excess, excess]

@[simp] theorem excess_reverse : excess opening closing l.reverse = excess opening closing l := by
  rw [excess, List.map_reverse, List.sum_reverse, excess]

theorem excess_swap (hne : opening ≠ closing) (l : List α) :
    excess closing opening l = -excess opening closing l := by
  induction l with
  | nil => rfl
  | cons a l ih =>
    rw [excess_cons, excess_cons, ih, weight_swap hne]
    omega

theorem holds_nil : Holds opening closing d [] ↔ 0 ≤ d := by
  unfold Holds
  constructor
  · intro h
    have hd := h [] (List.prefix_rfl)
    rwa [excess_nil, add_zero] at hd
  · intro hd front hfront
    rw [List.prefix_nil.mp hfront, excess_nil, add_zero]
    exact hd

theorem holds_cons : Holds opening closing d (a :: l) ↔
    0 ≤ d ∧ Holds opening closing (d + weight opening closing a) l := by
  constructor
  · intro h
    refine ⟨?_, fun front hfront => ?_⟩
    · have hd := h [] (List.nil_prefix)
      rwa [excess_nil, add_zero] at hd
    · have hd := h (a :: front) (List.cons_prefix_cons.mpr ⟨rfl, hfront⟩)
      rwa [excess_cons, ← add_assoc] at hd
  · rintro ⟨hd, h⟩ front hfront
    obtain rfl | ⟨front, rfl, hrest⟩ := List.prefix_cons_iff.mp hfront
    · rw [excess_nil, add_zero]
      exact hd
    · rw [excess_cons, ← add_assoc]
      exact h front hrest

theorem Holds.of_prefix (h : Holds opening closing d l) (hfront : front <+: l) :
    Holds opening closing d front := fun p hp => h p (hp.trans hfront)

theorem Holds.start_nonneg (h : Holds opening closing d l) : 0 ≤ d :=
  holds_nil.mp (h.of_prefix List.nil_prefix)

theorem balanced_singleton (hopening : a ≠ opening) (hclosing : a ≠ closing) :
    Balanced opening closing [a] := by
  have hweight : weight opening closing a = 0 := by
    rw [weight, if_neg hopening, if_neg hclosing]
  refine ⟨holds_cons.mpr ⟨le_rfl, holds_nil.mpr ?_⟩, ?_⟩
  · rw [hweight, add_zero]
  · rw [excess_cons, excess_nil, hweight, add_zero]

theorem Balanced.append (hl : Balanced opening closing l) (hm : Balanced opening closing m) :
    Balanced opening closing (l ++ m) := by
  refine ⟨fun front hfront => ?_, by rw [excess_append, hl.even, hm.even, add_zero]⟩
  obtain hshort | ⟨back, rfl⟩ :=
    List.prefix_or_prefix_of_prefix hfront (List.prefix_append l m)
  · exact hl.holds front hshort
  · rw [excess_append, hl.even, zero_add]
    exact hm.holds back ((List.prefix_append_right_inj l).mp hfront)

/-- A balanced list, read backwards with the two entries exchanged, is balanced: a prefix of it
leaves a prefix of the list, and the two are opposite. -/
theorem Balanced.reverse (hne : opening ≠ closing) (h : Balanced opening closing l) :
    Balanced closing opening l.reverse := by
  refine ⟨?_, by rw [excess_reverse, excess_swap hne, h.even, neg_zero]⟩
  rintro front ⟨back, hback⟩
  have hl : l = back.reverse ++ front.reverse := by
    rw [← List.reverse_append, hback, List.reverse_reverse]
  have heven : excess opening closing back.reverse + excess opening closing front.reverse = 0 := by
    rw [← excess_append, ← hl]
    exact h.even
  have hnonneg := h.holds back.reverse ⟨front.reverse, hl.symm⟩
  rw [excess_reverse] at heven
  rw [excess_swap hne, ← excess_reverse]
  rw [excess_reverse] at hnonneg
  omega

/-! ### The scan -/

/-- The scan passes over what never falls below, and keeps count of it. -/
theorem partner_append (h : Holds opening closing depth m) :
    partner opening closing depth (m ++ l) =
      (partner opening closing (depth + excess opening closing m).toNat l).map (· + m.length) := by
  induction m generalizing depth with
  | nil =>
    rw [List.nil_append, excess_nil, add_zero, Int.toNat_natCast]
    exact Option.map_id'.symm
  | cons a m ih =>
    have hrest := (holds_cons.mp h).2
    have hpass : ∀ depth' : Nat, (depth' : Int) = depth + weight opening closing a →
        (partner opening closing depth' (m ++ l)).map (· + 1) =
          (partner opening closing (depth + excess opening closing (a :: m)).toNat l).map
            (· + (a :: m).length) := by
      intro depth' hdepth
      rw [← hdepth] at hrest
      rw [ih hrest, Option.map_map, excess_cons, ← add_assoc, ← hdepth]
      rfl
    rw [List.cons_append, partner]
    unfold weight at hpass
    split_ifs at hpass ⊢ with hopening hclosing hdepth
    · exact hpass (depth + 1) (by push_cast; rfl)
    · -- at depth zero a closing entry falls below
      have hstart := hrest.start_nonneg
      rw [weight, if_neg hopening, if_pos hclosing, hdepth] at hstart
      exact absurd hstart (by decide)
    · exact hpass (depth - 1) (by omega)
    · exact hpass depth (by rw [add_zero])

theorem partner_append_balanced (h : Balanced opening closing m) :
    partner opening closing 0 (m ++ l) = (partner opening closing 0 l).map (· + m.length) := by
  have hpass : partner opening closing 0 (m ++ l) = _ := partner_append h.holds
  rw [hpass, h.even, Int.natCast_zero, add_zero, Int.toNat_zero]

/-- What the scan returns: the length of what it passed, which never falls below and ends even. -/
theorem partner_spec (opening closing : α) (depth : Nat) (l : List α) :
    (∃ seg tail, l = seg ++ closing :: tail ∧ partner opening closing depth l = some seg.length ∧
      Holds opening closing depth seg ∧ depth + excess opening closing seg = 0) ∨
    (partner opening closing depth l = none ∧ Holds opening closing depth l) := by
  induction l generalizing depth with
  | nil => exact .inr ⟨rfl, holds_nil.mpr (by omega)⟩
  | cons a l ih =>
    have hpass : ∀ depth' : Nat, (depth' : Int) = depth + weight opening closing a →
        partner opening closing depth (a :: l) =
          (partner opening closing depth' l).map (· + 1) →
        (∃ seg tail, a :: l = seg ++ closing :: tail ∧
          partner opening closing depth (a :: l) = some seg.length ∧
          Holds opening closing depth seg ∧ depth + excess opening closing seg = 0) ∨
        (partner opening closing depth (a :: l) = none ∧
          Holds opening closing depth (a :: l)) := by
      intro depth' hdepth hscan
      obtain ⟨seg, tail, rfl, hfound, hholds, heven⟩ | ⟨hnone, hholds⟩ := ih depth'
      · rw [hdepth] at hholds heven
        refine .inl ⟨a :: seg, tail, rfl, by rw [hscan, hfound]; rfl,
          holds_cons.mpr ⟨by omega, hholds⟩, by rw [excess_cons]; omega⟩
      · rw [hdepth] at hholds
        exact .inr ⟨by rw [hscan, hnone]; rfl, holds_cons.mpr ⟨by omega, hholds⟩⟩
    unfold weight at hpass
    by_cases hopening : a = opening
    · rw [if_pos hopening] at hpass
      exact hpass (depth + 1) (by push_cast; rfl) (by rw [partner, if_pos hopening])
    rw [if_neg hopening] at hpass
    by_cases hclosing : a = closing
    · rw [if_pos hclosing] at hpass
      by_cases hdepth : depth = 0
      · refine .inl ⟨[], l, by rw [hclosing]; rfl, ?_, holds_nil.mpr (by omega), by
          rw [hdepth]; rfl⟩
        rw [partner, if_neg hopening, if_pos hclosing, if_pos hdepth]
        rfl
      · exact hpass (depth - 1) (by omega) (by
          rw [partner, if_neg hopening, if_pos hclosing, if_neg hdepth])
    · rw [if_neg hclosing] at hpass
      exact hpass depth (by rw [add_zero]) (by
        rw [partner, if_neg hopening, if_neg hclosing])

theorem partner_eq_some_iff (hne : opening ≠ closing) : partner opening closing 0 l = some n ↔
    ∃ seg tail, l = seg ++ closing :: tail ∧ seg.length = n ∧ Balanced opening closing seg := by
  constructor
  · intro hfound
    obtain ⟨seg, tail, hl, hlength, hholds, heven⟩ | ⟨hnone, -⟩ := partner_spec opening closing 0 l
    · rw [hlength] at hfound
      refine ⟨seg, tail, hl, Option.some.inj hfound, hholds, ?_⟩
      rwa [Int.natCast_zero, zero_add] at heven
    · rw [hnone] at hfound
      cases hfound
  · rintro ⟨seg, tail, rfl, rfl, hbalanced⟩
    rw [partner_append_balanced hbalanced, partner, if_neg hne.symm, if_pos rfl, if_pos rfl,
      Option.map_some, zero_add]

/-- A list that falls below has its partner within the prefix that does. -/
theorem partner_lt_of_neg (hfront : front <+: l) (hneg : excess opening closing front < 0) :
    ∃ k, k < front.length ∧ partner opening closing 0 l = some k := by
  obtain ⟨seg, tail, rfl, hfound, hholds, -⟩ | ⟨-, hholds⟩ :=
    partner_spec opening closing 0 l
  · refine ⟨seg.length, ?_, hfound⟩
    by_contra hlong
    have hseg : front <+: seg :=
      List.prefix_of_prefix_length_le hfront (List.prefix_append seg _) (by omega)
    have hnonneg := hholds front hseg
    rw [Int.natCast_zero, zero_add] at hnonneg
    omega
  · have hnonneg := hholds front hfront
    rw [Int.natCast_zero, zero_add] at hnonneg
    omega

end Goble
