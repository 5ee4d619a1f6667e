import Mathlib.Data.List.Basic

/-!
# Joined lists

Lists written one after the other with a separator between them. Where no part holds the
separator, what was joined can be read back.
-/

namespace Goble

variable {α : Type*} {sep : α} {x y z w : List α} {parts parts' : List (List α)}

/-- The first separator is where the first part ends. -/
theorem append_cons_inj (hx : sep ∉ x) (hy : sep ∉ y) :
    x ++ sep :: z = y ++ sep :: w ↔ x = y ∧ z = w := by
  constructor
  · intro h
    induction x generalizing y with
    | nil =>
      cases y with
      | nil => exact ⟨rfl, (List.cons.inj h).2⟩
      | cons a y => exact absurd List.mem_cons_self ((List.cons.inj h).1 ▸ hy)
    | cons a x ih =>
      cases y with
      | nil => exact absurd List.mem_cons_self ((List.cons.inj h).1 ▸ hx)
      | cons b y =>
        obtain ⟨rfl, hrest⟩ := List.cons.inj h
        have hx' : sep ∉ x := fun hmem => hx (List.mem_cons_of_mem a hmem)
        have hy' : sep ∉ y := fun hmem => hy (List.mem_cons_of_mem a hmem)
        obtain ⟨rfl, rfl⟩ := ih hx' hy' hrest
        exact ⟨rfl, rfl⟩
  · rintro ⟨rfl, rfl⟩
    rfl

theorem intercalate_inj [DecidableEq α] (hparts : ∀ part ∈ parts, sep ∉ part)
    (hparts' : ∀ part ∈ parts', sep ∉ part) (hne : parts ≠ []) (hne' : parts' ≠ [])
    (h : [sep].intercalate parts = [sep].intercalate parts') : parts = parts' :=
  calc parts
      = ([sep].intercalate parts).splitOn sep := (List.splitOn_intercalate sep hparts hne).symm
    _ = ([sep].intercalate parts').splitOn sep := by rw [h]
    _ = parts' := List.splitOn_intercalate sep hparts' hne'

theorem intercalate_cons (hne : parts ≠ []) :
    [sep].intercalate (x :: parts) = x ++ sep :: [sep].intercalate parts := by
  rw [List.intercalate_cons_of_ne_nil hne, List.append_assoc]
  rfl

/-- What a join holds comes from a part, or is the separator. -/
theorem mem_intercalate {a : α} (h : a ∈ [sep].intercalate parts) :
    a = sep ∨ ∃ part ∈ parts, a ∈ part := by
  induction parts with
  | nil => cases h
  | cons part parts ih =>
    by_cases hne : parts = []
    · subst hne
      exact .inr ⟨part, List.mem_cons_self, by simpa using h⟩
    rw [intercalate_cons hne, List.mem_append, List.mem_cons] at h
    obtain hpart | hsep | hrest := h
    · exact .inr ⟨part, List.mem_cons_self, hpart⟩
    · exact .inl hsep
    · obtain hsep | ⟨part', hpart', hmem⟩ := ih hrest
      · exact .inl hsep
      · exact .inr ⟨part', List.mem_cons_of_mem part hpart', hmem⟩

theorem intercalate_eq_nil (hparts : ∀ part ∈ parts, part ≠ [])
    (h : [sep].intercalate parts = []) : parts = [] := by
  cases parts with
  | nil => rfl
  | cons part parts =>
    have hpart := hparts part List.mem_cons_self
    by_cases hne : parts = []
    · subst hne
      exact absurd (by simpa using h) hpart
    · rw [intercalate_cons hne] at h
      exact absurd (List.append_eq_nil_iff.mp h).1 hpart

theorem intercalate_inj_of_ne_nil [DecidableEq α] (hparts : ∀ part ∈ parts, part ≠ [] ∧ sep ∉ part)
    (hparts' : ∀ part ∈ parts', part ≠ [] ∧ sep ∉ part)
    (h : [sep].intercalate parts = [sep].intercalate parts') : parts = parts' := by
  by_cases hne : parts = []
  · subst hne
    exact (intercalate_eq_nil (fun part hpart => (hparts' part hpart).1) h.symm).symm
  by_cases hne' : parts' = []
  · subst hne'
    exact intercalate_eq_nil (fun part hpart => (hparts part hpart).1) h
  exact intercalate_inj (fun part hpart => (hparts part hpart).2)
    (fun part hpart => (hparts' part hpart).2) hne hne' h

/-- The parts, each with the separator after it, read back. -/
theorem flatMap_concat_inj (hparts : ∀ part ∈ parts, sep ∉ part)
    (hparts' : ∀ part ∈ parts', sep ∉ part)
    (h : parts.flatMap (· ++ [sep]) = parts'.flatMap (· ++ [sep])) : parts = parts' := by
  induction parts generalizing parts' with
  | nil =>
    cases parts' with
    | nil => rfl
    | cons part' parts' =>
      rw [List.flatMap_nil, List.flatMap_cons, List.append_assoc] at h
      exact absurd h.symm (by simp)
  | cons part parts ih =>
    cases parts' with
    | nil =>
      rw [List.flatMap_nil, List.flatMap_cons, List.append_assoc] at h
      exact absurd h (by simp)
    | cons part' parts' =>
      rw [List.flatMap_cons, List.flatMap_cons, List.append_assoc, List.append_assoc] at h
      obtain ⟨rfl, hrest⟩ := (append_cons_inj (hparts part List.mem_cons_self)
        (hparts' part' List.mem_cons_self)).mp h
      rw [ih (fun other hother => hparts other (List.mem_cons_of_mem part hother))
        (fun other hother => hparts' other (List.mem_cons_of_mem part hother)) hrest]

end Goble
