import Mathlib.Data.List.Basic

/-!
# Lists that take only what is not matched

Items are added to a list one after the other, each only if nothing that is there already matches
it. Matching may be coarser than equality, and then an item may be turned away although it is not
there. `novel` is the items that are added; `mem_append_novel_iff` says when nothing was turned
away for good.
-/

namespace Goble

variable {κ : Type*} {m : κ → κ → Bool}

/-- What is added of these items to a list of known ones. -/
def novel (m : κ → κ → Bool) (known : List κ) : List κ → List κ
  | [] => []
  | k :: ks =>
    if known.any fun j => m j k then novel m known ks else k :: novel m (known ++ [k]) ks

theorem not_mem_novel {known : List κ} {k : κ} (ks : List κ)
    (h : (known.any fun j => m j k) = true) : k ∉ novel m known ks := by
  induction ks generalizing known with
  | nil => exact List.not_mem_nil
  | cons j ks ih =>
    rw [novel]
    split
    · exact ih h
    · next hj =>
      rw [List.mem_cons, not_or]
      refine ⟨?_, ih ?_⟩
      · rintro rfl
        exact hj h
      · rw [List.any_append, h, Bool.true_or]

/-- Each item is known or added just if each item that something before it matches is there
itself. -/
theorem mem_append_novel_iff {known ks : List κ} :
    (∀ k ∈ ks, k ∈ known ++ novel m known ks) ↔
      ∀ before k after, ks = before ++ k :: after →
        (∃ j ∈ known ++ before, m j k = true) → k ∈ known ++ before := by
  induction ks generalizing known with
  | nil =>
    refine iff_of_true nofun fun before k after h => ?_
    exact absurd h.symm (List.append_ne_nil_of_right_ne_nil _ (List.cons_ne_nil _ _))
  | cons first ks ih =>
    -- The first item is looked at with nothing before it, the others with the first before them.
    have hsplit : (∀ before k after, first :: ks = before ++ k :: after →
        (∃ j ∈ known ++ before, m j k = true) → k ∈ known ++ before) ↔
        ((∃ j ∈ known, m j first = true) → first ∈ known) ∧
          ∀ before k after, ks = before ++ k :: after →
            (∃ j ∈ (known ++ [first]) ++ before, m j k = true) →
              k ∈ (known ++ [first]) ++ before := by
      constructor
      · intro h
        refine ⟨fun hmatch => ?_, fun before k after hks hmatch => ?_⟩
        · have hfirst := h [] first ks rfl
          rw [List.append_nil] at hfirst
          exact hfirst hmatch
        · have hlater := h (first :: before) k after (congrArg (List.cons first) hks)
          rw [List.append_assoc] at hmatch ⊢
          exact hlater hmatch
      · rintro ⟨hfirst, hlater⟩ before k after hks hmatch
        cases before with
        | nil =>
          obtain ⟨rfl, rfl⟩ := List.cons.inj hks
          rw [List.append_nil] at hmatch ⊢
          exact hfirst hmatch
        | cons other before =>
          obtain ⟨rfl, hrest⟩ := List.cons.inj hks
          have hmem := hlater before k after hrest
          rw [List.append_assoc] at hmem
          exact hmem hmatch
    rw [hsplit, novel, List.forall_mem_cons]
    split
    · next hmatch =>
      have hnot := not_mem_novel ks hmatch
      rw [List.any_eq_true] at hmatch
      rw [List.mem_append, or_iff_left hnot, ih, imp_iff_right hmatch]
      refine and_congr_right fun hknown => ?_
      -- With the first item known, it does not matter that it is before the others.
      have hsame : ∀ (before : List κ) (k : κ),
          k ∈ (known ++ [first]) ++ before ↔ k ∈ known ++ before := by
        intro before k
        rw [List.mem_append, List.mem_append, List.mem_singleton, List.mem_append]
        refine or_congr_left (or_iff_left_of_imp ?_)
        rintro rfl
        exact hknown
      simp only [hsame]
    · next hmatch =>
      have hvacuous : ¬ ∃ j ∈ known, m j first = true := by
        rwa [List.any_eq_true] at hmatch
      have hcons : known ++ first :: novel m (known ++ [first]) ks =
          (known ++ [first]) ++ novel m (known ++ [first]) ks := by
        rw [List.append_assoc]
        rfl
      rw [hcons, ih, and_iff_right fun h => absurd h hvacuous, and_iff_right]
      rw [List.append_assoc]
      exact List.mem_append_right _ List.mem_cons_self

end Goble
