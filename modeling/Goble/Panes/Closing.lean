import Goble.Panes.Move
import Goble.Panes.Runs

/-!
# Closing a pane

Closing a leaf puts its sibling in the place of their split: one leaf and one split go, and
everything else stays where it is (`Closes`), whatever the tree.

Closing the leaf that a split has made takes the split back (`close_split`). Both recompute the
layout, which drops the floating entries of panes that are not there and gives the missing ones a
rect, so the entries come back as well if they were in step with the leaves before; and the new id
has to be one that no leaf has.
-/

namespace Goble.Panes

variable {target : Nat}

namespace Pane

def splits : Pane → List (Nat × SplitDir × Float32)
  | leaf .. => []
  | split id dir ratio first second => (id, dir, ratio) :: (first.splits ++ second.splits)

variable {p : Pane}

theorem removeLeaf_splits {next : Nat} (h : (p.removeLeaf target).2 = some next) :
    ∃ collapsed a b, p.splits = a ++ collapsed :: b ∧ (p.removeLeaf target).1.splits = a ++ b := by
  induction p with
  | leaf id kind => cases h
  | split id dir ratio first second ihFirst ihSecond =>
    rw [removeLeaf] at h ⊢
    by_cases hfirst : first.isLeaf target = true
    · rw [if_pos hfirst]
      obtain ⟨kind, rfl⟩ := isLeaf_iff.mp hfirst
      exact ⟨(id, dir, ratio), [], second.splits, rfl, rfl⟩
    by_cases hsecond : second.isLeaf target = true
    · rw [if_neg hfirst, if_pos hsecond]
      obtain ⟨kind, rfl⟩ := isLeaf_iff.mp hsecond
      refine ⟨(id, dir, ratio), [], first.splits, ?_, rfl⟩
      rw [splits, splits, List.append_nil]
      rfl
    rw [if_neg hfirst, if_neg hsecond] at h ⊢
    by_cases hsome : (first.removeLeaf target).2.isSome = true
    · rw [if_pos hsome] at h ⊢
      obtain ⟨collapsed, a, b, hold, hnew⟩ := ihFirst h
      refine ⟨collapsed, (id, dir, ratio) :: a, b ++ second.splits, ?_, ?_⟩
      · rw [splits, hold, List.append_assoc]
        rfl
      · rw [splits, hnew, List.append_assoc]
        rfl
    · rw [if_neg hsome] at h ⊢
      obtain ⟨collapsed, a, b, hold, hnew⟩ := ihSecond h
      have hsame := (removeLeaf_eq_none (Option.not_isSome_iff_eq_none.mp hsome)).1
      refine ⟨collapsed, (id, dir, ratio) :: (first.splits ++ a), b, ?_, ?_⟩
      · rw [splits, hold, List.cons_append, List.append_assoc]
      · rw [splits, hsame, hnew, List.cons_append, List.append_assoc]

theorem removeLeaf_isSome_iff :
    (p.removeLeaf target).2.isSome = true ↔
      target ∈ p.leafIds ∧ ∀ kind, p ≠ leaf target kind := by
  constructor
  · intro hsome
    obtain ⟨next, hnext⟩ := Option.isSome_iff_exists.mp hsome
    obtain ⟨-, ⟨kind, a, b, hleaves, -⟩, -⟩ := removeLeaf_eq_some hnext
    refine ⟨?_, ?_⟩
    · rw [leafIds, hleaves, List.map_append]
      exact List.mem_append_right _ List.mem_cons_self
    · rintro kind rfl
      cases hsome
  · rintro ⟨hmem, hroot⟩
    by_contra hnone
    obtain ⟨kind, rfl⟩ := (removeLeaf_eq_none (Option.not_isSome_iff_eq_none.mp hnone)).2 hmem
    exact hroot kind rfl

theorem removeLeaf_of_not_mem (h : target ∉ p.leafIds) :
    p.removeLeaf target = (p, none) := by
  have hnone : (p.removeLeaf target).2 = none := by
    refine Option.not_isSome_iff_eq_none.mp fun hsome => ?_
    exact h (removeLeaf_isSome_iff.mp hsome).1
  exact Prod.ext (removeLeaf_eq_none hnone).1 hnone

theorem isLeaf_of_removeLeaf {q : Pane} {next id : Nat} (h : p.removeLeaf target = (q, some next)) :
    p.isLeaf id = false := by
  cases p with
  | leaf id kind => cases h
  | split id dir ratio first second => rfl

theorem removeLeaf_replaceLeaf {secondId splitId : Nat} {dir : SplitDir} {ratio : Float32}
    {kind secondKind : PaneKind} {f : PaneKind → Pane} (hfresh : secondId ∉ p.leafIds)
    (hkind : p.leafKind target = some kind)
    (hf : f kind = split splitId dir ratio (leaf target kind) (leaf secondId secondKind)) :
    (p.replaceLeaf target f).1.removeLeaf secondId = (p, some target) := by
  induction p with
  | leaf id kind' =>
    have hne : target ≠ secondId := by
      rintro rfl
      exact hfresh (mem_leafIds_of_leafKind hkind)
    rw [leafKind] at hkind
    split at hkind
    · next heq =>
      obtain rfl := Option.some.inj hkind
      -- the split that was added collapses to its first leaf
      have hother : (leaf target kind').isLeaf secondId = false := beq_eq_false_iff_ne.mpr hne
      have hsecond : (leaf secondId secondKind).isLeaf secondId = true := beq_self_eq_true _
      rw [replaceLeaf, if_pos heq, hf, removeLeaf, hother, if_neg Bool.false_ne_true,
        if_pos hsecond, heq]
      rfl
    · cases hkind
  | split id dir' ratio' first second ihFirst ihSecond =>
    rw [leafIds_split, List.mem_append, not_or] at hfresh
    -- the new leaf is in the half that has the target
    obtain hfirst | ⟨hnone, hsecond⟩ := Option.or_eq_some_iff.mp hkind
    · have ih := ihFirst hfresh.1 hfirst
      rw [replaceLeaf, if_pos (replaceLeaf_of_leafKind_eq_some f hfirst).1, removeLeaf,
        isLeaf_of_removeLeaf ih, if_neg Bool.false_ne_true, isLeaf_eq_false hfresh.2,
        if_neg Bool.false_ne_true, ih]
      rfl
    · have ih := ihSecond hfresh.2 hsecond
      rw [replaceLeaf, replaceLeaf_of_leafKind_eq_none f hnone, if_neg Bool.false_ne_true,
        removeLeaf, isLeaf_eq_false hfresh.1, if_neg Bool.false_ne_true, isLeaf_of_removeLeaf ih,
        if_neg Bool.false_ne_true, removeLeaf_of_not_mem hfresh.1, ih]
      rfl

end Pane

namespace Space

structure Closes (s : Space) (target : Nat) : Prop where
  succeeds : (s.close target).2.isSome = true ↔
    target ∈ s.root.leafIds ∧ ∀ kind, s.root ≠ .leaf target kind
  fails : (s.close target).2 = none → (s.close target).1 = s
  /-- The leaf is gone, and the others keep their order, ids and kinds. -/
  leaves : ∀ next, (s.close target).2 = some next → ∃ kind a b,
    s.root.leaves = a ++ (target, kind) :: b ∧ (s.close target).1.root.leaves = a ++ b
  /-- One split is gone, and the others keep their ratios. -/
  splits : ∀ next, (s.close target).2 = some next → ∃ collapsed a b,
    s.root.splits = a ++ collapsed :: b ∧ (s.close target).1.root.splits = a ++ b
  next : ∀ next, (s.close target).2 = some next → next ∈ (s.close target).1.root.leafIds

theorem closes (s : Space) (target : Nat) : Closes s target := by
  obtain ⟨hroot, hnext⟩ := close_root s target
  refine ⟨?_, fun hnone => ?_, fun next hsome => ?_, fun next hsome => ?_, fun next hsome => ?_⟩
  · rw [hnext]
    exact Pane.removeLeaf_isSome_iff
  · rw [hnext] at hnone
    simp only [close, hnone, Option.isSome_none, Bool.false_eq_true, if_false,
      (Pane.removeLeaf_eq_none hnone).1]
  · rw [hnext] at hsome
    rw [hroot]
    exact (Pane.removeLeaf_eq_some hsome).2.1
  · rw [hnext] at hsome
    rw [hroot]
    exact Pane.removeLeaf_splits hsome
  · rw [hnext] at hsome
    rw [hroot]
    exact (Pane.removeLeaf_eq_some hsome).1

structure InStep (s : Space) : Prop where
  named : ∀ pane ∈ s.floating, pane.paneId ∈ s.root.leafIds
  covered : s.layout = .floating → ∀ id ∈ s.root.leafIds, id ∈ s.entryIds

/-- Only a leaf without an entry gets one. -/
theorem floatMissing_added (floating : List FloatingPane) (index : Nat)
    (leaves : List (Nat × PaneKind)) :
    ∃ added, floatMissing floating index leaves = floating ++ added ∧ ∀ pane ∈ added,
      pane.paneId ∈ leaves.map Prod.fst ∧ pane.paneId ∉ floating.map FloatingPane.paneId := by
  induction leaves generalizing floating index with
  | nil => exact ⟨[], (List.append_nil _).symm, fun pane hpane => by cases hpane⟩
  | cons leaf leaves ih =>
    obtain ⟨id, kind⟩ := leaf
    rw [floatMissing]
    split
    · obtain ⟨added, heq, hadded⟩ := ih floating (index + 1)
      exact ⟨added, heq, fun pane hpane =>
        ⟨List.mem_cons_of_mem _ (hadded pane hpane).1, (hadded pane hpane).2⟩⟩
    · next hany =>
      obtain ⟨added, heq, hadded⟩ :=
        ih (floating ++ [.new id (defaultFloatingRect index)]) (index + 1)
      refine ⟨_, heq.trans (List.append_assoc _ _ _), fun pane hpane => ?_⟩
      obtain rfl | hpane := List.mem_cons.mp hpane
      · exact ⟨List.mem_cons_self, fun hmem => hany (any_paneId.mpr hmem)⟩
      · obtain ⟨hmem, hnot⟩ := hadded pane hpane
        rw [List.map_append, List.mem_append, not_or] at hnot
        exact ⟨List.mem_cons_of_mem _ hmem, hnot.1⟩

variable {s : Space}

/-- What `recompute_layout` makes of entries that are all of leaves. -/
theorem recomputeLayout_of_named (hnamed : ∀ pane ∈ s.floating, pane.paneId ∈ s.root.leafIds) :
    ∃ added, s.recomputeLayout = { s with floating := s.floating ++ added } ∧
      ∀ pane ∈ added, s.layout = .floating ∧ pane.paneId ∈ s.root.leafIds ∧
        pane.paneId ∉ s.entryIds := by
  have hkept : (s.floating.filter fun pane =>
      s.root.leaves.any fun leaf => leaf.1 == pane.paneId) = s.floating := by
    refine List.filter_eq_self.mpr fun pane hpane => ?_
    obtain ⟨leaf, hleaf, heq⟩ := List.mem_map.mp (hnamed pane hpane)
    exact List.any_eq_true.mpr ⟨leaf, hleaf, beq_iff_eq.mpr heq⟩
  rw [recomputeLayout, hkept]
  split
  · exact ⟨[], by rw [List.append_nil], fun pane hpane => by cases hpane⟩
  · next hlayout =>
    obtain ⟨added, heq, hadded⟩ := floatMissing_added s.floating 0 s.root.leaves
    rw [heq]
    exact ⟨added, rfl, fun pane hpane => ⟨not_not.mp hlayout, hadded pane hpane⟩⟩

theorem InStep.recomputeLayout_eq (h : s.InStep) : s.recomputeLayout = s := by
  obtain ⟨added, heq, hadded⟩ := recomputeLayout_of_named h.named
  have hnil : added = [] := by
    refine List.eq_nil_iff_forall_not_mem.mpr fun pane hpane => ?_
    obtain ⟨hlayout, hmem, hnot⟩ := hadded pane hpane
    exact hnot (h.covered hlayout _ hmem)
  rw [heq, hnil, List.append_nil]

theorem InStep.close_recomputed (h : s.InStep) {root : Pane} {secondId : Nat}
    (hfresh : secondId ∉ s.root.leafIds)
    (hids : ∀ id, id ∈ root.leafIds ↔ id = secondId ∨ id ∈ s.root.leafIds)
    (hremove : root.removeLeaf secondId = (s.root, some target)) :
    (recomputeLayout { s with root }).close secondId = (s, some target) := by
  have hnamed : ∀ pane ∈ s.floating, pane.paneId ∈ root.leafIds :=
    fun pane hpane => (hids _).mpr (.inr (h.named pane hpane))
  obtain ⟨added, heq, hadded⟩ := recomputeLayout_of_named (s := { s with root }) hnamed
  -- the leaves of the old tree have their entries, so one is added at most
  have hsecond : ∀ pane ∈ added, pane.paneId = secondId := by
    intro pane hpane
    obtain ⟨hlayout, hmem, hnot⟩ := hadded pane hpane
    obtain hid | hid := (hids _).mp hmem
    · exact hid
    · exact absurd (h.covered hlayout _ hid) hnot
  have hfilter : (s.floating ++ added).filter (fun pane => pane.paneId != secondId) =
      s.floating := by
    rw [List.filter_append, List.filter_eq_self.mpr, List.filter_eq_nil_iff.mpr, List.append_nil]
    · intro pane hpane
      simp [hsecond pane hpane]
    · intro pane hpane
      have hne : pane.paneId ≠ secondId := fun hid => hfresh (hid ▸ h.named pane hpane)
      simpa using hne
  rw [heq, close]
  simp only [hremove, Option.isSome_some, if_true, hfilter]
  rw [h.recomputeLayout_eq]

theorem mem_leafIds_split {root : Pane} {splitId secondId : Nat} {dir : SplitDir}
    {f : PaneKind → Pane} (secondKind : PaneKind → PaneKind) (hmem : target ∈ root.leafIds)
    (hf : ∀ kind,
      f kind = .split splitId dir 0.5 (.leaf target kind) (.leaf secondId (secondKind kind)))
    (id : Nat) :
    id ∈ (root.replaceLeaf target f).1.leafIds ↔ id = secondId ∨ id ∈ root.leafIds := by
  have hperm : (root.replaceLeaf target f).1.leafIds.Perm ([secondId] ++ root.leafIds) :=
    Pane.replaceLeaf_leafIds [secondId] hmem fun kind => by
      rw [hf kind]
      exact List.Perm.refl _
  rw [hperm.mem_iff, List.mem_append, List.mem_singleton]

theorem InStep.close_of_split (h : s.InStep) {nextId : Nat} (hfresh : fresh nextId ∉ s.root.leafIds)
    (hmem : target ∈ s.root.leafIds) (dir : SplitDir) :
    (s.split target dir nextId).2.2 = some (fresh nextId) ∧
      (s.split target dir nextId).1.close (fresh nextId) = (s, some target) := by
  obtain ⟨kind, hkind⟩ := Pane.exists_leafKind hmem
  rw [split]
  simp only [Pane.splitLeaf, (Pane.replaceLeaf_found _).mpr hmem, if_true]
  refine ⟨trivial, h.close_recomputed hfresh ?_ (Pane.removeLeaf_replaceLeaf hfresh hkind rfl)⟩
  exact mem_leafIds_split id hmem fun kind => rfl

theorem InStep.close_of_splitWithKind (h : s.InStep) {nextId : Nat}
    (hfresh : fresh nextId ∉ s.root.leafIds) (hmem : target ∈ s.root.leafIds) (dir : SplitDir)
    (secondKind : PaneKind) :
    (s.splitWithKind target dir nextId secondKind).2.2 = some (fresh nextId) ∧
      (s.splitWithKind target dir nextId secondKind).1.close (fresh nextId) =
        (s, some target) := by
  obtain ⟨kind, hkind⟩ := Pane.exists_leafKind hmem
  rw [splitWithKind]
  simp only [Pane.splitLeafInto, (Pane.replaceLeaf_found _).mpr hmem, if_true]
  refine ⟨trivial, h.close_recomputed hfresh ?_ (Pane.removeLeaf_replaceLeaf hfresh hkind rfl)⟩
  exact mem_leafIds_split (fun _ => secondKind) hmem fun kind => rfl

/-- **Splitting and closing are inverse.** For a space whose entries are in step, and a counter
whose next pane id no leaf has, closing the new leaf gives the space back, of whatever kind the new
leaf is. And closing any leaf of any space removes it and the split it was in, and nothing else. -/
theorem close_split (s : Space) (target nextId : Nat) (dir : SplitDir) (secondKind : PaneKind)
    (hstep : s.InStep) (hfresh : fresh nextId ∉ s.root.leafIds) (hmem : target ∈ s.root.leafIds) :
    (((s.split target dir nextId).2.2 = some (fresh nextId) ∧
        (s.split target dir nextId).1.close (fresh nextId) = (s, some target)) ∧
      ((s.splitWithKind target dir nextId secondKind).2.2 = some (fresh nextId) ∧
        (s.splitWithKind target dir nextId secondKind).1.close (fresh nextId) =
          (s, some target))) ∧
    ∀ (s : Space) (target : Nat), Closes s target :=
  ⟨⟨hstep.close_of_split hfresh hmem dir,
    hstep.close_of_splitWithKind hfresh hmem dir secondKind⟩, closes⟩

theorem close_split_terminal :
    (besideTerminal.split 2 .vertical 4).1.close (fresh 4) = (besideTerminal, some 2) :=
  (close_split besideTerminal 2 4 .vertical .chat ⟨(fun pane hpane => by cases hpane), nofun⟩
    (by decide) (by decide)).1.1.2

/-- A space that is not in step loses an entry. And with a counter that is behind, another leaf may
be closed. -/
theorem not_close_split :
    (¬ ∀ (s : Space) (target nextId : Nat) (dir : SplitDir), Numbered s.root nextId →
      target ∈ s.root.leafIds →
      ((s.split target dir nextId).1.close (fresh nextId)).1.floating.length =
        s.floating.length) ∧
    ¬ ∀ (s : Space) (target nextId : Nat) (dir : SplitDir), s.InStep → s.root.ids.Nodup →
      target ∈ s.root.leafIds →
      ((s.split target dir nextId).1.close (fresh nextId)).1.root.leaves = s.root.leaves := by
  constructor
  · intro hall
    have hlength := hall { Space.unnamed (.leaf 1 .chat) with
      floating := [.new 7 (defaultFloatingRect 0)] } 1 8 .vertical
      ⟨by decide, by decide⟩ (by decide)
    exact absurd hlength (by decide)
  · intro hall
    have hleaves := hall besideTerminal 2 0 .vertical ⟨(fun pane hpane => by cases hpane), nofun⟩
      (by decide) (by decide)
    exact absurd hleaves (by decide)

end Space

end Goble.Panes
