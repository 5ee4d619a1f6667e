import Goble.Panes.Move

/-!
# Moving a pane within its space

`move_pane` takes a leaf out of the tree, as closing it would, and puts it beside another in a split
of its own. A move that would only rebuild a split that is there is left out. The target survives
the removal wherever it stands, so a move that has begun is finished.

The pane is looked up by its id, and removed and inserted by it. In a tree with two leaves of one id
the kind that is carried may be the other's; the ids of a space come from one counter, and with
distinct ids nothing is lost (`moves_of_distinct`).
-/

namespace Goble.Panes

namespace Pane

def HasPart : Pane → Pane → Prop
  | leaf id kind, q => q = leaf id kind
  | split id dir ratio first second, q =>
    q = split id dir ratio first second ∨ first.HasPart q ∨ second.HasPart q

theorem hasPart_refl (p : Pane) : p.HasPart p := by
  cases p with
  | leaf id kind => rfl
  | split id dir ratio first second => exact .inl rfl

theorem mem_leafIds_of_hasPart {p q : Pane} (h : p.HasPart q) {id : Nat} (hid : id ∈ q.leafIds) :
    id ∈ p.leafIds := by
  induction p with
  | leaf id kind =>
    obtain rfl : q = leaf id kind := h
    exact hid
  | split id dir ratio first second ihFirst ihSecond =>
    rw [leafIds_split, List.mem_append]
    obtain rfl | hfirst | hsecond := h
    · rwa [leafIds_split, List.mem_append] at hid
    · exact .inl (ihFirst hfirst)
    · exact .inr (ihSecond hsecond)

theorem hasPart_replaceLeaf {p : Pane} {target : Nat} {kind : PaneKind} (f : PaneKind → Pane)
    (h : p.leafKind target = some kind) : (p.replaceLeaf target f).1.HasPart (f kind) := by
  induction p with
  | leaf id kind' =>
    rw [leafKind] at h
    split at h
    · next heq =>
      obtain rfl := Option.some.inj h
      rw [replaceLeaf, if_pos heq]
      exact hasPart_refl _
    · cases h
  | split id dir ratio first second ihFirst ihSecond =>
    obtain hfirst | ⟨hnone, hsecond⟩ := Option.or_eq_some_iff.mp h
    · rw [replaceLeaf, if_pos (replaceLeaf_of_leafKind_eq_some f hfirst).1]
      exact .inr (.inl (ihFirst hfirst))
    · rw [replaceLeaf, replaceLeaf_of_leafKind_eq_none f hnone, if_neg Bool.false_ne_true]
      exact .inr (.inr (ihSecond hsecond))

def besideOn (side : DropSide) (splitId : Nat) (ratio : Float32) (moved target : Pane) : Pane :=
  if side.leads then split splitId side.splitDir ratio moved target
  else split splitId side.splitDir ratio target moved

def Beside (side : DropSide) (paneId targetId : Nat) (p : Pane) : Prop :=
  ∃ splitId ratio kind targetKind,
    p.HasPart (besideOn side splitId ratio (leaf paneId kind) (leaf targetId targetKind))

theorem siblingOnSide_eq_none {p : Pane} {target : Nat} (side : DropSide)
    (h : target ∉ p.leafIds) : p.siblingOnSide target side = none := by
  induction p with
  | leaf id kind => rfl
  | split id dir ratio first second ihFirst ihSecond =>
    rw [leafIds_split, List.mem_append, not_or] at h
    simp only [siblingOnSide, isLeaf_eq_false h.1, isLeaf_eq_false h.2, ihFirst h.1, ihSecond h.2]
    cases side <;> simp

/-- **The sibling is found.** With distinct ids the search stops at the split that holds both. -/
theorem siblingOnSide_of_beside {p : Pane} {side : DropSide} {paneId targetId : Nat}
    (hnodup : p.leafIds.Nodup) (h : p.Beside side paneId targetId) :
    p.siblingOnSide targetId side = some paneId := by
  obtain ⟨splitId, ratio, kind, targetKind, h⟩ := h
  have hpart : ∀ q : Pane,
      q.HasPart (besideOn side splitId ratio (leaf paneId kind) (leaf targetId targetKind)) →
      targetId ∈ q.leafIds ∧ q.isLeaf targetId = false := by
    intro q hq
    refine ⟨mem_leafIds_of_hasPart hq ?_, ?_⟩
    · rw [besideOn]
      split <;> simp
    · cases q with
      | leaf id kind =>
        have hleaf : besideOn side splitId ratio (leaf paneId _) (leaf targetId _) = leaf id kind :=
          hq
        rw [besideOn] at hleaf
        split at hleaf <;> cases hleaf
      | split id dir ratio first second => rfl
  induction p with
  | leaf id kind' =>
    have hleaf := (hpart _ h).2
    have hmem := (hpart _ h).1
    rw [leafIds_leaf, List.mem_singleton] at hmem
    rw [hmem] at hleaf
    simp [isLeaf] at hleaf
  | split id dir ratio' first second ihFirst ihSecond =>
    rw [leafIds_split, List.nodup_append] at hnodup
    obtain ⟨hnodupFirst, hnodupSecond, hdisjoint⟩ := hnodup
    -- where the split stands: here, or in the first or the second half
    obtain heq | hfirst | hsecond := h
    · cases side <;> cases heq <;> simp [siblingOnSide, isLeaf, DropSide.splitDir, Pane.id]
    · obtain ⟨hmem, hleaf⟩ := hpart first hfirst
      have hother : second.isLeaf targetId = false :=
        isLeaf_eq_false fun hmem' => hdisjoint _ hmem _ hmem' rfl
      simp only [siblingOnSide, hleaf, hother, ihFirst hnodupFirst hfirst]
      cases side <;> simp
    · obtain ⟨hmem, hleaf⟩ := hpart second hsecond
      have hmem' : targetId ∉ first.leafIds := fun hmem' => hdisjoint _ hmem' _ hmem rfl
      simp only [siblingOnSide, hleaf, isLeaf_eq_false hmem', siblingOnSide_eq_none side hmem',
        ihSecond hnodupSecond hsecond]
      cases side <;> simp

end Pane

namespace Space

/-- What a move promises, for any tree. -/
structure Moves (s : Space) (paneId targetId : Nat) (side : DropSide) (nextId : Nat) : Prop where
  /-- Every pane is there, with its kind. -/
  leaves : (s.movePane paneId targetId side nextId).1.root.leaves.Perm s.root.leaves
  beside : (s.movePane paneId targetId side nextId).2.2 = true →
    (s.movePane paneId targetId side nextId).1.root.Beside side paneId targetId
  /-- The other leaves keep their order. -/
  order : (s.movePane paneId targetId side nextId).1.root.leaves.filter (·.1 ≠ paneId) =
    s.root.leaves.filter (·.1 ≠ paneId)
  changed : (s.movePane paneId targetId side nextId).2.2 = true ↔
    (s.movePane paneId targetId side nextId).1.root ≠ s.root
  /-- A move that is not made leaves everything as it was. -/
  unchanged : (s.movePane paneId targetId side nextId).2.2 = false →
    s.movePane paneId targetId side nextId = (s, nextId, false)

def movedRoot (root : Pane) (paneId targetId : Nat) (side : DropSide) (nextId : Nat)
    (kind : PaneKind) : Pane :=
  ((root.removeLeaf paneId).1.insertLeafBeside targetId side.splitDir side.leads nextId
    (.leaf paneId kind)).1

theorem movePane_cases (s : Space) (paneId targetId : Nat) (side : DropSide) (nextId : Nat) :
    s.movePane paneId targetId side nextId = (s, nextId, false) ∨
    ∃ kind targetKind next, s.root.leafKind paneId = some kind ∧
      (s.root.removeLeaf paneId).1.leafKind targetId = some targetKind ∧
      s.root.siblingOnSide targetId side ≠ some paneId ∧
      (s.root.removeLeaf paneId).2 = some next ∧
      s.movePane paneId targetId side nextId = (recomputeLayout
        { s with root := movedRoot s.root paneId targetId side nextId kind }, fresh nextId, true) := by
  rw [movePane]
  by_cases hsame : paneId = targetId
  · exact .inl (if_pos hsame)
  rw [if_neg hsame]
  cases hkind : s.root.leafKind paneId with
  -- the pane is not there
  | none => exact .inl rfl
  | some kind =>
    simp only
    by_cases htarget : (s.root.leafKind targetId).isNone = true
    · exact .inl (if_pos htarget)
    rw [if_neg htarget]
    by_cases hsibling : s.root.siblingOnSide targetId side = some paneId
    · exact .inl (if_pos hsibling)
    rw [if_neg hsibling]
    cases hnext : (s.root.removeLeaf paneId).2 with
    | none =>
      -- only a lone leaf is not removed, and then the tree is as it was
      rw [Option.isNone_none, if_pos rfl, (Pane.removeLeaf_eq_none hnext).1]
      exact .inl rfl
    | some next =>
      have hmem : targetId ∈ s.root.leafIds := by
        by_contra hmem
        rw [Pane.leafKind_eq_none.mpr hmem] at htarget
        exact htarget rfl
      have hmem' := Pane.mem_leafIds_removeLeaf hnext hmem (Ne.symm hsame)
      obtain ⟨targetKind, htargetKind⟩ := Pane.exists_leafKind hmem'
      have hinserted : ((s.root.removeLeaf paneId).1.insertLeafBeside targetId side.splitDir
          side.leads nextId (.leaf paneId kind)).2 = true := (Pane.replaceLeaf_found _).mpr hmem'
      rw [Option.isNone_some, if_neg Bool.false_ne_true, hinserted, if_pos rfl]
      exact .inr ⟨kind, targetKind, next, rfl, htargetKind, hsibling, rfl, rfl⟩

theorem leaves_movedRoot {root : Pane} {paneId targetId next : Nat} {kind targetKind : PaneKind}
    (hnodup : root.leafIds.Nodup) (hkind : root.leafKind paneId = some kind)
    (htarget : (root.removeLeaf paneId).1.leafKind targetId = some targetKind)
    (hnext : (root.removeLeaf paneId).2 = some next) (side : DropSide) (nextId : Nat) :
    (movedRoot root paneId targetId side nextId kind).leaves.Perm root.leaves ∧
      (movedRoot root paneId targetId side nextId kind).leaves.filter (·.1 ≠ paneId) =
        root.leaves.filter (·.1 ≠ paneId) := by
  obtain ⟨-, ⟨kind', a, b, hleaves, hremoved⟩, -⟩ := Pane.removeLeaf_eq_some hnext
  obtain rfl : kind' = kind := by
    have hmem : (paneId, kind') ∈ root.leaves := by
      rw [hleaves]
      exact List.mem_append_right a List.mem_cons_self
    have hpair := List.inj_on_of_nodup_map hnodup hmem (Pane.mem_leaves_of_leafKind hkind) rfl
    exact (Prod.mk.inj hpair).2
  obtain ⟨-, ⟨c, d, hold, hnew⟩, -⟩ := Pane.replaceLeaf_of_leafKind_eq_some
    (fun kind => if side.leads then .split nextId side.splitDir 0.5 (.leaf paneId kind')
      (.leaf targetId kind) else .split nextId side.splitDir 0.5 (.leaf targetId kind)
      (.leaf paneId kind')) htarget
  have hmoved : (movedRoot root paneId targetId side nextId kind').leaves = c ++
      ((if side.leads then [(paneId, kind'), (targetId, targetKind)]
        else [(targetId, targetKind), (paneId, kind')]) ++ d) := by
    rw [movedRoot, Pane.insertLeafBeside, hnew]
    split <;> rfl
  -- what is left after the removal is what the insertion begins with
  have hparts : a ++ b = c ++ (targetId, targetKind) :: d := hremoved.symm.trans hold
  constructor
  · rw [hmoved, hleaves]
    refine List.Perm.trans ?_ List.perm_middle.symm
    rw [hparts]
    refine List.Perm.trans ?_ List.perm_middle
    refine List.Perm.append_left c ?_
    split
    · exact List.Perm.refl _
    · exact List.Perm.swap _ _ _
  · have hpane : ∀ xs : List (Nat × PaneKind),
        ((paneId, kind') :: xs).filter (·.1 ≠ paneId) = xs.filter (·.1 ≠ paneId) := by
      intro xs
      exact List.filter_cons_of_neg (by simp)
    have hold : root.leaves.filter (·.1 ≠ paneId) =
        (c ++ (targetId, targetKind) :: d).filter (·.1 ≠ paneId) := by
      rw [hleaves, List.filter_append, hpane, ← List.filter_append, hparts]
    rw [hold, hmoved, List.filter_append, List.filter_append c]
    congr 1
    split
    · exact hpane _
    · change ([(targetId, targetKind)] ++ (paneId, kind') :: d).filter (·.1 ≠ paneId) =
        ([(targetId, targetKind)] ++ d).filter (·.1 ≠ paneId)
      rw [List.filter_append, List.filter_append, hpane]

/-- **Moving a pane loses nothing**, in a tree whose leaves have distinct ids. -/
theorem moves_of_distinct (s : Space) (paneId targetId : Nat) (side : DropSide) (nextId : Nat)
    (hnodup : s.root.leafIds.Nodup) : Moves s paneId targetId side nextId := by
  obtain hnot | ⟨kind, targetKind, next, hkind, htarget, hsibling, hnext, hmoved⟩ :=
    movePane_cases s paneId targetId side nextId
  · refine ⟨?_, ?_, ?_, ?_, fun _ => hnot⟩
    all_goals rw [hnot]
    · nofun
    · exact iff_of_false Bool.false_ne_true (not_not.mpr rfl)
  · obtain ⟨hleaves, horder⟩ := leaves_movedRoot hnodup hkind htarget hnext side nextId
    have hbeside : (movedRoot s.root paneId targetId side nextId kind).Beside side paneId
        targetId := by
      refine ⟨nextId, 0.5, kind, targetKind, ?_⟩
      exact Pane.hasPart_replaceLeaf _ htarget
    have hne : movedRoot s.root paneId targetId side nextId kind ≠ s.root := by
      -- in the old tree the sibling would have been found
      intro heq
      rw [heq] at hbeside
      exact hsibling (Pane.siblingOnSide_of_beside hnodup hbeside)
    refine ⟨?_, ?_, ?_, ?_, ?_⟩
    all_goals rw [hmoved]
    · rw [recomputeLayout_root]
      exact hleaves
    · intro _
      rw [recomputeLayout_root]
      exact hbeside
    · rw [recomputeLayout_root]
      exact horder
    · rw [recomputeLayout_root]
      exact iff_of_true rfl hne
    · nofun

/-- A pane is moved to the other side of its sibling. -/
theorem moves_across : Moves besideTerminal 1 2 .right 4 :=
  moves_of_distinct besideTerminal 1 2 .right 4 (by decide)

/-- With two leaves of one id the pane that moves may take the kind of the other. -/
theorem not_moves : ¬ ∀ s paneId targetId side nextId, Moves s paneId targetId side nextId := by
  intro hall
  have hleaves := (hall (.unnamed (.split 4 .horizontal 0.5 (.split 5 .horizontal 0.5
    (.leaf 1 .chat) (.leaf 2 .chat)) (.leaf 1 .terminal))) 1 2 .bottom 6).leaves
  exact absurd (hleaves.count_eq (1, .chat)) (by decide)

end Space

end Goble.Panes
