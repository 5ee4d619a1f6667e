import Goble.Panes.Space

/-!
# Moving a pane to a space of its own

A lifted pane that is dropped on the tab strip becomes a tab (`app/src/state/ui_state/pane_move.rs`).
Its split collapses onto the sibling as closing it would; a space that held only this pane is
consumed by the move; and if that space was the last one, it is reset to a fresh chat pane.

The panes are conserved (`conserves_of_one_kind`): the pane arrives with its id and kind, and the
leaves of all spaces are what they were, with the fresh chat leaf exactly when the space was the
only one. A space that is consumed leaves no chat pane behind. The pane's kind is looked up by its
id and the leaf is removed by its id again, so two leaves of one id and of different kinds would be
exchanged; the tree invariant excludes them. Both are in `not_conserves`.
-/

namespace Goble.Panes

structure PaneMove where
  tab : Nat
  resetPane : Option Nat
deriving DecidableEq, Repr

/-- The leaf `paneId` leaves the space at `sourceSpace` and comes back as a tab at `index`. -/
def movePaneToNewSpace (spaces : List Space) (sourceSpace paneId index nextId : Nat) :
    List Space × Nat × Option PaneMove :=
  match spaces[sourceSpace]? with
  | none => (spaces, nextId, none)
  | some space =>
    match space.leafKind paneId with
    | none => (spaces, nextId, none)
    | some kind =>
      let collapsed := (space.close paneId).2.isSome
      let spaces := spaces.set sourceSpace (space.close paneId).1
      let pane := (Space.unnamed (.leaf paneId kind)).withMedium space.medium
      if collapsed then
        let tab := min index spaces.length
        (spaces.insertIdx tab pane, nextId, some ⟨tab, none⟩)
      else if spaces.length > 1 then
        let spaces := spaces.eraseIdx sourceSpace
        -- an insertion point past the consumed tab names the tab one place earlier
        let at' := if index > sourceSpace then index - 1 else index
        let tab := min at' spaces.length
        (spaces.insertIdx tab pane, nextId, some ⟨tab, none⟩)
      else
        let spaces := spaces.set sourceSpace (Space.unnamed (.leaf nextId .chat))
        let tab := if index > sourceSpace then sourceSpace + 1 else sourceSpace
        (spaces.insertIdx tab pane, Space.fresh nextId, some ⟨tab, some nextId⟩)

def allLeaves (spaces : List Space) : List (Nat × PaneKind) :=
  spaces.flatMap fun space => space.root.leaves

structure Conserves (spaces : List Space) (sourceSpace paneId : Nat)
    (added : List (Nat × PaneKind)) (result : List Space × Nat × Option PaneMove) : Prop where
  unchanged : result.2.2 = none → result.1 = spaces
  arrived : ∀ move, result.2.2 = some move → ∃ source space kind,
    spaces[sourceSpace]? = some source ∧ source.leafKind paneId = some kind ∧
      result.1[move.tab]? = some space ∧ space.root.leaves = [(paneId, kind)]
  leaves : ∀ move, result.2.2 = some move →
    (allLeaves result.1).Perm (added ++ allLeaves spaces)
  inhabited : ∀ move, result.2.2 = some move →
    result.1 ≠ [] ∧ ∀ space ∈ result.1, space.root.leaves ≠ []

def emptied (spaces : List Space) (sourceSpace : Nat) : Bool :=
  spaces[sourceSpace]?.any fun space => space.root.leaves.length == 1

def resetLeaf (spaces : List Space) (sourceSpace nextId : Nat) : List (Nat × PaneKind) :=
  if emptied spaces sourceSpace && spaces.length == 1 then [(nextId, .chat)] else []

def OneKind (spaces : List Space) (sourceSpace paneId : Nat) : Prop :=
  ∀ space, spaces[sourceSpace]? = some space → ∀ kind, (paneId, kind) ∈ space.root.leaves →
    space.leafKind paneId = some kind

/-! ### The leaves -/

theorem Space.close_root (s : Space) (target : Nat) :
    (s.close target).1.root = (s.root.removeLeaf target).1 ∧
      (s.close target).2 = (s.root.removeLeaf target).2 := by
  rw [Space.close]
  cases hnext : (s.root.removeLeaf target).2 with
  | none =>
    simp only [hnext, Option.isSome_none, Bool.false_eq_true, if_false]
    trivial
  | some next =>
    simp only [hnext, Option.isSome_some, if_true]
    exact ⟨Space.recomputeLayout_root _, trivial⟩

theorem allLeaves_insertIdx {spaces : List Space} {tab : Nat} (h : tab ≤ spaces.length)
    (space : Space) :
    (allLeaves (spaces.insertIdx tab space)).Perm (space.root.leaves ++ allLeaves spaces) :=
  (List.perm_insertIdx space spaces h).flatMap_right _

theorem allLeaves_append_cons (before after : List Space) (space : Space) :
    allLeaves (before ++ space :: after) =
      allLeaves before ++ (space.root.leaves ++ allLeaves after) := by
  rw [allLeaves, List.flatMap_append, List.flatMap_cons]
  rfl

theorem allLeaves_append (before after : List Space) :
    allLeaves (before ++ after) = allLeaves before ++ allLeaves after :=
  List.flatMap_append

variable {source : Space} {paneId : Nat}

/-- The parts of the promise that hold wherever a pane has arrived. -/
theorem Conserves.of_insertIdx {spaces spaces' : List Space} {sourceSpace tab next : Nat}
    {added : List (Nat × PaneKind)} {space : Space} {kind : PaneKind} {reset : Option Nat}
    (hsource : spaces[sourceSpace]? = some source) (hkind : source.leafKind paneId = some kind)
    (hspace : space.root = .leaf paneId kind) (htab : tab ≤ spaces'.length)
    (hleaves : ((paneId, kind) :: allLeaves spaces').Perm (added ++ allLeaves spaces)) :
    Conserves spaces sourceSpace paneId added
      (spaces'.insertIdx tab space, next, some ⟨tab, reset⟩) := by
  have hleaf : space.root.leaves = [(paneId, kind)] := by rw [hspace, Pane.leaves]
  refine ⟨(fun hnone => by cases hnone), ?_, ?_, ?_⟩
  · rintro move ⟨⟩
    refine ⟨source, space, kind, hsource, hkind, ?_, hleaf⟩
    rw [List.getElem?_insertIdx_self, if_pos htab]
  · rintro move ⟨⟩
    refine (allLeaves_insertIdx htab space).trans ?_
    rwa [hleaf]
  · rintro move ⟨⟩
    refine ⟨fun hnil => ?_, fun other _ => other.root.leaves_ne_nil⟩
    have hlength := List.length_insertIdx_of_le_length htab space
    rw [show spaces'.insertIdx tab space = [] from hnil] at hlength
    cases hlength

theorem Conserves.of_none (spaces : List Space) (sourceSpace paneId nextId : Nat)
    (added : List (Nat × PaneKind)) :
    Conserves spaces sourceSpace paneId added (spaces, nextId, none) := by
  refine ⟨fun _ => rfl, ?_, ?_, ?_⟩
  all_goals
    intro move hmove
    cases hmove

theorem leaves_close {next : Nat} {kind : PaneKind}
    (hone : ∀ kind', (paneId, kind') ∈ source.root.leaves → source.leafKind paneId = some kind')
    (hkind : source.leafKind paneId = some kind) (hnext : (source.close paneId).2 = some next) :
    ((paneId, kind) :: (source.close paneId).1.root.leaves).Perm source.root.leaves := by
  obtain ⟨hroot, hclose⟩ := Space.close_root source paneId
  rw [hclose] at hnext
  obtain ⟨-, ⟨kind', a, b, hleaves, hleaves'⟩, -⟩ := Pane.removeLeaf_eq_some hnext
  have hmem : (paneId, kind') ∈ source.root.leaves := by
    rw [hleaves]
    exact List.mem_append_right a List.mem_cons_self
  obtain rfl := Option.some.inj (hkind.symm.trans (hone kind' hmem))
  rw [hroot, hleaves, hleaves']
  exact List.perm_middle.symm

theorem root_of_close_eq_none {kind : PaneKind} (hkind : source.leafKind paneId = some kind)
    (hnext : (source.close paneId).2 = none) :
    source.root = .leaf paneId kind := by
  rw [(Space.close_root source paneId).2] at hnext
  obtain ⟨kind', hroot⟩ :=
    (Pane.removeLeaf_eq_none hnext).2 (Pane.mem_leafIds_of_leafKind hkind)
  rw [Space.leafKind, hroot, Pane.leafKind, if_pos rfl] at hkind
  rw [hroot, Option.some.inj hkind]

/-- Removing one of the leaves of a split leaves another. -/
theorem emptied_eq_false {spaces : List Space} {sourceSpace next : Nat}
    (hsource : spaces[sourceSpace]? = some source) (hnext : (source.close paneId).2 = some next) :
    emptied spaces sourceSpace = false := by
  rw [(Space.close_root source paneId).2] at hnext
  obtain ⟨-, ⟨kind, a, b, hleaves, hleaves'⟩, -⟩ := Pane.removeLeaf_eq_some hnext
  have hne := (source.root.removeLeaf paneId).1.leaves_ne_nil
  rw [hleaves'] at hne
  rw [emptied, hsource, Option.any_some, hleaves, List.length_append, List.length_cons,
    beq_eq_false_iff_ne]
  have hpos := List.length_pos_of_ne_nil hne
  rw [List.length_append] at hpos
  omega

/-- **A move to a new space conserves panes.** Without such a pane nothing changes; otherwise the
pane has the tab to itself, with its id and kind, the leaves of all spaces are the old ones, with
one fresh chat leaf when the pane's space held nothing else and was the only one, and no space is
empty. -/
theorem conserves_of_one_kind (spaces : List Space) (sourceSpace paneId index nextId : Nat)
    (hone : OneKind spaces sourceSpace paneId) :
    Conserves spaces sourceSpace paneId (resetLeaf spaces sourceSpace nextId)
      (movePaneToNewSpace spaces sourceSpace paneId index nextId) := by
  unfold movePaneToNewSpace
  cases hsource : spaces[sourceSpace]? with
  | none => exact Conserves.of_none _ _ _ _ _
  | some source =>
    simp only
    cases hkind : source.leafKind paneId with
    | none => exact Conserves.of_none _ _ _ _ _
    | some kind =>
      simp only
      obtain ⟨hlt, hget⟩ := List.getElem?_eq_some_iff.mp hsource
      have hspaces : spaces = spaces.take sourceSpace ++ source :: spaces.drop (sourceSpace + 1) := by
        rw [← hget, List.getElem_cons_drop, List.take_append_drop]
      have hset : ∀ space, spaces.set sourceSpace space =
          spaces.take sourceSpace ++ space :: spaces.drop (sourceSpace + 1) := fun space => by
        rw [List.set_eq_take_append_cons_drop, if_pos hlt]
      cases hnext : (source.close paneId).2 with
      | some next =>
        -- the split collapses onto the sibling
        rw [Option.isSome_some, if_pos rfl]
        refine Conserves.of_insertIdx hsource hkind rfl (Nat.min_le_right _ _) ?_
        rw [resetLeaf, emptied_eq_false hsource hnext, Bool.false_and, if_neg Bool.false_ne_true,
          List.nil_append, hset]
        conv => rhs; rw [hspaces]
        rw [allLeaves_append_cons, allLeaves_append_cons]
        refine List.perm_middle.symm.trans (List.Perm.append_left _ ?_)
        exact (leaves_close (hone source hsource) hkind hnext).append_right _
      | none =>
        have hroot := root_of_close_eq_none hkind hnext
        have hempty : emptied spaces sourceSpace = true := by
          rw [emptied, hsource, Option.any_some, hroot]
          rfl
        have hold : allLeaves spaces = allLeaves (spaces.take sourceSpace) ++
            ((paneId, kind) :: allLeaves (spaces.drop (sourceSpace + 1))) := by
          conv => lhs; rw [hspaces]
          rw [allLeaves_append_cons, hroot]
          rfl
        rw [Option.isSome_none, if_neg Bool.false_ne_true, List.length_set]
        by_cases hmore : spaces.length > 1
        · -- the space is consumed
          rw [if_pos hmore]
          refine Conserves.of_insertIdx hsource hkind rfl (Nat.min_le_right _ _) ?_
          have hlength : (spaces.length == 1) = false := beq_eq_false_iff_ne.mpr (by omega)
          rw [resetLeaf, hlength, Bool.and_false, if_neg Bool.false_ne_true, List.nil_append, hold,
            List.eraseIdx_set_eq, List.eraseIdx_eq_take_drop_succ, allLeaves_append]
          exact List.perm_middle.symm
        · -- it was the only one, and is reset
          rw [if_neg hmore]
          have hlength : spaces.length = 1 := by omega
          refine Conserves.of_insertIdx hsource hkind rfl ?_ ?_
          · rw [List.length_set, List.length_set]
            split <;> omega
          · rw [resetLeaf, hempty, hlength, Bool.true_and, beq_self_eq_true, if_pos rfl, hold,
              List.set_set, hset, allLeaves_append_cons]
            exact (List.perm_middle.cons _).trans
              ((List.Perm.swap _ _ _).trans (List.perm_middle.symm.cons _))

def besideTerminal : Space :=
  Space.unnamed (.split 3 .horizontal 0.5 (.leaf 1 .chat) (.leaf 2 .terminal))

theorem conserves_terminal :
    Conserves [besideTerminal] 0 2 [] (movePaneToNewSpace [besideTerminal] 0 2 1 4) := by
  refine conserves_of_one_kind [besideTerminal] 0 2 1 4 ?_
  rintro space ⟨⟩ kind hkind
  have hmem : (2, kind) ∈ [(1, PaneKind.chat), (2, PaneKind.terminal)] := hkind
  obtain rfl : kind = .terminal := by simpa using hmem
  rfl

/-- The second of two spaces would have become empty and leaves no chat pane behind: it is consumed.
And if the pane's id is also the id of a leaf of another kind, the move may take the one and keep
the kind of the other. -/
theorem not_conserves :
    (¬ ∀ (spaces : List Space) (sourceSpace paneId index nextId : Nat),
      OneKind spaces sourceSpace paneId →
      Conserves spaces sourceSpace paneId
        (if emptied spaces sourceSpace then [(nextId, .chat)] else [])
        (movePaneToNewSpace spaces sourceSpace paneId index nextId)) ∧
    ¬ ∀ (spaces : List Space) (sourceSpace paneId index nextId : Nat),
      Conserves spaces sourceSpace paneId (resetLeaf spaces sourceSpace nextId)
        (movePaneToNewSpace spaces sourceSpace paneId index nextId) := by
  constructor
  · intro hall
    have hleaves := (hall [.unnamed (.leaf 1 .chat), .unnamed (.leaf 2 .terminal)] 1 2 0 3 (by
      rintro space ⟨⟩ kind hkind
      obtain ⟨⟩ := List.mem_singleton.mp hkind
      rfl)).leaves _ rfl
    exact absurd hleaves.length_eq (by decide)
  · intro hall
    have hleaves := (hall [.unnamed (.split 4 .horizontal 0.5 (.split 5 .horizontal 0.5
      (.leaf 1 .chat) (.leaf 2 .chat)) (.leaf 1 .terminal))] 0 1 0 6).leaves _ rfl
    exact absurd (hleaves.count_eq (1, .chat)) (by decide)

end Goble.Panes
