import Mathlib.Data.List.Perm.Lattice
import Goble.Lib.Machine
import Goble.Panes.Space

/-!
# The pane tree and its floating entries along every run

A space is changed by ten operations. Along every run of them the ids of the tree stay distinct and
below the counter, and the floating entries stay in step with the leaves (`Space.Ok`); from that the
regions a layout draws are the visible leaves, once each (`Space.Ok.drawn`).

Minimizing is a gesture of the floating layout, and `set_layout` brings the docked windows back when
the space leaves it. `minimize_pane` itself does not look at the layout: the entries survive the
switch, so a call outside the floating layout docks a window where there is no dock
(`not_ok_after_minimize`). The invariant is therefore about the runs in which `minimize_pane` finds
the floating layout or no entry (`Space.Meets`), from a space that is not in the floating layout yet,
and while the counter does not wrap.
-/

namespace Goble.Panes

/-- The operations on a space, with their arguments. -/
inductive Op
  | split (target : Nat) (dir : SplitDir)
  | splitWithKind (target : Nat) (dir : SplitDir) (secondKind : PaneKind)
  | close (target : Nat)
  | movePane (paneId targetId : Nat) (side : DropSide)
  | setLeafKind (target : Nat) (kind : PaneKind)
  | setLayout (layout : LayoutKind)
  | raisePane (paneId : Nat)
  | minimizePane (paneId : Nat)
  | restorePane (paneId : Nat)
  | setFloatingRect (paneId : Nat) (rect : PaneRect)

namespace Space

/-- One operation on the space and the counter. What it answers is not read here. -/
def apply (s : Space) (nextId : Nat) : Op → Space × Nat
  | .split target dir => ((s.split target dir nextId).1, (s.split target dir nextId).2.1)
  | .splitWithKind target dir kind =>
    ((s.splitWithKind target dir nextId kind).1, (s.splitWithKind target dir nextId kind).2.1)
  | .close target => ((s.close target).1, nextId)
  | .movePane paneId targetId side =>
    ((s.movePane paneId targetId side nextId).1, (s.movePane paneId targetId side nextId).2.1)
  | .setLeafKind target kind => ((s.setLeafKind target kind).1, nextId)
  | .setLayout layout => (s.setLayout layout, nextId)
  | .raisePane paneId => (s.raisePane paneId, nextId)
  | .minimizePane paneId => (s.minimizePane paneId, nextId)
  | .restorePane paneId => (s.restorePane paneId, nextId)
  | .setFloatingRect paneId rect => (s.setFloatingRect paneId rect, nextId)

/-- A space and the shared counter, from any start. -/
def machine (s : Space) (nextId : Nat) : Machine (Space × Nat) Op where
  init := (s, nextId)
  step p op := some (p.1.apply p.2 op)

structure Numbered (root : Pane) (nextId : Nat) : Prop where
  distinct : root.ids.Nodup
  below : ∀ id ∈ root.ids, id < nextId

/-- The pane tree invariant. -/
structure Ok (s : Space) (nextId : Nat) : Prop where
  numbered : Numbered s.root nextId
  once : s.entryIds.Nodup
  named : ∀ pane ∈ s.floating, pane.paneId ∈ s.root.leafIds
  covered : s.layout = .floating → ∀ id ∈ s.root.leafIds, id ∈ s.entryIds
  undocked : s.layout ≠ .floating → ∀ pane ∈ s.floating, pane.minimized = false

structure Drawn (s : Space) : Prop where
  visible : (s.layoutRegions.map Prod.fst).Perm s.visibleLeafIds
  once : (s.layoutRegions.map Prod.fst).Nodup

/-- What an operation is expected to find: `minimize_pane` the floating layout, or no entry, and the
operations that take ids a counter that does not wrap. -/
def Meets (p : Space × Nat) : Op → Prop
  | .minimizePane paneId => p.1.layout = .floating ∨ p.1.entryOf paneId = none
  | .split .. | .splitWithKind .. => p.2 + 2 < 2 ^ 64
  | .movePane .. => p.2 + 1 < 2 ^ 64
  | _ => True

/-! ### The regions -/

variable {nextId : Nat} {s : Space}

theorem Ok.leafIds_nodup (h : s.Ok nextId) : s.root.leafIds.Nodup :=
  s.root.leafIds_sublist_ids.nodup h.numbered.distinct

theorem Ok.entryOf_eq_some (h : s.Ok nextId) {paneId : Nat} {pane : FloatingPane} :
    s.entryOf paneId = some pane ↔ pane ∈ s.floating ∧ pane.paneId = paneId := by
  have hfind := find?_key_eq_some (k := paneId) (x := pane) h.once
  simpa only [entryOf, beq_eq_decide] using hfind

theorem Ok.visibleLeafIds_eq (h : s.Ok nextId) (hlayout : s.layout ≠ .floating) :
    s.visibleLeafIds = s.root.leafIds := by
  refine List.filter_eq_self.mpr fun id _ => ?_
  rw [paneMinimized, Bool.not_eq_true']
  cases hentry : s.entryOf id with
  | none => rfl
  | some pane => exact h.undocked hlayout pane (h.entryOf_eq_some.mp hentry).1

theorem Ok.mem_layoutRegions (h : s.Ok nextId) (hlayout : s.layout = .floating) (id : Nat) :
    id ∈ s.layoutRegions.map Prod.fst ↔ id ∈ s.visibleLeafIds := by
  have hregions : s.layoutRegions.map Prod.fst = (s.floating.filter fun pane =>
      !pane.minimized && s.root.containsLeaf pane.paneId).map FloatingPane.paneId := by
    rw [layoutRegions, hlayout, List.map_map]
    rfl
  rw [hregions, visibleLeafIds, List.mem_filter, List.mem_map, paneMinimized]
  constructor
  · rintro ⟨pane, hpane, rfl⟩
    obtain ⟨hmem, hshown⟩ := List.mem_filter.mp hpane
    rw [Bool.and_eq_true] at hshown
    rw [h.entryOf_eq_some.mpr ⟨hmem, rfl⟩]
    exact ⟨h.named pane hmem, hshown.1⟩
  · rintro ⟨hleaf, hshown⟩
    obtain ⟨pane, hmem, rfl⟩ := List.mem_map.mp (h.covered hlayout id hleaf)
    rw [h.entryOf_eq_some.mpr ⟨hmem, rfl⟩] at hshown
    refine ⟨pane, List.mem_filter.mpr ⟨hmem, ?_⟩, rfl⟩
    rw [Bool.and_eq_true]
    exact ⟨hshown, Pane.containsLeaf_iff.mpr hleaf⟩

theorem layoutRegions_perm_leafIds (hlayout : s.layout ≠ .floating) :
    (s.layoutRegions.map Prod.fst).Perm s.root.leafIds := by
  rw [layoutRegions]
  cases h : s.layout with
  | bsp => exact List.Perm.of_eq (collectRegions_ids _ _)
  | masterStack => exact List.Perm.of_eq (masterStackRegions_ids _)
  | floating => exact absurd h hlayout
  | carousel => exact carouselRegions_ids _ _

/-- The invariant gives the regions. -/
theorem Ok.drawn (h : s.Ok nextId) : s.Drawn := by
  by_cases hlayout : s.layout = .floating
  · have hnodup : (s.layoutRegions.map Prod.fst).Nodup := by
      rw [layoutRegions, hlayout, List.map_map]
      exact (List.filter_sublist.map _).nodup h.once
    have hvisible : s.visibleLeafIds.Nodup := h.leafIds_nodup.filter _
    exact ⟨(List.perm_ext_iff_of_nodup hnodup hvisible).mpr (h.mem_layoutRegions hlayout), hnodup⟩
  · have hperm := layoutRegions_perm_leafIds hlayout
    exact ⟨hperm.trans (List.Perm.of_eq (h.visibleLeafIds_eq hlayout).symm),
      hperm.nodup_iff.mpr h.leafIds_nodup⟩

/-! ### What the operations keep -/

variable {root : Pane}

theorem Numbered.mono {nextId' : Nat} (h : Numbered root nextId) (hle : nextId ≤ nextId') :
    Numbered root nextId' :=
  ⟨h.distinct, fun id hid => Nat.lt_of_lt_of_le (h.below id hid) hle⟩

theorem Numbered.of_fresh {ids : List Nat} (hnodup : ids.Nodup) (hbelow : ∀ id ∈ ids, id < nextId) :
    (nextId :: ids).Nodup ∧ ∀ id ∈ nextId :: ids, id < nextId + 1 := by
  refine ⟨List.nodup_cons.mpr ⟨fun hmem => Nat.lt_irrefl _ (hbelow _ hmem), hnodup⟩, ?_⟩
  intro id hid
  obtain rfl | hid := List.mem_cons.mp hid
  · exact Nat.lt_succ_self _
  · exact Nat.lt_succ_of_lt (hbelow id hid)

theorem Numbered.of_perm {ids : List Nat} (hperm : root.ids.Perm ids)
    (h : ids.Nodup ∧ ∀ id ∈ ids, id < nextId) : Numbered root nextId :=
  ⟨hperm.nodup_iff.mpr h.1, fun id hid => h.2 id (hperm.mem_iff.mp hid)⟩

/-- The invariant needs nothing of the tree but its numbering once `recompute_layout` has run. -/
theorem Ok.of_recompute (hroot : Numbered s.root nextId) (honce : s.entryIds.Nodup)
    (hundocked : s.layout ≠ .floating → ∀ pane ∈ s.floating, pane.minimized = false) :
    s.recomputeLayout.Ok nextId := by
  obtain ⟨kept, added, hfloating, hkept, hnamed, hadded, hcovered, hnodup⟩ :=
    recomputeLayout_floating s
  refine ⟨?_, hnodup honce, ?_, ?_, fun hlayout pane hpane => ?_⟩
  · rwa [recomputeLayout_root]
  · rwa [recomputeLayout_root]
  · rwa [recomputeLayout_root, recomputeLayout_layout]
  · rw [recomputeLayout_layout] at hlayout
    rw [hfloating, List.mem_append] at hpane
    exact hpane.elim (fun hpane => hundocked hlayout pane (hkept.subset hpane)) (hadded pane)

theorem Ok.of_floating (h : s.Ok nextId) {floating : List FloatingPane}
    (hids : (floating.map FloatingPane.paneId).Perm s.entryIds)
    (hundocked : s.layout ≠ .floating → ∀ pane ∈ floating, pane.minimized = false) :
    Ok { s with floating } nextId := by
  refine ⟨h.numbered, hids.nodup_iff.mpr h.once, fun pane hpane => ?_, fun hlayout id hid => ?_,
    hundocked⟩
  · obtain ⟨old, hold, heq⟩ := List.mem_map.mp (hids.mem_iff.mp (List.mem_map_of_mem hpane))
    rw [← heq]
    exact h.named old hold
  · exact hids.mem_iff.mpr (h.covered hlayout id hid)

theorem Numbered.splitWith (h : Numbered root nextId) {target : Nat} (hmem : target ∈ root.leafIds)
    {f : PaneKind → Pane} (hf : ∀ kind, (f kind).ids = [nextId, target, nextId + 1]) :
    Numbered (root.replaceLeaf target f).1 (nextId + 2) := by
  have hperm : (root.replaceLeaf target f).1.ids.Perm ((nextId + 1) :: nextId :: root.ids) := by
    refine Pane.replaceLeaf_ids [nextId + 1, nextId] hmem fun kind => ?_
    rw [hf kind]
    exact (List.Perm.swap _ _ _).trans ((List.Perm.swap _ _ _).cons target)
  obtain ⟨hnodup, hbelow⟩ := Numbered.of_fresh h.distinct h.below
  exact Numbered.of_perm hperm (Numbered.of_fresh hnodup hbelow)

theorem fresh_eq (h : nextId + 1 < 2 ^ 64) : fresh nextId = nextId + 1 :=
  Nat.mod_eq_of_lt h

theorem Ok.split (h : s.Ok nextId) (target : Nat) (dir : SplitDir) (hnext : nextId + 2 < 2 ^ 64) :
    (s.split target dir nextId).1.Ok (s.split target dir nextId).2.1 := by
  have hsecond : fresh nextId = nextId + 1 := fresh_eq (Nat.lt_of_succ_lt hnext)
  have hthird : fresh (nextId + 1) = nextId + 2 := fresh_eq hnext
  rw [Space.split, hsecond, hthird]
  by_cases hmem : target ∈ s.root.leafIds
  · simp only [Pane.splitLeaf, (Pane.replaceLeaf_found _).mpr hmem, if_true]
    exact Ok.of_recompute (h.numbered.splitWith hmem fun kind => rfl) h.once h.undocked
  · simp only [Pane.splitLeaf, Pane.replaceLeaf_of_not_mem _ hmem, Bool.false_eq_true, if_false]
    exact { h with numbered := h.numbered.mono (Nat.le_add_right _ _) }

theorem Ok.splitWithKind (h : s.Ok nextId) (target : Nat) (dir : SplitDir) (kind : PaneKind)
    (hnext : nextId + 2 < 2 ^ 64) :
    (s.splitWithKind target dir nextId kind).1.Ok
      (s.splitWithKind target dir nextId kind).2.1 := by
  have hsecond : fresh nextId = nextId + 1 := fresh_eq (Nat.lt_of_succ_lt hnext)
  have hthird : fresh (nextId + 1) = nextId + 2 := fresh_eq hnext
  rw [Space.splitWithKind, hsecond, hthird]
  by_cases hmem : target ∈ s.root.leafIds
  · simp only [Pane.splitLeafInto, (Pane.replaceLeaf_found _).mpr hmem, if_true]
    exact Ok.of_recompute (h.numbered.splitWith hmem fun kind => rfl) h.once h.undocked
  · simp only [Pane.splitLeafInto, Pane.replaceLeaf_of_not_mem _ hmem, Bool.false_eq_true, if_false]
    exact { h with numbered := h.numbered.mono (Nat.le_add_right _ _) }

theorem Numbered.removeLeaf (h : Numbered root nextId) {target next : Nat}
    (hsome : (root.removeLeaf target).2 = some next) :
    (target :: (root.removeLeaf target).1.ids).Nodup ∧
      ∀ id ∈ target :: (root.removeLeaf target).1.ids, id < nextId := by
  obtain ⟨-, -, split, hperm⟩ := Pane.removeLeaf_eq_some hsome
  have hsub : (target :: (root.removeLeaf target).1.ids).Sublist
      (target :: split :: (root.removeLeaf target).1.ids) := (List.sublist_cons_self _ _).cons_cons _
  exact ⟨hsub.nodup (hperm.nodup_iff.mp h.distinct),
    fun id hid => h.below id (hperm.mem_iff.mpr (hsub.subset hid))⟩

theorem Ok.close (h : s.Ok nextId) (target : Nat) :
    (s.close target).1.Ok nextId := by
  rw [Space.close]
  cases hnext : (s.root.removeLeaf target).2 with
  | none =>
    simp only [hnext, Option.isSome_none, Bool.false_eq_true, if_false,
      (Pane.removeLeaf_eq_none hnext).1]
    exact h
  | some next =>
    simp only [hnext, Option.isSome_some, if_true]
    obtain ⟨hnodup, hbelow⟩ := h.numbered.removeLeaf hnext
    refine Ok.of_recompute ⟨(List.nodup_cons.mp hnodup).2, fun id hid =>
      hbelow id (List.mem_cons_of_mem _ hid)⟩ ?_ fun hlayout pane hpane => ?_
    · exact (List.filter_sublist.map _).nodup h.once
    · exact h.undocked hlayout pane (List.mem_of_mem_filter hpane)

theorem Ok.movePane (h : s.Ok nextId) (paneId targetId : Nat) (side : DropSide)
    (hnext : nextId + 1 < 2 ^ 64) :
    (s.movePane paneId targetId side nextId).1.Ok (s.movePane paneId targetId side nextId).2.1 := by
  rw [Space.movePane]
  by_cases hself : paneId = targetId
  · rwa [if_pos hself]
  rw [if_neg hself]
  cases hkind : s.root.leafKind paneId with
  | none => exact h
  | some kind =>
    by_cases htarget : (s.root.leafKind targetId).isNone = true
    · simpa only [htarget, if_true] using h
    by_cases hsibling : s.root.siblingOnSide targetId side = some paneId
    · simpa only [htarget, hsibling, Bool.false_eq_true, if_true, if_false] using h
    simp only [htarget, hsibling, if_false]
    cases hremoved : (s.root.removeLeaf paneId).2 with
    | none =>
      simp only [Option.isNone_none, if_true, (Pane.removeLeaf_eq_none hremoved).1]
      exact h
    | some next =>
      simp only [Option.isNone_some, Bool.false_eq_true, if_false]
      have htarget' : targetId ∈ (s.root.removeLeaf paneId).1.leafIds := by
        refine Pane.mem_leafIds_removeLeaf hremoved ?_ (Ne.symm hself)
        by_contra hmem
        exact htarget (Option.isNone_iff_eq_none.mpr (Pane.leafKind_eq_none.mpr hmem))
      have hroot : Numbered ((s.root.removeLeaf paneId).1.insertLeafBeside targetId side.splitDir
          side.leads nextId (.leaf paneId kind)).1 (nextId + 1) := by
        obtain ⟨hnodup, hbelow⟩ := h.numbered.removeLeaf hremoved
        refine Numbered.of_perm ?_ (Numbered.of_fresh hnodup hbelow)
        refine Pane.replaceLeaf_ids [nextId, paneId] htarget' fun kind => ?_
        cases side.leads with
        | true =>
          have hswap : ([nextId, paneId] ++ [targetId]).Perm ([targetId] ++ [nextId, paneId]) :=
            List.perm_append_comm
          exact hswap
        | false => exact List.Perm.swap _ _ _
      simp only [Pane.insertLeafBeside, (Pane.replaceLeaf_found _).mpr htarget', if_true,
        fresh_eq hnext] at hroot ⊢
      exact Ok.of_recompute hroot h.once h.undocked

theorem Ok.setLeafKind (h : s.Ok nextId) (target : Nat) (kind : PaneKind) :
    (s.setLeafKind target kind).1.Ok nextId := by
  rw [Space.setLeafKind]
  by_cases hmem : target ∈ s.root.leafIds
  · have hids : (s.root.setLeafKind target kind).1.ids.Perm s.root.ids :=
      Pane.replaceLeaf_ids [] hmem fun _ => List.Perm.refl _
    have hleafIds : (s.root.setLeafKind target kind).1.leafIds.Perm s.root.leafIds :=
      Pane.replaceLeaf_leafIds [] hmem fun _ => List.Perm.refl _
    exact ⟨Numbered.of_perm hids ⟨h.numbered.distinct, h.numbered.below⟩, h.once,
      fun pane hpane => hleafIds.mem_iff.mpr (h.named pane hpane),
      fun hlayout id hid => h.covered hlayout id (hleafIds.mem_iff.mp hid), h.undocked⟩
  · rw [Pane.setLeafKind, Pane.replaceLeaf_of_not_mem _ hmem]
    exact h

theorem Ok.setLayout (h : s.Ok nextId) (layout : LayoutKind) :
    (s.setLayout layout).Ok nextId := by
  rw [Space.setLayout]
  refine Ok.of_recompute h.numbered ?_ fun hlayout pane hpane => ?_
  · rw [entryIds]
    split
    · rw [List.map_map]
      exact h.once
    · exact h.once
  · rw [if_pos hlayout] at hpane
    obtain ⟨old, -, rfl⟩ := List.mem_map.mp hpane
    rfl

theorem Ok.raisePane (h : s.Ok nextId) (paneId : Nat) :
    (s.raisePane paneId).Ok nextId := by
  have hperm := raisePane_floating s paneId
  have hok := h.of_floating (hperm.map _) fun hlayout pane hpane =>
    h.undocked hlayout pane (hperm.mem_iff.mp hpane)
  have heq : s.raisePane paneId = { s with floating := (s.raisePane paneId).floating } := by
    unfold Space.raisePane
    split <;> rfl
  rwa [heq]

theorem mem_modifyEntry {paneId : Nat} {f : FloatingPane → FloatingPane} {pane : FloatingPane}
    (h : pane ∈ (s.modifyEntry paneId f).floating) :
    pane ∈ s.floating ∨ ∃ old ∈ s.floating, pane = f old := by
  obtain ⟨i, hi⟩ := List.mem_iff_getElem?.mp h
  rw [modifyEntry, List.getElem?_modify] at hi
  obtain ⟨old, hold, rfl⟩ := Option.map_eq_some_iff.mp hi
  split
  · exact .inr ⟨old, List.mem_of_getElem? hold, rfl⟩
  · exact .inl (List.mem_of_getElem? hold)

theorem Ok.modifyEntry (h : s.Ok nextId) (paneId : Nat) {f : FloatingPane → FloatingPane}
    (hid : ∀ pane, (f pane).paneId = pane.paneId)
    (hf : s.layout ≠ .floating → ∀ pane ∈ s.floating, pane.minimized = false →
      (f pane).minimized = false) :
    (s.modifyEntry paneId f).Ok nextId := by
  refine h.of_floating (List.Perm.of_eq (entryIds_modifyEntry s paneId hid)) ?_
  intro hlayout pane hpane
  obtain hpane | ⟨old, hold, rfl⟩ := mem_modifyEntry hpane
  · exact h.undocked hlayout pane hpane
  · exact hf hlayout old hold (h.undocked hlayout old hold)

theorem Ok.minimizePane (h : s.Ok nextId) {paneId : Nat}
    (hmeets : s.layout = .floating ∨ s.entryOf paneId = none) :
    (s.minimizePane paneId).Ok nextId := by
  obtain hlayout | hnone := hmeets
  · exact h.modifyEntry paneId (fun _ => rfl) fun hne => absurd hlayout hne
  · -- nothing is found, so nothing is changed
    have hidx : s.floating.findIdx (fun pane => pane.paneId == paneId) = s.floating.length :=
      List.findIdx_eq_length.mpr fun pane hpane => by
        simpa using List.find?_eq_none.mp hnone pane hpane
    have hsame : s.minimizePane paneId = s := by
      rw [Space.minimizePane, Space.modifyEntry, hidx, List.modify_eq_self (Nat.le_refl _)]
    rwa [hsame]

/-! ### Every run -/

theorem Ok.apply (h : s.Ok nextId) {op : Op} (hmeets : Meets (s, nextId) op) :
    (s.apply nextId op).1.Ok (s.apply nextId op).2 := by
  cases op with
  | split target dir => exact h.split target dir hmeets
  | splitWithKind target dir kind => exact h.splitWithKind target dir kind hmeets
  | close target => exact h.close target
  | movePane paneId targetId side => exact h.movePane paneId targetId side hmeets
  | setLeafKind target kind => exact h.setLeafKind target kind
  | setLayout layout => exact h.setLayout layout
  | raisePane paneId => exact h.raisePane paneId
  | minimizePane paneId => exact h.minimizePane hmeets
  | restorePane paneId =>
    refine (h.modifyEntry paneId ?_ ?_).raisePane paneId
    · exact fun _ => rfl
    · exact fun _ _ _ _ => rfl
  | setFloatingRect paneId rect =>
    exact h.modifyEntry paneId (fun _ => rfl) fun _ _ _ hminimized => hminimized

/-- **Pane tree invariant.** From a space whose tree is numbered below the counter, that has no
floating entries and is not in the floating layout, along every run in which `minimize_pane` finds
the floating layout or no entry and the counter does not wrap: the tree stays numbered, the entries
stay in step with its leaves, and the regions are the visible leaves. -/
theorem ok_of_meets (s : Space) (nextId : Nat) (hroot : Numbered s.root nextId)
    (hfloating : s.floating = []) (hlayout : s.layout ≠ .floating) (ops : List Op) (p : Space × Nat)
    (hmeets : (s.machine nextId).Along Meets (s.machine nextId).init ops)
    (hrun : (s.machine nextId).exec (s.machine nextId).init ops = some p) :
    p.1.Ok p.2 ∧ p.1.Drawn := by
  have hinit : Ok s nextId :=
    ⟨hroot, by simp [entryIds, hfloating], by simp [hfloating], fun h => absurd h hlayout,
      by simp [hfloating]⟩
  have hok : p.1.Ok p.2 := by
    refine Machine.invariant (I := fun p => p.1.Ok p.2) hinit ?_ hmeets hrun
    intro p op p' hp hop hstep
    obtain rfl := Option.some.inj hstep
    exact hp.apply hop
  exact ⟨hok, hok.drawn⟩

/-- One chat pane, with the id 1. -/
def one : Space := unnamed (.leaf 1 .chat)

def docking : List Op :=
  [.setLayout .floating, .split 1 .horizontal, .minimizePane 1, .setLayout .bsp]

theorem ok_after_docking :
    ∃ p, (one.machine 2).exec (one.machine 2).init docking = some p ∧ p.1.Ok p.2 ∧ p.1.Drawn := by
  refine ⟨_, rfl, ok_of_meets one 2 ⟨by decide, by decide⟩ rfl (by decide) docking _ ?_ rfl⟩
  refine ⟨trivial, ?_⟩
  rintro _ ⟨⟩
  refine ⟨(by decide : 2 + 2 < 2 ^ 64), ?_⟩
  rintro _ ⟨⟩
  refine ⟨.inl rfl, ?_⟩
  rintro _ ⟨⟩
  exact ⟨trivial, fun _ _ => trivial⟩

/-- The space has been in the floating layout and has left it when `minimize_pane` is called: the
entry is minimized outside that layout, and a leaf that is drawn is not visible. -/
theorem not_ok_after_minimize :
    ¬ ∀ (s : Space) (nextId : Nat), Numbered s.root nextId → s.floating = [] →
      ∀ (ops : List Op) (p : Space × Nat),
      (s.machine nextId).exec (s.machine nextId).init ops = some p → p.1.Ok p.2 ∧ p.1.Drawn := by
  intro hall
  obtain ⟨hok, -⟩ := hall one 2 ⟨by decide, by decide⟩ rfl
    [.setLayout .floating, .setLayout .bsp, .minimizePane 1] _ rfl
  have hdocked := hok.undocked (by decide) _ List.mem_cons_self
  cases hdocked

end Space

end Goble.Panes
