import Mathlib.Algebra.Ring.Nat
import Goble.Panes.Tree

/-!
# Spaces

A space is a pane tree shown as a tab, with the layout its leaves are drawn in. The floating layout
keeps a rect for each leaf, in z-order, and an entry may be minimized into the dock; the other
layouts derive their regions from the tree. The entries are kept across a switch of layout.

The counter of ids is shared by all spaces and is a `u64`, which wraps in a release build. The
geometry is computed in `f32`; no id depends on it, except that the carousel is drawn in the order
of the distances.
-/

namespace Goble.Panes

inductive LayoutKind
  | bsp | masterStack | floating | carousel
deriving DecidableEq, Repr

/-- `f32::clamp`: a NaN stays a NaN. -/
def clamp (x lo hi : Float32) : Float32 :=
  let x := if x < lo then lo else x
  if hi < x then hi else x

/-- `f32::max`, the other argument if one is a NaN. -/
def fmax (x y : Float32) : Float32 := if x.isNaN then y else if x < y then y else x

def fmin (x y : Float32) : Float32 := if x.isNaN then y else if y < x then y else x

/-- A rect of the drawing library: an origin and a size. -/
structure RectF where
  x : Float32
  y : Float32
  width : Float32
  height : Float32
deriving Repr

def RectF.maxX (r : RectF) : Float32 := r.x + r.width

def RectF.maxY (r : RectF) : Float32 := r.y + r.height

structure PaneRect where
  x : Float32
  y : Float32
  w : Float32
  h : Float32
deriving Repr

namespace PaneRect

def minW : Float32 := 0.2

def minH : Float32 := 0.2

def clamped (r : PaneRect) : PaneRect :=
  let w := clamp r.w minW 1.0
  let h := clamp r.h minH 1.0
  { x := clamp r.x 0.0 (fmax (1.0 - w) 0.0), y := clamp r.y 0.0 (fmax (1.0 - h) 0.0), w, h }

def toRect (r : PaneRect) : RectF := ⟨r.clamped.x, r.clamped.y, r.clamped.w, r.clamped.h⟩

end PaneRect

structure FloatingPane where
  paneId : Nat
  rect : PaneRect
  minimized : Bool
deriving Repr

def FloatingPane.new (paneId : Nat) (rect : PaneRect) : FloatingPane := ⟨paneId, rect, false⟩

def defaultFloatingRect (index : Nat) : PaneRect :=
  let step := 0.04 * Float32.ofNat (index % 8)
  ⟨0.08 + step, 0.08 + step, 0.62, 0.55⟩

inductive TabColor
  | red | green | yellow | blue | magenta | cyan
deriving DecidableEq, Repr

structure Space where
  name : List Char
  named : Bool
  root : Pane
  medium : List Char
  color : Option TabColor
  layout : LayoutKind
  floating : List FloatingPane
deriving Repr

/-! ### Regions -/

def Pane.collectRegions (rect : RectF) : Pane → List (Nat × RectF)
  | .leaf id _ => [(id, rect)]
  | .split _ dir ratio first second =>
    let rects : RectF × RectF :=
      match dir with
      | .horizontal =>
        let splitX := rect.x + rect.width * ratio
        (⟨rect.x, rect.y, splitX - rect.x, rect.height⟩,
          ⟨splitX, rect.y, rect.maxX - splitX, rect.height⟩)
      | .vertical =>
        let splitY := rect.y + rect.height * ratio
        (⟨rect.x, rect.y, rect.width, splitY - rect.y⟩,
          ⟨rect.x, splitY, rect.width, rect.maxY - splitY⟩)
    first.collectRegions rects.1 ++ second.collectRegions rects.2

def Pane.leafRegions (p : Pane) : List (Nat × RectF) := p.collectRegions ⟨0.0, 0.0, 1.0, 1.0⟩

def masterRatio : Float32 := 0.6

/-- The first leaf takes `masterRatio` of the width, the others share a column. -/
def masterStackRegions : List (Nat × PaneKind) → List (Nat × RectF)
  | [] => []
  | (master, _) :: rest =>
    let height := 1.0 / Float32.ofNat rest.length
    (master, ⟨0.0, 0.0, masterRatio, 1.0⟩) :: rest.mapIdx fun index leaf =>
      (leaf.1, ⟨masterRatio, Float32.ofNat index * height, 1.0 - masterRatio, height⟩)

def carouselWindowWidth : Float32 := 0.58

def carouselWindowHeight : Float32 := 0.84

def carouselStep : Float32 := 0.16

/-- The farthest windows come first, in a stable sort by the distance from the focused one. -/
def carouselRegions (leaves : List (Nat × PaneKind)) (focused : Nat) : List (Nat × RectF) :=
  if leaves.isEmpty then []
  else
    let focusIndex := (leaves.findIdx? fun leaf => leaf.1 == focused).getD 0
    let w := fmin carouselWindowWidth 1.0
    let h := fmin carouselWindowHeight 1.0
    let y := (1.0 - h) / 2.0
    let placed : List (Nat × RectF × Float32) := leaves.mapIdx fun index leaf =>
      let offset := Float32.ofNat index - Float32.ofNat focusIndex
      let x := clamp (0.5 - w / 2.0 + offset * carouselStep) 0.0 (fmax (1.0 - w) 0.0)
      (leaf.1, ⟨x, y, w, h⟩, offset.abs)
    (placed.mergeSort fun a b => !(decide (a.2.2 < b.2.2))).map fun p => (p.1, p.2.1)

namespace Space

def unnamed (root : Pane) : Space :=
  { name := [], named := false, root, medium := "local".toList, color := none, layout := .bsp,
    floating := [] }

def withMedium (s : Space) (medium : List Char) : Space := { s with medium }

/-- The loop of `recompute_layout`: a leaf without an entry gets one at the top. -/
def floatMissing (floating : List FloatingPane) (index : Nat) :
    List (Nat × PaneKind) → List FloatingPane
  | [] => floating
  | (id, _) :: leaves =>
    if floating.any fun pane => pane.paneId == id then floatMissing floating (index + 1) leaves
    else
      floatMissing (floating ++ [.new id (defaultFloatingRect index)]) (index + 1) leaves

/-- Stale entries are dropped, and in the floating layout every leaf gets an entry. -/
def recomputeLayout (s : Space) : Space :=
  let kept := s.floating.filter fun pane => s.root.leaves.any fun leaf => leaf.1 == pane.paneId
  if s.layout ≠ .floating then { s with floating := kept }
  else { s with floating := floatMissing kept 0 s.root.leaves }

/-- The counter is incremented before the leaf is looked for. -/
def fresh (nextId : Nat) : Nat := (nextId + 1) % 2 ^ 64

def split (s : Space) (target : Nat) (dir : SplitDir) (nextId : Nat) : Space × Nat × Option Nat :=
  let splitId := nextId
  let secondId := fresh nextId
  let (root, found) := s.root.splitLeaf target dir splitId secondId
  if found then (recomputeLayout { s with root }, fresh secondId, some secondId)
  else ({ s with root }, fresh secondId, none)

def splitWithKind (s : Space) (target : Nat) (dir : SplitDir) (nextId : Nat)
    (secondKind : PaneKind) : Space × Nat × Option Nat :=
  let splitId := nextId
  let secondId := fresh nextId
  let (root, found) := s.root.splitLeafInto target dir splitId secondId secondKind
  if found then (recomputeLayout { s with root }, fresh secondId, some secondId)
  else ({ s with root }, fresh secondId, none)

/-- Leaving the floating layout brings every docked window back. -/
def setLayout (s : Space) (layout : LayoutKind) : Space :=
  recomputeLayout
    { s with
      layout
      floating :=
        if layout ≠ .floating then s.floating.map ({ · with minimized := false }) else s.floating }

def entryOf (s : Space) (paneId : Nat) : Option FloatingPane :=
  s.floating.find? fun pane => pane.paneId == paneId

/-- The same entry, changed in place. -/
def modifyEntry (s : Space) (paneId : Nat) (f : FloatingPane → FloatingPane) : Space :=
  { s with
    floating := s.floating.modify (s.floating.findIdx fun pane => pane.paneId == paneId) f }

def setFloatingRect (s : Space) (paneId : Nat) (rect : PaneRect) : Space :=
  s.modifyEntry paneId ({ · with rect := rect.clamped })

def raisePane (s : Space) (paneId : Nat) : Space :=
  match s.entryOf paneId with
  | some pane =>
    { s with floating := s.floating.eraseP (fun pane => pane.paneId == paneId) ++ [pane] }
  | none => s

def minimizePane (s : Space) (paneId : Nat) : Space :=
  s.modifyEntry paneId ({ · with minimized := true })

def restorePane (s : Space) (paneId : Nat) : Space :=
  (s.modifyEntry paneId ({ · with minimized := false })).raisePane paneId

def paneMinimized (s : Space) (paneId : Nat) : Bool :=
  (s.entryOf paneId).any FloatingPane.minimized

def visibleLeafIds (s : Space) : List Nat :=
  (s.root.leaves.map Prod.fst).filter fun id => !s.paneMinimized id

def layoutRegions (s : Space) : List (Nat × RectF) :=
  match s.layout with
  | .bsp => s.root.leafRegions
  | .masterStack => masterStackRegions s.root.leaves
  | .floating =>
    (s.floating.filter fun pane => !pane.minimized && s.root.containsLeaf pane.paneId).map
      fun pane => (pane.paneId, pane.rect.toRect)
  | .carousel => carouselRegions s.root.leaves ((s.root.leaves.head?.map Prod.fst).getD 0)

def leafKind (s : Space) (target : Nat) : Option PaneKind := s.root.leafKind target

def setLeafKind (s : Space) (target : Nat) (kind : PaneKind) : Space × Bool :=
  let (root, found) := s.root.setLeafKind target kind
  ({ s with root }, found)

def close (s : Space) (target : Nat) : Space × Option Nat :=
  let (root, next) := s.root.removeLeaf target
  if next.isSome then
    (recomputeLayout
      { s with root, floating := s.floating.filter fun pane => pane.paneId != target }, next)
  else ({ s with root }, none)

/-- The pane leaves its place in the tree and arrives beside `target`. -/
def movePane (s : Space) (paneId targetId : Nat) (side : DropSide) (nextId : Nat) :
    Space × Nat × Bool :=
  if paneId = targetId then (s, nextId, false)
  else
    match s.root.leafKind paneId with
    | none => (s, nextId, false)
    | some kind =>
      if (s.root.leafKind targetId).isNone then (s, nextId, false)
      else if s.root.siblingOnSide targetId side = some paneId then (s, nextId, false)
      else
        let (removed, next) := s.root.removeLeaf paneId
        if next.isNone then ({ s with root := removed }, nextId, false)
        else
          let (root, inserted) := removed.insertLeafBeside targetId side.splitDir side.leads nextId
            (.leaf paneId kind)
          if inserted then (recomputeLayout { s with root }, fresh nextId, true)
          else ({ s with root }, fresh nextId, false)

/-! ### Which entries there are -/

/-- The ids of the floating entries, bottom to top. -/
def entryIds (s : Space) : List Nat := s.floating.map FloatingPane.paneId

theorem any_paneId {floating : List FloatingPane} {id : Nat} :
    (floating.any fun pane => pane.paneId == id) = true ↔ id ∈ floating.map FloatingPane.paneId := by
  simp

/-- The loop adds an entry for each leaf that has none, and nothing else. -/
theorem floatMissing_spec (floating : List FloatingPane) (index : Nat)
    (leaves : List (Nat × PaneKind)) :
    ∃ added, floatMissing floating index leaves = floating ++ added ∧
      (∀ pane ∈ added, pane.paneId ∈ leaves.map Prod.fst ∧ pane.minimized = false) ∧
      (∀ id ∈ leaves.map Prod.fst, id ∈ (floating ++ added).map FloatingPane.paneId) ∧
      ((floating.map FloatingPane.paneId).Nodup →
        ((floating ++ added).map FloatingPane.paneId).Nodup) := by
  induction leaves generalizing floating index with
  | nil => exact ⟨[], (List.append_nil _).symm, by simp, by simp, by simp⟩
  | cons leaf leaves ih =>
    obtain ⟨id, kind⟩ := leaf
    rw [floatMissing]
    by_cases hany : (floating.any fun pane => pane.paneId == id) = true
    · rw [if_pos hany]
      obtain ⟨added, heq, hadded, hall, hnodup⟩ := ih floating (index + 1)
      refine ⟨added, heq, fun pane hpane => ?_, fun other hother => ?_, hnodup⟩
      · exact ⟨List.mem_cons_of_mem _ (hadded pane hpane).1, (hadded pane hpane).2⟩
      · obtain rfl | hother := List.mem_cons.mp hother
        · rw [List.map_append]
          exact List.mem_append_left _ (any_paneId.mp hany)
        · exact hall other hother
    · rw [if_neg hany]
      obtain ⟨added, heq, hadded, hall, hnodup⟩ :=
        ih (floating ++ [.new id (defaultFloatingRect index)]) (index + 1)
      rw [List.append_assoc, List.singleton_append] at heq hall hnodup
      refine ⟨_, heq, fun pane hpane => ?_, fun other hother => ?_, fun hfloating => hnodup ?_⟩
      · obtain rfl | hpane := List.mem_cons.mp hpane
        · exact ⟨List.mem_cons_self, rfl⟩
        · exact ⟨List.mem_cons_of_mem _ (hadded pane hpane).1, (hadded pane hpane).2⟩
      · obtain rfl | hother := List.mem_cons.mp hother
        · simp [FloatingPane.new]
        · exact hall other hother
      · rw [List.map_append]
        refine hfloating.append (List.nodup_singleton _) ?_
        refine List.disjoint_singleton.mpr ?_
        exact fun hmem => hany (any_paneId.mpr hmem)

@[simp] theorem recomputeLayout_root (s : Space) : s.recomputeLayout.root = s.root := by
  unfold recomputeLayout
  split <;> rfl

@[simp] theorem recomputeLayout_layout (s : Space) : s.recomputeLayout.layout = s.layout := by
  unfold recomputeLayout
  split <;> rfl

/-- After `recompute_layout` the entries are old ones, or new ones of leaves that had none. -/
theorem recomputeLayout_floating (s : Space) :
    ∃ kept added, s.recomputeLayout.floating = kept ++ added ∧ kept.Sublist s.floating ∧
      (∀ pane ∈ s.recomputeLayout.floating, pane.paneId ∈ s.root.leafIds) ∧
      (∀ pane ∈ added, pane.minimized = false) ∧
      (s.layout = .floating → ∀ id ∈ s.root.leafIds, id ∈ s.recomputeLayout.entryIds) ∧
      (s.entryIds.Nodup → s.recomputeLayout.entryIds.Nodup) := by
  have hkept : ∀ pane ∈ s.floating.filter (fun pane => s.root.leaves.any fun leaf =>
      leaf.1 == pane.paneId), pane.paneId ∈ s.root.leafIds := by
    intro pane hpane
    obtain ⟨leaf, hleaf, heq⟩ := List.any_eq_true.mp (List.mem_filter.mp hpane).2
    exact List.mem_map.mpr ⟨leaf, hleaf, beq_iff_eq.mp heq⟩
  have hsub := List.filter_sublist (l := s.floating)
    (p := fun pane => s.root.leaves.any fun leaf => leaf.1 == pane.paneId)
  by_cases hlayout : s.layout = .floating
  · obtain ⟨added, heq, hadded, hall, hnodup⟩ := floatMissing_spec (s.floating.filter fun pane =>
      s.root.leaves.any fun leaf => leaf.1 == pane.paneId) 0 s.root.leaves
    have hfloating : s.recomputeLayout.floating = (s.floating.filter fun pane =>
        s.root.leaves.any fun leaf => leaf.1 == pane.paneId) ++ added := by
      rw [recomputeLayout, if_neg (not_not.mpr hlayout), ← heq]
    refine ⟨_, added, hfloating, hsub, fun pane hpane => ?_, fun pane hpane =>
      (hadded pane hpane).2, fun _ => ?_, fun hnodup' => ?_⟩
    · rw [hfloating, List.mem_append] at hpane
      exact hpane.elim (hkept pane) fun hpane => (hadded pane hpane).1
    · rw [entryIds, hfloating]
      exact hall
    · rw [entryIds, hfloating]
      exact hnodup ((hsub.map _).nodup hnodup')
  · have hfloating : s.recomputeLayout.floating = s.floating.filter fun pane =>
        s.root.leaves.any fun leaf => leaf.1 == pane.paneId := by
      rw [recomputeLayout, if_pos hlayout]
    refine ⟨_, [], hfloating.trans (List.append_nil _).symm, hsub, ?_, by simp,
      fun h => absurd h hlayout, fun hnodup => ?_⟩
    · rw [hfloating]
      exact hkept
    · rw [entryIds, hfloating]
      exact (hsub.map _).nodup hnodup

theorem raisePane_floating (s : Space) (paneId : Nat) :
    (s.raisePane paneId).floating.Perm s.floating := by
  unfold raisePane
  cases hfind : s.entryOf paneId with
  | none => exact List.Perm.refl _
  | some pane =>
    obtain ⟨hpane, before, after, hfloating, hbefore⟩ := List.find?_eq_some_iff_append.mp hfind
    have herase : s.floating.eraseP (fun pane => pane.paneId == paneId) = before ++ after := by
      rw [hfloating, List.eraseP_append_right _ fun b hb => by simpa using hbefore b hb]
      exact congrArg (before ++ ·) (List.eraseP_cons_of_pos hpane)
    show (s.floating.eraseP (fun pane => pane.paneId == paneId) ++ [pane]).Perm s.floating
    rw [herase, hfloating, List.append_assoc]
    exact List.perm_append_comm.append_left before

theorem entryIds_modifyEntry (s : Space) (paneId : Nat) {f : FloatingPane → FloatingPane}
    (hf : ∀ pane, (f pane).paneId = pane.paneId) :
    (s.modifyEntry paneId f).entryIds = s.entryIds :=
  map_modify_eq_map _ hf

/-! ### Which leaves are drawn -/

theorem collectRegions_ids (p : Pane) (rect : RectF) :
    (p.collectRegions rect).map Prod.fst = p.leafIds := by
  induction p generalizing rect with
  | leaf id kind => rfl
  | split id dir ratio first second ihFirst ihSecond =>
    rw [Pane.collectRegions.eq_def, Pane.leafIds_split, List.map_append, ihFirst, ihSecond]

theorem masterStackRegions_ids (leaves : List (Nat × PaneKind)) :
    (masterStackRegions leaves).map Prod.fst = leaves.map Prod.fst := by
  cases leaves with
  | nil => rfl
  | cons leaf rest =>
    rw [masterStackRegions, List.map_cons, List.map_cons]
    exact congrArg (leaf.1 :: ·) (map_mapIdx_eq_map _ fun _ _ => rfl)

theorem carouselRegions_ids (leaves : List (Nat × PaneKind)) (focused : Nat) :
    ((carouselRegions leaves focused).map Prod.fst).Perm (leaves.map Prod.fst) := by
  unfold carouselRegions
  split
  next hempty =>
    rw [List.isEmpty_iff.mp hempty]
    exact List.Perm.refl _
  next =>
    rw [List.map_map]
    refine ((List.mergeSort_perm _ _).map _).trans (List.Perm.of_eq ?_)
    exact map_mapIdx_eq_map _ fun _ _ => rfl

end Space

end Goble.Panes
