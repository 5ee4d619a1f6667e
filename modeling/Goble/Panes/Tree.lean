import Mathlib.Data.List.Perm.Basic
import Goble.Lib.Lists

/-!
# Pane trees

A space is a binary tree of panes (`app/src/ui/pane.rs`). A leaf hosts content, a split divides its
area in two, and both have an id from one counter. The functions that rewrite a leaf in place
(`split_leaf`, `split_leaf_into`, `insert_leaf_beside`, `set_leaf_kind`) are one search with four
replacements, so they are `Pane.replaceLeaf` at four functions. `remove_leaf` puts the sibling of
the removed leaf in the place of their split.

What a rewrite does to the ids and to the leaves is said up to order (`replaceLeaf_ids`), which is all that the invariants read.
-/

namespace Goble.Panes

inductive SettingsCategory
  | profile | appearance | mouse | editorInput | agentApproval | environment | connections | models
  | updates | advanced
deriving DecidableEq, Repr

inductive PaneKind
  | chat
  | terminal
  | worker
  | file (path : List Char)
  | settings (page : SettingsCategory)
  | diff (cwd : List Char)
deriving DecidableEq, Repr

inductive SplitDir
  | horizontal | vertical
deriving DecidableEq, Repr

inductive DropSide
  | left | right | top | bottom
deriving DecidableEq, Repr

def DropSide.splitDir : DropSide → SplitDir
  | .left | .right => .horizontal
  | .top | .bottom => .vertical

/-- Whether the inserted pane becomes the first child of the split. -/
def DropSide.leads : DropSide → Bool
  | .left | .top => true
  | .right | .bottom => false

inductive Pane
  | leaf (id : Nat) (kind : PaneKind)
  | split (id : Nat) (dir : SplitDir) (ratio : Float32) (first second : Pane)
deriving Repr

namespace Pane

def id : Pane → Nat
  | leaf id _ | split id .. => id

def firstLeafId : Pane → Nat
  | leaf id _ => id
  | split _ _ _ first _ => first.firstLeafId

def containsLeaf (target : Nat) : Pane → Bool
  | leaf id _ => id == target
  | split _ _ _ first second => first.containsLeaf target || second.containsLeaf target

/-- Every leaf in traversal order. -/
def leaves : Pane → List (Nat × PaneKind)
  | leaf id kind => [(id, kind)]
  | split _ _ _ first second => first.leaves ++ second.leaves

def isLeaf (target : Nat) : Pane → Bool
  | leaf id _ => id == target
  | split .. => false

def siblingOnSide (target : Nat) (side : DropSide) : Pane → Option Nat
  | leaf .. => none
  | split _ dir _ first second =>
    let sibling :=
      if dir = side.splitDir then
        match side with
        | .left | .top => if second.isLeaf target then some first else none
        | .right | .bottom => if first.isLeaf target then some second else none
      else none
    match sibling with
    | some sibling => if sibling.isLeaf sibling.id then some sibling.id else none
    | none => (first.siblingOnSide target side).or (second.siblingOnSide target side)

def leafKind (target : Nat) : Pane → Option PaneKind
  | leaf id kind => if id = target then some kind else none
  | split _ _ _ first second => (first.leafKind target).or (second.leafKind target)

/-- The search that the in-place rewrites share: the first leaf `target` is replaced by what `f`
makes of its kind. The flag is whether it was found. -/
def replaceLeaf (target : Nat) (f : PaneKind → Pane) : Pane → Pane × Bool
  | leaf id kind => if id = target then (f kind, true) else (leaf id kind, false)
  | split id dir ratio first second =>
    if (first.replaceLeaf target f).2 then
      (split id dir ratio (first.replaceLeaf target f).1 second, true)
    else
      (split id dir ratio (first.replaceLeaf target f).1 (second.replaceLeaf target f).1,
        (second.replaceLeaf target f).2)

def insertLeafBeside (p : Pane) (target : Nat) (dir : SplitDir) (movedFirst : Bool) (splitId : Nat)
    (moved : Pane) : Pane × Bool :=
  p.replaceLeaf target fun kind =>
    if movedFirst then split splitId dir 0.5 moved (leaf target kind)
    else split splitId dir 0.5 (leaf target kind) moved

def setLeafKind (p : Pane) (target : Nat) (kind : PaneKind) : Pane × Bool :=
  p.replaceLeaf target fun _ => leaf target kind

def splitLeaf (p : Pane) (target : Nat) (dir : SplitDir) (splitId secondId : Nat) : Pane × Bool :=
  p.replaceLeaf target fun kind => split splitId dir 0.5 (leaf target kind) (leaf secondId kind)

def splitLeafInto (p : Pane) (target : Nat) (dir : SplitDir) (splitId secondId : Nat)
    (secondKind : PaneKind) : Pane × Bool :=
  p.replaceLeaf target fun kind =>
    split splitId dir 0.5 (leaf target kind) (leaf secondId secondKind)

/-- The leaf `target` goes and its sibling takes the place of their split. The id of a leaf that
survives, or `none` if there was no such split. -/
def removeLeaf (target : Nat) : Pane → Pane × Option Nat
  | leaf id kind => (leaf id kind, none)
  | split id dir ratio first second =>
    if first.isLeaf target then (second, some second.firstLeafId)
    else if second.isLeaf target then (first, some first.firstLeafId)
    else if (first.removeLeaf target).2.isSome then
      (split id dir ratio (first.removeLeaf target).1 second, (first.removeLeaf target).2)
    else
      (split id dir ratio (first.removeLeaf target).1 (second.removeLeaf target).1,
        (second.removeLeaf target).2)

/-! ### Ids and leaves -/

def ids : Pane → List Nat
  | leaf id _ => [id]
  | split id _ _ first second => id :: (first.ids ++ second.ids)

def leafIds (p : Pane) : List Nat := p.leaves.map Prod.fst

@[simp] theorem leafIds_leaf (id : Nat) (kind : PaneKind) : (leaf id kind).leafIds = [id] := rfl

@[simp] theorem leafIds_split (id : Nat) (dir : SplitDir) (ratio : Float32) (first second : Pane) :
    (split id dir ratio first second).leafIds = first.leafIds ++ second.leafIds :=
  List.map_append

theorem leafIds_sublist_ids (p : Pane) : p.leafIds.Sublist p.ids := by
  induction p with
  | leaf id kind => exact List.Sublist.refl _
  | split id dir ratio first second ihFirst ihSecond =>
    rw [leafIds_split]
    exact (ihFirst.append ihSecond).cons id

theorem leaves_ne_nil (p : Pane) : p.leaves ≠ [] := by
  induction p with
  | leaf id kind => exact List.cons_ne_nil _ _
  | split id dir ratio first second ihFirst ihSecond =>
    exact List.append_ne_nil_of_left_ne_nil ihFirst _

variable {target : Nat} {p : Pane}

theorem containsLeaf_iff :
    p.containsLeaf target = true ↔ target ∈ p.leafIds := by
  induction p with
  | leaf id kind =>
    rw [containsLeaf, leafIds_leaf, List.mem_singleton, beq_iff_eq]
    exact eq_comm
  | split id dir ratio first second ihFirst ihSecond =>
    rw [containsLeaf, Bool.or_eq_true, ihFirst, ihSecond, leafIds_split, List.mem_append]

theorem isLeaf_iff :
    p.isLeaf target = true ↔ ∃ kind, p = leaf target kind := by
  cases p with
  | leaf id kind => simp [isLeaf]
  | split id dir ratio first second => simp [isLeaf]

theorem isLeaf_eq_false (h : target ∉ p.leafIds) :
    p.isLeaf target = false := by
  refine Bool.eq_false_iff.mpr fun hleaf => ?_
  obtain ⟨kind, rfl⟩ := isLeaf_iff.mp hleaf
  exact h (List.mem_singleton_self _)

theorem mem_leaves_of_leafKind {kind : PaneKind} (h : p.leafKind target = some kind) :
    (target, kind) ∈ p.leaves := by
  induction p with
  | leaf id kind' =>
    rw [leafKind] at h
    split at h
    next heq => simp_all [leaves]
    next => cases h
  | split id dir ratio first second ihFirst ihSecond =>
    rw [leaves, List.mem_append]
    obtain hfirst | ⟨-, hsecond⟩ := Option.or_eq_some_iff.mp h
    · exact .inl (ihFirst hfirst)
    · exact .inr (ihSecond hsecond)

theorem leafKind_eq_none :
    p.leafKind target = none ↔ target ∉ p.leafIds := by
  induction p with
  | leaf id kind =>
    rw [leafKind, leafIds_leaf, List.mem_singleton, ite_eq_right_iff, eq_comm]
    simp
  | split id dir ratio first second ihFirst ihSecond =>
    rw [leafKind, Option.or_eq_none_iff, ihFirst, ihSecond, leafIds_split, List.mem_append, not_or]

theorem mem_leafIds_of_leafKind {kind : PaneKind} (h : p.leafKind target = some kind) :
    target ∈ p.leafIds :=
  List.mem_map_of_mem (mem_leaves_of_leafKind h)

theorem exists_leafKind (h : target ∈ p.leafIds) :
    ∃ kind, p.leafKind target = some kind :=
  Option.ne_none_iff_exists'.mp fun hnone => leafKind_eq_none.mp hnone h

/-! ### What the rewrites do -/

theorem replaceLeaf_of_leafKind_eq_none (f : PaneKind → Pane) (h : p.leafKind target = none) :
    p.replaceLeaf target f = (p, false) := by
  induction p with
  | leaf id kind =>
    rw [leafKind] at h
    rw [replaceLeaf, if_neg fun heq => by simp [heq] at h]
  | split id dir ratio first second ihFirst ihSecond =>
    obtain ⟨hfirst, hsecond⟩ := Option.or_eq_none_iff.mp h
    rw [replaceLeaf, ihFirst hfirst, ihSecond hsecond]
    rfl

theorem replaceLeaf_of_leafKind_eq_some {kind : PaneKind} (f : PaneKind → Pane)
    (h : p.leafKind target = some kind) :
    (p.replaceLeaf target f).2 = true ∧
      (∃ a b, p.leaves = a ++ (target, kind) :: b ∧
        (p.replaceLeaf target f).1.leaves = a ++ ((f kind).leaves ++ b)) ∧
      ∃ a b, p.ids = a ++ target :: b ∧
        (p.replaceLeaf target f).1.ids = a ++ ((f kind).ids ++ b) := by
  induction p with
  | leaf id kind' =>
    obtain ⟨rfl, rfl⟩ : id = target ∧ kind' = kind := by
      rw [leafKind] at h
      split at h
      next heq => exact ⟨heq, Option.some.inj h⟩
      next => cases h
    rw [replaceLeaf, if_pos rfl]
    exact ⟨rfl, ⟨[], [], rfl, (List.append_nil _).symm⟩, [], [], rfl, (List.append_nil _).symm⟩
  | split id dir ratio first second ihFirst ihSecond =>
    obtain hfirst | ⟨hnone, hsecond⟩ := Option.or_eq_some_iff.mp h
    · obtain ⟨hfound, ⟨a, b, hleaves, hleaves'⟩, c, d, hids, hids'⟩ := ihFirst hfirst
      rw [replaceLeaf, if_pos hfound]
      refine ⟨rfl, ⟨a, b ++ second.leaves, ?_, ?_⟩, id :: c, d ++ second.ids, ?_, ?_⟩
      · rw [leaves, hleaves, List.append_assoc, List.cons_append]
      · rw [leaves, hleaves', List.append_assoc, List.append_assoc]
      · rw [ids, hids, List.append_assoc, List.cons_append, List.cons_append]
      · rw [ids, hids', List.append_assoc, List.append_assoc, List.cons_append]
    · obtain ⟨hfound, ⟨a, b, hleaves, hleaves'⟩, c, d, hids, hids'⟩ := ihSecond hsecond
      rw [replaceLeaf, replaceLeaf_of_leafKind_eq_none f hnone, if_neg Bool.false_ne_true]
      refine ⟨hfound, ⟨first.leaves ++ a, b, ?_, ?_⟩, id :: (first.ids ++ c), d, ?_, ?_⟩
      · rw [leaves, hleaves, List.append_assoc]
      · rw [leaves, hleaves', List.append_assoc]
      · rw [ids, hids, List.cons_append, List.append_assoc]
      · rw [ids, hids', List.cons_append, List.append_assoc]

theorem replaceLeaf_ids {f : PaneKind → Pane} (extra : List Nat) (h : target ∈ p.leafIds)
    (hf : ∀ kind, (f kind).ids.Perm (target :: extra)) :
    (p.replaceLeaf target f).1.ids.Perm (extra ++ p.ids) := by
  obtain ⟨kind, hkind⟩ := exists_leafKind h
  obtain ⟨-, -, a, b, hids, hids'⟩ := replaceLeaf_of_leafKind_eq_some f hkind
  rw [hids, hids']
  exact perm_of_middle (hf kind)

theorem replaceLeaf_leafIds {f : PaneKind → Pane} (extra : List Nat) (h : target ∈ p.leafIds)
    (hf : ∀ kind, (f kind).leafIds.Perm (target :: extra)) :
    (p.replaceLeaf target f).1.leafIds.Perm (extra ++ p.leafIds) := by
  obtain ⟨kind, hkind⟩ := exists_leafKind h
  obtain ⟨-, ⟨a, b, hleaves, hleaves'⟩, -⟩ := replaceLeaf_of_leafKind_eq_some f hkind
  rw [leafIds, leafIds, hleaves, hleaves', List.map_append, List.map_append, List.map_append]
  exact perm_of_middle (hf kind)

theorem replaceLeaf_of_not_mem (f : PaneKind → Pane) (h : target ∉ p.leafIds) :
    p.replaceLeaf target f = (p, false) :=
  replaceLeaf_of_leafKind_eq_none f (leafKind_eq_none.mpr h)

theorem replaceLeaf_found (f : PaneKind → Pane) :
    (p.replaceLeaf target f).2 = true ↔ target ∈ p.leafIds := by
  constructor
  · intro hfound
    by_contra hmem
    rw [replaceLeaf_of_not_mem f hmem] at hfound
    cases hfound
  · intro hmem
    obtain ⟨kind, hkind⟩ := exists_leafKind hmem
    exact (replaceLeaf_of_leafKind_eq_some f hkind).1

theorem firstLeafId_mem (p : Pane) : p.firstLeafId ∈ p.leafIds := by
  induction p with
  | leaf id kind => exact List.mem_singleton_self id
  | split id dir ratio first second ihFirst ihSecond =>
    rw [leafIds_split]
    exact List.mem_append_left _ ihFirst

theorem removeLeaf_eq_none (h : (p.removeLeaf target).2 = none) :
    (p.removeLeaf target).1 = p ∧ (target ∈ p.leafIds → ∃ kind, p = leaf target kind) := by
  induction p with
  | leaf id kind =>
    refine ⟨rfl, fun hmem => ⟨kind, ?_⟩⟩
    rw [List.mem_singleton.mp hmem]
  | split id dir ratio first second ihFirst ihSecond =>
    rw [removeLeaf] at h ⊢
    by_cases hfirst : first.isLeaf target = true
    · rw [if_pos hfirst] at h
      cases h
    by_cases hsecond : second.isLeaf target = true
    · rw [if_neg hfirst, if_pos hsecond] at h
      cases h
    rw [if_neg hfirst, if_neg hsecond] at h ⊢
    by_cases hsome : (first.removeLeaf target).2.isSome = true
    · rw [if_pos hsome] at h
      rw [h] at hsome
      cases hsome
    rw [if_neg hsome] at h ⊢
    obtain ⟨hfirst', hmemFirst⟩ := ihFirst (Option.not_isSome_iff_eq_none.mp hsome)
    obtain ⟨hsecond', hmemSecond⟩ := ihSecond h
    refine ⟨by rw [hfirst', hsecond'], fun hmem => ?_⟩
    rw [leafIds_split, List.mem_append] at hmem
    exact hmem.elim (fun hmem => absurd (isLeaf_iff.mpr (hmemFirst hmem)) hfirst)
      fun hmem => absurd (isLeaf_iff.mpr (hmemSecond hmem)) hsecond

theorem removeLeaf_eq_some {next : Nat} (h : (p.removeLeaf target).2 = some next) :
    next ∈ (p.removeLeaf target).1.leafIds ∧
      (∃ kind a b, p.leaves = a ++ (target, kind) :: b ∧
        (p.removeLeaf target).1.leaves = a ++ b) ∧
      ∃ split, p.ids.Perm (target :: split :: (p.removeLeaf target).1.ids) := by
  induction p with
  | leaf id kind => cases h
  | split id dir ratio first second ihFirst ihSecond =>
    rw [removeLeaf] at h ⊢
    by_cases hfirst : first.isLeaf target = true
    · rw [if_pos hfirst] at h ⊢
      obtain ⟨kind, rfl⟩ := isLeaf_iff.mp hfirst
      obtain rfl := Option.some.inj h
      exact ⟨firstLeafId_mem second, ⟨kind, [], second.leaves, rfl, rfl⟩, id,
        List.Perm.swap _ _ _⟩
    by_cases hsecond : second.isLeaf target = true
    · rw [if_neg hfirst, if_pos hsecond] at h ⊢
      obtain ⟨kind, rfl⟩ := isLeaf_iff.mp hsecond
      obtain rfl := Option.some.inj h
      refine ⟨firstLeafId_mem first, ⟨kind, first.leaves, [], rfl, (List.append_nil _).symm⟩, id, ?_⟩
      exact (List.perm_append_comm.cons id).trans (List.Perm.swap _ _ _)
    rw [if_neg hfirst, if_neg hsecond] at h ⊢
    by_cases hsome : (first.removeLeaf target).2.isSome = true
    · rw [if_pos hsome] at h ⊢
      obtain ⟨hnext, ⟨kind, a, b, hleaves, hleaves'⟩, split', hids⟩ := ihFirst h
      refine ⟨?_, ⟨kind, a, b ++ second.leaves, ?_, ?_⟩, split', ?_⟩
      · rw [leafIds_split]
        exact List.mem_append_left _ hnext
      · rw [leaves, hleaves, List.append_assoc, List.cons_append]
      · rw [leaves, hleaves', List.append_assoc]
      · exact ((hids.append_right second.ids).cons id).trans
          ((List.Perm.swap _ _ _).trans ((List.Perm.swap _ _ _).cons target))
    · rw [if_neg hsome] at h ⊢
      obtain ⟨hfirst', -⟩ := removeLeaf_eq_none (Option.not_isSome_iff_eq_none.mp hsome)
      obtain ⟨hnext, ⟨kind, a, b, hleaves, hleaves'⟩, split', hids⟩ := ihSecond h
      rw [hfirst']
      refine ⟨?_, ⟨kind, first.leaves ++ a, b, ?_, ?_⟩, split', ?_⟩
      · rw [leafIds_split]
        exact List.mem_append_right _ hnext
      · rw [leaves, hleaves, List.append_assoc]
      · rw [leaves, hleaves', List.append_assoc]
      · have hfront : (first.ids ++ second.ids).Perm
            (target :: split' :: (first.ids ++ (second.removeLeaf target).1.ids)) :=
          (hids.append_left first.ids).trans
            (List.perm_middle.trans (List.perm_middle.cons target))
        exact (hfront.cons id).trans
          ((List.Perm.swap _ _ _).trans ((List.Perm.swap _ _ _).cons target))

theorem mem_leafIds_removeLeaf {next id : Nat} (h : (p.removeLeaf target).2 = some next)
    (hid : id ∈ p.leafIds) (hne : id ≠ target) :
    id ∈ (p.removeLeaf target).1.leafIds := by
  obtain ⟨-, ⟨kind, a, b, hleaves, hleaves'⟩, -⟩ := removeLeaf_eq_some h
  rw [leafIds, hleaves, List.map_append, List.map_cons, List.mem_append, List.mem_cons] at hid
  rw [leafIds, hleaves', List.map_append, List.mem_append]
  obtain ha | rfl | hb := hid
  · exact .inl ha
  · exact absurd rfl hne
  · exact .inr hb

end Pane

end Goble.Panes
