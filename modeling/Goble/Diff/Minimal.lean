import Goble.Lib.CommonSublist
import Goble.Lib.Lists
import Goble.Diff.Unified

/-!
# The edits keep as much as can be kept

Below the limit of the table, the lines the edits keep are a longest common sublist of the two
versions: the cells of the table are the lengths for all pairs of ends (`table_longest`), the walk
follows a larger neighbour (`walk_longest`), and the lines both versions start and end with are kept
in full. Above it the edits keep only those, and in every case the lines they keep and remove are
the old version and those they keep and add the new one (`diffOps_minimal`).
-/

namespace Goble.Diff

section

variable {α : Type} {xs ys old new oldAll newAll : List α} {x : α} {i j : Nat}

theorem count_replace (old new : List α) :
    (List.replicate old.length Op.remove ++ List.replicate new.length Op.add).count .equal = 0 := by
  rw [List.count_append, List.count_replicate, List.count_replicate]
  rfl

/-! ### The table -/

structure RowLongest (xs ys : List α) (row : List Nat) : Prop where
  length : row.length = ys.length + 1
  longest : ∀ j, j ≤ ys.length → LongestCommon (row.getD j 0) xs (ys.drop j)

variable [DecidableEq α]

theorem tableRow_longest {row : List Nat} (h : RowLongest xs ys row) (x : α) :
    RowLongest (x :: xs) ys (tableRow x ys row) := by
  induction ys generalizing row with
  | nil =>
    refine ⟨rfl, fun j hj => ?_⟩
    obtain rfl := Nat.le_zero.mp hj
    exact .nil_right _
  | cons y ys ih =>
    obtain ⟨below, belows, rfl⟩ := List.exists_cons_of_length_eq_add_one h.length
    have hbelows : RowLongest xs ys belows :=
      ⟨Nat.succ.inj h.length, fun j hj => h.longest (j + 1) (Nat.succ_le_succ hj)⟩
    have hright := ih hbelows
    rw [tableRow]
    refine ⟨congrArg (· + 1) hright.length, fun j hj => ?_⟩
    cases j with
    | succ j => exact hright.longest j (Nat.le_of_succ_le_succ hj)
    | zero =>
      have hdiagonal := hbelows.longest 0 (Nat.zero_le _)
      have hnext := hright.longest 0 (Nat.zero_le _)
      rw [← List.headD_eq_getD] at hdiagonal hnext
      show LongestCommon (if x = y then _ else _) (x :: xs) (y :: ys)
      split_ifs with heq
      · rw [heq]
        exact hdiagonal.cons_same y
      · exact (h.longest 0 (Nat.zero_le _)).cons_ne heq hnext

theorem table_longest (old new : List α) (hi : i ≤ old.length) :
    RowLongest (old.drop i) new ((table new old).getD i []) := by
  induction old generalizing i with
  | nil =>
    obtain rfl := Nat.le_zero.mp hi
    refine ⟨List.length_replicate, fun j hj => ?_⟩
    have hzero : (List.replicate (new.length + 1) 0).getD j 0 = 0 := by
      rw [List.getD_eq_getElem?_getD, List.getElem?_replicate_of_lt (Nat.lt_succ_of_le hj)]
      rfl
    show LongestCommon ((List.replicate (new.length + 1) 0).getD j 0) [] (new.drop j)
    rw [hzero]
    exact .nil_left _
  | cons x old ih =>
    cases i with
    | succ i => exact ih (Nat.le_of_succ_le_succ hi)
    | zero =>
      have hbelow := ih (Nat.zero_le _)
      rw [← List.headD_eq_getD] at hbelow
      exact tableRow_longest hbelow x

/-! ### The walk -/

/-- Along a table of the lengths, the walk keeps as many entries as it can. -/
theorem walk_longest {t : List (List Nat)}
    (hcell : ∀ i j, i ≤ oldAll.length → j ≤ newAll.length →
      LongestCommon (cell t i j) (oldAll.drop i) (newAll.drop j))
    (hold : oldAll.drop i = old) (hnew : newAll.drop j = new) :
    LongestCommon ((walk t i j old new).count .equal) old new := by
  fun_induction walk t i j old new with
  | case1 i j old x new ih =>
    obtain ⟨-, -, hold'⟩ := drop_eq_cons hold
    obtain ⟨-, -, hnew'⟩ := drop_eq_cons hnew
    rw [List.count_cons_self]
    exact (ih hold' hnew').cons_same x
  | case2 i j x old y new hne hlarger ih =>
    obtain ⟨-, hi, hold'⟩ := drop_eq_cons hold
    obtain ⟨-, hj, hnew'⟩ := drop_eq_cons hnew
    have hdown := hcell (i + 1) j hi (Nat.le_of_lt hj)
    have hright := hcell i (j + 1) (Nat.le_of_lt hi) hj
    rw [hold', hnew] at hdown
    rw [hold, hnew'] at hright
    have hbest := hdown.cons_ne hne hright
    rw [Nat.max_eq_left hlarger, hdown.unique (ih hold' hnew)] at hbest
    rwa [List.count_cons_of_ne (by decide)]
  | case3 i j x old y new hne hlarger ih =>
    obtain ⟨-, hi, hold'⟩ := drop_eq_cons hold
    obtain ⟨-, hj, hnew'⟩ := drop_eq_cons hnew
    have hdown := hcell (i + 1) j hi (Nat.le_of_lt hj)
    have hright := hcell i (j + 1) (Nat.le_of_lt hi) hj
    rw [hold', hnew] at hdown
    rw [hold, hnew'] at hright
    have hbest := hdown.cons_ne hne hright
    rw [Nat.max_eq_right (Nat.le_of_not_le hlarger), hright.unique (ih hold hnew')] at hbest
    rwa [List.count_cons_of_ne (by decide)]
  | case4 i j old new hends =>
    rw [count_replace]
    cases old with
    | nil => exact .nil_left new
    | cons x old =>
      cases new with
      | nil => exact .nil_right _
      | cons y new => exact absurd rfl (hends x old y new rfl)

theorem middleOps_longest (hcells : old.length * new.length ≤ maxTableCells) :
    LongestCommon ((middleOps old new).count .equal) old new := by
  unfold middleOps
  split
  next hempty =>
    rw [List.count_replicate, List.isEmpty_iff.mp hempty]
    exact .nil_left new
  next =>
    split
    next hempty =>
      rw [List.count_replicate, List.isEmpty_iff.mp hempty]
      exact .nil_right old
    next =>
      rw [if_neg (Nat.not_lt.mpr hcells)]
      refine walk_longest (fun i j hi hj => ?_) (List.drop_zero) (List.drop_zero)
      exact (table_longest old new hi).longest j hj

/-- Below the limit of the table, the edits keep a longest common sublist. -/
theorem diffOps_longest (old new : List α)
    (hcells : (middle old new).1.length * (middle old new).2.length ≤ maxTableCells) :
    LongestCommon ((diffOps old new).count .equal) old new := by
  obtain ⟨front, back, hold, hnew, hops⟩ := exists_middle old new
  have hcount : (diffOps old new).count .equal =
      front.length + ((middleOps (middle old new).1 (middle old new).2).count .equal +
        back.length) := by
    rw [hops, List.count_append, List.count_append, List.count_replicate_self,
      List.count_replicate_self]
  have hmiddle := ((middleOps_longest hcells).append_right back).append_left front
  rwa [← hold, ← hnew, ← hcount] at hmiddle

end

/-! ### The two versions in the edits -/

/-- The lines the edits keep and remove. -/
def oldSide (rows : List Row) : List Line :=
  (rows.filter fun row => row.kind ≠ .added).map Row.text

/-- The lines the edits keep and add. -/
def newSide (rows : List Row) : List Line :=
  (rows.filter fun row => row.kind ≠ .removed).map Row.text

theorem sides_of_script {old new : List Line} {ops : List Op} (h : Script old new ops)
    (oldBefore newBefore : List Line) :
    oldSide (rows (oldBefore ++ old) (newBefore ++ new) oldBefore.length newBefore.length ops) =
        old ∧
      newSide (rows (oldBefore ++ old) (newBefore ++ new) oldBefore.length newBefore.length ops) =
        new := by
  induction h generalizing oldBefore newBefore with
  | nil => exact ⟨rfl, rfl⟩
  | @equal old new ops x hscript ih =>
    obtain ⟨hold, hnew⟩ := ih (oldBefore ++ [x]) (newBefore ++ [x])
    rw [List.append_assoc, List.append_assoc, List.length_append, List.length_append] at hold hnew
    rw [rows, getD_append_length]
    exact ⟨congrArg (x :: ·) hold, congrArg (x :: ·) hnew⟩
  | @remove old new ops x hscript ih =>
    obtain ⟨hold, hnew⟩ := ih (oldBefore ++ [x]) newBefore
    rw [List.append_assoc, List.length_append] at hold hnew
    rw [rows, getD_append_length]
    exact ⟨congrArg (x :: ·) hold, hnew⟩
  | @add old new ops x hscript ih =>
    obtain ⟨hold, hnew⟩ := ih oldBefore (newBefore ++ [x])
    rw [List.append_assoc, List.length_append] at hold hnew
    rw [rows, getD_append_length]
    exact ⟨hold, congrArg (x :: ·) hnew⟩

/-- **The edits are minimal**: they keep a longest common sublist of the lines when the table is
built, and always have the two versions as their sides. -/
theorem diffOps_minimal (old new : List Line) :
    ((middle old new).1.length * (middle old new).2.length ≤ maxTableCells →
      LongestCommon ((diffOps old new).count .equal) old new) ∧
    oldSide (rows old new 0 0 (diffOps old new)) = old ∧
    newSide (rows old new 0 0 (diffOps old new)) = new :=
  ⟨diffOps_longest old new, sides_of_script (diffOps_script old new) [] []⟩

theorem diffOps_minimal_letters :
    LongestCommon ((diffOps ["a".toList, "b".toList, "c".toList]
      ["b".toList, "c".toList, "d".toList]).count .equal)
      ["a".toList, "b".toList, "c".toList] ["b".toList, "c".toList, "d".toList] :=
  (diffOps_minimal _ _).1 (by decide)

end Goble.Diff
