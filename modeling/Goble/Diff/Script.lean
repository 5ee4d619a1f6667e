import Mathlib.Data.List.Basic
import Mathlib.Data.Nat.Init

/-!
# Line edits

The edits between two versions of a file (`crates/goble-core/src/harness/text_diff.rs`): the lines
both start and end with are kept, and what is between them is walked along the table of the longest
common subsequences, or replaced as a whole when the table would be too large.

Which of the possible edits the table picks does not matter to a reader of the diff. What does is
that the edits take the one version to the other (`Script`), and the walk gives that for any table
(`walk_script`).
-/

namespace Goble.Diff

inductive Op
  | equal | remove | add
deriving DecidableEq, Repr

section

variable {α : Type} [DecidableEq α]

/-- How many entries two lists start with in common. -/
def commonLead : List α → List α → Nat
  | x :: xs, y :: ys => if x = y then commonLead xs ys + 1 else 0
  | _, _ => 0

def tableRow (x : α) : List α → List Nat → List Nat
  | y :: ys, below :: belows =>
    let right := tableRow x ys belows
    (if x = y then belows.headD 0 + 1 else max below (right.headD 0)) :: right
  | _, _ => [0]

/-- The lengths of the longest common subsequences of all suffixes, a row for each suffix of the
first list. -/
def table (new : List α) : List α → List (List Nat)
  | [] => [List.replicate (new.length + 1) 0]
  | x :: old => tableRow x new ((table new old).headD []) :: table new old

def cell (table : List (List Nat)) (i j : Nat) : Nat := (table.getD i []).getD j 0

def walk (table : List (List Nat)) (i j : Nat) : List α → List α → List Op
  | x :: old, y :: new =>
    if x = y then .equal :: walk table (i + 1) (j + 1) old new
    else if cell table (i + 1) j ≥ cell table i (j + 1) then
      .remove :: walk table (i + 1) j old (y :: new)
    else .add :: walk table i (j + 1) (x :: old) new
  | old, new => List.replicate old.length .remove ++ List.replicate new.length .add
termination_by old new => old.length + new.length

def maxTableCells : Nat := 1000000

/-- The edits of what is between. -/
def middleOps (old new : List α) : List Op :=
  if old.isEmpty then List.replicate new.length .add
  else if new.isEmpty then List.replicate old.length .remove
  else if old.length * new.length > maxTableCells then
    List.replicate old.length .remove ++ List.replicate new.length .add
  else walk (table new old) 0 0 old new

def diffOps (old new : List α) : List Op :=
  let leading := commonLead old new
  let trailing := commonLead (old.drop leading).reverse (new.drop leading).reverse
  List.replicate leading .equal ++
    (middleOps ((old.take (old.length - trailing)).drop leading)
        ((new.take (new.length - trailing)).drop leading) ++
      List.replicate trailing .equal)

/-- What is between the lines both versions start and end with. -/
def middle (old new : List α) : List α × List α :=
  let leading := commonLead old new
  let trailing := commonLead (old.drop leading).reverse (new.drop leading).reverse
  ((old.take (old.length - trailing)).drop leading, (new.take (new.length - trailing)).drop leading)

end

/-! ### The edits take the one to the other -/

section

variable {α : Type}

/-- The edits, applied to the first list, give the second. -/
inductive Script : List α → List α → List Op → Prop
  | nil : Script [] [] []
  | equal {old new ops} (x) : Script old new ops → Script (x :: old) (x :: new) (.equal :: ops)
  | remove {old new ops} (x) : Script old new ops → Script (x :: old) new (.remove :: ops)
  | add {old new ops} (x) : Script old new ops → Script old (x :: new) (.add :: ops)

variable {old old' new new' : List α} {ops ops' : List Op}

theorem Script.append (h : Script old new ops) (h' : Script old' new' ops') :
    Script (old ++ old') (new ++ new') (ops ++ ops') := by
  induction h with
  | nil => exact h'
  | equal x _ ih => exact .equal x ih
  | remove x _ ih => exact .remove x ih
  | add x _ ih => exact .add x ih

theorem script_equal (xs : List α) : Script xs xs (List.replicate xs.length .equal) := by
  induction xs with
  | nil => exact .nil
  | cons x xs ih => exact .equal x ih

theorem script_remove (xs : List α) : Script xs [] (List.replicate xs.length .remove) := by
  induction xs with
  | nil => exact .nil
  | cons x xs ih => exact .remove x ih

theorem script_add (xs : List α) : Script [] xs (List.replicate xs.length .add) := by
  induction xs with
  | nil => exact .nil
  | cons x xs ih => exact .add x ih

theorem script_replace (old new : List α) :
    Script old new (List.replicate old.length .remove ++ List.replicate new.length .add) := by
  have h := (script_remove old).append (script_add new)
  rwa [List.append_nil, List.nil_append] at h

/-- A list cut at the end of its first part and at the start of its last. -/
theorem take_middle_drop (xs : List α) {leading trailing : Nat}
    (h : leading + trailing ≤ xs.length) :
    xs = xs.take leading ++ ((xs.take (xs.length - trailing)).drop leading ++
      xs.drop (xs.length - trailing)) := by
  have hle : leading ≤ xs.length - trailing := by omega
  have htake : xs.take leading = (xs.take (xs.length - trailing)).take leading := by
    rw [List.take_take, Nat.min_eq_left hle]
  rw [← List.append_assoc, htake, List.take_append_drop, List.take_append_drop]

variable [DecidableEq α]

theorem walk_script (table : List (List Nat)) (i j : Nat) (old new : List α) :
    Script old new (walk table i j old new) := by
  fun_induction walk table i j old new with
  | case1 i j old x new ih => exact .equal x ih
  | case2 i j x old y new hne hcell ih => exact .remove x ih
  | case3 i j x old y new hne hcell ih => exact .add y ih
  | case4 i j old new => exact script_replace old new

theorem middleOps_script (old new : List α) : Script old new (middleOps old new) := by
  unfold middleOps
  split
  next hempty =>
    rw [List.isEmpty_iff.mp hempty]
    exact script_add new
  next =>
    split
    next hempty =>
      rw [List.isEmpty_iff.mp hempty]
      exact script_remove old
    next =>
      split
      next => exact script_replace old new
      next => exact walk_script _ 0 0 old new

theorem commonLead_spec (xs ys : List α) :
    commonLead xs ys ≤ xs.length ∧ commonLead xs ys ≤ ys.length ∧
      xs.take (commonLead xs ys) = ys.take (commonLead xs ys) := by
  induction xs generalizing ys with
  | nil => exact ⟨Nat.zero_le _, Nat.zero_le _, rfl⟩
  | cons x xs ih =>
    cases ys with
    | nil => exact ⟨Nat.zero_le _, Nat.zero_le _, rfl⟩
    | cons y ys =>
      rw [commonLead]
      split
      next heq =>
        obtain ⟨hxs, hys, htake⟩ := ih ys
        exact ⟨Nat.succ_le_succ hxs, Nat.succ_le_succ hys, by simp [heq, htake]⟩
      next => exact ⟨Nat.zero_le _, Nat.zero_le _, rfl⟩

/-- The two versions with what they start and end with in common, which the edits keep. -/
theorem exists_middle (old new : List α) :
    ∃ front back, old = front ++ ((middle old new).1 ++ back) ∧
      new = front ++ ((middle old new).2 ++ back) ∧
      diffOps old new = List.replicate front.length .equal ++
        (middleOps (middle old new).1 (middle old new).2 ++
          List.replicate back.length .equal) := by
  obtain ⟨hold, hnew, hlead⟩ := commonLead_spec old new
  simp only [diffOps, middle]
  generalize commonLead old new = leading at *
  obtain ⟨hold', hnew', htrail⟩ :=
    commonLead_spec (old.drop leading).reverse (new.drop leading).reverse
  generalize commonLead (old.drop leading).reverse (new.drop leading).reverse = trailing at *
  rw [List.length_reverse, List.length_drop] at hold' hnew'
  have hdrop : old.drop (old.length - trailing) = new.drop (new.length - trailing) := by
    rw [List.take_reverse, List.take_reverse, List.reverse_inj, List.drop_drop, List.drop_drop,
      List.length_drop, List.length_drop] at htrail
    rwa [show leading + (old.length - leading - trailing) = old.length - trailing by omega,
      show leading + (new.length - leading - trailing) = new.length - trailing by omega] at htrail
  refine ⟨old.take leading, old.drop (old.length - trailing), ?_, ?_, ?_⟩
  · exact take_middle_drop old (by omega)
  · rw [hlead, hdrop]
    exact take_middle_drop new (by omega)
  · rw [List.length_take, Nat.min_eq_left hold, List.length_drop,
      show old.length - (old.length - trailing) = trailing by omega]

theorem diffOps_script (old new : List α) : Script old new (diffOps old new) := by
  obtain ⟨front, back, hold, hnew, hops⟩ := exists_middle old new
  have hmiddle := middleOps_script (middle old new).1 (middle old new).2
  have hscript := (script_equal front).append (hmiddle.append (script_equal back))
  rwa [← hold, ← hnew, ← hops] at hscript

end

end Goble.Diff
