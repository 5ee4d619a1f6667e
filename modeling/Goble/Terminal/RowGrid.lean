import Mathlib.Data.List.Basic

/-!
# The rows of a terminal

A grid is the rows of its history and of its screen, oldest first, up to a limit of history. What
the bytes do to a terminal is, as far as the rows go, a few operations: a region is scrolled up or
down, the history is cleared, the two screens are swapped.

A row is a number that it keeps while it moves; the rows that come in are numbered as they come. To
erase a row is not to replace it. `RowScreens.Keeps` says which rows stay where they are, counted
from the oldest.
-/

namespace Goble.Terminal

/-- The rows of one screen and its history. -/
structure RowGrid where
  rows : List Nat
  lines : Nat
  /-- `max_scroll_limit` -/
  limit : Nat
deriving DecidableEq

namespace RowGrid

variable (grid : RowGrid)

def historySize : Nat := grid.rows.length - grid.lines

/-- `Grid::scroll_up`, with the new rows. Only a region that starts at the top adds to the history,
which drops its oldest rows beyond the limit. -/
def scrollUp (start stop : Nat) (new : List Nat) : RowGrid :=
  let above := grid.rows.take (grid.historySize + stop)
  let below := grid.rows.drop (grid.historySize + stop)
  if start = 0 then
    { grid with rows :=
        (above ++ new ++ below).drop (grid.historySize + new.length - grid.limit) }
  else
    let fixed := above.take (grid.historySize + start)
    let region := above.drop (grid.historySize + start)
    { grid with rows := fixed ++ (region ++ new).drop new.length ++ below }

/-- `Grid::scroll_down`. -/
def scrollDown (start stop : Nat) (new : List Nat) : RowGrid :=
  let above := grid.rows.take (grid.historySize + stop)
  let below := grid.rows.drop (grid.historySize + stop)
  let fixed := above.take (grid.historySize + start)
  let region := above.drop (grid.historySize + start)
  { grid with rows := fixed ++ (new ++ region).take region.length ++ below }

def clearHistory : RowGrid := { grid with rows := grid.rows.drop grid.historySize }

end RowGrid

inductive RowOp where
  /-- Line feeds at the bottom of the region, `SU`, `DL`, and `ED 2` for the rows in use. -/
  | scrollUp (start stop count : Nat)
  /-- Reverse index at the top of the region, `SD` and `IL`. -/
  | scrollDown (start stop count : Nat)
  /-- `ED 3` -/
  | clearHistory
  /-- `RIS` -/
  | reset
  | swapAlt
deriving DecidableEq

/-- Both screens of a terminal. The alternate one has no history. -/
structure RowScreens where
  primary : RowGrid
  alternate : RowGrid
  alt : Bool
  /-- The number of the next row. -/
  next : Nat
deriving DecidableEq

namespace RowScreens

def new (lines limit : Nat) : RowScreens where
  primary := ⟨List.range lines, lines, limit⟩
  alternate := ⟨List.range' lines lines, lines, 0⟩
  alt := false
  next := 2 * lines

variable (screens : RowScreens)

def grid (alt : Bool) : RowGrid := if alt then screens.alternate else screens.primary

def active : RowGrid := screens.grid screens.alt

/-- The active grid becomes `grid`, and so many rows have come in. -/
def update (grid : RowGrid) (count : Nat) : RowScreens :=
  if screens.alt then { screens with alternate := grid, next := screens.next + count }
  else { screens with primary := grid, next := screens.next + count }

/-- As many rows as a region has, at most, come in. -/
def apply : RowOp → RowScreens
  | .scrollUp start stop count =>
    let count := if start = 0 then count else min count (stop - start)
    screens.update (screens.active.scrollUp start stop (List.range' screens.next count)) count
  | .scrollDown start stop count =>
    let count := min count (stop - start)
    screens.update (screens.active.scrollDown start stop (List.range' screens.next count)) count
  | .clearHistory => screens.update screens.active.clearHistory 0
  | .reset =>
    { screens with
      primary := screens.primary.clearHistory
      alternate := screens.alternate.clearHistory
      alt := false }
  | .swapAlt => { screens with alt := !screens.alt }

end RowScreens

/-! ### Which rows stay -/

namespace RowGrid

variable {grid : RowGrid} {start stop k row : Nat} {new : List Nat}

/-- A row outside the region stays. -/
def KeepsDown (grid : RowGrid) (start stop count k : Nat) : Prop :=
  count = 0 ∨ k < grid.historySize + start ∨ grid.historySize + stop ≤ k

/-- Row `k` is not displaced when a region is scrolled up by `count`. With the whole screen above
the bottom of the region it stays while the history has room for the new rows, and below it when
the history is full. -/
def KeepsUp (grid : RowGrid) (start stop count k : Nat) : Prop :=
  if start = 0 then
    k < grid.historySize + stop ∧ grid.historySize + count ≤ grid.limit ∨
      grid.historySize + stop ≤ k ∧ grid.historySize = grid.limit
  else grid.KeepsDown start stop count k

instance (grid : RowGrid) (start stop count k : Nat) :
    Decidable (grid.KeepsDown start stop count k) := inferInstanceAs (Decidable (_ ∨ _))

instance (grid : RowGrid) (start stop count k : Nat) :
    Decidable (grid.KeepsUp start stop count k) :=
  inferInstanceAs (Decidable (if start = 0 then _ else _))

theorem lt_length (h : grid.rows[k]? = some row) : k < grid.rows.length :=
  (List.getElem?_eq_some_iff.mp h).1

theorem getElem?_take_append {rows : List Nat} (bound : Nat) (later : List Nat) (hk : k < bound)
    (h : rows[k]? = some row) : (rows.take bound ++ later)[k]? = some row := by
  have hlt := (List.getElem?_eq_some_iff.mp h).1
  rw [List.getElem?_append_left, List.getElem?_take_of_lt hk, h]
  rw [List.length_take]
  omega

theorem getElem?_append_drop {rows before : List Nat} {bound : Nat}
    (hbefore : before.length = bound) (hk : bound ≤ k) (h : rows[k]? = some row) :
    (before ++ rows.drop bound)[k]? = some row := by
  rw [List.getElem?_append_right (by omega), List.getElem?_drop, hbefore, Nat.add_sub_cancel' hk, h]

theorem keeps_scrollUp_zero (hkeeps : grid.KeepsUp 0 stop new.length k)
    (h : grid.rows[k]? = some row) : (grid.scrollUp 0 stop new).rows[k]? = some row := by
  have hlt := lt_length h
  show (List.drop _ (grid.rows.take (grid.historySize + stop) ++ new ++
    grid.rows.drop (grid.historySize + stop)))[k]? = some row
  rw [List.getElem?_drop]
  obtain ⟨hk, hroom⟩ | ⟨hk, hfull⟩ := hkeeps
  · rw [Nat.sub_eq_zero_of_le hroom, Nat.zero_add, List.append_assoc]
    exact getElem?_take_append _ _ hk h
  · have hcount : grid.historySize + new.length - grid.limit = new.length := by omega
    have hbefore : (grid.rows.take (grid.historySize + stop) ++ new).length =
        new.length + (grid.historySize + stop) := by
      rw [List.length_append, List.length_take]
      omega
    rw [hcount, List.getElem?_append_right (by omega), List.getElem?_drop, hbefore,
      Nat.add_sub_add_left, Nat.add_sub_cancel' hk, h]

theorem keeps_region {rows middle : List Nat} {top bottom : Nat}
    (hmiddle : middle.length = ((rows.take bottom).drop top).length)
    (hk : k < top ∨ bottom ≤ k) (h : rows[k]? = some row) :
    ((rows.take bottom).take top ++ middle ++ rows.drop bottom)[k]? = some row := by
  have hlt := (List.getElem?_eq_some_iff.mp h).1
  rw [List.length_drop, List.length_take] at hmiddle
  rw [List.take_take]
  by_cases hbottom : k < bottom
  · rw [List.append_assoc]
    exact getElem?_take_append _ _ (by omega) h
  · refine getElem?_append_drop ?_ (Nat.not_lt.mp hbottom) h
    rw [List.length_append, List.length_take, hmiddle]
    omega

theorem keeps_scrollUp (hkeeps : grid.KeepsUp start stop new.length k)
    (h : grid.rows[k]? = some row) : (grid.scrollUp start stop new).rows[k]? = some row := by
  by_cases hstart : start = 0
  · subst hstart
    exact keeps_scrollUp_zero hkeeps h
  · rw [KeepsUp, if_neg hstart] at hkeeps
    rw [scrollUp, if_neg hstart]
    obtain hnone | hk := hkeeps
    · obtain rfl := List.length_eq_zero_iff.mp hnone
      show (List.take _ (List.take _ grid.rows) ++ (List.drop _ (List.take _ grid.rows) ++ []) ++
        List.drop _ grid.rows)[k]? = some row
      rwa [List.append_nil, List.take_append_drop, List.take_append_drop]
    · refine keeps_region ?_ hk h
      rw [List.length_drop, List.length_append, Nat.add_sub_cancel]

theorem keeps_scrollDown (hkeeps : grid.KeepsDown start stop new.length k)
    (h : grid.rows[k]? = some row) : (grid.scrollDown start stop new).rows[k]? = some row := by
  rw [scrollDown]
  obtain hnone | hk := hkeeps
  · obtain rfl := List.length_eq_zero_iff.mp hnone
    show (List.take _ (List.take _ grid.rows) ++
      List.take _ ([] ++ List.drop _ (List.take _ grid.rows)) ++ List.drop _ grid.rows)[k]? =
        some row
    rwa [List.nil_append, List.take_length, List.take_append_drop, List.take_append_drop]
  · refine keeps_region ?_ hk h
    rw [List.length_take, List.length_append]
    omega

theorem keeps_clearHistory (hnone : grid.historySize = 0) : grid.clearHistory = grid := by
  rw [clearHistory, hnone, List.drop_zero]

end RowGrid

namespace RowScreens

/-- What an operation does not displace: row `k` of one of the two screens. Only the one that is
shown is scrolled. -/
def Keeps (screens : RowScreens) (alt : Bool) (k : Nat) : RowOp → Prop
  | .scrollUp start stop count =>
    screens.alt = alt → screens.active.KeepsUp start stop
      (if start = 0 then count else min count (stop - start)) k
  | .scrollDown start stop count =>
    screens.alt = alt → screens.active.KeepsDown start stop (min count (stop - start)) k
  | .clearHistory => screens.alt = alt → screens.active.historySize = 0
  | .reset => (screens.grid alt).historySize = 0
  | .swapAlt => True

instance (screens : RowScreens) (alt : Bool) (k : Nat) :
    DecidablePred (screens.Keeps alt k)
  | .scrollUp _ _ _ => inferInstanceAs (Decidable (_ → _))
  | .scrollDown _ _ _ => inferInstanceAs (Decidable (_ → _))
  | .clearHistory => inferInstanceAs (Decidable (_ → _))
  | .reset => inferInstanceAs (Decidable (_ = _))
  | .swapAlt => inferInstanceAs (Decidable True)

theorem grid_update (screens : RowScreens) (grid : RowGrid) (count : Nat) (alt : Bool) :
    (screens.update grid count).grid alt =
      if screens.alt = alt then grid else screens.grid alt := by
  obtain ⟨primary, alternate, shown, next⟩ := screens
  cases shown with
  | false => cases alt <;> rfl
  | true => cases alt <;> rfl

theorem getElem?_apply {screens : RowScreens} {alt : Bool} {k row : Nat} {op : RowOp}
    (hkeeps : screens.Keeps alt k op) (h : (screens.grid alt).rows[k]? = some row) :
    ((screens.apply op).grid alt).rows[k]? = some row := by
  have hupdate (grid : RowGrid) (count : Nat)
      (hgrid : screens.alt = alt → grid.rows[k]? = some row) :
      ((screens.update grid count).grid alt).rows[k]? = some row := by
    rw [grid_update]
    split
    · next halt => exact hgrid halt
    · exact h
  cases op with
  | scrollUp start stop count =>
    refine hupdate _ _ fun halt => ?_
    refine RowGrid.keeps_scrollUp ?_ (by rwa [active, halt])
    rw [List.length_range']
    exact hkeeps halt
  | scrollDown start stop count =>
    refine hupdate _ _ fun halt => ?_
    refine RowGrid.keeps_scrollDown ?_ (by rwa [active, halt])
    rw [List.length_range']
    exact hkeeps halt
  | clearHistory =>
    refine hupdate _ _ fun halt => ?_
    rw [RowGrid.keeps_clearHistory (hkeeps halt), active, halt]
    exact h
  | reset =>
    have hclear : ((screens.apply .reset).grid alt).rows = (screens.grid alt).rows := by
      cases alt with
      | false => exact congrArg RowGrid.rows (RowGrid.keeps_clearHistory hkeeps)
      | true => exact congrArg RowGrid.rows (RowGrid.keeps_clearHistory hkeeps)
    rw [hclear, h]
  | swapAlt => exact h

end RowScreens

end Goble.Terminal
