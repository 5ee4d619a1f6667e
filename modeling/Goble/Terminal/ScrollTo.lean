import Goble.Terminal.Screen
import Mathlib.Algebra.Ring.Int.Defs

/-!
# Scrolling to a line

A search hit is shown by scrolling until its line is in the viewport (`Screen.scrollToLine`). The
distance is taken from the top and the bottom of the viewport, and the grid clamps where it leads
(`Vt.ClampsDelta`), so the line is in the viewport after (`visible_scrollToLine`). A line that is
in it already moves nothing.
-/

namespace Goble.Terminal

variable {T : Type}

/-- The largest `i32`, of a distance that is larger. -/
def deltaOf (distance : Nat) : Int := if distance < 2 ^ 31 then distance else 2 ^ 31 - 1

/-- `Scroll::Delta` moves the display offset and keeps it within the history. -/
structure Vt.ClampsDelta (vt : Vt T) (scrollDelta : T → Int → T) : Prop where
  displayOffset : ∀ term count, (vt.displayOffset (scrollDelta term count) : Int) =
    min (max (vt.displayOffset term + count) 0) (vt.totalLines term - vt.screenLines term : Nat)
  totalLines : ∀ term count, vt.totalLines (scrollDelta term count) = vt.totalLines term
  screenLines : ∀ term count, vt.screenLines (scrollDelta term count) = vt.screenLines term

namespace Screen

variable (vt : Vt T) (scrollDelta : T → Int → T) (screen : Screen T)

/-- The row at the top of the viewport. -/
def top : Nat := screen.historySize vt - vt.displayOffset screen.term

def visibleRowOf (line : Nat) : Option Nat :=
  let top := screen.historySize vt - vt.displayOffset screen.term
  if line < top then none
  else if line - top < screen.screenLines then some (line - top) else none

def scrollDisplay (lines : Int) : Screen T := { screen with term := scrollDelta screen.term lines }

/-- Scroll the viewport so `line` is visible, leaving it alone when it already is. -/
def scrollToLine (line : Nat) : Screen T :=
  let history := screen.historySize vt
  let screenLines := max screen.screenLines 1
  let offset := vt.displayOffset screen.term
  let top := history - offset
  let bottom := top + (screenLines - 1)
  if line < top then screen.scrollDisplay scrollDelta (deltaOf (top - line))
  else if bottom < line then screen.scrollDisplay scrollDelta (-deltaOf (line - bottom))
  else screen

/-- How far a line is from the viewport. -/
def distance (line : Nat) : Nat :=
  (screen.top vt - line) + (line - (screen.top vt + (screen.screenLines - 1)))

variable {vt scrollDelta screen} {line : Nat}

theorem visibleRowOf_isSome :
    (screen.visibleRowOf vt line).isSome ↔
      screen.top vt ≤ line ∧ line < screen.top vt + screen.screenLines := by
  rw [visibleRowOf, top]
  split
  · exact ⟨nofun, fun h => absurd h.1 (by omega)⟩
  · split
    · exact ⟨fun _ => by omega, fun _ => rfl⟩
    · exact ⟨nofun, fun h => absurd h.2 (by omega)⟩

theorem lt_of_visibleRowOf {row : Nat} (h : screen.visibleRowOf vt line = some row) :
    row < screen.screenLines := by
  rw [visibleRowOf] at h
  split at h
  · cases h
  · split at h
    · next hlt =>
      cases h
      exact hlt
    · cases h

theorem scrollToLine_of_visible (h : (screen.visibleRowOf vt line).isSome) :
    screen.scrollToLine vt scrollDelta line = screen := by
  obtain ⟨htop, hbottom⟩ := visibleRowOf_isSome.mp h
  rw [top] at htop hbottom
  rw [scrollToLine, if_neg (by omega), if_neg (by omega)]

theorem top_scrollDisplay (hclamps : vt.ClampsDelta scrollDelta) (screen : Screen T)
    (lines : Int) :
    ((screen.scrollDisplay scrollDelta lines).top vt : Int) =
      screen.historySize vt -
        min (max (vt.displayOffset screen.term + lines) 0) (screen.historySize vt) := by
  have hoffset := hclamps.displayOffset screen.term lines
  rw [top, historySize, historySize]
  show ((vt.totalLines (scrollDelta screen.term lines) -
      vt.screenLines (scrollDelta screen.term lines) -
        vt.displayOffset (scrollDelta screen.term lines) : Nat) : Int) = _
  rw [hclamps.totalLines, hclamps.screenLines]
  omega

theorem deltaOf_eq {distance : Nat} (h : distance < 2 ^ 31) : deltaOf distance = distance :=
  if_pos h

theorem top_of_above (hclamps : vt.ClampsDelta scrollDelta) (hline : line < screen.top vt)
    (hnear : screen.top vt - line < 2 ^ 31) :
    (screen.scrollToLine vt scrollDelta line).top vt = line := by
  have hscroll : screen.scrollToLine vt scrollDelta line =
      screen.scrollDisplay scrollDelta (deltaOf (screen.top vt - line)) := if_pos hline
  have htop := top_scrollDisplay hclamps screen (deltaOf (screen.top vt - line))
  rw [← hscroll, deltaOf_eq hnear] at htop
  have hdef : screen.top vt = screen.historySize vt - vt.displayOffset screen.term := rfl
  omega

theorem top_of_below (hclamps : vt.ClampsDelta scrollDelta)
    (hrows : 0 < screen.screenLines)
    (hoffset : vt.displayOffset screen.term ≤ screen.historySize vt)
    (hline : screen.top vt + (screen.screenLines - 1) < line)
    (htotal : line < screen.historySize vt + screen.screenLines)
    (hnear : line - (screen.top vt + (screen.screenLines - 1)) < 2 ^ 31) :
    (screen.scrollToLine vt scrollDelta line).top vt + (screen.screenLines - 1) = line := by
  have hlines : max screen.screenLines 1 = screen.screenLines := Nat.max_eq_left hrows
  have hscroll : screen.scrollToLine vt scrollDelta line =
      screen.scrollDisplay scrollDelta
        (-deltaOf (line - (screen.top vt + (screen.screenLines - 1)))) := by
    rw [scrollToLine, hlines]
    exact (if_neg (by rw [← top]; omega)).trans (if_pos hline)
  have htop := top_scrollDisplay hclamps screen
    (-deltaOf (line - (screen.top vt + (screen.screenLines - 1))))
  rw [← hscroll, deltaOf_eq hnear] at htop
  have hdef : screen.top vt = screen.historySize vt - vt.displayOffset screen.term := rfl
  omega

theorem screenLines_scrollToLine (vt : Vt T) (scrollDelta : T → Int → T) (screen : Screen T)
    (line : Nat) :
    (screen.scrollToLine vt scrollDelta line).screenLines = screen.screenLines := by
  rw [scrollToLine]
  split
  · rfl
  · split
    · rfl
    · rfl

/-- **Scrolling to a line shows it**, where the viewport has a row, is within the grid, and the line
is not too far for an `i32`. Where the line is shown already, nothing moves. -/
theorem visible_scrollToLine (hclamps : vt.ClampsDelta scrollDelta)
    (hsize : screen.screenLines = vt.screenLines screen.term)
    (hline : line < vt.totalLines screen.term) :
    (0 < screen.screenLines → vt.displayOffset screen.term ≤ screen.historySize vt →
      screen.distance vt line < 2 ^ 31 →
        ∃ row, (screen.scrollToLine vt scrollDelta line).visibleRowOf vt line = some row ∧
          row < screen.screenLines) ∧
      ((screen.visibleRowOf vt line).isSome →
        vt.displayOffset (screen.scrollToLine vt scrollDelta line).term =
          vt.displayOffset screen.term) := by
  constructor
  · intro hrows hoffset hnear
    have htotal : line < screen.historySize vt + screen.screenLines := by
      rw [historySize, hsize]
      omega
    have hvisible : ((screen.scrollToLine vt scrollDelta line).visibleRowOf vt line).isSome := by
      rw [visibleRowOf_isSome, screenLines_scrollToLine vt scrollDelta screen]
      rw [distance] at hnear
      by_cases habove : line < screen.top vt
      · have htop := top_of_above hclamps habove (by omega)
        omega
      · by_cases hbelow : screen.top vt + (screen.screenLines - 1) < line
        · have htop := top_of_below hclamps hrows hoffset hbelow htotal (by omega)
          omega
        · -- it is between the two
          have hshown : (screen.visibleRowOf vt line).isSome :=
            visibleRowOf_isSome.mpr (by omega)
          rw [scrollToLine_of_visible hshown]
          omega
    obtain ⟨row, hrow⟩ := Option.isSome_iff_exists.mp hvisible
    refine ⟨row, hrow, ?_⟩
    rw [← screenLines_scrollToLine vt scrollDelta screen line]
    exact lt_of_visibleRowOf hrow
  · intro h
    rw [scrollToLine_of_visible h]

/-! ### Where it does not -/

structure Sizes where
  history : Nat
  lines : Nat
  offset : Nat
deriving DecidableEq

def sizesVt : Vt Sizes where
  advance := fun sizes _ => sizes
  altScreen := fun _ => false
  totalLines := fun sizes => sizes.history + sizes.lines
  screenLines := Sizes.lines
  displayOffset := Sizes.offset
  cursorLine := fun _ => 0
  cursorColumn := fun _ => 0

/-- `Grid::scroll_display`. -/
def Sizes.scrollBy (sizes : Sizes) (count : Int) : Sizes :=
  { sizes with offset := min (max (sizes.offset + count) 0).toNat sizes.history }

def ofSizes (sizes : Sizes) : Screen Sizes := Screen.new sizes sizes.lines

theorem sizesVt_clamps : sizesVt.ClampsDelta Sizes.scrollBy where
  displayOffset := by
    intro sizes count
    show ((min (max (sizes.offset + count) 0).toNat sizes.history : Nat) : Int) =
      min (max (sizes.offset + count) 0) (sizes.history + sizes.lines - sizes.lines : Nat)
    omega
  totalLines := fun _ _ => rfl
  screenLines := fun _ _ => rfl

/-- Ten rows back in a history of a hundred, a line of the screen is scrolled to. -/
theorem visible_scrollToLine_bottom :
    ∃ row, ((ofSizes ⟨100, 24, 10⟩).scrollToLine sizesVt Sizes.scrollBy 120).visibleRowOf
      sizesVt 120 = some row ∧ row < 24 :=
  (@visible_scrollToLine _ _ _ (ofSizes ⟨100, 24, 10⟩) 120 sizesVt_clamps rfl (by decide)).1
    (by decide) (by decide) (by decide)

def Shows (sizes : Sizes) (line : Nat) : Prop :=
  line < sizesVt.totalLines sizes →
    (((ofSizes sizes).scrollToLine sizesVt Sizes.scrollBy line).visibleRowOf sizesVt line).isSome

instance (sizes : Sizes) (line : Nat) : Decidable (Shows sizes line) :=
  inferInstanceAs (Decidable (_ → _))

/-- A screen without rows shows nothing; the distance to the oldest of 2^31 rows of history is cut
to an `i32`; and from an offset beyond the history, where a region that scrolls leaves it, the
distance to a line below is taken from the wrong top. -/
theorem not_shows : ¬ Shows ⟨1, 0, 0⟩ 0 ∧ ¬ Shows ⟨2 ^ 31, 24, 0⟩ 0 ∧ ¬ Shows ⟨1, 3, 2⟩ 3 := by
  decide +kernel

end Screen

end Goble.Terminal
