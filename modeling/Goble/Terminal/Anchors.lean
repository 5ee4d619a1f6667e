import Goble.Lib.Machine
import Goble.Lib.Utf8
import Goble.Terminal.ImageCache
import Goble.Terminal.RowGrid

/-!
# The row an image was placed on

An image is kept at an index: the rows of history when it came and the line of the cursor. The
index is right for as long as no row is dropped or moved before it (`RowScreens.Keeps`), and the
cache is not told when one is. `anchored_of_run` is the runs in which the image stays with its row.

What the bytes do to the rows is a parameter, the parser with the terminal's handler
(`RowParser`). The rows and their operations are those of the grid.
-/

namespace Goble.Terminal

/-- The parser of a terminal and its handler, as far as the rows and the cursor go. -/
structure RowParser (S : Type) where
  advance : S → List UInt8 → S × List RowOp
  cursorLine : S → Int
  cursorColumn : S → Nat
  displayOffset : S → Nat

/-- A parser with the rows it acts on. -/
structure RowTerm (S : Type) where
  state : S
  screens : RowScreens

namespace RowParser

variable {S : Type} (parser : RowParser S)

def ops (term : RowTerm S) (bytes : List UInt8) : List RowOp :=
  (parser.advance term.state bytes).2

def vt : Vt (RowTerm S) where
  advance := fun term bytes =>
    { state := (parser.advance term.state bytes).1
      screens := (parser.ops term bytes).foldl RowScreens.apply term.screens }
  altScreen := fun term => term.screens.alt
  totalLines := fun term => term.screens.active.rows.length
  screenLines := fun term => term.screens.active.lines
  displayOffset := fun term => parser.displayOffset term.state
  cursorLine := fun term => parser.cursorLine term.state
  cursorColumn := fun term => parser.cursorColumn term.state

end RowParser

/-- Every operation leaves the row where it is. -/
def RowScreens.KeepsAll (screens : RowScreens) (alt : Bool) (k : Nat) : List RowOp → Prop
  | [] => True
  | op :: ops => screens.Keeps alt k op ∧ (screens.apply op).KeepsAll alt k ops

instance RowScreens.decidableKeepsAll (alt : Bool) (k : Nat) :
    ∀ (screens : RowScreens) (ops : List RowOp), Decidable (screens.KeepsAll alt k ops)
  | _, [] => isTrue trivial
  | screens, op :: ops =>
    have := decidableKeepsAll alt k (screens.apply op) ops
    inferInstanceAs (Decidable (_ ∧ _))

theorem RowScreens.getElem?_foldl {screens : RowScreens} {alt : Bool} {k row : Nat}
    {ops : List RowOp} (hkeeps : screens.KeepsAll alt k ops)
    (h : (screens.grid alt).rows[k]? = some row) :
    ((ops.foldl RowScreens.apply screens).grid alt).rows[k]? = some row := by
  induction ops generalizing screens with
  | nil => exact h
  | cons op ops ih => exact ih hkeeps.2 (getElem?_apply hkeeps.1 h)

/-- A screen, and the row each image was placed on, by the id of the image. -/
structure Tracked (S : Type) where
  screen : Screen (RowTerm S)
  anchors : Nat → Option Nat

namespace Tracked

variable {S : Type} (parser : RowParser S) (png : List UInt8 → Option (Nat × Nat × List UInt8))
  (tracked : Tracked S)

/-- The content row at an index, oldest first. -/
def rowAt (k : Nat) : Option Nat := tracked.screen.term.screens.active.rows[k]?

def note : ImageChunk → Nat → Option Nat
  | .image event =>
    match tracked.screen.images.inserted event with
    | some id => Function.update tracked.anchors id
        (tracked.rowAt (tracked.screen.placementCell parser.vt).1)
    | none => tracked.anchors
  | _ => tracked.anchors

def perform (chunk : ImageChunk) : Tracked S where
  screen := tracked.screen.perform parser.vt chunk
  anchors := tracked.note parser chunk

/-- The tap after a call, before its chunks are performed. -/
def tapped (bytes : List UInt8) : Tracked S :=
  { tracked with
    screen := { tracked.screen with imageTap := (tracked.screen.imageTap.tap png bytes).1 } }

/-- `Screen::feed`, with what is noted on the way. -/
def feed (bytes : List UInt8) : Tracked S :=
  if tracked.screen.frozen then
    { tracked with screen := tracked.screen.feed parser.vt png bytes }
  else
    let chunks := (tracked.screen.imageTap.tap png bytes).2
    let after := chunks.foldl (perform parser) (tracked.tapped png bytes)
    { after with
      screen := { after.screen with revision := (after.screen.revision + 1) % 2 ^ 64 } }

def Anchored : Prop :=
  ∀ image ∈ tracked.screen.images.images, ∀ row, tracked.anchors image.id = some row →
    tracked.rowAt image.row = some row

def Steady : ImageChunk → Prop
  | .bytes bytes =>
    (parser.vt.advance tracked.screen.term bytes).screens.alt ≠ tracked.screen.term.screens.alt ∨
      ∀ image ∈ tracked.screen.images.images, (tracked.anchors image.id).isSome →
        tracked.screen.term.screens.KeepsAll tracked.screen.term.screens.alt image.row
          (parser.ops tracked.screen.term bytes)
  | _ => True

/-- Each chunk of a call in its turn. -/
def SteadyChunks (tracked : Tracked S) : List ImageChunk → Prop
  | [] => True
  | chunk :: chunks =>
    tracked.Steady parser chunk ∧ SteadyChunks (tracked.perform parser chunk) chunks

def SteadyFeed (bytes : List UInt8) : Prop :=
  tracked.screen.frozen ∨
    SteadyChunks parser (tracked.tapped png bytes) (tracked.screen.imageTap.tap png bytes).2

instance (tracked : Tracked S) : DecidablePred (tracked.Steady parser)
  | .bytes _ => inferInstanceAs (Decidable (_ ∨ _))
  | .image _ => isTrue trivial
  | .delete _ => isTrue trivial

instance decidableSteadyChunks :
    ∀ (tracked : Tracked S) (chunks : List ImageChunk),
      Decidable (SteadyChunks parser tracked chunks)
  | _, [] => isTrue trivial
  | tracked, chunk :: chunks =>
    have := decidableSteadyChunks (tracked.perform parser chunk) chunks
    inferInstanceAs (Decidable (_ ∧ _))

instance (bytes : List UInt8) : Decidable (tracked.SteadyFeed parser png bytes) :=
  inferInstanceAs (Decidable (_ ∨ _))

variable {parser png tracked}

theorem screen_feed (bytes : List UInt8) :
    (tracked.feed parser png bytes).screen = tracked.screen.feed parser.vt png bytes := by
  have hfold (chunks : List ImageChunk) (tracked : Tracked S) :
      (chunks.foldl (perform parser) tracked).screen =
        chunks.foldl (Screen.perform parser.vt) tracked.screen := by
    induction chunks generalizing tracked with
    | nil => rfl
    | cons chunk chunks ih => exact ih (tracked.perform parser chunk)
  by_cases hfrozen : tracked.screen.frozen
  · rw [feed, if_pos hfrozen]
  · rw [feed, if_neg hfrozen, Screen.feed, if_neg hfrozen]
    have hscreen := hfold (tracked.screen.imageTap.tap png bytes).2 (tracked.tapped png bytes)
    exact congrArg (fun screen : Screen (RowTerm S) =>
      { screen with revision := (screen.revision + 1) % 2 ^ 64 }) hscreen

/-- The rows that stay are those of the screen that is shown before and after. -/
theorem Anchored.bytes (h : tracked.Anchored) {bytes : List UInt8}
    (hsteady : tracked.Steady parser (.bytes bytes)) :
    (tracked.perform parser (.bytes bytes)).Anchored := by
  by_cases hswap : (parser.vt.advance tracked.screen.term bytes).screens.alt =
      tracked.screen.term.screens.alt
  · have hadvance : tracked.screen.advance parser.vt bytes =
        { tracked.screen with term := parser.vt.advance tracked.screen.term bytes } :=
      if_neg (not_not_intro hswap)
    show Anchored ⟨tracked.screen.advance parser.vt bytes, tracked.anchors⟩
    rw [hadvance]
    intro image himage row hrow
    have hkeeps := hsteady.resolve_left (not_not_intro hswap) image himage
      (Option.isSome_iff_exists.mpr ⟨row, hrow⟩)
    have hbefore : (tracked.screen.term.screens.grid tracked.screen.term.screens.alt).rows[
        image.row]? = some row := h image himage row hrow
    have hafter := RowScreens.getElem?_foldl hkeeps hbefore
    rw [← hswap] at hafter
    exact hafter
  · -- the images are cleared
    have hadvance : tracked.screen.advance parser.vt bytes =
        { tracked.screen with
          term := parser.vt.advance tracked.screen.term bytes
          images := tracked.screen.images.clear } := if_pos hswap
    show Anchored ⟨tracked.screen.advance parser.vt bytes, tracked.anchors⟩
    rw [hadvance]
    exact nofun

theorem Anchored.delete (h : tracked.Anchored) (delete : ImageDelete) :
    (tracked.perform parser (.delete delete)).Anchored := by
  cases delete with
  | image id =>
    intro image himage
    exact h image (List.mem_filter.mp himage).1
  | all | allPlacements => exact nofun

/-- A new image is where it is placed, and takes the place of the one with its id. -/
theorem Anchored.image (h : tracked.Anchored) (event : ImageEvent) :
    (tracked.perform parser (.image event)).Anchored := by
  rcases hcell : tracked.screen.placementCell parser.vt with ⟨line, column⟩
  have hperform : tracked.screen.perform parser.vt (.image event) =
      { tracked.screen with images := tracked.screen.images.insert event line column } := by
    rw [Screen.perform, hcell]
  have hinserted := tracked.screen.images.inserted_eq event line column
    tracked.screen.images.nextSequence
  rw [perform, hperform, note, hcell, tracked.screen.images.insert_eq, hinserted]
  cases hplaced : event.placed tracked.screen.images.maxBytes line column
      tracked.screen.images.nextSequence with
  | none => exact h
  | some image =>
    intro old hold row hrow
    obtain ⟨hevicts, -⟩ := ImageCache.enforceBounds_spec
      ((tracked.screen.images.remove image.id).pushBack image) rfl
      (ImageCache.placed_spec hplaced).2.2
    change Function.update tracked.anchors image.id (tracked.rowAt line) old.id = some row at hrow
    show tracked.rowAt old.row = some row
    obtain hkept | hnew := List.mem_append.mp (hevicts.images.subset hold)
    · obtain ⟨hmem, hid⟩ := List.mem_filter.mp hkept
      rw [Bool.not_eq_true', decide_eq_false_iff_not] at hid
      rw [Function.update_of_ne hid] at hrow
      exact h old hmem row hrow
    · obtain rfl := List.mem_singleton.mp hnew
      rwa [Function.update_self, ← (ImageCache.placed_spec hplaced).1] at hrow

theorem anchored_foldl (tracked : Tracked S) {chunks : List ImageChunk} (h : tracked.Anchored)
    (hsteady : SteadyChunks parser tracked chunks) :
    (chunks.foldl (perform parser) tracked).Anchored := by
  induction chunks generalizing tracked with
  | nil => exact h
  | cons chunk chunks ih =>
    refine ih (tracked.perform parser chunk) ?_ hsteady.2
    cases chunk with
    | bytes bytes => exact h.bytes hsteady.1
    | image event => exact h.image event
    | delete delete => exact h.delete delete

/-- **One call.** -/
theorem Anchored.feed (h : tracked.Anchored) {bytes : List UInt8}
    (hsteady : tracked.SteadyFeed parser png bytes) :
    (tracked.feed parser png bytes).Anchored := by
  by_cases hfrozen : tracked.screen.frozen
  · rw [Tracked.feed, if_pos hfrozen, Screen.feed, if_pos hfrozen]
    exact h
  · rw [Tracked.feed, if_neg hfrozen]
    exact anchored_foldl (tracked.tapped png bytes) h (hsteady.resolve_left hfrozen)

def feeding (parser : RowParser S) (png : List UInt8 → Option (Nat × Nat × List UInt8)) (state : S)
    (lines limit : Nat) : Machine (Tracked S) (List UInt8) where
  init := ⟨Screen.new ⟨state, .new lines limit⟩ lines, fun _ => none⟩
  step := fun tracked bytes => some (tracked.feed parser png bytes)

theorem screen_of_exec {state : S} {lines limit : Nat} {calls : List (List UInt8)}
    {before after : Tracked S}
    (hrun : (feeding parser png state lines limit).exec before calls = some after) :
    after.screen = calls.foldl (Screen.feed parser.vt png) before.screen := by
  induction calls generalizing before with
  | nil =>
    cases hrun
    rfl
  | cons bytes calls ih =>
    rw [List.foldl_cons, ← screen_feed]
    exact ih hrun

/-- **Images follow their rows** in every run that displaces none of them: the screen is what it is
fed, and each image it holds is at the row it was placed on. -/
theorem anchored_of_run {state : S} {lines limit : Nat} {calls : List (List UInt8)}
    (hsteady : (feeding parser png state lines limit).Along
      (fun tracked bytes => tracked.SteadyFeed parser png bytes)
      (feeding parser png state lines limit).init calls)
    (hrun : (feeding parser png state lines limit).exec
      (feeding parser png state lines limit).init calls = some tracked) :
    tracked.screen = calls.foldl (Screen.feed parser.vt png)
        (Screen.new ⟨state, .new lines limit⟩ lines) ∧
      tracked.Anchored := by
  constructor
  · exact screen_of_exec hrun
  · have hinit : (feeding parser png state lines limit).init.Anchored := by
      intro image himage
      cases himage
    refine Machine.invariant (I := Anchored) hinit ?_ hsteady hrun
    rintro before bytes after h hfeed ⟨⟩
    exact h.feed hfeed

/-! ### A full history -/

/-- A parser of line feeds alone, on a screen of so many lines. The state is the line of the
cursor. -/
def lineFeeds (lines : Nat) : RowParser Nat where
  advance := fun line bytes => bytes.foldl (fun (line, ops) (byte : UInt8) =>
    if byte = 0x0a then
      if line + 1 = lines then (line, ops ++ [.scrollUp 0 lines 1]) else (line + 1, ops)
    else (line, ops)) (line, [])
  cursorLine := fun line => line
  cursorColumn := fun _ => 0
  displayOffset := fun _ => 0

def pixelBytes : List UInt8 := Text.encode "\x1b_Ga=T,f=32,s=1,v=1,i=7;/wAA/w==\x1b\\".toList

/-- A line feed, the image, and two line feeds more. -/
def placeAndScroll : List (List UInt8) := [[0x0a], pixelBytes, [0x0a, 0x0a]]

/-- While the history has room, the image stays with its row. -/
theorem anchored_placeAndScroll :
    ∃ tracked, (feeding (lineFeeds 2) (fun _ => none) 0 2 5).exec
        (feeding (lineFeeds 2) (fun _ => none) 0 2 5).init placeAndScroll = some tracked ∧
      tracked.Anchored ∧ tracked.screen.images.images ≠ [] := by
  obtain ⟨tracked, htracked⟩ : ∃ tracked, (feeding (lineFeeds 2) (fun _ => none) 0 2 5).exec
      (feeding (lineFeeds 2) (fun _ => none) 0 2 5).init placeAndScroll = some tracked :=
    Option.isSome_iff_exists.mp (by decide +kernel)
  have hheld : ((feeding (lineFeeds 2) (fun _ => none) 0 2 5).exec
      (feeding (lineFeeds 2) (fun _ => none) 0 2 5).init placeAndScroll).any fun tracked =>
        tracked.screen.images.images ≠ [] := by decide +kernel
  rw [htracked] at hheld
  exact ⟨tracked, htracked, (anchored_of_run (by decide +kernel) htracked).2,
    of_decide_eq_true hheld⟩

/-- Without history the rows go by under the image: it is kept at an index where there is another
row, and its own is gone. -/
theorem not_anchored :
    ∃ tracked, (feeding (lineFeeds 2) (fun _ => none) 0 2 0).exec
        (feeding (lineFeeds 2) (fun _ => none) 0 2 0).init placeAndScroll = some tracked ∧
      ¬ tracked.Anchored ∧ ∃ image ∈ tracked.screen.images.images, ∃ row,
        tracked.anchors image.id = some row ∧ row ∉ tracked.screen.term.screens.active.rows := by
  obtain ⟨tracked, htracked⟩ : ∃ tracked, (feeding (lineFeeds 2) (fun _ => none) 0 2 0).exec
      (feeding (lineFeeds 2) (fun _ => none) 0 2 0).init placeAndScroll = some tracked :=
    Option.isSome_iff_exists.mp (by decide +kernel)
  have hgone : ((feeding (lineFeeds 2) (fun _ => none) 0 2 0).exec
      (feeding (lineFeeds 2) (fun _ => none) 0 2 0).init placeAndScroll).any fun tracked =>
        tracked.screen.images.images.any fun image => (tracked.anchors image.id).any fun row =>
          decide (row ∉ tracked.screen.term.screens.active.rows) := by decide +kernel
  rw [htracked] at hgone
  obtain ⟨image, himage, hany⟩ := List.any_eq_true.mp hgone
  cases hrow : tracked.anchors image.id with
  | none =>
    rw [hrow] at hany
    cases hany
  | some row =>
    rw [hrow] at hany
    have hnot : row ∉ tracked.screen.term.screens.active.rows := of_decide_eq_true hany
    refine ⟨tracked, htracked, fun h => hnot ?_, image, himage, row, hrow, hnot⟩
    exact List.mem_of_getElem? (h image himage row hrow)

end Tracked

end Goble.Terminal
