import Goble.Terminal.Image

/-!
# The screen of a pane

`Screen::feed` hands the bytes that the image tap passes through to the VT parser and keeps the
images the tap lifts out in a bounded cache, each at the cell the cursor had reached.

The parser and its grid are a parameter (`Vt`). `ImageCache` carries the equation between the
bytes it counts and the images it holds, so that an empty cache counts none.
-/

namespace Goble.Terminal

/-- A decoded image, where it was placed, and its cache order. -/
structure CachedImage where
  id : Nat
  format : ImageFormat
  width : Nat
  height : Nat
  payload : List UInt8
  rgba : List UInt8
  /-- Absolute content row (history rows included) the image starts on. -/
  row : Nat
  column : Nat
  columns : Option Nat
  rows : Option Nat
  sequence : Nat
deriving DecidableEq, Repr

/-- The bytes of its payload and pixels. -/
def CachedImage.cost (image : CachedImage) : Nat := image.payload.length + image.rgba.length

/-- An image mapped into the viewport the renderer is about to draw. -/
structure ImagePlacement where
  id : Nat
  format : ImageFormat
  width : Nat
  height : Nat
  row : Nat
  column : Nat
  columns : Option Nat
  rows : Option Nat
  rgba : List UInt8
  sequence : Nat
deriving DecidableEq, Repr

def totalCost (images : List CachedImage) : Nat := (images.map CachedImage.cost).sum

@[simp] theorem totalCost_cons (image : CachedImage) (images : List CachedImage) :
    totalCost (image :: images) = image.cost + totalCost images := rfl

@[simp] theorem totalCost_append (xs ys : List CachedImage) :
    totalCost (xs ++ ys) = totalCost xs + totalCost ys := by
  rw [totalCost, List.map_append, List.sum_append]
  rfl

theorem totalCost_filter (p : CachedImage → Bool) (images : List CachedImage) :
    totalCost images = totalCost (images.filter p) + totalCost (images.filter fun i => !p i) := by
  induction images with
  | nil => rfl
  | cons image images ih =>
    rw [totalCost_cons, ih]
    cases hp : p image <;> simp [hp] <;> omega

/-- A bounded, insertion-ordered cache of decoded images for one pane. -/
structure ImageCache where
  images : List CachedImage
  maxImages : Nat
  maxBytes : Nat
  bytes : Nat
  nextSequence : Nat
  bytes_eq : bytes = totalCost images
deriving DecidableEq

namespace ImageCache

/-- A bound of zero is not enforced. -/
def new (maxImages maxBytes : Nat) : ImageCache := ⟨[], maxImages, maxBytes, 0, 0, rfl⟩

variable (cache : ImageCache)

def clear : ImageCache := { cache with images := [], bytes := 0, bytes_eq := rfl }

def remove (id : Nat) : ImageCache where
  images := cache.images.filter fun image => !decide (image.id = id)
  maxImages := cache.maxImages
  maxBytes := cache.maxBytes
  bytes := cache.bytes - totalCost (cache.images.filter fun image => image.id = id)
  nextSequence := cache.nextSequence
  bytes_eq := by
    rw [cache.bytes_eq, totalCost_filter (fun image => decide (image.id = id)) cache.images]
    omega

def popFront : ImageCache where
  images := cache.images.tail
  maxImages := cache.maxImages
  maxBytes := cache.maxBytes
  bytes := cache.bytes - (cache.images.head?.map CachedImage.cost).getD 0
  nextSequence := cache.nextSequence
  bytes_eq := by
    rw [cache.bytes_eq]
    cases cache.images with
    | nil => rfl
    | cons image images => simp

def enforceCount : Nat → ImageCache → ImageCache
  | 0, cache => cache
  | rounds + 1, cache =>
    if 0 < cache.maxImages ∧ cache.maxImages < cache.images.length then
      enforceCount rounds cache.popFront
    else cache

/-- `while self.max_bytes > 0`, until the bytes are within the bound or no image is left. -/
def enforceBytes : Nat → ImageCache → ImageCache
  | 0, cache => cache
  | rounds + 1, cache =>
    if 0 < cache.maxBytes ∧ cache.maxBytes < cache.bytes then enforceBytes rounds cache.popFront
    else cache

def enforceBounds : ImageCache :=
  let cache := enforceCount cache.images.length cache
  enforceBytes cache.images.length cache

def pushBack (image : CachedImage) : ImageCache where
  images := cache.images ++ [image]
  maxImages := cache.maxImages
  maxBytes := cache.maxBytes
  bytes := cache.bytes + image.cost
  nextSequence := (cache.nextSequence + 1) % 2 ^ 64
  bytes_eq := by
    rw [cache.bytes_eq, totalCost_append]
    rfl

/-- Keep `event` at `row` and `column`. A transmission with no display, or one the renderer
cannot draw, is not cached; one with the id of a cached image replaces it. -/
def insert (event : ImageEvent) (row column : Nat) : ImageCache :=
  if !event.display || !event.isRenderable then cache
  else
    match event.rgba with
    | none => cache
    | some rgba =>
      if 0 < cache.maxBytes ∧ cache.maxBytes < event.payload.length + rgba.length then cache
      else
        let cache := cache.remove event.id
        enforceBounds (cache.pushBack {
          id := event.id
          format := event.format
          width := event.width
          height := event.height
          payload := event.payload
          rgba
          row
          column
          columns := event.columns
          rows := event.rows
          sequence := cache.nextSequence })

/-- Every cached image whose absolute row is inside the viewport, mapped to viewport rows. -/
def visible (history displayOffset screenLines : Nat) : List ImagePlacement :=
  let top := history - displayOffset
  let bottom := top + screenLines
  (cache.images.filter fun image => top ≤ image.row ∧ image.row < bottom).map fun image =>
    { id := image.id
      format := image.format
      width := image.width
      height := image.height
      row := image.row - top
      column := image.column
      columns := image.columns
      rows := image.rows
      rgba := image.rgba
      sequence := image.sequence }

theorem clear_of_empty {cache : ImageCache} (h : cache.images = []) : cache.clear = cache := by
  obtain ⟨images, maxImages, maxBytes, bytes, nextSequence, hbytes⟩ := cache
  obtain rfl : images = [] := h
  obtain rfl : bytes = 0 := hbytes
  rfl

end ImageCache

/-- The VT parser with its grid: what the screen asks of it. -/
structure Vt (T : Type) where
  advance : T → List UInt8 → T
  altScreen : T → Bool
  totalLines : T → Nat
  screenLines : T → Nat
  displayOffset : T → Nat
  cursorLine : T → Int
  cursorColumn : T → Nat

/-- Bytes are parsed the same in one call and in two. -/
def Vt.ChunkInvariant {T : Type} (vt : Vt T) : Prop :=
  ∀ term xs ys, vt.advance term (xs ++ ys) = vt.advance (vt.advance term xs) ys

structure Screen (T : Type) where
  term : T
  screenLines : Nat
  imageTap : ImageTap
  images : ImageCache
  /-- Once frozen, further bytes are discarded instead of being interpreted. -/
  frozen : Bool
  droppedBytes : Nat
  revision : Nat

namespace Screen

variable {T : Type} (vt : Vt T) (png : List UInt8 → Option (Nat × Nat × List UInt8))

def new (term : T) (screenLines : Nat) : Screen T where
  term
  screenLines
  imageTap := .new
  images := .new defaultImageCacheImages defaultImageCacheBytes
  frozen := false
  droppedBytes := 0
  revision := 0

variable (screen : Screen T)

def isAltScreen : Bool := vt.altScreen screen.term

def historySize : Nat := vt.totalLines screen.term - vt.screenLines screen.term

/-- The anchor of an image: an absolute content row and a column. -/
def placementCell : Nat × Nat :=
  (screen.historySize vt + (max (vt.cursorLine screen.term) 0).toNat,
    vt.cursorColumn screen.term)

def advance (bytes : List UInt8) : Screen T :=
  let altScreen := screen.isAltScreen vt
  let screen := { screen with term := vt.advance screen.term bytes }
  if screen.isAltScreen vt ≠ altScreen then { screen with images := screen.images.clear }
  else screen

def deleteImages (delete : ImageDelete) : Screen T :=
  match delete with
  | .image id => { screen with images := screen.images.remove id }
  | .all | .allPlacements => { screen with images := screen.images.clear }

/-- One chunk of what the tap found. -/
def perform (chunk : ImageChunk) : Screen T :=
  match chunk with
  | .bytes bytes => screen.advance vt bytes
  | .image event =>
    let (row, column) := screen.placementCell vt
    { screen with images := screen.images.insert event row column }
  | .delete delete => screen.deleteImages delete

/-- Feed bytes from the PTY. A frozen screen ignores them. -/
def feed (bytes : List UInt8) : Screen T :=
  if screen.frozen then { screen with droppedBytes := screen.droppedBytes + bytes.length }
  else
    let (imageTap, chunks) := screen.imageTap.tap png bytes
    let screen := chunks.foldl (perform vt) { screen with imageTap }
    { screen with revision := (screen.revision + 1) % 2 ^ 64 }

def placements : List ImagePlacement :=
  screen.images.visible (screen.historySize vt) (vt.displayOffset screen.term) screen.screenLines

/-- Two screens agree on the grid (cells, cursor, scrollback) and on the image placements, those
the viewport has scrolled past included. -/
def Agree (a b : Screen T) : Prop := a.term = b.term ∧ a.images.images = b.images.images

theorem Agree.placements_eq {a b : Screen T} (h : Agree a b)
    (hlines : a.screenLines = b.screenLines) : a.placements vt = b.placements vt := by
  rw [placements, placements, historySize, historySize, h.1, hlines, ImageCache.visible, h.2]
  rfl

end Screen

end Goble.Terminal
