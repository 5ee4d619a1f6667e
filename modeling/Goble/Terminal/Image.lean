import Goble.Lib.Base64
import Goble.Terminal.Sixel

/-!
# In-band images

`ImageTap` lifts kitty graphics (an `APC` string) and sixel (a `DCS` string) out of the bytes of
the PTY and passes everything else through. A text is the list of its UTF-8 bytes here, since the
tap only ever cuts it at ASCII characters. The PNG decoder is a parameter.
-/

namespace Goble.Terminal

/-- Images a pane keeps unless the caller configures another bound. -/
def defaultImageCacheImages : Nat := 32

/-- Decoded bytes a pane keeps unless the caller configures another bound. -/
def defaultImageCacheBytes : Nat := 32 * 1024 * 1024

/-- The largest sequence the tap buffers before abandoning it. -/
def maxSequenceBytes : Nat := 16 * 1024 * 1024

def maxImagePixels : Nat := 8000000

/-- Which protocol and pixel encoding an image arrived in. -/
inductive ImageFormat where
  | kittyPng
  | kittyRgb
  | kittyRgba
  | sixel
deriving DecidableEq, Repr

structure ImageEvent where
  id : Nat
  format : ImageFormat
  width : Nat
  height : Nat
  payload : List UInt8
  rgba : Option (List UInt8)
  columns : Option Nat
  rows : Option Nat
  /-- Whether the sequence displays the image, not only transmits it. -/
  display : Bool
deriving DecidableEq, Repr

def ImageEvent.isRenderable (event : ImageEvent) : Bool :=
  event.rgba.any fun rgba => rgba.length = event.width * event.height * 4 % 2 ^ 64

/-- A kitty delete request, in the terms the cache understands. -/
inductive ImageDelete where
  | image (id : Nat)
  /-- Every placement, keeping transmitted pixels for a later `a=p`. -/
  | allPlacements
  | all
deriving DecidableEq, Repr

inductive ImageChunk where
  | bytes (bytes : List UInt8)
  | image (event : ImageEvent)
  | delete (delete : ImageDelete)
deriving DecidableEq, Repr

inductive BodyKind where
  | apc
  | dcs
deriving DecidableEq, Repr

def BodyKind.intro : BodyKind → List UInt8
  | .apc => [0x1b, 0x5f]
  | .dcs => [0x1b, 0x50]

namespace ImageTap

def esc : UInt8 := 0x1b

def bel : UInt8 := 0x07

def stFinal : UInt8 := 0x5c

inductive State where
  | ground
  /-- Saw `ESC`; the next byte decides whether this is an `APC` or a `DCS`. -/
  | escape
  /-- Collecting a string body up to `ESC \`. -/
  | body (kind : BodyKind) (body : List UInt8) (esc : Bool)
deriving DecidableEq, Repr

end ImageTap

/-- A chunked transmission that has not ended. -/
structure PendingKitty where
  id : Nat
  control : List UInt8
  payload : List UInt8
deriving DecidableEq, Repr

/-- A transmission the tap keeps so a later kitty `a=p` can place it. -/
structure StoredImage where
  event : ImageEvent
  bytes : Nat
deriving DecidableEq, Repr

/-- Splits PTY bytes into pass-through chunks and decoded images. -/
structure ImageTap where
  state : ImageTap.State
  nextId : Nat
  pending : Option PendingKitty
  stored : List StoredImage
  storedBytes : Nat
  dropped : Nat
deriving DecidableEq, Repr

inductive KittyOutcome where
  | image (event : ImageEvent)
  | delete (delete : ImageDelete)
  /-- A query, deliberately left unanswered. -/
  | ignored
  /-- A chunked transmission is waiting for its successor. -/
  | pending
  /-- Malformed or unsupported; counted as dropped. -/
  | dropped
deriving DecidableEq, Repr

/-! ### Control data -/

def controlFields (control : List UInt8) : List (UInt8 × List UInt8) :=
  (Text.split 0x2c control).foldl (fun fields pair =>
    match Text.splitOnce 0x3d pair with
    | some ([key], value) => (key, value) :: fields
    | _ => fields) []

namespace Kitty

def splitBody (body : List UInt8) : Option (List UInt8 × List UInt8) :=
  match Text.splitOnce 0x3b body with
  | some (control, payload) =>
    if Text.isUtf8 control ∧ Text.isUtf8 payload then some (control, payload) else none
  | none => if Text.isUtf8 body then some (body, []) else none

variable (control : List UInt8)

def number (key : UInt8) (bound : Nat) : Option Nat :=
  ((controlFields control).lookup key).bind (Text.parseUnsigned bound)

/-- The first character of `a`. An action is an ASCII letter; the first byte of any other
character is none of them. -/
def action : Option UInt8 := ((controlFields control).lookup 0x61).bind List.head?

/-- `m=1`: another chunk follows. -/
def more : Bool := (controlFields control).lookup 0x6d = some [0x31]

/-- `i`, zero when there is none. -/
def imageId : Nat := (number control 0x69 (2 ^ 32)).getD 0

/-- `c` and `r`, when positive. -/
def cells (key : UInt8) : Option Nat := (number control key (2 ^ 64)).filter (0 < ·)

/-- The encoding `f` names. -/
def format : Option ImageFormat :=
  match number control 0x66 (2 ^ 32) with
  | some 100 => some .kittyPng
  | some 24 => some .kittyRgb
  | some 32 | none => some .kittyRgba
  | _ => none

end Kitty

def fromBeBytes (bytes : List UInt8) : Nat := bytes.foldl (fun n byte => n * 256 + byte.toNat) 0

/-- Three bytes a pixel, with full opacity added. -/
def opaqueTriples : List UInt8 → List UInt8
  | r :: g :: b :: rest => r :: g :: b :: 255 :: opaqueTriples rest
  | _ => []

namespace ImageTap

def new : ImageTap := ⟨.ground, 1, none, [], 0, 0⟩

variable (png : List UInt8 → Option (Nat × Nat × List UInt8))

/-- The dimensions and pixels of a transmission, from its decoded payload. The product of the
declared dimensions is a `usize`. -/
def decodePixels (control payload : List UInt8) : ImageFormat → Option (Nat × Nat × List UInt8)
  | .kittyPng =>
    if payload.length < 24 ∨ payload.take 8 ≠ [0x89, 0x50, 0x4e, 0x47, 0x0d, 0x0a, 0x1a, 0x0a] then
      none
    else
      let width := fromBeBytes ((payload.drop 16).take 4)
      let height := fromBeBytes ((payload.drop 20).take 4)
      if width = 0 ∨ height = 0 ∨ maxImagePixels < width * height then none else png payload
  | .kittyRgb =>
    let width := (Kitty.number control 0x73 (2 ^ 32)).getD 0
    let height := (Kitty.number control 0x76 (2 ^ 32)).getD 0
    let expected := width * height * 3 % 2 ^ 64
    if width = 0 ∨ height = 0 ∨ payload.length < expected then none
    else some (width, height, opaqueTriples (payload.take expected))
  | .kittyRgba =>
    let width := (Kitty.number control 0x73 (2 ^ 32)).getD 0
    let height := (Kitty.number control 0x76 (2 ^ 32)).getD 0
    let expected := width * height * 4 % 2 ^ 64
    if width = 0 ∨ height = 0 ∨ payload.length < expected then none
    else some (width, height, payload.take expected)
  | .sixel => none

variable (tap : ImageTap)

/-- The id a sequence names, or the next free one. -/
def takeId (wanted : Option Nat) : ImageTap × Nat :=
  match wanted.filter (· ≠ 0) with
  | some id => ({ tap with nextId := max tap.nextId (min (id + 1) (2 ^ 32 - 1)) }, id)
  | none => ({ tap with nextId := max ((tap.nextId + 1) % 2 ^ 32) 1 }, tap.nextId)

def popStored : ImageTap :=
  match tap.stored with
  | stored :: rest => { tap with stored := rest, storedBytes := tap.storedBytes - stored.bytes }
  | [] => tap

def removeStored (id : Nat) : ImageTap :=
  match tap.stored.find? fun stored => stored.event.id = id with
  | some old =>
    { tap with
      stored := tap.stored.eraseP fun stored => stored.event.id = id
      storedBytes := tap.storedBytes - old.bytes }
  | none => tap

def clearStored : ImageTap := { tap with stored := [], storedBytes := 0 }

def evictCount : Nat → ImageTap → ImageTap
  | 0, tap => tap
  | rounds + 1, tap =>
    if defaultImageCacheImages < tap.stored.length then evictCount rounds tap.popStored else tap

def evictBytes : Nat → ImageTap → ImageTap
  | 0, tap => tap
  | rounds + 1, tap =>
    if defaultImageCacheBytes < tap.storedBytes ∧ 1 < tap.stored.length then
      evictBytes rounds tap.popStored
    else tap

def store (event : ImageEvent) : ImageTap :=
  let bytes := event.payload.length + (event.rgba.map List.length).getD 0
  if defaultImageCacheBytes < bytes then tap
  else
    let tap := tap.removeStored event.id
    let tap := { tap with
      stored := tap.stored ++ [⟨event, bytes⟩]
      storedBytes := tap.storedBytes + bytes }
    let tap := evictCount tap.stored.length tap
    evictBytes tap.stored.length tap

def deleteImage (control : List UInt8) (id : Nat) : ImageTap × KittyOutcome :=
  match ((controlFields control).lookup 0x64).bind List.head? with
  | some 0x61 => (tap.clearStored, .delete .all)
  | some 0x41 => (tap, .delete .allPlacements)
  | some 0x49 | some 0x50 | some 0x70 =>
    if id = 0 then (tap, .ignored) else (tap, .delete (.image id))
  | some 0x69 | none =>
    if id = 0 then (tap.clearStored, .delete .all) else (tap.removeStored id, .delete (.image id))
  | some _ => (tap, .dropped)

/-- Display pixels transmitted earlier, with the geometry of the request where it has one. -/
def placeStored (control : List UInt8) (id : Nat) : KittyOutcome :=
  match tap.stored.find? fun stored => stored.event.id = id with
  | none => .dropped
  | some stored =>
    .image { stored.event with
      display := true
      columns := (Kitty.cells control 0x63).or stored.event.columns
      rows := (Kitty.cells control 0x72).or stored.event.rows }

def decodeTransmission (control payload : List UInt8) (display : Bool) : Option ImageEvent := do
  let format ← Kitty.format control
  let payload ← Base64.ofDigits (payload.map Char.ofUInt8)
  if maxSequenceBytes < payload.length then none
  else
    let (width, height, rgba) ← decodePixels png control payload format
    some {
      id := 0
      format
      width
      height
      payload
      rgba := some rgba
      columns := Kitty.cells control 0x63
      rows := Kitty.cells control 0x72
      display }

/-- Pixels arrived: they are decoded, given an id and kept for a later `a=p`. -/
def transmit (control payload : List UInt8) (display : Bool) (requestedId : Nat) :
    ImageTap × KittyOutcome :=
  match decodeTransmission png control payload display with
  | none => (tap, .dropped)
  | some event =>
    let (tap, id) := tap.takeId (some requestedId)
    let event := { event with id }
    (tap.store event, .image event)

/-- A complete command: all the chunks of a transmission, or one that had no chunks. -/
def runKitty (action : Option UInt8) (control payload : List UInt8) (requestedId : Nat) :
    ImageTap × KittyOutcome :=
  match action with
  | some 0x64 => tap.deleteImage control requestedId
  | some 0x71 => (tap, .ignored)
  | some 0x70 => (tap, tap.placeStored control requestedId)
  | none | some 0x74 => tap.transmit png control payload false requestedId
  | some 0x54 => tap.transmit png control payload true requestedId
  | some _ => (tap, .dropped)

/-- The last chunk of a transmission takes its control text and payload from the chunks before. -/
def joinPending (control payload : List UInt8) : List UInt8 × List UInt8 :=
  match tap.pending with
  | some pending => (pending.control, pending.payload ++ payload)
  | none => (control, payload)

def parseKitty (body : List UInt8) : ImageTap × KittyOutcome :=
  match body with
  | 0x47 :: body =>
    match Kitty.splitBody body with
    | none => (tap, .dropped)
    | some (control, payload) =>
      let id := Kitty.imageId control
      if Kitty.more control then
        match tap.pending with
        | some pending =>
          ({ tap with pending := some { pending with payload := pending.payload ++ payload } },
            .pending)
        | none => ({ tap with pending := some ⟨id, control, payload⟩ }, .pending)
      else
        let (first, payload) := tap.joinPending control payload
        runKitty png { tap with pending := none } ((Kitty.action control).or (Kitty.action first))
          first payload (max id (Kitty.imageId first))
  | _ => (tap, .dropped)

section Scan

variable {png} {tap}

/-- What the images themselves have no part in. -/
def scan (tap : ImageTap) : State × Option PendingKitty × Nat :=
  (tap.state, tap.pending, tap.dropped)

@[simp] theorem takeId_scan (wanted : Option Nat) : (tap.takeId wanted).1.scan = tap.scan := by
  rw [takeId]
  split <;> rfl

@[simp] theorem popStored_scan : tap.popStored.scan = tap.scan := by
  rw [popStored]
  split <;> rfl

@[simp] theorem removeStored_scan (id : Nat) : (tap.removeStored id).scan = tap.scan := by
  rw [removeStored]
  split <;> rfl

@[simp] theorem evictCount_scan (rounds : Nat) (tap : ImageTap) :
    (evictCount rounds tap).scan = tap.scan := by
  fun_induction evictCount rounds tap with
  | case1 => rfl
  | case2 _ _ _ ih => rw [ih, popStored_scan]
  | case3 => rfl

@[simp] theorem evictBytes_scan (rounds : Nat) (tap : ImageTap) :
    (evictBytes rounds tap).scan = tap.scan := by
  fun_induction evictBytes rounds tap with
  | case1 => rfl
  | case2 _ _ _ ih => rw [ih, popStored_scan]
  | case3 => rfl

@[simp] theorem store_scan (event : ImageEvent) : (tap.store event).scan = tap.scan := by
  simp only [store]
  split
  · rfl
  · rw [evictBytes_scan, evictCount_scan]
    exact removeStored_scan event.id

theorem deleteImage_scan (control : List UInt8) (id : Nat) :
    (tap.deleteImage control id).1.scan = tap.scan := by
  unfold deleteImage
  split <;> first | rfl | (split <;> first | rfl | exact removeStored_scan id)

theorem transmit_scan (control payload : List UInt8) (display : Bool) (id : Nat) :
    (tap.transmit png control payload display id).1.scan = tap.scan := by
  unfold transmit
  split
  · rfl
  · rw [store_scan, takeId_scan]

/-- A complete command has no part in the scanning. -/
theorem runKitty_scan (action : Option UInt8) (control payload : List UInt8) (id : Nat) :
    (tap.runKitty png action control payload id).1.scan = tap.scan := by
  unfold runKitty
  split
  · exact deleteImage_scan control id
  · rfl
  · rfl
  · exact transmit_scan control payload false id
  · exact transmit_scan control payload false id
  · exact transmit_scan control payload true id
  · rfl

theorem parseKitty_state (body : List UInt8) : (tap.parseKitty png body).1.state = tap.state := by
  unfold parseKitty
  split
  · split
    · rfl
    · simp only
      split
      · split <;> rfl
      · exact congrArg Prod.fst (runKitty_scan _ _ _ _)
  · rfl

end Scan

/-! ### The scanner -/

def pushBytes : List ImageChunk → List UInt8 → List ImageChunk
  | [.bytes existing], bytes => [.bytes (existing ++ bytes)]
  | chunk :: next :: out, bytes => chunk :: pushBytes (next :: out) bytes
  | out, bytes => out ++ [.bytes bytes]

/-- A string has ended. The answer is what it is replaced by. -/
def finishBody (kind : BodyKind) (body : List UInt8) : ImageTap × Option ImageChunk :=
  let tap := { tap with state := .ground }
  let passed : ImageChunk := .bytes (kind.intro ++ body ++ [esc, stFinal])
  match kind with
  | .apc =>
    if body.head? = some 0x47 then
      let (tap, outcome) := tap.parseKitty png body
      match outcome with
      | .image event => (tap, some (.image event))
      | .delete delete => (tap, some (.delete delete))
      | .ignored | .pending => (tap, none)
      | .dropped => ({ tap with dropped := tap.dropped + 1 }, none)
    else (tap, some passed)
  | .dcs =>
    match sixelPayload body with
    | some data =>
      match decodeSixel data with
      | some (width, height, rgba) =>
        let (tap, id) := tap.takeId none
        (tap, some (.image {
          id
          format := .sixel
          width
          height
          payload := data
          rgba := some rgba
          columns := none
          rows := none
          display := true }))
      | none => ({ tap with dropped := tap.dropped + 1 }, none)
    | none => (tap, some passed)

def step (out : List ImageChunk) (byte : UInt8) : ImageTap × List ImageChunk :=
  match tap.state with
  | .ground =>
    if byte = esc then ({ tap with state := .escape }, out) else (tap, pushBytes out [byte])
  | .escape =>
    if byte = 0x5f then ({ tap with state := .body .apc [] false }, out)
    else if byte = 0x50 then ({ tap with state := .body .dcs [] false }, out)
    -- `ESC ESC` leaves the first escape alone and keeps looking
    else if byte = esc then (tap, pushBytes out [esc])
    else ({ tap with state := .ground }, pushBytes out [esc, byte])
  | .body kind body true =>
    if byte = stFinal then
      let (tap, chunk) := tap.finishBody png kind body
      (tap, out ++ chunk.toList)
    else
      -- an unescaped `ESC` inside a string: the held bytes are handed back
      ({ tap with state := .ground }, out ++ [.bytes (kind.intro ++ body ++ [esc, byte])])
  | .body kind body false =>
    if byte = esc then ({ tap with state := .body kind body true }, out)
    else if kind = .apc ∧ byte = bel then
      let (tap, chunk) := tap.finishBody png kind body
      (tap, out ++ chunk.toList)
    else if maxSequenceBytes < (body ++ [byte]).length then
      let tap := { tap with state := .ground, dropped := tap.dropped + 1 }
      -- an `APC` that grew past the cap is not an image we can render
      if kind = .dcs then (tap, out ++ [.bytes (kind.intro ++ (body ++ [byte]))]) else (tap, out)
    else ({ tap with state := .body kind (body ++ [byte]) false }, out)

def feedBytes (tap : ImageTap) (out : List ImageChunk) : List UInt8 → ImageTap × List ImageChunk
  | [] => (tap, out)
  | byte :: input =>
    let (tap, out) := tap.step png out byte
    feedBytes tap out input

/-- Release bytes held back at the end of a stream. -/
def flush : ImageTap × List ImageChunk :=
  let dropped := if tap.pending.isSome then tap.dropped + 1 else tap.dropped
  ({ tap with state := .ground, pending := none, dropped },
    match tap.state with
    | .ground => []
    | .escape => [.bytes [esc]]
    | .body kind body _ => [.bytes (kind.intro ++ body)])

end ImageTap

/-- Split `input` into ordered pass-through bytes and images. -/
def ImageTap.tap (png : List UInt8 → Option (Nat × Nat × List UInt8)) (tap : ImageTap)
    (input : List UInt8) : ImageTap × List ImageChunk :=
  feedBytes png tap [] input

end Goble.Terminal
