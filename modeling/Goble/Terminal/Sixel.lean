import Goble.Lib.Text
import Mathlib.Algebra.Ring.Nat

/-!
# Sixel data

The decoder of the palette bitmap a `DCS` string carries. `none` is every way it gives up: a
number is missing, or the picture has nothing drawn in it or would be too large.
-/

namespace Goble.Terminal

/-- A cap on either dimension the sixel decoder will materialise. -/
def maxSixelDimension : Nat := 16384

def maxSixelPixels : Nat := 8000000

structure Rgba where
  r : UInt8
  g : UInt8
  b : UInt8
  a : UInt8
deriving DecidableEq, Repr

def Rgba.bytes (pixel : Rgba) : List UInt8 := [pixel.r, pixel.g, pixel.b, pixel.a]

namespace Sixel

def transparent : Rgba := ⟨0, 0, 0, 0⟩

/-- The default VT340 palette, used until a sixel stream defines its own colours. -/
def defaultPalette : List (Nat × Rgba) :=
  ([(0, 0, 0), (205, 0, 0), (0, 205, 0), (205, 205, 0), (0, 0, 238), (205, 0, 205),
    (0, 205, 205), (229, 229, 229), (127, 127, 127), (255, 0, 0), (0, 255, 0), (255, 255, 0),
    (92, 92, 255), (255, 0, 255), (0, 255, 255), (255, 255, 255)] :
      List (UInt8 × UInt8 × UInt8)).mapIdx fun index (r, g, b) => (index, ⟨r, g, b, 255⟩)

/-- The digits at the front, saturating at the largest `u32`. -/
def takeNumber (value : Nat) : List UInt8 → Nat × List UInt8
  | [] => (value, [])
  | byte :: rest =>
    if Text.isAsciiDigit byte then
      takeNumber (min (min (value * 10) (2 ^ 32 - 1) + (byte.toNat - 0x30)) (2 ^ 32 - 1)) rest
    else (value, byte :: rest)

def parseNumber (data : List UInt8) : Option (Nat × List UInt8) :=
  match data with
  | [] => none
  | byte :: _ => if Text.isAsciiDigit byte then some (takeNumber 0 data) else none

theorem length_takeNumber (value : Nat) (data : List UInt8) :
    (takeNumber value data).2.length ≤ data.length := by
  induction data generalizing value with
  | nil => exact Nat.le_refl 0
  | cons byte rest ih =>
    rw [takeNumber]
    split
    · exact Nat.le_succ_of_le (ih _)
    · exact Nat.le_refl _

theorem length_parseNumber {data rest : List UInt8} {value : Nat}
    (h : parseNumber data = some (value, rest)) : rest.length < data.length := by
  cases data with
  | nil => cases h
  | cons byte data =>
    rw [parseNumber] at h
    split at h
    · next hdigit =>
      rw [takeNumber, if_pos hdigit] at h
      have hle := length_takeNumber (min (min (0 * 10) (2 ^ 32 - 1) + (byte.toNat - 0x30))
        (2 ^ 32 - 1)) data
      rw [Option.some.inj h] at hle
      exact Nat.lt_succ_of_le hle
    · cases h

/-- The numbers of a `;` list, at most `limit` of them. The `;` after the last one that is read
is taken as well. -/
def parseNumbers : Nat → List UInt8 → Option (List Nat × List UInt8)
  | 0, data => some ([], data)
  | limit + 1, data =>
    match parseNumber data with
    | none => none
    | some (value, 0x3b :: rest) =>
      (parseNumbers limit rest).map fun (values, rest) => (value :: values, rest)
    | some (value, rest) => some ([value], rest)

theorem length_parseNumbers {limit : Nat} {data rest : List UInt8} {values : List Nat}
    (h : parseNumbers limit data = some (values, rest)) : rest.length ≤ data.length := by
  induction limit generalizing data values with
  | zero =>
    obtain ⟨-, rfl⟩ := Prod.mk.inj (Option.some.inj h)
    exact Nat.le_refl _
  | succ limit ih =>
    rw [parseNumbers] at h
    split at h
    · cases h
    · next value after hnumber =>
      obtain ⟨⟨values', rest'⟩, hmore, hrest⟩ := Option.map_eq_some_iff.mp h
      obtain ⟨-, rfl⟩ := Prod.mk.inj hrest
      have hlt := length_parseNumber hnumber
      have hle := ih hmore
      simp only [List.length_cons] at hlt
      omega
    · next value after hnumber =>
      obtain ⟨-, rfl⟩ := Prod.mk.inj (Option.some.inj h)
      exact Nat.le_of_lt (length_parseNumber hnumber)

end Sixel

/-- What has been drawn. -/
structure SixelRaster where
  rows : List (List Rgba) := []
  maxX : Option Nat := none
  maxY : Option Nat := none
deriving Repr

namespace SixelRaster

def paint (line : List Rgba) (x : Nat) (color : Rgba) : List Rgba :=
  (line ++ List.replicate (x + 1 - line.length) Sixel.transparent).set x color

/-- One of the six rows of a band. -/
def drawRow (x repeats row : Nat) (color : Rgba) (raster : SixelRaster) : Option SixelRaster :=
  if maxSixelDimension ≤ row then none
  else
    let rows := raster.rows ++ List.replicate (row + 1 - raster.rows.length) []
    let rows := rows.modify row fun line =>
      (List.range repeats).foldl (fun line offset => paint line (x + offset) color) line
    some { raster with rows, maxY := some (max (raster.maxY.getD row) row) }

def draw (raster : SixelRaster) (x y : Nat) (sixel : UInt8) (repeats : Nat)
    (palette : List (Nat × Rgba)) (current : Nat) : Option SixelRaster := do
  let bits := sixel - 0x3f
  let color := (palette.lookup current).getD ⟨0, 0, 0, 255⟩
  if maxSixelDimension < x + repeats ∨ maxSixelPixels < (x + repeats) * (y + 6) then none
  else
    let raster ← (List.range 6).foldlM (fun raster offset =>
      if bits &&& (1 <<< UInt8.ofNat offset) = 0 then some raster
      else drawRow x repeats (y + offset) color raster) raster
    if bits ≠ 0 then
      some { raster with maxX := some (max (raster.maxX.getD (x + repeats - 1)) (x + repeats - 1)) }
    else some raster

end SixelRaster

namespace Sixel

/-- Where the decoder stands. -/
structure Pen where
  palette : List (Nat × Rgba) := defaultPalette
  current : Nat := 0
  raster : SixelRaster := {}
  x : Nat := 0
  y : Nat := 0

/-- The colour register a `#` names becomes the current one, and with five numbers is defined.
The numbers are cut to `u16`. -/
def Pen.select (pen : Pen) (values : List Nat) : Pen :=
  let toByte (value : Nat) : UInt8 := UInt8.ofNat (min value 100 * 255 / 100)
  match values.map (· % 2 ^ 16) with
  | register :: _ :: r :: g :: b :: _ =>
    { pen with
      current := register
      palette := (register, ⟨toByte r, toByte g, toByte b, 255⟩) :: pen.palette }
  | register :: _ => { pen with current := register }
  | [] => pen

def Pen.draw (pen : Pen) (sixel : UInt8) (repeats : Nat) : Option Pen :=
  (pen.raster.draw pen.x pen.y sixel repeats pen.palette pen.current).map fun raster =>
    { pen with raster, x := pen.x + repeats }

def isSixel (byte : UInt8) : Bool := 0x3f ≤ byte && byte ≤ 0x7e

def loop (pen : Pen) (data : List UInt8) : Option Pen :=
  match data with
  | [] => some pen
  | byte :: rest =>
    if byte = 0x21 then
      -- `!`: repeat the next sixel
      match h : parseNumber rest with
      | none => none
      | some (_, []) => some pen
      | some (count, sixel :: rest') =>
        have : rest'.length < rest.length := by
          have := length_parseNumber h
          simp only [List.length_cons] at this
          omega
        if isSixel sixel then
          match pen.draw sixel (min (max count 1) maxSixelDimension) with
          | none => none
          | some pen => loop pen rest'
        else loop pen rest'
    else if byte = 0x23 then
      -- `#`: select or define a colour
      match h : parseNumbers (rest.length + 1) rest with
      | none => none
      | some (values, rest') =>
        have : rest'.length ≤ rest.length := length_parseNumbers h
        loop (pen.select values) rest'
    else if byte = 0x22 then
      -- the raster attributes, of which only the height is looked at
      match h : parseNumbers 4 rest with
      | none => none
      | some (values, rest') =>
        have : rest'.length ≤ rest.length := length_parseNumbers h
        if values[3]?.any (maxSixelDimension < ·) then none else loop pen rest'
    else if byte = 0x24 then loop { pen with x := 0 } rest
    else if byte = 0x2d then
      if maxSixelDimension ≤ pen.y + 6 then none else loop { pen with x := 0, y := pen.y + 6 } rest
    else if isSixel byte then
      match pen.draw byte 1 with
      | none => none
      | some pen => loop pen rest
    else loop pen rest
termination_by data.length

section Loop

variable (pen : Pen) {rest rest' : List UInt8} {count : Nat} {byte sixel : UInt8}

theorem loop_repeat_none (h : parseNumber rest = none) : loop pen (0x21 :: rest) = none := by
  rw [loop, if_pos rfl]
  split
  · rfl
  · next heq => cases h.symm.trans heq
  · next heq => cases h.symm.trans heq

theorem loop_repeat_nil (h : parseNumber rest = some (count, [])) :
    loop pen (0x21 :: rest) = some pen := by
  rw [loop, if_pos rfl]
  split
  · next heq => cases h.symm.trans heq
  · rfl
  · next heq => cases h.symm.trans heq

theorem loop_repeat (h : parseNumber rest = some (count, sixel :: rest')) :
    loop pen (0x21 :: rest) =
      if isSixel sixel then
        (pen.draw sixel (min (max count 1) maxSixelDimension)).bind (loop · rest')
      else loop pen rest' := by
  rw [loop, if_pos rfl]
  split
  · next heq => cases h.symm.trans heq
  · next heq => cases h.symm.trans heq
  · next heq =>
    cases h.symm.trans heq
    congr 1
    cases pen.draw sixel (min (max count 1) maxSixelDimension) with
    | none => rfl
    | some pen => rfl

theorem loop_select (rest : List UInt8) :
    loop pen (0x23 :: rest) =
      (parseNumbers (rest.length + 1) rest).bind fun numbers =>
        loop (pen.select numbers.1) numbers.2 := by
  rw [loop, if_neg (by decide), if_pos rfl]
  split
  · next heq => rw [heq, Option.bind_none]
  · next values rest' heq =>
    show loop (pen.select values) rest' = _
    rw [heq, Option.bind_some]

theorem loop_attributes (rest : List UInt8) :
    loop pen (0x22 :: rest) =
      (parseNumbers 4 rest).bind fun numbers =>
        if numbers.1[3]?.any (maxSixelDimension < ·) then none else loop pen numbers.2 := by
  rw [loop, if_neg (by decide), if_neg (by decide), if_pos rfl]
  split
  · next heq => rw [heq, Option.bind_none]
  · next values rest' heq =>
    show (if values[3]?.any _ then none else loop pen rest') = _
    rw [heq, Option.bind_some]

theorem loop_return (rest : List UInt8) :
    loop pen (0x24 :: rest) = loop { pen with x := 0 } rest := by
  rw [loop, if_neg (by decide), if_neg (by decide), if_neg (by decide), if_pos rfl]

theorem loop_band (rest : List UInt8) :
    loop pen (0x2d :: rest) =
      if maxSixelDimension ≤ pen.y + 6 then none
      else loop { pen with x := 0, y := pen.y + 6 } rest := by
  rw [loop, if_neg (by decide), if_neg (by decide), if_neg (by decide), if_neg (by decide),
    if_pos rfl]

theorem loop_other (rest : List UInt8) (hrepeat : byte ≠ 0x21) (hselect : byte ≠ 0x23)
    (hattributes : byte ≠ 0x22) (hreturn : byte ≠ 0x24) (hband : byte ≠ 0x2d) :
    loop pen (byte :: rest) =
      if isSixel byte then (pen.draw byte 1).bind (loop · rest) else loop pen rest := by
  rw [loop, if_neg hrepeat, if_neg hselect, if_neg hattributes, if_neg hreturn, if_neg hband]
  congr 1
  cases pen.draw byte 1 with
  | none => rfl
  | some pen => rfl

end Loop

end Sixel

def decodeSixel (data : List UInt8) : Option (Nat × Nat × List UInt8) := do
  let pen ← Sixel.loop {} data
  match pen.raster.maxX, pen.raster.maxY with
  | some maxX, some maxY =>
    let width := maxX + 1
    let height := maxY + 1
    if maxSixelDimension < width ∨ maxSixelDimension < height then none
    else
      let pixels := (pen.raster.rows.take height).flatMap fun row =>
        (List.range width).map fun x => row[x]?.getD Sixel.transparent
      some (width, height, pixels.flatMap Rgba.bytes)
  | _, _ => none

def sixelPayload (body : List UInt8) : Option (List UInt8) :=
  match Text.splitOnce 0x71 body with
  | some (parameters, data) =>
    if parameters.all fun byte => Text.isAsciiDigit byte || byte = 0x3b then some data else none
  | none => none

end Goble.Terminal
