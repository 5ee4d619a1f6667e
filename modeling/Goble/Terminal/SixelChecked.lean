import Goble.Lib.Checked
import Goble.Terminal.Sixel

/-!
# The sixel decoder does not panic

`Goble.Terminal.Sixel` reads the data from the front and works on plain numbers. Here is the decoder
with the position it keeps into the data, its `usize`, `u32` and `u8` arithmetic and its indexing,
where `none` is a panic. It never comes to one, and decodes the same.
-/

namespace Goble.Terminal

namespace Sixel

/-! ### The decoder -/

/-- The loop of `parse_number`: the value and the position after it. -/
def takeNumberAt (data : List UInt8) : Nat → Nat → Nat → Option (Nat × Nat)
  | 0, _, _ => none
  | turns + 1, value, index =>
    match data[index]? with
    | none => some (value, index)
    | some byte =>
      if Text.isAsciiDigit byte then do
        let digit ← Checked.sub byte.toNat 0x30
        let value := Checked.saturatingAdd 32 (Checked.saturatingMul 32 value 10) digit
        let index ← Checked.add 64 index 1
        takeNumberAt data turns value index
      else some (value, index)

/-- The outer `none` is a panic, the inner one the source's. -/
def parseNumberAt (data : List UInt8) (index : Nat) : Option (Option (Nat × Nat)) := do
  let (value, next) ← takeNumberAt data (data.length + 1) 0 index
  some (if index < next then some (value, next) else none)

def parseNumbersAt (data : List UInt8) : Nat → Nat → Option (Option (List Nat × Nat))
  | 0, index => some (some ([], index))
  | limit + 1, index => do
    match ← parseNumberAt data index with
    | none => some none
    | some (value, next) =>
      if data[next]? = some 0x3b then
        let next ← Checked.add 64 next 1
        let more ← parseNumbersAt data limit next
        some (more.map fun (values, next) => (value :: values, next))
      else some (some ([value], next))

def toByteAt (value : Nat) : Option UInt8 :=
  (Checked.mul 32 (min value 100) 255).map fun n => UInt8.ofNat (n / 100)

def Pen.selectAt (pen : Pen) (values : List Nat) : Option Pen :=
  let values := values.map (· % 2 ^ 16)
  match values.head? with
  | none => some pen
  | some register =>
    if 5 ≤ values.length then do
      let r ← toByteAt (← values[2]?)
      let g ← toByteAt (← values[3]?)
      let b ← toByteAt (← values[4]?)
      some { pen with current := register, palette := (register, ⟨r, g, b, 255⟩) :: pen.palette }
    else some { pen with current := register }

end Sixel

namespace SixelRaster

/-- How long the line is made before the pixel at `x` is set. -/
def lengthAt (line : List Rgba) (x : Nat) : Option Nat :=
  if line.length ≤ x then Checked.add 64 x 1 else some line.length

/-- One turn of the loop over the columns of a stroke. -/
def paintAt (row : Nat) (color : Rgba) (rows : List (List Rgba)) (x : Nat) :
    Option (List (List Rgba)) := do
  let line ← rows[row]?
  let length ← lengthAt line x
  let line := line ++ List.replicate (length - line.length) Sixel.transparent
  let line ← Checked.set line x color
  Checked.set rows row line

def drawRowAt (x repeats row : Nat) (color : Rgba) (raster : SixelRaster) :
    Option (Option SixelRaster) :=
  if maxSixelDimension ≤ row then some none
  else do
    let rows := raster.rows ++ List.replicate (row + 1 - raster.rows.length) []
    let stop ← Checked.add 64 x repeats
    let rows ← (List.range' x (stop - x)).foldlM (paintAt row color) rows
    some (some { raster with rows, maxY := some (max (raster.maxY.getD row) row) })

/-- One turn of the loop over the bits. -/
def drawBitAt (x y repeats : Nat) (bits : UInt8) (color : Rgba) (raster : SixelRaster)
    (offset : Nat) : Option (Option SixelRaster) :=
  if bits &&& (1 <<< UInt8.ofNat offset) = 0 then some (some raster)
  else
    match Checked.add 64 y offset with
    | none => some none
    | some row => drawRowAt x repeats row color raster

def drawAt (raster : SixelRaster) (x y : Nat) (sixel : UInt8) (repeats : Nat)
    (palette : List (Nat × Rgba)) (current : Nat) : Option (Option SixelRaster) :=
  let bits := sixel - 0x3f
  let color := (palette.lookup current).getD ⟨0, 0, 0, 255⟩
  let right := Checked.saturatingAdd 64 x repeats
  if maxSixelDimension < right ∨
      maxSixelPixels < Checked.saturatingMul 64 right (Checked.saturatingAdd 64 y 6) then some none
  else do
    match ← Checked.fold (drawBitAt x y repeats bits color) raster (List.range 6) with
    | none => some none
    | some raster =>
      if bits ≠ 0 then
        let stop ← Checked.add 64 x repeats
        let last ← Checked.sub stop 1
        some (some { raster with maxX := some (max (raster.maxX.getD last) last) })
      else some (some raster)

end SixelRaster

namespace Sixel

/-- What one turn of the loop of `decode_sixel` comes to. -/
inductive Turn where
  | stop
  | go (pen : Pen) (index : Nat)

def Pen.drawAt (pen : Pen) (sixel : UInt8) (repeats index : Nat) : Option (Option Turn) := do
  let drawn ← pen.raster.drawAt pen.x pen.y sixel repeats pen.palette pen.current
  some (drawn.map fun raster =>
    .go { pen with raster, x := Checked.saturatingAdd 64 pen.x repeats } index)

def turnAt (data : List UInt8) (pen : Pen) (index : Nat) : Option (Option Turn) := do
  let byte ← data[index]?
  let index ← Checked.add 64 index 1
  if byte = 0x21 then
    match ← parseNumberAt data index with
    | none => some none
    | some (count, index) =>
      match data[index]? with
      | none => some (some .stop)
      | some sixel =>
        let index ← Checked.add 64 index 1
        if isSixel sixel then pen.drawAt sixel (min (max count 1) maxSixelDimension) index
        else some (some (.go pen index))
  else if byte = 0x23 then
    match ← parseNumbersAt data (data.length - index + 1) index with
    | none => some none
    | some (values, index) =>
      let pen ← pen.selectAt values
      some (some (.go pen index))
  else if byte = 0x22 then
    match ← parseNumbersAt data 4 index with
    | none => some none
    | some (values, index) =>
      if values[3]?.any (maxSixelDimension < ·) then some none else some (some (.go pen index))
  else if byte = 0x24 then some (some (.go { pen with x := 0 } index))
  else if byte = 0x2d then
    let y := Checked.saturatingAdd 64 pen.y 6
    if maxSixelDimension ≤ y then some none else some (some (.go { pen with x := 0, y } index))
  else if isSixel byte then pen.drawAt byte 1 index
  else some (some (.go pen index))

def loopAt (data : List UInt8) : Nat → Pen → Nat → Option (Option Pen)
  | 0, _, _ => none
  | turns + 1, pen, index =>
    if index < data.length then do
      match ← turnAt data pen index with
      | none => some none
      | some .stop => some (some pen)
      | some (.go pen index) => loopAt data turns pen index
    else some (some pen)

end Sixel

def decodeSixelAt (data : List UInt8) : Option (Option (Nat × Nat × List UInt8)) := do
  match ← Sixel.loopAt data (data.length + 1) {} 0 with
  | none => some none
  | some pen =>
    match pen.raster.maxX, pen.raster.maxY with
    | some maxX, some maxY =>
      let width ← Checked.add 64 maxX 1
      let height ← Checked.add 64 maxY 1
      if width = 0 ∨ height = 0 ∨ maxSixelDimension < width ∨ maxSixelDimension < height then
        some none
      else
        let area ← Checked.mul 64 width height
        let _ ← Checked.mul 64 area 4
        let pixels := (pen.raster.rows.take height).flatMap fun row =>
          (List.range width).map fun x => row[x]?.getD Sixel.transparent
        some (some (width, height, pixels.flatMap Rgba.bytes))
    | _, _ => some none

/-! ### It does the same -/

namespace Sixel

variable {data rest : List UInt8} {index : Nat}

theorem le_of_isAsciiDigit {byte : UInt8} (h : Text.isAsciiDigit byte) : 0x30 ≤ byte.toNat :=
  UInt8.le_iff_toNat_le.mp (of_decide_eq_true (Bool.and_eq_true_iff.mp h).1)

theorem takeNumberAt_eq (hdata : data.length < 2 ^ 64) (h : Stands data index rest) (turns : Nat)
    (hturns : rest.length < turns) (value : Nat) :
    ∃ next, takeNumberAt data turns value index = some ((takeNumber value rest).1, next) ∧
      Stands data next (takeNumber value rest).2 := by
  induction rest generalizing index turns value with
  | nil =>
    obtain ⟨turns, rfl⟩ := Nat.exists_eq_add_of_lt hturns
    refine ⟨index, ?_, h⟩
    rw [takeNumberAt, h.get_nil]
    rfl
  | cons byte rest ih =>
    rw [List.length_cons] at hturns
    cases turns with
    | zero => cases hturns
    | succ turns =>
      rw [takeNumberAt, h.get_cons, takeNumber]
      by_cases hdigit : Text.isAsciiDigit byte
      · have hge : 0x30 ≤ byte.toNat := le_of_isAsciiDigit hdigit
        dsimp only
        rw [if_pos hdigit, if_pos hdigit, Checked.sub_eq hge, h.add_one hdata]
        exact ih h.next turns (Nat.lt_of_succ_lt_succ hturns) _
      · dsimp only
        rw [if_neg hdigit, if_neg hdigit]
        exact ⟨index, rfl, h⟩

/-- A number is read at the position as it is from what is still to be read. -/
theorem parseNumberAt_eq (hdata : data.length < 2 ^ 64) (h : Stands data index rest) :
    parseNumber rest = none ∧ parseNumberAt data index = some none ∨
      ∃ value next rest', parseNumber rest = some (value, rest') ∧ Stands data next rest' ∧
        parseNumberAt data index = some (some (value, next)) := by
  have hlength := h.length_eq
  obtain ⟨next, htake, hnext⟩ :=
    takeNumberAt_eq hdata h (data.length + 1) (by omega) 0
  have hlength' := hnext.length_eq
  have hat : parseNumberAt data index =
      some (if index < next then some ((takeNumber 0 rest).1, next) else none) := by
    rw [parseNumberAt, htake]
    rfl
  cases hnumber : parseNumber rest with
  | none =>
    -- nothing was taken, so the position is where it was
    refine .inl ⟨rfl, ?_⟩
    have hsame : (takeNumber 0 rest).2 = rest := by
      cases rest with
      | nil => rfl
      | cons byte rest =>
        rw [parseNumber] at hnumber
        split at hnumber
        · cases hnumber
        · next hdigit => rw [takeNumber, if_neg hdigit]
    rw [hsame] at hlength'
    rw [hat, if_neg (by omega)]
  | some number =>
    obtain ⟨value, rest'⟩ := number
    refine .inr ⟨value, next, rest', rfl, ?_⟩
    have hlt := length_parseNumber hnumber
    have htaken : takeNumber 0 rest = (value, rest') := by
      cases rest with
      | nil => cases hnumber
      | cons byte rest =>
        rw [parseNumber] at hnumber
        split at hnumber
        · exact Option.some.inj hnumber
        · cases hnumber
    rw [htaken] at hat hnext hlength'
    have hrest : (value, rest').2.length = rest'.length := rfl
    refine ⟨hnext, ?_⟩
    rw [hat, if_pos (by omega)]

theorem parseNumbersAt_eq (hdata : data.length < 2 ^ 64) (h : Stands data index rest)
    (limit : Nat) :
    parseNumbers limit rest = none ∧ parseNumbersAt data limit index = some none ∨
      ∃ values next rest', parseNumbers limit rest = some (values, rest') ∧
        Stands data next rest' ∧ parseNumbersAt data limit index = some (some (values, next)) := by
  induction limit generalizing index rest with
  | zero => exact .inr ⟨[], index, rest, rfl, h, rfl⟩
  | succ limit ih =>
    obtain ⟨hnumber, hat⟩ | ⟨value, next, rest', hnumber, hnext, hat⟩ := parseNumberAt_eq hdata h
    · rw [parseNumbers, parseNumbersAt, hnumber, hat]
      exact .inl ⟨rfl, rfl⟩
    · have hat : parseNumbersAt data (limit + 1) index =
          if data[next]? = some 0x3b then
            (Checked.add 64 next 1).bind fun next =>
              (parseNumbersAt data limit next).bind fun more =>
                some (more.map fun found => (value :: found.1, found.2))
          else some (some ([value], next)) := by
        rw [parseNumbersAt, hat]
        rfl
      rw [hat]
      by_cases hsemicolon : ∃ after, rest' = 0x3b :: after
      · obtain ⟨after, rfl⟩ := hsemicolon
        have hnumbers : parseNumbers (limit + 1) rest =
            (parseNumbers limit after).map fun found => (value :: found.1, found.2) := by
          rw [parseNumbers, hnumber]
          rfl
        rw [hnumbers, if_pos hnext.get_cons, hnext.add_one hdata, Option.bind_some]
        obtain ⟨hmore, hat'⟩ | ⟨values, next', rest'', hmore, hnext', hat'⟩ := ih hnext.next
        · rw [hmore, hat']
          exact .inl ⟨rfl, rfl⟩
        · rw [hmore, hat']
          exact .inr ⟨value :: values, next', rest'', rfl, hnext', rfl⟩
      · have hnumbers : parseNumbers (limit + 1) rest = some ([value], rest') := by
          rw [parseNumbers, hnumber]
          split
          · next heq => cases heq
          · next heq =>
            cases heq
            exact absurd ⟨_, rfl⟩ hsemicolon
          · next heq =>
            cases heq
            rfl
        have hnot : data[next]? ≠ some 0x3b := by
          cases rest' with
          | nil =>
            rw [hnext.get_nil]
            exact (Option.some_ne_none _).symm
          | cons byte after =>
            rw [hnext.get_cons]
            rintro ⟨⟩
            exact hsemicolon ⟨after, rfl⟩
        rw [hnumbers, if_neg hnot]
        exact .inr ⟨[value], next, rest', rfl, hnext, rfl⟩

end Sixel

namespace SixelRaster

open Sixel

theorem paintAt_eq {row x : Nat} {rows : List (List Rgba)} (color : Rgba)
    (hrow : row < rows.length) (hx : x + 1 < 2 ^ 64) :
    paintAt row color rows x = some (rows.modify row fun line => paint line x color) := by
  have hlength : lengthAt rows[row] x = some (max (x + 1) rows[row].length) := by
    rw [lengthAt]
    split
    · rw [Checked.add_eq hx, Nat.max_eq_left (by omega)]
    · rw [Nat.max_eq_right (by omega)]
  have hset (line : List Rgba) :
      Checked.set (line ++ List.replicate (max (x + 1) line.length - line.length) transparent)
        x color = some (paint line x color) := by
    have hsub : max (x + 1) line.length - line.length = x + 1 - line.length := by omega
    rw [hsub, Checked.set_eq _ color]
    · rfl
    · rw [List.length_append, List.length_replicate]
      omega
  rw [paintAt, List.getElem?_eq_getElem hrow]
  show (lengthAt rows[row] x).bind _ = _
  rw [hlength, Option.bind_some]
  show (Checked.set _ x color).bind _ = _
  rw [hset, Option.bind_some, Checked.set_eq hrow, List.modify_eq_set,
    List.getElem?_eq_getElem hrow]
  rfl

theorem foldlM_paintAt {row : Nat} (color : Rgba) (x repeats : Nat) {rows : List (List Rgba)}
    (hrow : row < rows.length) (hright : x + repeats < 2 ^ 64) :
    (List.range' x repeats).foldlM (paintAt row color) rows =
      some (rows.modify row fun line =>
        (List.range repeats).foldl (fun line offset => paint line (x + offset) color) line) := by
  induction repeats with
  | zero => exact congrArg some (List.modify_id row rows).symm
  | succ repeats ih =>
    rw [List.range'_1_concat, List.foldlM_append, ih (by omega), List.range_succ]
    show (paintAt row color (rows.modify row _) (x + repeats)).bind some = _
    have hx : x + repeats + 1 < 2 ^ 64 := hright
    rw [paintAt_eq color (by rwa [List.length_modify]) hx, Option.bind_some,
      List.modify_modify_eq]
    congr 2
    ext1 line
    rw [List.foldl_append]
    rfl

theorem drawRowAt_eq (x repeats row : Nat) (color : Rgba) (raster : SixelRaster)
    (hright : x + repeats < 2 ^ 64) :
    drawRowAt x repeats row color raster = some (drawRow x repeats row color raster) := by
  rw [drawRowAt, drawRow]
  split
  · rfl
  · rw [Checked.add_eq hright]
    show Option.bind (List.foldlM _ _ (List.range' x (x + repeats - x))) _ = _
    rw [Nat.add_sub_cancel_left, foldlM_paintAt color x repeats _ hright]
    · rfl
    · rw [List.length_append, List.length_replicate]
      omega

/-- **A stroke is drawn without a panic** where the pen is within the caps. -/
theorem drawAt_eq (raster : SixelRaster) {x y repeats : Nat} (sixel : UInt8)
    (palette : List (Nat × Rgba)) (current : Nat) (hx : x ≤ maxSixelDimension)
    (hy : y < maxSixelDimension) (hpos : 0 < repeats) (hrepeats : repeats ≤ maxSixelDimension) :
    drawAt raster x y sixel repeats palette current =
      some (draw raster x y sixel repeats palette current) := by
  have hcap : maxSixelDimension = 16384 := rfl
  rw [hcap] at hx hy hrepeats
  have hright : x + repeats < 2 ^ 64 := by omega
  have hbottom : y + 6 < 2 ^ 64 := by omega
  have hmul : (x + repeats) * (y + 6) ≤ 32768 * 16390 := Nat.mul_le_mul (by omega) (by omega)
  rw [drawAt, draw, Checked.saturatingAdd_eq hright, Checked.saturatingAdd_eq hbottom,
    Checked.saturatingMul_eq (by omega)]
  split
  · rfl
  · have hbit (offset : Nat) (hoffset : offset ∈ List.range 6) (raster : SixelRaster) :
        drawBitAt x y repeats (sixel - 0x3f : UInt8)
          ((palette.lookup current).getD ⟨0, 0, 0, 255⟩) raster offset =
        some (if (sixel - 0x3f : UInt8) &&& (1 <<< UInt8.ofNat offset) = 0 then some raster
          else drawRow x repeats (y + offset) ((palette.lookup current).getD ⟨0, 0, 0, 255⟩)
            raster) := by
      have hlt := List.mem_range.mp hoffset
      rw [drawBitAt]
      split
      · rfl
      · rw [Checked.add_eq (by omega)]
        exact drawRowAt_eq x repeats _ _ raster hright
    rw [Checked.fold_eq _ _ hbit]
    show _ = some (Option.bind _ _)
    show Option.bind (some _) _ = _
    rw [Option.bind_some]
    cases (List.range 6).foldlM (fun raster offset =>
        if (sixel - 0x3f : UInt8) &&& (1 <<< UInt8.ofNat offset) = 0 then some raster
        else drawRow x repeats (y + offset) ((palette.lookup current).getD ⟨0, 0, 0, 255⟩) raster)
        raster with
    | none => rfl
    | some raster =>
      dsimp only [Option.bind_some]
      split
      · rw [Checked.add_eq hright]
        show (Checked.sub (x + repeats) 1).bind _ = _
        rw [Checked.sub_eq (by omega)]
        rfl
      · rfl

end SixelRaster

namespace Sixel

theorem toByteAt_eq (value : Nat) :
    toByteAt value = some (UInt8.ofNat (min value 100 * 255 / 100)) := by
  rw [toByteAt, Checked.mul_eq (by omega)]
  rfl

/-- The third to the fifth number are looked at only where there are five. -/
theorem selectAt_eq (pen : Pen) (values : List Nat) :
    pen.selectAt values = some (pen.select values) := by
  rw [Pen.selectAt, Pen.select]
  dsimp only
  rcases values.map (· % 2 ^ 16) with _ | ⟨register, _ | ⟨_, _ | ⟨r, _ | ⟨g, _ | ⟨b, _⟩⟩⟩⟩⟩
  · rfl
  · rfl
  · rfl
  · rfl
  · rfl
  · show (toByteAt r).bind _ = _
    rw [toByteAt_eq, Option.bind_some]
    show (toByteAt g).bind _ = _
    rw [toByteAt_eq, Option.bind_some]
    show (toByteAt b).bind _ = _
    rw [toByteAt_eq, Option.bind_some]

/-- Where the loop keeps the pen. -/
structure Pen.Within (pen : Pen) : Prop where
  x_le : pen.x ≤ maxSixelDimension
  y_lt : pen.y < maxSixelDimension

/-- One turn, against what the loop does with what is still to be read: it gives up, stops, or goes
on from a later position with as much left to do. -/
inductive Follows (data : List UInt8) (index : Nat) (pen : Pen) (rest : List UInt8) :
    Option Turn → Prop where
  | none (h : loop pen rest = none) : Follows data index pen rest none
  | stop (h : loop pen rest = some pen) : Follows data index pen rest (some .stop)
  | go {pen' : Pen} {next : Nat} {rest' : List UInt8} (hnext : Stands data next rest')
      (hlt : index < next) (hpen : pen'.Within) (h : loop pen rest = loop pen' rest') :
      Follows data index pen rest (some (.go pen' next))

theorem Pen.Within.select {pen : Pen} (h : pen.Within) (values : List Nat) :
    (pen.select values).Within := by
  rw [Pen.select]
  split
  · exact ⟨h.x_le, h.y_lt⟩
  · exact ⟨h.x_le, h.y_lt⟩
  · exact h

theorem later_of_parseNumbers {limit next : Nat} {rest' : List UInt8} {values : List Nat}
    (h : parseNumbers limit rest = some (values, rest')) (hstands : Stands data (index + 1) rest)
    (hnext : Stands data next rest') : index < next := by
  have := length_parseNumbers h
  have := hstands.length_eq
  have := hnext.length_eq
  omega

/-- What is drawn ends within the caps. -/
theorem draw_right {raster raster' : SixelRaster} {x y repeats : Nat} {sixel : UInt8}
    {palette : List (Nat × Rgba)} {current : Nat}
    (h : raster.draw x y sixel repeats palette current = some raster') :
    x + repeats ≤ maxSixelDimension := by
  rw [SixelRaster.draw] at h
  split at h
  · cases h
  · next hcaps => exact Nat.not_lt.mp (not_or.mp hcaps).1

theorem drawAt_follows {pen : Pen} {sixel : UInt8} {repeats next : Nat} {rest' : List UInt8}
    (hpen : pen.Within) (hpos : 0 < repeats) (hrepeats : repeats ≤ maxSixelDimension)
    (hnext : Stands data next rest') (hlt : index < next)
    (hloop : loop pen rest = (pen.draw sixel repeats).bind fun pen => loop pen rest') :
    ∃ turn, pen.drawAt sixel repeats next = some turn ∧ Follows data index pen rest turn := by
  have hcap : maxSixelDimension = 16384 := rfl
  have hx := hpen.x_le
  have hright : pen.x + repeats < 2 ^ 64 := by omega
  rw [Pen.drawAt, SixelRaster.drawAt_eq pen.raster sixel pen.palette pen.current hpen.x_le
    hpen.y_lt hpos hrepeats, Checked.saturatingAdd_eq hright]
  refine ⟨_, rfl, ?_⟩
  rw [Pen.draw] at hloop
  cases hdraw : pen.raster.draw pen.x pen.y sixel repeats pen.palette pen.current with
  | none =>
    rw [hdraw] at hloop
    exact .none hloop
  | some raster =>
    rw [hdraw] at hloop
    exact .go hnext hlt ⟨draw_right hdraw, hpen.y_lt⟩ hloop

theorem turnAt_eq (hdata : data.length < 2 ^ 64) {byte : UInt8} {pen : Pen} (hpen : pen.Within)
    (h : Stands data index (byte :: rest)) :
    ∃ turn, turnAt data pen index = some turn ∧
      Follows data index pen (byte :: rest) turn := by
  have hnext := h.next
  have hlt : index < index + 1 := Nat.lt_succ_self index
  rw [turnAt, h.get_cons]
  show ∃ turn, (Checked.add 64 index 1).bind _ = _ ∧ _
  rw [h.add_one hdata, Option.bind_some]
  by_cases hrepeat : byte = 0x21
  · subst hrepeat
    rw [if_pos rfl]
    obtain ⟨hnumber, hat⟩ | ⟨count, next, rest', hnumber, hstands, hat⟩ :=
      parseNumberAt_eq hdata hnext
    · rw [hat]
      exact ⟨none, rfl, .none (loop_repeat_none pen hnumber)⟩
    · rw [hat]
      have hlater : index < next := by
        have := length_parseNumber hnumber
        have := hstands.length_eq
        have := hnext.length_eq
        omega
      simp only [Option.bind_eq_bind, Option.bind_some]
      cases rest' with
      | nil =>
        rw [hstands.get_nil]
        exact ⟨some .stop, rfl, .stop (loop_repeat_nil pen hnumber)⟩
      | cons sixel rest' =>
        rw [hstands.get_cons]
        simp only [hstands.add_one hdata, Option.bind_some]
        have hloop := loop_repeat pen hnumber
        have hlater' := Nat.lt_succ_of_lt hlater
        by_cases hsixel : isSixel sixel
        · rw [if_pos hsixel] at hloop ⊢
          have hcap : maxSixelDimension = 16384 := rfl
          exact drawAt_follows hpen (by omega) (Nat.min_le_right _ _) hstands.next hlater' hloop
        · rw [if_neg hsixel] at hloop ⊢
          exact ⟨_, rfl, .go hstands.next hlater' hpen hloop⟩
  rw [if_neg hrepeat]
  by_cases hselect : byte = 0x23
  · subst hselect
    rw [if_pos rfl]
    have hlimit : data.length - (index + 1) = rest.length := by
      have := hnext.length_eq
      omega
    rw [hlimit]
    have hloop := loop_select pen rest
    obtain ⟨hnumbers, hat⟩ | ⟨values, next, rest', hnumbers, hstands, hat⟩ :=
      parseNumbersAt_eq hdata hnext (rest.length + 1)
    · rw [hat]
      rw [hnumbers] at hloop
      exact ⟨none, rfl, .none hloop⟩
    · rw [hat]
      rw [hnumbers] at hloop
      show ∃ turn, (pen.selectAt values).bind _ = _ ∧ _
      rw [selectAt_eq]
      exact ⟨_, rfl, .go hstands (later_of_parseNumbers hnumbers hnext hstands)
        (hpen.select values) hloop⟩
  rw [if_neg hselect]
  by_cases hattributes : byte = 0x22
  · subst hattributes
    rw [if_pos rfl]
    have hloop := loop_attributes pen rest
    obtain ⟨hnumbers, hat⟩ | ⟨values, next, rest', hnumbers, hstands, hat⟩ :=
      parseNumbersAt_eq hdata hnext 4
    · rw [hat]
      rw [hnumbers] at hloop
      exact ⟨none, rfl, .none hloop⟩
    · rw [hat]
      rw [hnumbers] at hloop
      simp only [Option.bind_eq_bind, Option.bind_some] at hloop ⊢
      by_cases htall : values[3]?.any (maxSixelDimension < ·)
      · rw [if_pos htall] at hloop ⊢
        exact ⟨none, rfl, .none hloop⟩
      · rw [if_neg htall] at hloop ⊢
        exact ⟨_, rfl, .go hstands (later_of_parseNumbers hnumbers hnext hstands) hpen hloop⟩
  rw [if_neg hattributes]
  by_cases hreturn : byte = 0x24
  · subst hreturn
    rw [if_pos rfl]
    exact ⟨_, rfl, .go hnext hlt ⟨Nat.zero_le _, hpen.y_lt⟩ (loop_return pen rest)⟩
  rw [if_neg hreturn]
  by_cases hband : byte = 0x2d
  · subst hband
    rw [if_pos rfl]
    have hloop := loop_band pen rest
    have hcap : maxSixelDimension = 16384 := rfl
    have hy := hpen.y_lt
    dsimp only
    rw [Checked.saturatingAdd_eq (by omega)]
    by_cases hlow : maxSixelDimension ≤ pen.y + 6
    · rw [if_pos hlow] at hloop ⊢
      exact ⟨none, rfl, .none hloop⟩
    · rw [if_neg hlow] at hloop ⊢
      exact ⟨_, rfl, .go hnext hlt ⟨Nat.zero_le _, Nat.not_le.mp hlow⟩ hloop⟩
  rw [if_neg hband]
  have hloop := loop_other pen rest hrepeat hselect hattributes hreturn hband
  by_cases hsixel : isSixel byte
  · rw [if_pos hsixel] at hloop ⊢
    exact drawAt_follows hpen Nat.one_pos (by decide) hnext hlt hloop
  · rw [if_neg hsixel] at hloop ⊢
    exact ⟨_, rfl, .go hnext hlt hpen hloop⟩

theorem loopAt_eq (hdata : data.length < 2 ^ 64) (pen : Pen) (hpen : pen.Within)
    (h : Stands data index rest) (turns : Nat) (hturns : rest.length < turns) :
    loopAt data turns pen index = some (loop pen rest) := by
  induction turns generalizing pen index rest with
  | zero => cases hturns
  | succ turns ih =>
    rw [loopAt]
    cases rest with
    | nil =>
      have hend : data.length ≤ index := Nat.le_of_eq h.length_eq.symm
      rw [if_neg (Nat.not_lt.mpr hend), loop]
    | cons byte rest =>
      obtain ⟨turn, hturn, hfollows⟩ := turnAt_eq hdata hpen h
      rw [if_pos h.lt, hturn]
      cases hfollows with
      | none hloop =>
        rw [hloop]
        rfl
      | stop hloop =>
        rw [hloop]
        rfl
      | @go pen' next rest' hnext hlt hpen' hloop =>
        rw [hloop]
        refine ih pen' hpen' hnext ?_
        have := h.length_eq
        have := hnext.length_eq
        omega

end Sixel

end Goble.Terminal
