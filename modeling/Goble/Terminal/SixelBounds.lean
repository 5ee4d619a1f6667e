import Goble.Lib.Lists
import Goble.Terminal.SixelChecked

/-!
# The size of a sixel image

The decoder reads strokes and draws them (`loop_eq`). Each stroke is checked against the caps on its
own: its right end against the dimension, and its right end by its lowest row against the pixels.
The image is as wide as the widest stroke and as tall as the lowest, which need not be the same.
-/

namespace Goble.Terminal

namespace Sixel

structure Stroke where
  x : Nat
  y : Nat
  sixel : UInt8
  repeats : Nat
  palette : List (Nat × Rgba)
  current : Nat

namespace Stroke

/-- The column after the last one of a stroke. -/
def right (stroke : Stroke) : Nat := stroke.x + stroke.repeats

def bits (stroke : Stroke) : UInt8 := stroke.sixel - 0x3f

/-- A stroke of `?` paints nothing, though it moves the pen. -/
def paints (stroke : Stroke) : Bool := stroke.bits ≠ 0

def rows (stroke : Stroke) : List Nat :=
  ((List.range 6).filter fun offset =>
    ¬ stroke.bits &&& (1 <<< UInt8.ofNat offset) = 0).map (stroke.y + ·)

/-- The columns the image has to reach for this stroke: the last of them is enough. -/
def columns (stroke : Stroke) : List Nat := if stroke.paints then [stroke.right - 1] else []

def color (stroke : Stroke) : Rgba := (stroke.palette.lookup stroke.current).getD ⟨0, 0, 0, 255⟩

structure Accepted (stroke : Stroke) : Prop where
  right_le : stroke.right ≤ maxSixelDimension
  pixels_le : stroke.right * (stroke.y + 6) ≤ maxSixelPixels
  rows_lt : ∀ row ∈ stroke.rows, row < maxSixelDimension

instance (stroke : Stroke) : Decidable stroke.Accepted :=
  decidable_of_iff (stroke.right ≤ maxSixelDimension ∧
      stroke.right * (stroke.y + 6) ≤ maxSixelPixels ∧
      ∀ row ∈ stroke.rows, row < maxSixelDimension)
    ⟨fun h => ⟨h.1, h.2.1, h.2.2⟩, fun h => ⟨h.right_le, h.pixels_le, h.rows_lt⟩⟩

end Stroke

def Pen.stroke (pen : Pen) (sixel : UInt8) (repeats : Nat) : Stroke :=
  ⟨pen.x, pen.y, sixel, repeats, pen.palette, pen.current⟩

def Pen.move (pen : Pen) (repeats : Nat) : Pen := { pen with x := pen.x + repeats }

def Stroke.draw (stroke : Stroke) (raster : SixelRaster) : Option SixelRaster :=
  raster.draw stroke.x stroke.y stroke.sixel stroke.repeats stroke.palette stroke.current

/-- What is drawn, in order. -/
def strokes (pen : Pen) (data : List UInt8) : Option (List Stroke) :=
  match data with
  | [] => some []
  | byte :: rest =>
    if byte = 0x21 then
      match h : parseNumber rest with
      | none => none
      | some (_, []) => some []
      | some (count, sixel :: rest') =>
        have : rest'.length < rest.length := by
          have := length_parseNumber h
          simp only [List.length_cons] at this
          omega
        if isSixel sixel then
          let repeats := min (max count 1) maxSixelDimension
          (strokes (pen.move repeats) rest').map (pen.stroke sixel repeats :: ·)
        else strokes pen rest'
    else if byte = 0x23 then
      match h : parseNumbers (rest.length + 1) rest with
      | none => none
      | some (values, rest') =>
        have : rest'.length ≤ rest.length := length_parseNumbers h
        strokes (pen.select values) rest'
    else if byte = 0x22 then
      match h : parseNumbers 4 rest with
      | none => none
      | some (values, rest') =>
        have : rest'.length ≤ rest.length := length_parseNumbers h
        if values[3]?.any (maxSixelDimension < ·) then none else strokes pen rest'
    else if byte = 0x24 then strokes { pen with x := 0 } rest
    else if byte = 0x2d then
      if maxSixelDimension ≤ pen.y + 6 then none
      else strokes { pen with x := 0, y := pen.y + 6 } rest
    else if isSixel byte then (strokes (pen.move 1) rest).map (pen.stroke byte 1 :: ·)
    else strokes pen rest
termination_by data.length

def drawAll (ss : List Stroke) (raster : SixelRaster) : Option SixelRaster :=
  ss.foldlM (fun raster stroke => stroke.draw raster) raster

theorem select_raster (pen : Pen) (raster : SixelRaster) (values : List Nat) :
    ({ pen with raster } : Pen).select values = { pen.select values with raster } := by
  unfold Pen.select
  dsimp only
  split
  · rfl
  · rfl
  · rfl

theorem draw_bind (pen : Pen) (raster : SixelRaster) (sixel : UInt8) (repeats : Nat)
    (next : Pen → Option Pen) (later : Option (List Stroke))
    (h : ∀ raster, (next { pen.move repeats with raster }).map Pen.raster =
      later.bind (drawAll · raster)) :
    ((({ pen with raster } : Pen).draw sixel repeats).bind next).map Pen.raster =
      (later.map (pen.stroke sixel repeats :: ·)).bind (drawAll · raster) := by
  have hdraw : ({ pen with raster } : Pen).draw sixel repeats =
      ((pen.stroke sixel repeats).draw raster).map fun raster =>
        { pen.move repeats with raster } := rfl
  rw [hdraw, Option.bind_map]
  cases hstroke : (pen.stroke sixel repeats).draw raster with
  | none =>
    cases later with
    | none => rfl
    | some ss =>
      show none = drawAll (pen.stroke sixel repeats :: ss) raster
      rw [drawAll, List.foldlM_cons, hstroke]
      rfl
  | some raster' =>
    show (next { pen.move repeats with raster := raster' }).map Pen.raster = _
    rw [h raster']
    cases later with
    | none => rfl
    | some ss =>
      show drawAll ss raster' = drawAll (pen.stroke sixel repeats :: ss) raster
      rw [drawAll, drawAll, List.foldlM_cons, hstroke]
      rfl

theorem loop_eq (pen : Pen) (data : List UInt8) (raster : SixelRaster) :
    (loop { pen with raster } data).map Pen.raster =
      (strokes pen data).bind (drawAll · raster) := by
  fun_induction strokes pen data generalizing raster with
  | case1 pen =>
    rw [loop]
    rfl
  | case2 pen rest hnumber =>
    rw [loop_repeat_none _ hnumber]
    rfl
  | case3 pen rest count hnumber =>
    rw [loop_repeat_nil _ hnumber]
    rfl
  | case4 pen rest count sixel rest' hnumber _ hsixel repeats ih =>
    rw [loop_repeat _ hnumber, if_pos hsixel]
    exact draw_bind pen raster sixel repeats (loop · rest') _ ih
  | case5 pen rest count sixel rest' hnumber _ hsixel ih =>
    rw [loop_repeat _ hnumber, if_neg hsixel]
    exact ih raster
  | case6 pen rest hnumbers =>
    rw [loop_select, hnumbers]
    rfl
  | case7 pen rest values rest' hnumbers _ _ ih =>
    rw [loop_select, hnumbers, Option.bind_some, select_raster pen raster]
    exact ih raster
  | case8 pen rest hnumbers =>
    rw [loop_attributes, hnumbers]
    rfl
  | case9 pen rest values rest' hnumbers _ htall =>
    rw [loop_attributes, hnumbers, Option.bind_some, if_pos htall]
    rfl
  | case10 pen rest values rest' hnumbers _ htall _ _ ih =>
    rw [loop_attributes, hnumbers, Option.bind_some, if_neg htall]
    exact ih raster
  | case11 pen rest _ _ _ ih =>
    rw [loop_return]
    exact ih raster
  | case12 pen rest hlow =>
    rw [loop_band, if_pos hlow]
    rfl
  | case13 pen rest hlow _ _ _ _ ih =>
    rw [loop_band, if_neg hlow]
    exact ih raster
  | case14 pen byte rest hrepeat hselect hattributes hreturn hband hsixel ih =>
    rw [loop_other _ _ hrepeat hselect hattributes hreturn hband, if_pos hsixel]
    exact draw_bind pen raster byte 1 (loop · rest) _ ih
  | case15 pen byte rest hrepeat hselect hattributes hreturn hband hsixel ih =>
    rw [loop_other _ _ hrepeat hselect hattributes hreturn hband, if_neg hsixel]
    exact ih raster

end Sixel

/-! ### What the strokes leave behind -/

/-- The raster reaches to the last of the columns and the last of the rows, and no further. -/
structure SixelRaster.Covers (raster : SixelRaster) (columns rows : List Nat) : Prop where
  maxX : raster.maxX = columns.max?
  maxY : raster.maxY = rows.max?
  rows_lt : ∀ row ∈ rows, row < raster.rows.length

theorem SixelRaster.covers_nil : ({} : SixelRaster).Covers [] [] := ⟨rfl, rfl, nofun⟩

theorem max?_concat (l : List Nat) (n : Nat) :
    (l ++ [n]).max? = some (max (l.max?.getD n) n) := by
  cases l with
  | nil =>
    show some n = some (max n n)
    rw [Nat.max_self]
  | cons m l =>
    rw [List.cons_append, List.max?_cons', List.max?_cons', List.foldl_append]
    rfl

variable {data : List UInt8} {ss : List Stroke}

namespace Sixel

variable {raster : SixelRaster} {columns rows : List Nat}

theorem drawRow_of_lt {x repeats row : Nat} {color : Rgba} (hrow : row < maxSixelDimension)
    (h : raster.Covers columns rows) :
    ∃ raster', raster.drawRow x repeats row color = some raster' ∧
      raster'.Covers columns (rows ++ [row]) := by
  refine ⟨_, if_neg (Nat.not_le.mpr hrow), h.maxX, ?_, ?_⟩
  · show some _ = _
    rw [max?_concat, h.maxY]
  · intro r hr
    show r < List.length (List.modify _ _ _)
    rw [List.length_modify, List.length_append, List.length_replicate]
    obtain hr | hr := List.mem_append.mp hr
    · have := h.rows_lt r hr
      omega
    · cases List.mem_singleton.mp hr
      omega

theorem drawRow_of_le {x repeats row : Nat} {color : Rgba} (hrow : maxSixelDimension ≤ row) :
    raster.drawRow x repeats row color = none := if_pos hrow

def drawRows (x repeats : Nat) (color : Rgba) (rows : List Nat) (raster : SixelRaster) :
    Option SixelRaster :=
  rows.foldlM (fun raster row => SixelRaster.drawRow x repeats row color raster) raster

theorem drawRows_spec (x repeats : Nat) (color : Rgba) (more : List Nat)
    (h : raster.Covers columns rows) :
    (∀ row ∈ more, row < maxSixelDimension) ∧
        (∃ raster', drawRows x repeats color more raster = some raster' ∧
          raster'.Covers columns (rows ++ more)) ∨
      (∃ row ∈ more, maxSixelDimension ≤ row) ∧ drawRows x repeats color more raster = none := by
  induction more generalizing raster rows with
  | nil => exact .inl ⟨by simp, raster, rfl, by rwa [List.append_nil]⟩
  | cons row more ih =>
    rw [drawRows, List.foldlM_cons]
    obtain hrow | hrow := Nat.lt_or_ge row maxSixelDimension
    · obtain ⟨raster', hdraw, hcovers⟩ := drawRow_of_lt (x := x) hrow h
      rw [hdraw, List.append_cons]
      obtain ⟨hall, hmore⟩ | ⟨⟨far, hmem, hle⟩, hmore⟩ := ih hcovers
      · exact .inl ⟨List.forall_mem_cons.mpr ⟨hrow, hall⟩, hmore⟩
      · exact .inr ⟨⟨far, List.mem_cons_of_mem row hmem, hle⟩, hmore⟩
    · rw [drawRow_of_le hrow]
      exact .inr ⟨⟨row, List.mem_cons_self, hrow⟩, rfl⟩

theorem draw_of_caps (stroke : Stroke) (raster : SixelRaster)
    (hright : stroke.right ≤ maxSixelDimension)
    (hpixels : stroke.right * (stroke.y + 6) ≤ maxSixelPixels) :
    stroke.draw raster =
      (drawRows stroke.x stroke.repeats stroke.color stroke.rows raster).bind fun raster =>
        if stroke.paints then some { raster with
          maxX := some (max (raster.maxX.getD (stroke.right - 1)) (stroke.right - 1)) }
        else some raster := by
  have hcaps : ¬(maxSixelDimension < stroke.x + stroke.repeats ∨
      maxSixelPixels < (stroke.x + stroke.repeats) * (stroke.y + 6)) :=
    not_or.mpr ⟨Nat.not_lt.mpr hright, Nat.not_lt.mpr hpixels⟩
  have hrow (raster : SixelRaster) (offset : Nat) :
      (if stroke.bits &&& (1 <<< UInt8.ofNat offset) = 0 then some raster
        else SixelRaster.drawRow stroke.x stroke.repeats (stroke.y + offset) stroke.color raster) =
      if decide (¬ stroke.bits &&& (1 <<< UInt8.ofNat offset) = 0) then
        SixelRaster.drawRow stroke.x stroke.repeats (stroke.y + offset) stroke.color raster
      else some raster := by
    by_cases hbit : stroke.bits &&& (1 <<< UInt8.ofNat offset) = 0
    · rw [if_pos hbit, if_neg (by simpa using hbit)]
    · rw [if_neg hbit, if_pos (decide_eq_true hbit)]
  have hlast (raster : SixelRaster) (m : Nat) :
      (if stroke.bits ≠ 0 then some { raster with maxX := some m } else some raster) =
      if stroke.paints then some { raster with maxX := some m } else some raster := by
    by_cases hbits : stroke.bits = 0
    · rw [if_neg (not_not_intro hbits), if_neg (by simpa [Stroke.paints] using hbits)]
    · rw [if_pos hbits, if_pos (show stroke.paints from decide_eq_true hbits)]
  rw [Stroke.draw, SixelRaster.draw, if_neg hcaps, drawRows, Stroke.rows, List.foldlM_map,
    List.foldlM_filter]
  show Option.bind _ _ = Option.bind _ _
  congr 1
  · congr 1
    ext1 raster
    ext1 offset
    exact hrow raster offset
  · ext1 raster
    exact hlast raster _

theorem draw_spec (stroke : Stroke) (h : raster.Covers columns rows) :
    stroke.Accepted ∧ (∃ raster', stroke.draw raster = some raster' ∧
        raster'.Covers (columns ++ stroke.columns) (rows ++ stroke.rows)) ∨
      ¬ stroke.Accepted ∧ stroke.draw raster = none := by
  by_cases hcaps : maxSixelDimension < stroke.right ∨
      maxSixelPixels < stroke.right * (stroke.y + 6)
  · refine .inr ⟨fun haccepted => ?_, if_pos hcaps⟩
    obtain hright | hpixels := hcaps
    · exact Nat.not_lt.mpr haccepted.right_le hright
    · exact Nat.not_lt.mpr haccepted.pixels_le hpixels
  · obtain ⟨hright, hpixels⟩ := not_or.mp hcaps
    have hright := Nat.not_lt.mp hright
    have hpixels := Nat.not_lt.mp hpixels
    rw [draw_of_caps stroke raster hright hpixels]
    obtain ⟨hall, raster', hdraw, hcovers⟩ | ⟨⟨row, hmem, hle⟩, hdraw⟩ :=
      drawRows_spec stroke.x stroke.repeats stroke.color stroke.rows h
    · refine .inl ⟨⟨hright, hpixels, hall⟩, ?_⟩
      rw [hdraw, Option.bind_some, Stroke.columns]
      split
      · refine ⟨_, rfl, ?_, hcovers.maxY, hcovers.rows_lt⟩
        rw [max?_concat, ← hcovers.maxX]
      · rw [List.append_nil]
        exact ⟨raster', rfl, hcovers⟩
    · rw [hdraw]
      exact .inr ⟨fun haccepted => Nat.not_lt.mpr hle (haccepted.rows_lt row hmem), rfl⟩

theorem drawAll_spec (ss : List Stroke) (h : raster.Covers columns rows) :
    (∀ s ∈ ss, s.Accepted) ∧ (∃ raster', drawAll ss raster = some raster' ∧
        raster'.Covers (columns ++ ss.flatMap Stroke.columns) (rows ++ ss.flatMap Stroke.rows)) ∨
      (∃ s ∈ ss, ¬ s.Accepted) ∧ drawAll ss raster = none := by
  induction ss generalizing raster columns rows with
  | nil => exact .inl ⟨by simp, raster, rfl, by simpa using h⟩
  | cons stroke ss ih =>
    rw [drawAll, List.foldlM_cons]
    obtain ⟨haccepted, raster', hdraw, hcovers⟩ | ⟨hrefused, hdraw⟩ := draw_spec stroke h
    · rw [hdraw, List.flatMap_cons, List.flatMap_cons, ← List.append_assoc, ← List.append_assoc]
      obtain ⟨hall, hrest⟩ | ⟨⟨s, hs, hrefused⟩, hrest⟩ := ih hcovers
      · exact .inl ⟨List.forall_mem_cons.mpr ⟨haccepted, hall⟩, hrest⟩
      · exact .inr ⟨⟨s, List.mem_cons_of_mem stroke hs, hrefused⟩, hrest⟩
    · rw [hdraw]
      exact .inr ⟨⟨stroke, List.mem_cons_self, hrefused⟩, rfl⟩

theorem repeats_pos {pen : Pen} (h : strokes pen data = some ss) : ∀ s ∈ ss, 0 < s.repeats := by
  fun_induction strokes pen data generalizing ss with
  | case1 pen | case3 =>
    cases h
    exact nofun
  | case2 | case6 | case8 | case9 | case12 => cases h
  | case4 pen rest count sixel rest' hnumber _ hsixel repeats =>
    rename_i ih
    obtain ⟨ss', hss', rfl⟩ := Option.map_eq_some_iff.mp h
    refine List.forall_mem_cons.mpr ⟨?_, ih hss'⟩
    show 0 < min (max count 1) maxSixelDimension
    have : 0 < maxSixelDimension := by decide
    omega
  | case14 pen byte rest hrepeat hselect hattributes hreturn hband hsixel ih =>
    obtain ⟨ss', hss', rfl⟩ := Option.map_eq_some_iff.mp h
    exact List.forall_mem_cons.mpr ⟨Nat.one_pos, ih hss'⟩
  | case5 _ _ _ _ _ _ _ _ ih => exact ih h
  | case7 _ _ _ _ _ _ _ ih => exact ih h
  | case10 _ _ _ _ _ _ _ _ _ ih => exact ih h
  | case11 _ _ _ _ _ ih => exact ih h
  | case13 _ _ _ _ _ _ _ ih => exact ih h
  | case15 _ _ _ _ _ _ _ _ _ ih => exact ih h

end Sixel

open Sixel

/-- The image of a raster that has something drawn in it. -/
theorem length_pixels {rows : List (List Rgba)} {height : Nat} (width : Nat)
    (h : height ≤ rows.length) :
    (((rows.take height).flatMap fun row =>
      (List.range width).map fun x => row[x]?.getD transparent).flatMap Rgba.bytes).length =
        width * height * 4 := by
  have hrow (row : List Rgba) :
      ((List.range width).map fun x => row[x]?.getD transparent).length = width := by
    rw [List.length_map, List.length_range]
  have hbytes (pixel : Rgba) : pixel.bytes.length = 4 := rfl
  rw [length_flatMap_const fun pixel _ => hbytes pixel, length_flatMap_const fun row _ => hrow row,
    List.length_take_of_le h, Nat.mul_comm width]

theorem covers_of_loop {pen : Pen} (h : loop {} data = some pen) :
    ∃ ss, strokes {} data = some ss ∧ (∀ s ∈ ss, s.Accepted) ∧
      pen.raster.Covers (ss.flatMap Stroke.columns) (ss.flatMap Stroke.rows) := by
  have hraster : (strokes {} data).bind (drawAll · {}) = some pen.raster := by
    rw [← loop_eq]
    exact congrArg (Option.map Pen.raster) h
  obtain ⟨ss, hss, hdraw⟩ := Option.bind_eq_some_iff.mp hraster
  obtain ⟨haccepted, raster, hdraw', hcovers⟩ | ⟨-, hnone⟩ := drawAll_spec ss SixelRaster.covers_nil
  · cases hdraw.symm.trans hdraw'
    rw [List.nil_append, List.nil_append] at hcovers
    exact ⟨ss, hss, haccepted, hcovers⟩
  · cases hdraw.symm.trans hnone

/-- **An image comes of strokes that are each accepted**, and is as wide as the widest and as tall
as the lowest of those that paint. -/
theorem decodeSixel_some {width height : Nat} {rgba : List UInt8}
    (h : decodeSixel data = some (width, height, rgba)) :
    ∃ ss x y, strokes {} data = some ss ∧ (∀ s ∈ ss, s.Accepted) ∧
      (ss.flatMap Stroke.columns).max? = some x ∧ (ss.flatMap Stroke.rows).max? = some y ∧
      width = x + 1 ∧ height = y + 1 ∧ width ≤ maxSixelDimension ∧ height ≤ maxSixelDimension ∧
      rgba.length = width * height * 4 := by
  obtain ⟨pen, hloop, h⟩ := Option.bind_eq_some_iff.mp h
  obtain ⟨ss, hss, haccepted, hcovers⟩ := covers_of_loop hloop
  split at h
  · next x y hx hy =>
    by_cases hcap : maxSixelDimension < x + 1 ∨ maxSixelDimension < y + 1
    · rw [if_pos hcap] at h
      cases h
    · rw [if_neg hcap] at h
      cases h
      have hy' := hcovers.maxY.symm.trans hy
      have hlt := hcovers.rows_lt y (List.max?_mem hy')
      obtain ⟨hwidth, hheight⟩ := not_or.mp hcap
      exact ⟨ss, x, y, hss, haccepted, hcovers.maxX.symm.trans hx, hy', rfl, rfl,
        Nat.not_lt.mp hwidth, Nat.not_lt.mp hheight, length_pixels _ hlt⟩
  · cases h

theorem lt_of_accepted (h : ∀ s ∈ ss, s.Accepted) (hpos : ∀ s ∈ ss, 0 < s.repeats) :
    (∀ x ∈ ss.flatMap Stroke.columns, x < maxSixelDimension) ∧
      ∀ y ∈ ss.flatMap Stroke.rows, y < maxSixelDimension := by
  constructor
  · intro x hx
    obtain ⟨s, hs, hx⟩ := List.mem_flatMap.mp hx
    rw [Stroke.columns] at hx
    split at hx
    · cases List.mem_singleton.mp hx
      have hle := (h s hs).right_le
      have hright : 0 < s.right := Nat.lt_of_lt_of_le (hpos s hs) (Nat.le_add_left _ _)
      omega
    · cases hx
  · intro y hy
    obtain ⟨s, hs, hy⟩ := List.mem_flatMap.mp hy
    exact (h s hs).rows_lt y hy

theorem decodeSixel_of_accepted {x y : Nat} (hss : strokes {} data = some ss)
    (h : ∀ s ∈ ss, s.Accepted) (hx : (ss.flatMap Stroke.columns).max? = some x)
    (hy : (ss.flatMap Stroke.rows).max? = some y) :
    ∃ rgba, decodeSixel data = some (x + 1, y + 1, rgba) := by
  obtain ⟨hcolumns, hrows⟩ := lt_of_accepted h (repeats_pos hss)
  obtain ⟨-, raster, hdraw, hcovers⟩ | ⟨⟨s, hs, hrefused⟩, -⟩ :=
    drawAll_spec ss SixelRaster.covers_nil
  · rw [List.nil_append, List.nil_append] at hcovers
    have hraster := loop_eq {} data {}
    rw [hss, Option.bind_some, hdraw] at hraster
    obtain ⟨pen, hloop, rfl⟩ := Option.map_eq_some_iff.mp hraster
    have hcap : ¬(maxSixelDimension < x + 1 ∨ maxSixelDimension < y + 1) := by
      have := hcolumns x (List.max?_mem hx)
      have := hrows y (List.max?_mem hy)
      omega
    rw [decodeSixel]
    show ∃ rgba, (loop { ({} : Pen) with raster := {} } data).bind _ = _
    rw [hloop, Option.bind_some, hcovers.maxX, hcovers.maxY, hx, hy]
    exact ⟨_, if_neg hcap⟩
  · exact absurd (h s hs) hrefused

theorem decodeSixelAt_eq (hdata : data.length < 2 ^ 64) :
    decodeSixelAt data = some (decodeSixel data) := by
  have hloop := loopAt_eq hdata {} ⟨Nat.zero_le _, by decide⟩ (Stands.start data)
    (data.length + 1) (Nat.lt_succ_self _)
  rw [decodeSixelAt, decodeSixel, hloop]
  cases hpen : loop {} data with
  | none => rfl
  | some pen =>
    obtain ⟨ss, hss, haccepted, hcovers⟩ := covers_of_loop hpen
    obtain ⟨hcolumns, hrows⟩ := lt_of_accepted haccepted (repeats_pos hss)
    simp only [Option.bind_eq_bind, Option.bind_some]
    cases hx : pen.raster.maxX with
    | none => rfl
    | some x =>
      cases hy : pen.raster.maxY with
      | none => rfl
      | some y =>
        have hx' := hcolumns x (List.max?_mem (hcovers.maxX.symm.trans hx))
        have hy' := hrows y (List.max?_mem (hcovers.maxY.symm.trans hy))
        have hcap : maxSixelDimension = 16384 := rfl
        have harea : (x + 1) * (y + 1) ≤ 16384 * 16384 := Nat.mul_le_mul (by omega) (by omega)
        have hlow : ¬(x + 1 = 0 ∨ y + 1 = 0 ∨ maxSixelDimension < x + 1 ∨
            maxSixelDimension < y + 1) := by omega
        simp only [Checked.add_eq (w := 64) (a := x) (b := 1) (by omega),
          Checked.add_eq (w := 64) (a := y) (b := 1) (by omega), Option.bind_some,
          Checked.mul_eq (w := 64) (a := x + 1) (b := y + 1) (by omega),
          Checked.mul_eq (w := 64) (a := (x + 1) * (y + 1)) (b := 4) (by omega)]
        rw [if_neg hlow, if_neg (by omega)]

/-! ### The image as a whole -/

/-- What the decoder promises: it does not panic, no image is larger than the caps, and the pixels
are as many as its width and height say. -/
def Bounded (data : List UInt8) : Prop :=
  decodeSixelAt data = some (decodeSixel data) ∧
    ∀ width height rgba, decodeSixel data = some (width, height, rgba) →
      width ≤ maxSixelDimension ∧ height ≤ maxSixelDimension ∧ width * height ≤ maxSixelPixels ∧
        rgba.length = width * height * 4

def Together (data : List UInt8) : Prop :=
  ∀ ss, strokes {} data = some ss → (∀ s ∈ ss, s.Accepted) →
    ∀ wide ∈ ss, wide.paints → ∀ tall ∈ ss, ∀ row ∈ tall.rows,
      wide.right * (row + 1) ≤ maxSixelPixels

theorem le_of_max_columns {s : Stroke} {x : Nat} (h : (ss.flatMap Stroke.columns).max? = some x)
    (hs : s ∈ ss) (hpaints : s.paints) :
    s.right ≤ x + 1 := by
  have hmem : s.right - 1 ∈ ss.flatMap Stroke.columns := by
    refine List.mem_flatMap.mpr ⟨s, hs, ?_⟩
    rw [Stroke.columns, if_pos hpaints]
    exact List.mem_singleton_self _
  have hle := List.max?_le_iff h |>.mp (Nat.le_refl x) _ hmem
  omega

/-- Every stroke that paints beside every other is within the caps when the image is. -/
theorem together_of_pixels (h : ∀ width height rgba, decodeSixel data = some (width, height, rgba) →
      width * height ≤ maxSixelPixels) : Together data := by
  intro ss hss haccepted wide hwide hpaints tall htall row hrow
  have hcolumn : ss.flatMap Stroke.columns ≠ [] := by
    refine List.ne_nil_of_mem (a := wide.right - 1) (List.mem_flatMap.mpr ⟨wide, hwide, ?_⟩)
    rw [Stroke.columns, if_pos hpaints]
    exact List.mem_singleton_self _
  have hmem : row ∈ ss.flatMap Stroke.rows := List.mem_flatMap.mpr ⟨tall, htall, hrow⟩
  obtain ⟨x, hx⟩ := Option.ne_none_iff_exists'.mp (mt List.max?_eq_none_iff.mp hcolumn)
  obtain ⟨y, hy⟩ := Option.ne_none_iff_exists'.mp
    (mt List.max?_eq_none_iff.mp (List.ne_nil_of_mem hmem))
  obtain ⟨rgba, himage⟩ := decodeSixel_of_accepted hss haccepted hx hy
  calc wide.right * (row + 1) ≤ (x + 1) * (y + 1) :=
        Nat.mul_le_mul (le_of_max_columns hx hwide hpaints)
          (Nat.succ_le_succ (List.max?_le_iff hy |>.mp (Nat.le_refl y) _ hmem))
    _ ≤ maxSixelPixels := h _ _ _ himage

/-- **When a sixel image is within its caps.** The pixels are counted stroke by stroke, so they are
within the cap exactly when no stroke that paints is too wide for another's lowest row. -/
theorem bounded_iff {data : List UInt8} (hdata : data.length < 2 ^ 64) :
    Bounded data ↔ Together data := by
  constructor
  · intro h
    exact together_of_pixels fun width height rgba himage => (h.2 width height rgba himage).2.2.1
  · intro h
    refine ⟨decodeSixelAt_eq hdata, fun width height rgba himage => ?_⟩
    obtain ⟨ss, x, y, hss, haccepted, hx, hy, rfl, rfl, hwidth, hheight, hlength⟩ :=
      decodeSixel_some himage
    refine ⟨hwidth, hheight, ?_, hlength⟩
    obtain ⟨wide, hwide, hcolumn⟩ := List.mem_flatMap.mp (List.max?_mem hx)
    obtain ⟨tall, htall, hrow⟩ := List.mem_flatMap.mp (List.max?_mem hy)
    rw [Stroke.columns] at hcolumn
    split at hcolumn
    · next hpaints =>
      have hpos := repeats_pos hss wide hwide
      have hright : 0 < wide.right := Nat.lt_of_lt_of_le hpos (Nat.le_add_left _ _)
      have hx' : x + 1 = wide.right := by
        rw [List.mem_singleton.mp hcolumn]
        omega
      rw [hx']
      exact h ss hss haccepted wide hwide hpaints tall htall y hrow
    · cases hcolumn

/-- A narrow stroke over the whole image. -/
theorem bounded_narrow : Bounded [0x21, 0x33, 0x7e, 0x2d, 0x7e] := by
  refine (bounded_iff (by decide)).mpr fun ss hss _ => ?_
  have hall : (strokes {} [0x21, 0x33, 0x7e, 0x2d, 0x7e]).all fun ss =>
      decide (∀ wide ∈ ss, wide.paints → ∀ tall ∈ ss, ∀ row ∈ tall.rows,
        wide.right * (row + 1) ≤ maxSixelPixels) := by decide +kernel
  rw [hss] at hall
  exact of_decide_eq_true hall

/-- A stroke of 16384 columns in the first band (`!16384@`), and one of a column in the band after
82 more (`-`, then `@`). -/
def wideAndTall : List UInt8 :=
  [0x21, 0x31, 0x36, 0x33, 0x38, 0x34, 0x40] ++ List.replicate 82 0x2d ++ [0x40]

/-- It is an image of 16384 by 493 pixels, which are more than the cap. -/
theorem not_bounded_wideAndTall : ¬ Bounded wideAndTall := by
  intro h
  have htogether := together_of_pixels fun width height rgba himage =>
    (h.2 width height rgba himage).2.2.1
  have hstrokes : (strokes {} wideAndTall).any fun ss =>
      decide ((∀ s ∈ ss, s.Accepted) ∧ ∃ wide ∈ ss, wide.paints ∧ ∃ tall ∈ ss, ∃ row ∈ tall.rows,
        maxSixelPixels < wide.right * (row + 1)) := by decide +kernel
  obtain ⟨ss, hss⟩ : ∃ ss, strokes {} wideAndTall = some ss :=
    Option.isSome_iff_exists.mp (by decide +kernel)
  rw [hss] at hstrokes
  obtain ⟨haccepted, wide, hwide, hpaints, tall, htall, row, hrow, hlt⟩ :=
    of_decide_eq_true hstrokes
  exact Nat.not_le.mpr hlt (htogether ss hss haccepted wide hwide hpaints tall htall row hrow)

end Goble.Terminal
