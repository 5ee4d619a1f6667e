import Goble.Lib.Utf8
import Goble.Terminal.Cell
import Mathlib.Data.List.TakeWhile

/-!
# Captured output as lines

`render_lines` runs the VT parser over a block's output into a line-oriented sink. The parser is
a parameter; it turns the bytes into calls to the sink.

For plain text the lines are those of `str::lines`, but for one case: a last line of spaces without
a line feed is taken for the empty row that a trailing line feed leaves (`rendered_iff`).
-/

namespace Goble.Terminal

def maxRows : Nat := 50000

def maxColumns : Nat := 8192

inductive Color where
  | named (color : NamedColor)
  | spec (r g b : UInt8)
  | indexed (index : UInt8)
deriving DecidableEq, Repr

/-- Map the parser's colour to the cell model's. -/
def mapColor : Color → ScreenColor
  | .named color => .named color
  | .spec r g b => .rgb r g b
  | .indexed index => .indexed index

inductive Attr where
  | reset | bold | dim | italic
  | underline | doubleUnderline | undercurl | dottedUnderline | dashedUnderline
  | blinkSlow | blinkFast | reverse | hidden | strike
  | cancelBold | cancelBoldDim | cancelItalic | cancelUnderline | cancelBlink | cancelReverse
  | cancelHidden | cancelStrike
  | foreground (color : Color)
  | background (color : Color)
  | underlineColor (color : Option Color)
deriving DecidableEq, Repr

/-- A call of the parser that the sink does not ignore. -/
inductive HandlerCall where
  | input (c : Char)
  | linefeed
  | newline
  | carriageReturn
  | backspace
  | putTab (count : UInt16)
  | terminalAttribute (attr : Attr)
deriving DecidableEq, Repr

structure LineSink where
  rows : List (List ScreenCell) := [[]]
  row : Nat := 0
  col : Nat := 0
  fg : ScreenColor := .named .foreground
  bg : ScreenColor := .named .background
  bold : Bool := false
  dim : Bool := false
  italic : Bool := false
  underline : Underline := .none
  underlineColor : Option ScreenColor := none
  inverse : Bool := false
  hidden : Bool := false
  strikeout : Bool := false
deriving DecidableEq, Repr

namespace LineSink

def new : LineSink := {}

variable (sink : LineSink)

/-- A character with the attributes in force. -/
def cell (ch : Char) : ScreenCell where
  ch
  fg := sink.fg
  bg := sink.bg
  attrs := {
    bold := sink.bold
    dim := sink.dim
    italic := sink.italic
    underline := sink.underline
    underlineColor := sink.underlineColor
    inverse := sink.inverse
    hidden := sink.hidden
    strikeout := sink.strikeout }

/-- `vec.push(Vec::new())` until there are `count` rows. -/
def growRows (rows : List (List ScreenCell)) (count : Nat) : List (List ScreenCell) :=
  rows ++ List.replicate (count - rows.length) []

def put (ch : Char) : LineSink :=
  if maxColumns ≤ sink.col then sink
  else
    let rows := if sink.rows.length ≤ sink.row then sink.rows ++ [[]] else sink.rows
    let rows := rows.modify sink.row fun row =>
      (row ++ List.replicate (sink.col + 1 - row.length) ({} : ScreenCell)).set sink.col
        (sink.cell ch)
    { sink with rows, col := sink.col + 1 }

def newline : LineSink :=
  let rows := growRows sink.rows (sink.row + 2)
  -- the newest rows are kept
  if maxRows ≤ sink.row + 1 then { sink with rows := rows.tail, col := 0 }
  else { sink with rows, row := sink.row + 1, col := 0 }

def terminalAttribute : Attr → LineSink
  | .reset => { rows := sink.rows, row := sink.row, col := sink.col }
  | .bold => { sink with bold := true }
  | .dim => { sink with dim := true }
  | .italic => { sink with italic := true }
  | .underline => { sink with underline := .single }
  | .doubleUnderline => { sink with underline := .double }
  | .undercurl => { sink with underline := .curly }
  | .dottedUnderline => { sink with underline := .dotted }
  | .dashedUnderline => { sink with underline := .dashed }
  | .reverse => { sink with inverse := true }
  | .hidden => { sink with hidden := true }
  | .strike => { sink with strikeout := true }
  | .cancelBold => { sink with bold := false }
  | .cancelBoldDim => { sink with bold := false, dim := false }
  | .cancelItalic => { sink with italic := false }
  | .cancelUnderline => { sink with underline := .none, underlineColor := none }
  | .cancelReverse => { sink with inverse := false }
  | .cancelHidden => { sink with hidden := false }
  | .cancelStrike => { sink with strikeout := false }
  | .foreground color => { sink with fg := mapColor color }
  | .background color => { sink with bg := mapColor color }
  | .underlineColor color => { sink with underlineColor := color.map mapColor }
  | .blinkSlow | .blinkFast | .cancelBlink => sink

def handle : HandlerCall → LineSink
  | .input c => sink.put c
  | .linefeed | .newline => sink.newline
  | .carriageReturn => { sink with col := 0 }
  | .backspace => { sink with col := sink.col - 1 }
  | .putTab count => { sink with col := (sink.col / 8 + max count.toNat 1) * 8 }
  | .terminalAttribute attr => sink.terminalAttribute attr

def trimRow (cells : List ScreenCell) : ScreenLine := ⟨(cells.reverse.dropWhile isBlank).reverse⟩

def finish : List ScreenLine :=
  let rows := if sink.rows.getLast?.any fun row => row.all isBlank then sink.rows.dropLast
    else sink.rows
  rows.map trimRow

end LineSink

/-- Render a raw output stream as styled lines. -/
def renderLines (parse : List UInt8 → List HandlerCall) (bytes : List UInt8) : List ScreenLine :=
  if bytes.isEmpty then [] else ((parse bytes).foldl LineSink.handle .new).finish

/-! ### Plain text -/

/-- Printable ASCII or a line feed. -/
def isPlain (c : Char) : Bool := c = '\n' || (0x20 ≤ c.toNat && c.toNat ≤ 0x7e)

/-- What the parser makes of plain text: each line feed and each other character is a call of its
own. -/
def ParsesPlain (parse : List UInt8 → List HandlerCall) : Prop :=
  ∀ text : List Char, (∀ c ∈ text, isPlain c) → parse (Text.encode text) =
    text.map fun c => if c = '\n' then .linefeed else .input c

def lastLine (text : List Char) : List Char := (text.reverse.takeWhile (· ≠ '\n')).reverse

def splitLines (current : List Char) : List Char → List (List Char) × List Char
  | [] => ([], current)
  | c :: text =>
    if c = '\n' then
      let (ended, last) := splitLines [] text
      (current :: ended, last)
    else splitLines (current ++ [c]) text

section Plain

variable {current text : List Char}

theorem splitLines_newline (current text : List Char) : splitLines current ('\n' :: text) =
    (current :: (splitLines [] text).1, (splitLines [] text).2) := rfl

theorem splitLines_cons {c : Char} (current text : List Char) (hc : c ≠ '\n') :
    splitLines current (c :: text) = splitLines (current ++ [c]) text := if_neg hc

theorem takeWhile_append_cons {p : Char → Bool} {c : Char} (xs ys : List Char)
    (hc : p c = false) : (xs ++ c :: ys).takeWhile p = xs.takeWhile p := by
  induction xs with
  | nil => exact List.takeWhile_cons_of_neg (by simp [hc])
  | cons x xs ih => rw [List.cons_append, List.takeWhile_cons, List.takeWhile_cons, ih]

theorem splitLines_snd (hcurrent : '\n' ∉ current) :
    (splitLines current text).2 = lastLine (current ++ text) := by
  induction text generalizing current with
  | nil =>
    have hne : ∀ c ∈ current.reverse, decide (c ≠ '\n') = true := by
      intro c hc
      refine decide_eq_true ?_
      rintro rfl
      exact hcurrent (List.mem_reverse.mp hc)
    rw [List.append_nil, lastLine, List.takeWhile_eq_self_iff.mpr hne, List.reverse_reverse]
    rfl
  | cons c text ih =>
    by_cases hc : c = '\n'
    · subst hc
      rw [splitLines_newline, ih List.not_mem_nil, List.nil_append, lastLine, lastLine,
        List.reverse_append, List.reverse_cons, List.append_assoc, List.singleton_append,
        takeWhile_append_cons _ _ (by decide)]
    · have hcurrent' : '\n' ∉ current ++ [c] := by
        rw [List.mem_append, List.mem_singleton]
        rintro (h | h)
        · exact hcurrent h
        · exact hc h.symm
      rw [splitLines_cons _ _ hc, ih hcurrent', List.append_assoc, List.singleton_append]

/-- `str::lines` leaves out what stands after the last line feed only if it is empty. -/
theorem linesFrom_eq (hcr : '\r' ∉ current ++ text) :
    Text.linesFrom current.reverse text = (splitLines current text).1 ++
      if (splitLines current text).2 = [] then [] else [(splitLines current text).2] := by
  induction text generalizing current with
  | nil =>
    by_cases hnil : current = []
    · subst hnil
      rfl
    · have hlast : (splitLines current []).2 ≠ [] := hnil
      have hreverse : current.reverse ≠ [] := fun h => hnil (List.reverse_eq_nil_iff.mp h)
      rw [Text.linesFrom, if_neg hreverse, if_neg hlast, List.reverse_reverse]
      rfl
  | cons c text ih =>
    by_cases hc : c = '\n'
    · subst hc
      have hline : '\r' ∉ current.reverse := fun hmem =>
        hcr (List.mem_append_left _ (List.mem_reverse.mp hmem))
      have hempty : '\r' ∉ [] ++ text := fun hmem =>
        hcr (List.mem_append_right _ (List.mem_cons_of_mem _ hmem))
      have hrest := ih hempty
      rw [Text.linesFrom, if_pos rfl, Text.stripCr_eq_self hline, List.reverse_reverse,
        splitLines_newline]
      exact congrArg (current :: ·) hrest
    · have hcr' : '\r' ∉ current ++ [c] ++ text := by
        rw [List.append_assoc, List.singleton_append]
        exact hcr
      have hrest := ih hcr'
      rw [List.reverse_append, List.reverse_singleton, List.singleton_append] at hrest
      rw [Text.linesFrom, if_neg hc, hrest, splitLines_cons _ _ hc]

theorem length_current_le {bound : Nat} (hended : ∀ line ∈ (splitLines current text).1,
    line.length ≤ bound) (hlast : (splitLines current text).2.length ≤ bound) :
    current.length ≤ bound := by
  induction text generalizing current with
  | nil => exact hlast
  | cons c text ih =>
    by_cases hc : c = '\n'
    · subst hc
      exact hended current List.mem_cons_self
    · rw [splitLines_cons _ _ hc] at hended hlast
      have hle := ih hended hlast
      rw [List.length_append, List.length_singleton] at hle
      exact Nat.le_of_succ_le hle

/-! ### The sink on plain text -/

/-- The cells of a line that is written with the default attributes. -/
def plainRow (line : List Char) : List ScreenCell := line.map fun ch => { ch }

theorem modify_length {α : Type} (xs : List α) (x : α) (f : α → α) :
    (xs ++ [x]).modify xs.length f = xs ++ [f x] := by
  induction xs with
  | nil => rfl
  | cons y xs ih => exact congrArg (y :: ·) ih

namespace LineSink

variable {done : List (List ScreenCell)}

def plain (done : List (List ScreenCell)) (current : List Char) : LineSink where
  rows := done ++ [plainRow current]
  row := done.length
  col := current.length

theorem put_eq {sink : LineSink} (ch : Char) (hcol : sink.col < maxColumns)
    (hrow : sink.row < sink.rows.length) :
    sink.put ch = { sink with
      rows := sink.rows.modify sink.row fun row =>
        (row ++ List.replicate (sink.col + 1 - row.length) ({} : ScreenCell)).set sink.col
          (sink.cell ch)
      col := sink.col + 1 } := by
  rw [put, if_neg (Nat.not_le_of_lt hcol), if_neg (Nat.not_le_of_lt hrow)]

theorem put_plain (c : Char) (h : current.length < maxColumns) :
    (plain done current).put c = plain done (current ++ [c]) := by
  have hlength : (plainRow current).length = current.length := List.length_map ..
  have hset : (plainRow current ++ List.replicate (current.length + 1 - (plainRow current).length)
      ({} : ScreenCell)).set current.length { ch := c } = plainRow (current ++ [c]) := by
    rw [hlength, Nat.add_sub_cancel_left, List.replicate_one, List.set_append_right _ _ hlength.le,
      hlength, Nat.sub_self, plainRow, plainRow, List.map_append]
    rfl
  have hrow : done.length < (done ++ [plainRow current]).length := by
    rw [List.length_append, List.length_singleton]
    exact Nat.lt_succ_self _
  have hrows : (plain done current).rows.modify (plain done current).row (fun row =>
      (row ++ List.replicate (current.length + 1 - row.length) ({} : ScreenCell)).set current.length
        { ch := c }) = done ++ [plainRow (current ++ [c])] := by
    rw [← hset]
    exact modify_length done (plainRow current) _
  have hcol : current.length + 1 = (current ++ [c]).length := by
    rw [List.length_append, List.length_singleton]
  rw [put_eq c h hrow]
  show ({ plain done current with rows := _, col := current.length + 1 } : LineSink) = _
  rw [show (plain done current).cell c = { ch := c } from rfl, show (plain done current).col =
    current.length from rfl, hrows, hcol]
  rfl

theorem newline_eq {sink : LineSink} (h : sink.row + 1 < maxRows) :
    sink.newline = { sink with
      rows := growRows sink.rows (sink.row + 2), row := sink.row + 1, col := 0 } :=
  if_neg (Nat.not_le_of_lt h)

theorem newline_plain (h : done.length + 1 < maxRows) :
    (plain done current).newline = plain (done ++ [plainRow current]) [] := by
  have hrows : growRows (done ++ [plainRow current]) (done.length + 2) =
      done ++ [plainRow current] ++ [plainRow []] := by
    have hone : done.length + 2 - (done ++ [plainRow current]).length = 1 := by
      rw [List.length_append, List.length_singleton]
      omega
    rw [growRows, hone]
    rfl
  have hlength : (done ++ [plainRow current]).length = done.length + 1 := by
    rw [List.length_append, List.length_singleton]
  rw [newline_eq h]
  show ({ plain done current with
    rows := growRows (done ++ [plainRow current]) (done.length + 2),
    row := done.length + 1, col := 0 } : LineSink) = _
  rw [hrows, ← hlength]
  rfl

/-- The call for a character of plain text. -/
def call (c : Char) : HandlerCall := if c = '\n' then .linefeed else .input c

theorem foldl_plain (hrows : done.length + (splitLines current text).1.length < maxRows)
    (hended : ∀ line ∈ (splitLines current text).1, line.length ≤ maxColumns)
    (hlast : (splitLines current text).2.length ≤ maxColumns) :
    (text.map call).foldl handle (plain done current) =
      plain (done ++ (splitLines current text).1.map plainRow) (splitLines current text).2 := by
  induction text generalizing done current with
  | nil => exact congrArg (plain · current) (List.append_nil done).symm
  | cons c text ih =>
    rw [List.map_cons, List.foldl_cons]
    by_cases hc : c = '\n'
    · subst hc
      rw [splitLines_newline] at hrows hended hlast ⊢
      dsimp only at hrows hended hlast ⊢
      rw [List.length_cons] at hrows
      have hstep : (plain done current).handle (call '\n') =
          plain (done ++ [plainRow current]) [] := newline_plain (by omega)
      have hlength : (done ++ [plainRow current]).length = done.length + 1 := by
        rw [List.length_append, List.length_singleton]
      rw [hstep, ih (by omega) (fun line hline => hended line (List.mem_cons_of_mem _ hline)) hlast,
        List.map_cons, List.append_assoc, List.singleton_append]
    · rw [splitLines_cons _ _ hc] at hrows hended hlast ⊢
      have hle := length_current_le hended hlast
      rw [List.length_append, List.length_singleton] at hle
      have hcall : call c = .input c := if_neg hc
      have hstep : (plain done current).handle (call c) = plain done (current ++ [c]) := by
        rw [hcall]
        exact put_plain c hle
      rw [hstep, ih hrows hended hlast]

theorem text_trimRow (line : List Char) : (trimRow (plainRow line)).text = trimEnd line := by
  have hcells : (plainRow line).reverse.dropWhile isBlank =
      (plainRow (line.reverse.dropWhile (· = ' '))) := by
    have hblank : isBlank ∘ (fun ch => ({ ch } : ScreenCell)) = fun ch => decide (ch = ' ') :=
      funext fun ch => Bool.and_true _
    rw [plainRow, ← List.map_reverse, List.dropWhile_map, hblank]
    rfl
  have hflat : ∀ cs : List Char, (plainRow cs).reverse.flatMap ScreenCell.text = cs.reverse := by
    intro cs
    rw [plainRow, ← List.map_reverse, List.flatMap_map]
    exact List.flatMap_singleton' _
  -- spaces that are trimmed before are trimmed anyway
  have hdrop : ∀ cs : List Char, (cs.dropWhile (· = ' ')).dropWhile Text.isWhitespace =
      cs.dropWhile Text.isWhitespace := by
    intro cs
    induction cs with
    | nil => rfl
    | cons c cs ih =>
      by_cases hc : c = ' '
      · subst hc
        rw [List.dropWhile_cons_of_pos (by decide), ih, List.dropWhile_cons_of_pos (by decide)]
      · rw [List.dropWhile_cons_of_neg (by simpa using hc)]
  rw [trimRow, hcells, ScreenLine.text, hflat, trimEnd, List.reverse_reverse, hdrop]
  rfl

theorem finish_plain (lines : List (List Char)) (last : List Char) :
    (plain (lines.map plainRow) last).finish.map ScreenLine.text = lines.map trimEnd ++
      if last.all (· = ' ') then [] else [trimEnd last] := by
  have hall : (plainRow last).all isBlank = last.all (· = ' ') := by
    rw [plainRow, List.all_map]
    exact congrArg (List.all last) (funext fun ch => Bool.and_true _)
  have htexts : (lines.map plainRow).map (ScreenLine.text ∘ trimRow) = lines.map trimEnd := by
    rw [List.map_map]
    exact List.map_congr_left fun line _ => text_trimRow line
  have hlast : (plain (lines.map plainRow) last).rows.getLast?.any (fun row => row.all isBlank) =
      last.all (· = ' ') := by
    rw [plain, List.getLast?_concat, Option.any_some, hall]
  rw [finish, hlast, List.map_map]
  split
  · rw [plain, List.dropLast_concat, htexts, List.append_nil]
  · rw [plain, List.map_append, htexts, List.map_singleton, Function.comp_apply, text_trimRow]

end LineSink

def BlankEnd (text : List Char) : Prop := lastLine text ≠ [] ∧ (lastLine text).all (· = ' ')

instance (text : List Char) : Decidable (BlankEnd text) := inferInstanceAs (Decidable (_ ∧ _))

/-- The lines of `render_lines` are those of `str::lines`, up to the blanks they end with. -/
def Rendered (parse : List UInt8 → List HandlerCall) (text : List Char) : Prop :=
  (renderLines parse (Text.encode text)).map ScreenLine.text = (Text.lines text).map trimEnd

/-- **Plain text is rendered as its lines**, except exactly for a text that ends in a line of
spaces. -/
theorem rendered_iff {parse : List UInt8 → List HandlerCall} (hparse : ParsesPlain parse)
    {text : List Char} (hplain : ∀ c ∈ text, isPlain c)
    (hrows : (Text.lines text).length < maxRows)
    (hcolumns : ∀ line ∈ Text.lines text, line.length ≤ maxColumns) :
    Rendered parse text ↔ ¬ BlankEnd text := by
  have hcr : '\r' ∉ [] ++ text := fun hmem => absurd (hplain _ hmem) (by decide)
  have hlines : Text.lines text = (splitLines [] text).1 ++
      if (splitLines [] text).2 = [] then [] else [(splitLines [] text).2] := linesFrom_eq hcr
  have hsnd : (splitLines [] text).2 = lastLine text := splitLines_snd List.not_mem_nil
  rw [hsnd] at hlines
  generalize hended : (splitLines [] text).1 = ended at hlines
  have hrender : (renderLines parse (Text.encode text)).map ScreenLine.text = ended.map trimEnd ++
      if (lastLine text).all (· = ' ') then [] else [trimEnd (lastLine text)] := by
    have hcount : ([] : List (List ScreenCell)).length + (splitLines [] text).1.length < maxRows := by
      rw [hlines, List.length_append] at hrows
      rw [List.length_nil, Nat.zero_add, hended]
      exact Nat.lt_of_le_of_lt (Nat.le_add_right _ _) hrows
    have hlong : ∀ line ∈ (splitLines [] text).1, line.length ≤ maxColumns := by
      intro line hline
      rw [hended] at hline
      exact hcolumns line (hlines ▸ List.mem_append_left _ hline)
    have hlast : (splitLines [] text).2.length ≤ maxColumns := by
      rw [hsnd]
      by_cases hnil : lastLine text = []
      · rw [hnil]
        exact Nat.zero_le _
      · refine hcolumns _ ?_
        rw [hlines, if_neg hnil]
        exact List.mem_append_right _ List.mem_cons_self
    have hrun := LineSink.foldl_plain hcount hlong hlast
    rw [List.nil_append, hended, hsnd] at hrun
    have hsink : (parse (Text.encode text)).foldl LineSink.handle .new =
        LineSink.plain (ended.map plainRow) (lastLine text) := by
      rw [hparse text hplain]
      exact hrun
    match text with
    | [] =>
      obtain rfl : [] = ended := hended
      rfl
    | c :: text =>
      have hbytes : (Text.encode (c :: text)).isEmpty = false := by
        rw [Text.encode, List.flatMap_cons, List.isEmpty_eq_false_iff]
        exact fun h => String.utf8EncodeChar_ne_nil (List.append_eq_nil_iff.mp h).1
      rw [renderLines, hbytes, if_neg Bool.false_ne_true, hsink, LineSink.finish_plain]
  rw [Rendered, hrender, hlines, List.map_append, List.append_cancel_left_eq, BlankEnd]
  by_cases hnil : lastLine text = []
  · simp [hnil]
  · by_cases hblank : (lastLine text).all (· = ' ') = true
    · simp [hnil, hblank]
    · simp [hnil, hblank]

end Plain

/-- A parser that knows no escape sequence. -/
def textCalls (bytes : List UInt8) : List HandlerCall := (Text.lossy bytes).map LineSink.call

theorem parsesPlain_textCalls : ParsesPlain textCalls := by
  intro text _
  rw [textCalls, Text.lossy_encode]
  rfl

/-- Blank lines, and a line feed at the end. -/
theorem rendered_blank_lines : Rendered textCalls "a \n\n  \nb\n".toList :=
  (rendered_iff parsesPlain_textCalls (List.all_eq_true.mp (by decide +kernel)) (by decide +kernel)
    (by decide +kernel)).mpr (by decide +kernel)

/-- A last line of two spaces is lost. -/
theorem not_rendered_spaces :
    ParsesPlain textCalls ∧
      (renderLines textCalls (Text.encode "a\n  ".toList)).map ScreenLine.text = [['a']] ∧
      Text.lines "a\n  ".toList = [['a'], [' ', ' ']] ∧ ¬ Rendered textCalls "a\n  ".toList := by
  have hrender : (renderLines textCalls (Text.encode "a\n  ".toList)).map ScreenLine.text =
      [['a']] := by decide +kernel
  have hlines : Text.lines "a\n  ".toList = [['a'], [' ', ' ']] := by decide +kernel
  refine ⟨parsesPlain_textCalls, hrender, hlines, fun h => ?_⟩
  rw [Rendered, hrender, hlines] at h
  exact absurd (congrArg List.length h) (by decide)

end Goble.Terminal
