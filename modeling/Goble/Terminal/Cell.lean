import Goble.Lib.Text

/-!
# Cells

The cell model the renderer is handed, for the rows of a screen as for the lines of a block.
-/

namespace Goble.Terminal

inductive NamedColor where
  | black | red | green | yellow | blue | magenta | cyan | white
  | brightBlack | brightRed | brightGreen | brightYellow
  | brightBlue | brightMagenta | brightCyan | brightWhite
  | foreground | background | cursor
  | dimBlack | dimRed | dimGreen | dimYellow | dimBlue | dimMagenta | dimCyan | dimWhite
  | brightForeground | dimForeground
deriving DecidableEq, Repr

inductive ScreenColor where
  | named (color : NamedColor)
  | indexed (index : UInt8)
  | rgb (r g b : UInt8)
deriving DecidableEq, Repr

inductive Underline where
  | none
  | single
  | double
  | curly
  | dotted
  | dashed
deriving DecidableEq, Repr

structure CellAttrs where
  bold : Bool := false
  dim : Bool := false
  italic : Bool := false
  underline : Underline := .none
  underlineColor : Option ScreenColor := none
  inverse : Bool := false
  hidden : Bool := false
  strikeout : Bool := false
  /-- The cell holds the first half of a double-width glyph. -/
  wide : Bool := false
  /-- The cell is the right half of a double-width glyph. -/
  wideSpacer : Bool := false
  /-- A double-width glyph did not fit at the end of the row. -/
  leadingWideSpacer : Bool := false
  /-- The row continues on the next one. -/
  wrapline : Bool := false
deriving DecidableEq, Repr

structure ScreenCell where
  ch : Char := ' '
  fg : ScreenColor := .named .foreground
  bg : ScreenColor := .named .background
  attrs : CellAttrs := {}
  zerowidth : List Char := []
  hyperlink : Option String := none
deriving DecidableEq, Repr

/-- A cell that paints nothing: a space with no mark attached. -/
def isBlank (cell : ScreenCell) : Bool := cell.ch = ' ' && cell.zerowidth.isEmpty

structure ScreenLine where
  cells : List ScreenCell
deriving DecidableEq, Repr

/-- `str::trim_end` -/
def trimEnd (text : List Char) : List Char := (text.reverse.dropWhile Text.isWhitespace).reverse

def ScreenCell.text (cell : ScreenCell) : List Char :=
  (if cell.attrs.wideSpacer || cell.attrs.leadingWideSpacer then [] else [cell.ch]) ++
    cell.zerowidth

/-- The row's text with trailing blanks removed. -/
def ScreenLine.text (line : ScreenLine) : List Char := trimEnd (line.cells.flatMap ScreenCell.text)

end Goble.Terminal
