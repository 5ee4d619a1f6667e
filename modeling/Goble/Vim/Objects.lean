import Goble.Vim.Words

/-!
# Text objects

The ranges `i` and `a` hand to an operator: half open, in character indices.
-/

namespace Goble.Vim

open Text (isWhitespace)

structure Range where
  start : Nat
  stop : Nat
deriving DecidableEq, Repr

inductive Bracket
  | parenthesis | curlyBrace | squareBracket
deriving DecidableEq, Repr

namespace Bracket

/-- The bracket `c` names, and whether it opens its pair. -/
def of (c : Char) : Option (Bracket × Bool) :=
  if c = '(' ∨ c = ')' then some (parenthesis, c = '(')
  else if c = '\x7b' ∨ c = '\x7d' then some (curlyBrace, c = '\x7b')
  else if c = '[' ∨ c = ']' then some (squareBracket, c = '[')
  else none

def chars : Bracket → Char × Char
  | parenthesis => ('(', ')')
  | curlyBrace => ('\x7b', '\x7d')
  | squareBracket => ('[', ']')

end Bracket

inductive Quote
  | single | double | backtick
deriving DecidableEq, Repr

namespace Quote

def of (c : Char) : Option Quote :=
  if c = '\x27' then some single
  else if c = '\x22' then some double
  else if c = '\x60' then some backtick
  else none

def char : Quote → Char
  | single => '\x27'
  | double => '\x22'
  | backtick => '\x60'

def isChar (q : Quote) (c : Char) : Bool := c = q.char

end Quote

/-! ### Brackets -/

/-- The forward loop of `matching_bracket`, at index `i` with the text from there on. -/
def matchAhead (opening closing : Char) : Nat → Nat → List Char → Option Nat
  | _, _, [] => none
  | depth, i, c :: rest =>
    if c = opening then matchAhead opening closing (depth + 1) (i + 1) rest
    else if c = closing then
      if depth = 0 then some i else matchAhead opening closing (depth - 1) (i + 1) rest
    else matchAhead opening closing depth (i + 1) rest

/-- The backward loop of `matching_bracket`, over what precedes the index. -/
def matchBehind (opening closing : Char) (chars : List Char) : Nat → Nat → Option Nat
  | _, 0 => none
  | depth, i + 1 =>
    if charAt chars i = closing then matchBehind opening closing chars (depth + 1) i
    else if charAt chars i = opening then
      if depth = 0 then some i else matchBehind opening closing chars (depth - 1) i
    else matchBehind opening closing chars depth i

/-- The index of the bracket that pairs with the one at `at`. -/
def matchingBracket (chars : List Char) (pos : Nat) (bracket : Bracket) (fromOpening : Bool) :
    Option Nat :=
  let (opening, closing) := bracket.chars
  if fromOpening then matchAhead opening closing 0 (pos + 1) (chars.drop (pos + 1))
  else matchBehind opening closing chars 0 pos

def aBlock (chars : List Char) (pos : Nat) (bracket : Bracket) : Option Range := do
  let c ← chars[pos]?
  let enclosing : Option Range := do
    let stop ← matchingBracket chars pos bracket true
    let start ← matchingBracket chars stop bracket false
    pure ⟨start, stop + 1⟩
  match Bracket.of c with
  | some (found, opens) =>
    if found = bracket then do
      -- the caret already sits on a bracket of the right kind
      let other ← matchingBracket chars pos bracket opens
      pure (if other > pos then ⟨pos, other + 1⟩ else ⟨other, pos + 1⟩)
    else enclosing
  | none => enclosing

/-- Whitespace that runs back from `stop` to a newline is not content. -/
def trimTrailing (chars : List Char) (start stop : Nat) : Nat → Nat
  | 0 => stop
  | i + 1 =>
    if i + 1 > start ∧ isWhitespace (charAt chars i) then
      if charAt chars i = '\n' then i else trimTrailing chars start stop i
    else stop

/-- Whitespace that runs from `start` to a newline is not content either. -/
def trimLeading (start stop : Nat) : Nat → List Char → Nat
  | i, c :: rest =>
    if i < stop ∧ isWhitespace c then
      if c = '\n' then i + 1 else trimLeading start stop (i + 1) rest
    else start
  | _, [] => start

def innerBlock (chars : List Char) (pos : Nat) (bracket : Bracket)
    (preserveLeadingPadding : Bool) : Option Range := do
  let block ← aBlock chars pos bracket
  let start := block.start + 1
  let stop := trimTrailing chars start (block.stop - 1) (block.stop - 1)
  let start :=
    if preserveLeadingPadding then trimLeading start stop start (chars.drop start) else start
  pure ⟨start, stop⟩

def wordRun (chars : List Char) (pos : Nat) (context : CharKind) (kind : WordKind) : Range :=
  ⟨backWhile (fun c => (CharKind.of c).continues context kind) chars pos,
    forwardWhile (fun c => (CharKind.of c).continues context kind) chars pos⟩

def innerWord (chars : List Char) (pos : Nat) (kind : WordKind) : Option Range :=
  chars[pos]?.map fun c => wordRun chars pos (.of c) kind

def aWord (chars : List Char) (pos : Nat) (kind : WordKind) : Option Range :=
  chars[pos]?.map fun c =>
    let run := wordRun chars pos (.of c) kind
    if CharKind.of c = .whitespace then
      -- on whitespace the object takes the word that follows it
      match chars[run.stop]? with
      | none => run
      | some next =>
        ⟨run.start,
          forwardWhile (fun c => (CharKind.of c).continues (.of next) kind) chars run.stop⟩
    else
      match chars[run.stop]? with
      | some c =>
        if isWhitespace c then ⟨run.start, forwardWhile isWhitespace chars run.stop⟩
        else ⟨backWhile isWhitespace chars run.start, run.stop⟩
      | none => ⟨backWhile isWhitespace chars run.start, run.stop⟩

/-! ### Lines and quotes -/

/-- The line that holds `at`, without its newline. -/
def lineRange (chars : List Char) (pos : Nat) : Range :=
  let pos := min pos chars.length
  { start :=
      match (chars.take pos).reverse.findIdx? (· = '\n') with
      | some k => pos - k
      | none => 0
    stop :=
      match (chars.drop pos).findIdx? (· = '\n') with
      | some i => pos + i
      | none => chars.length }

/-- The last index in `[lo, i)` whose character satisfies `p`. -/
def findBehind (p : Char → Bool) (chars : List Char) (lo : Nat) : Nat → Option Nat
  | 0 => none
  | i + 1 =>
    if i + 1 > lo then if p (charAt chars i) then some i else findBehind p chars lo i else none

/-- The first index in `[i, hi)` whose character satisfies `p`, with the text from `i` on. -/
def findAhead (p : Char → Bool) (hi : Nat) : Nat → List Char → Option Nat
  | i, c :: rest =>
    if i < hi then if p c then some i else findAhead p hi (i + 1) rest else none
  | _, [] => none

/-- The text inside a pair of quotes of the line, quotes included. -/
def aQuote (chars : List Char) (pos : Nat) (quote : Quote) : Option Range :=
  let line := lineRange chars pos
  if chars[pos]?.any quote.isChar then
    -- a quote under the caret opens or closes by the parity of the quotes before it
    let before := ((chars.take pos).drop line.start).countP quote.isChar
    if before % 2 = 1 then
      (findBehind quote.isChar chars line.start pos).map fun start => ⟨start, pos + 1⟩
    else
      (findAhead quote.isChar line.stop (pos + 1) (chars.drop (pos + 1))).map fun stop =>
        ⟨pos, stop + 1⟩
  else
    match findBehind quote.isChar chars line.start pos,
      findAhead quote.isChar line.stop pos (chars.drop pos) with
    | some start, some stop => some ⟨start, stop + 1⟩
    | none, some start =>
      (findAhead quote.isChar line.stop (start + 1) (chars.drop (start + 1))).map fun stop =>
        ⟨start, stop + 1⟩
    | _, none => none

def innerQuote (chars : List Char) (pos : Nat) (quote : Quote) : Option Range :=
  (aQuote chars pos quote).map fun range => ⟨range.start + 1, range.stop - 1⟩

/-! ### Paragraphs -/

def lineRangesFrom : Nat → Nat → List Char → List Range
  | start, i, [] => [⟨start, i⟩]
  | start, i, c :: rest =>
    if c = '\n' then ⟨start, i⟩ :: lineRangesFrom (i + 1) (i + 1) rest
    else lineRangesFrom start (i + 1) rest

def lineRanges (chars : List Char) : List Range := lineRangesFrom 0 0 chars

/-- Which line holds `at`: the last one where none does, as at a newline. -/
def lineIndex (lines : List Range) (pos : Nat) : Option Nat :=
  (lines.findIdx? fun line => line.start ≤ pos && pos < line.stop).or
    (if lines.length = 0 then none else some (lines.length - 1))

def lineIsBlank (chars : List Char) (line : Range) : Bool :=
  ((chars.take line.stop).drop line.start).all isWhitespace

def lineAt (lines : List Range) (i : Nat) : Range := lines.getD i ⟨0, 0⟩

def firstLine (chars : List Char) (lines : List Range) : Nat → Nat
  | 0 => 0
  | i + 1 => if !lineIsBlank chars (lineAt lines i) then firstLine chars lines i else i + 1

def innerParagraph (chars : List Char) (pos : Nat) : Option Range := do
  let lines := lineRanges chars
  let index ← lineIndex lines pos
  let first := firstLine chars lines index
  let last := index + ((lines.drop (index + 1)).takeWhile fun l => !lineIsBlank chars l).length
  pure ⟨(lineAt lines first).start, (lineAt lines last).stop⟩

def aParagraph (chars : List Char) (pos : Nat) : Option Range := do
  let text ← innerParagraph chars pos
  let lines := lineRanges chars
  let above : Range :=
    match lines.reverse.find? fun l => l.stop + 1 = text.start && lineIsBlank chars l with
    | some line => ⟨line.start, text.stop⟩
    | none => text
  match lines.find? fun l => l.start = text.stop + 1 with
  | some next => pure (if lineIsBlank chars next then ⟨text.start, next.stop⟩ else above)
  | none => pure above

end Goble.Vim
