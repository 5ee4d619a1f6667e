import Mathlib.Logic.Function.Iterate
import Goble.Vim.State

/-!
# The key tables

Every arm of the source's key tables does some bookkeeping (records the key, takes the counts, sets
what is pending) and ends in one call: an operator on a range, a motion, an insert session, a put,
an undo, or just an answer. The tables here return the two apart, `Editor × Call`, and `perform`
makes the call. So what a key does to the text is in `perform`, a case each, and what it does to the
half-typed command is in the tables.

Every table but one is closed: `.` replays recorded keys through the normal-mode table. It is the
only recursion of the engine, and nothing bounds it, so `normal` takes the depth of nested replays
it may go to and answers `none` when that is not enough.
-/

namespace Goble.Vim

/-! ### Motions -/

/-- The single-character command a named key stands for. -/
def Key.named : Key → Key
  | .backspace | .arrowLeft => .char 'h'
  | .arrowRight => .char 'l'
  | .arrowUp | .arrowDown => .char 'k'
  | .home => .char '0'
  | .lineEnd => .char '$'
  | .delete => .char 'x'
  | key => key

def Key.isChar : Key → Bool
  | .char _ => true
  | _ => false

theorem Key.eq_of_named {key : Key} {c : Char} (h : key.named = .char c)
    (hc : c ∉ ['h', 'l', 'k', '0', '$', 'x']) : key = .char c := by
  cases key
  case char => exact h
  all_goals cases h <;> simp at hc

def isRegisterName (c : Char) : Bool := c.isAlpha || c ∈ ['+', '*', '\x22', '_']

def wordKind (c : Char) : WordKind := if c.isUpper then .bigWord else .word

def wordMotion (c : Char) (kind : WordKind) (chars : List Char) (pos : Nat) : Nat :=
  match c with
  | 'w' | 'W' => wordStartForward chars pos kind
  | 'b' | 'B' => wordStartBackward chars pos kind
  | 'e' | 'E' => wordEndForward chars pos kind
  | _ => pos

def matchingBracketIndex (chars : List Char) (pos : Nat) : Option Nat := do
  let c ← chars[pos]?
  let (bracket, opening) ← Bracket.of c
  matchingBracket chars pos bracket opening

def repeatMotion (count caret : Nat) (step : Nat → Nat) : Nat := step^[max count 1] caret

/-- The forward loop of `find_index`, at index `i` with the text from there on. -/
def findForward (target : Char) (count : Nat) : Nat → Nat → List Char → Option Nat
  | _, _, [] => none
  | seen, i, c :: rest =>
    if c = target then
      if seen + 1 = max count 1 then some i else findForward target count (seen + 1) (i + 1) rest
    else findForward target count seen (i + 1) rest

/-- The backward loop of `find_index`, over what precedes the index. -/
def findBackward (target : Char) (count : Nat) (chars : List Char) : Nat → Nat → Option Nat
  | _, 0 => none
  | seen, i + 1 =>
    if charAt chars i = target then
      if seen + 1 = max count 1 then some i else findBackward target count chars (seen + 1) i
    else findBackward target count chars seen i

def findIndex (chars : List Char) (caret : Nat) (motion : FindMotion) (count : Nat) : Option Nat :=
  if motion.forward then findForward motion.target count 0 (caret + 1) (chars.drop (caret + 1))
  else findBackward motion.target count chars 0 caret

/-- Where the caret lands for a find motion: `t` and `T` stop one short. -/
def findCaretIndex (chars : List Char) (caret : Nat) (motion : FindMotion) (count : Nat) :
    Option Nat :=
  (findIndex chars caret motion count).map fun found =>
    if motion.before then
      if motion.forward then found - 1 else min (found + 1) (chars.length - 1)
    else found

def findOperatorRange (caret found : Nat) (motion : FindMotion) (len : Nat) : Range :=
  if motion.forward then
    if motion.before then ⟨caret, found⟩ else ⟨caret, min (found + 1) len⟩
  else if motion.before then ⟨min (found + 1) len, caret⟩
  else ⟨found, caret⟩

def findMotionOf (c : Char) : FindMotion where
  forward := c = 'f' ∨ c = 't'
  before := c = 't' ∨ c = 'T'
  target := ' '

def FindMotion.again (motion : FindMotion) (c : Char) : FindMotion :=
  if c = ',' then { motion with forward := !motion.forward } else motion

def textObject (c : Char) (around change : Bool) (b : VimBuffer) : Option Range :=
  if b.text.isEmpty then none
  else
    let pos := normalCaret b.caret b.len
    match c with
    | 'w' => if around then aWord b.text pos .word else innerWord b.text pos .word
    | 'W' => if around then aWord b.text pos .bigWord else innerWord b.text pos .bigWord
    | 'p' => if around then aParagraph b.text pos else innerParagraph b.text pos
    | '\x27' | '\x22' | '\x60' => do
      let quote ← Quote.of c
      if around then aQuote b.text pos quote else innerQuote b.text pos quote
    | _ => do
      let (bracket, _) ← Bracket.of c
      if around then aBlock b.text pos bracket else innerBlock b.text pos bracket change

/-- The range an operator takes from a motion. `change` is set for `c`, whose `cw` is `ce`. -/
def motionRange (c : Char) (count : Nat) (b : VimBuffer) (change : Bool)
    (lastFind : Option FindMotion) : Option Range :=
  if b.text.isEmpty then none
  else
    let chars := b.text
    let len := b.len
    let caret := normalCaret b.caret len
    match c with
    | 'h' => some ⟨caret - count, caret⟩
    | 'l' | ' ' => some ⟨caret, min (caret + count) len⟩
    | 'w' | 'W' =>
      if change then
        let target := repeatMotion count caret fun pos => wordEndForward chars pos (wordKind c)
        some ⟨caret, min (target + 1) len⟩
      else
        let target := repeatMotion count caret fun pos => wordStartForward chars pos (wordKind c)
        some ⟨min caret target, max caret target⟩
    | 'b' | 'B' =>
      let target := repeatMotion count caret fun pos => wordStartBackward chars pos (wordKind c)
      some ⟨min caret target, max caret target⟩
    | 'e' | 'E' =>
      let target := repeatMotion count caret fun pos => wordEndForward chars pos (wordKind c)
      some ⟨caret, min (target + 1) len⟩
    | '0' => some ⟨0, caret⟩
    | '^' =>
      let blank := firstNonBlank chars
      some ⟨min blank caret, max blank caret⟩
    | '$' => some ⟨caret, len⟩
    | '%' => (matchingBracketIndex chars caret).map fun other =>
      ⟨min caret other, max caret other + 1⟩
    | ';' | ',' => do
      let motion ← lastFind
      let found ← findIndex chars caret (motion.again c) count
      pure (findOperatorRange caret found (motion.again c) len)
    | _ => none

/-! ### Calls -/

inductive InsertAt
  | here | after | firstNonBlank | lineEnd
deriving DecidableEq, Repr

inductive Call
  /-- nothing: the key is the engine's -/
  | consumed
  /-- nothing: the key is the host's -/
  | passthrough
  | moveCaret (count : Nat) (step : List Char → Nat → Nat)
  | findMove (motion : FindMotion) (count : Nat)
  | enterInsert (place : InsertAt)
  | applyOperator (operator : Operator) (range : Range) (linewise : Bool)
  /-- `~`: `apply_operator`, and then a walk over what it changed -/
  | toggle (count : Nat)
  /-- the character after `r` -/
  | overwrite (count : Nat) (c : Char)
  | undo
  | paste (count : Nat) (before : Bool)
  /-- a put over the selection -/
  | pasteOver (range : Range) (text : List Char)
  /-- a text object of visual mode -/
  | select (range : Range)
  /-- `o` of visual mode -/
  | swapEnds
  /-- `v` of visual mode -/
  | leaveVisual

namespace Editor

variable (e : Editor)

def moveCaret (count : Nat) (step : List Char → Nat → Nat) : Editor × VimOutcome :=
  let e := e.dropCounts
  let chars := e.buffer.text
  if chars.isEmpty then (e.setCaret 0, .consumed)
  else
    let pos := (step chars)^[max count 1] (normalCaret e.buffer.caret chars.length)
    (e.setCaret (min pos (chars.length - 1)), .moved)

def findMove (motion : FindMotion) (count : Nat) : Editor × VimOutcome :=
  let chars := e.buffer.text
  if chars.isEmpty then (e, .consumed)
  else
    match findCaretIndex chars (normalCaret e.buffer.caret chars.length) motion count with
    | some pos => (e.setCaret pos, .moved)
    | none => (e, .consumed)

def enterInsert (place : InsertAt) : Editor × VimOutcome :=
  let len := e.buffer.len
  match place with
  | .here => ((e.setCaret (normalCaret e.buffer.caret len)).openInsert, .consumed)
  | .after => ((e.setCaret (min (normalCaret e.buffer.caret len + 1) len)).openInsert, .moved)
  | .firstNonBlank => ((e.setCaret (Vim.firstNonBlank e.buffer.text)).openInsert, .moved)
  | .lineEnd => ((e.setCaret len).openInsert, .moved)

def operatorCase : Operator → Case
  | .lowercase => .lower
  | .uppercase => .upper
  | _ => .toggle

def applyOperator [CaseTable] (operator : Operator) (range : Range) (linewise : Bool) :
    Editor × VimOutcome :=
  let register := e.vim.register
  let e := e.useRegister
  let text := e.buffer.slice range
  if text.isEmpty then (e, .consumed)
  else
    match operator with
    | .yank => ((e.writeRegister register text linewise).setCaret range.start, .moved)
    | .delete =>
      ((((e.writeRegister register text linewise).snapshot).delete range).rememberChange none,
        .edited)
    | .change =>
      ((((e.writeRegister register text linewise).snapshot).delete range).openInsert, .edited)
    | .toggleCase | .lowercase | .uppercase =>
      match e.buffer.changeCase range (operatorCase operator) with
      | some buffer => ({ e.snapshot with buffer := buffer }.rememberChange none, .edited)
      | none => (e.snapshot, .consumed)

def toggle [CaseTable] (count : Nat) : Editor × VimOutcome :=
  let len := e.buffer.len
  let r := e.applyOperator .toggleCase ⟨e.buffer.caret, min (e.buffer.caret + count) len⟩ false
  if r.2 = .edited then (r.1.setCaret (min (r.1.buffer.caret + count) (len - 1)), r.2) else r

def overwrite (count : Nat) (c : Char) : Editor × VimOutcome :=
  match e.buffer.replaceWith e.buffer.caret count c with
  | some buffer => ({ e.snapshot with buffer := buffer }.rememberChange none, .edited)
  | none => (e.snapshot, .consumed)

def repeated (text : List Char) (count : Nat) : List Char :=
  (List.replicate (max count 1) text).flatten

def paste (count : Nat) (before : Bool) : Editor × VimOutcome :=
  let content := e.readRegister e.vim.register
  let e := e.useRegister
  if content.text.isEmpty then (e, .consumed)
  else
    let caret := normalCaret e.buffer.caret e.buffer.len
    let pos := if before then caret else min (caret + 1) e.buffer.len
    let e := e.snapshot.insertText pos (repeated content.text count)
    ((e.setCaret (normalCaret (e.buffer.caret - 1) e.buffer.len)).rememberChange none, .edited)

def pasteOver (range : Range) (text : List Char) : Editor × VimOutcome :=
  let e := e.snapshot.delete range
  ((e.insertText e.buffer.caret text).rememberChange none, .edited)

def perform [CaseTable] : Editor × Call → Editor × VimOutcome
  | (e, .consumed) => (e, .consumed)
  | (e, .passthrough) => (e, .passthrough)
  | (e, .moveCaret count step) => e.moveCaret count step
  | (e, .findMove motion count) => e.findMove motion count
  | (e, .enterInsert place) => e.enterInsert place
  | (e, .applyOperator operator range linewise) => e.applyOperator operator range linewise
  | (e, .toggle count) => e.toggle count
  | (e, .overwrite count c) => e.overwrite count c
  | (e, .undo) => e.undo
  | (e, .paste count before) => e.paste count before
  | (e, .pasteOver range text) => e.pasteOver range text
  | (e, .select range) => ((e.setAnchor range.start).setCaret (range.stop - 1), .moved)
  | (e, .swapEnds) => ((e.setAnchor e.buffer.caret).setCaret e.vim.anchor, .moved)
  | (e, .leaveVisual) =>
    ((e.setMode .normal).setCaret (normalCaret e.buffer.caret e.buffer.len), .consumed)

end Editor

/-! ### The tables -/

def normalCommand (c : Char) (e : Editor) : Editor × Call :=
  let b := e.buffer
  let len := b.len
  let count := e.vim.counts
  match c with
  | 'h' => (e.dropCounts, .moveCaret count fun _ pos => pos - 1)
  | 'l' | ' ' => (e.dropCounts, .moveCaret count fun chars pos => min (pos + 1) (chars.length - 1))
  -- one line: there is no line below or above to walk to
  | 'j' | 'k' => (e.dropCounts, .consumed)
  | 'w' | 'W' | 'b' | 'B' | 'e' | 'E' => (e.dropCounts, .moveCaret count (wordMotion c (wordKind c)))
  | '0' => (e, .moveCaret 1 fun _ _ => 0)
  | '^' | 'G' => (e, .moveCaret 1 fun chars _ => firstNonBlank chars)
  | '$' => (e, .moveCaret 1 fun chars _ => chars.length - 1)
  | '%' =>
    (e.dropCounts, .moveCaret count fun chars pos => (matchingBracketIndex chars pos).getD pos)
  | 'f' | 'F' | 't' | 'T' => (e.setPending (some (.find (findMotionOf c))), .consumed)
  | ';' | ',' =>
    match e.vim.lastFind with
    | none => (e.dropCounts, .consumed)
    | some motion => (e.dropCounts, .findMove (motion.again c) count)
  | 'g' => (e.setPending (some .g), .consumed)
  | 'i' => (e, .enterInsert .here)
  | 'a' => (e, .enterInsert .after)
  | 'I' => (e, .enterInsert .firstNonBlank)
  | 'A' => (e, .enterInsert .lineEnd)
  | 'o' | 'O' | 'J' => (e, .consumed)
  | 'x' => (e.dropCounts, .applyOperator .delete ⟨b.caret, min (b.caret + count) len⟩ false)
  | 'X' => (e.dropCounts, .applyOperator .delete ⟨b.caret - count, b.caret⟩ false)
  | 'D' => (e, .applyOperator .delete ⟨b.caret, len⟩ false)
  | 'C' => (e, .applyOperator .change ⟨b.caret, len⟩ false)
  | 's' => (e.dropCounts, .applyOperator .change ⟨b.caret, min (b.caret + count) len⟩ false)
  | 'S' => (e, .applyOperator .change ⟨0, len⟩ true)
  | 'Y' => (e, .applyOperator .yank ⟨0, len⟩ true)
  | '~' => (e.dropCounts, .toggle count)
  | 'r' => (e.setPending (some .replace), .consumed)
  | 'R' => (e.clearPending.setMode .replace, .consumed)
  | 'u' => (e.dropCounts, .undo)
  | 'p' => (e.dropCounts, .paste count false)
  | 'P' => (e.dropCounts, .paste count true)
  | 'd' | 'c' | 'y' =>
    (e.setPending (some (.operator ((Operator.fromChar c).getD .delete))), .consumed)
  | '\x22' => (e.setPending (some .register), .consumed)
  | 'v' =>
    ((e.setAnchor (normalCaret b.caret len)).setMode (.visual .charwise), .consumed)
  | 'V' => ((e.setAnchor 0).setMode (.visual .linewise), .consumed)
  | _ => (e, .consumed)

def gCommand (key : Key) (e : Editor) : Editor × Call :=
  match key with
  | .char c =>
    let b := e.buffer
    let count := e.vim.counts
    let range : Range := ⟨b.caret, min (b.caret + count) b.len⟩
    match c with
    | 'g' => (e, .moveCaret 1 fun chars _ => firstNonBlank chars)
    | 'e' => (e.dropCounts, .moveCaret count fun chars pos => wordEndBackward chars pos .word)
    | 'E' => (e.dropCounts, .moveCaret count fun chars pos => wordEndBackward chars pos .bigWord)
    | '~' => (e.dropCounts, .applyOperator .toggleCase range false)
    | 'u' => (e.dropCounts, .applyOperator .lowercase range false)
    | 'U' => (e.dropCounts, .applyOperator .uppercase range false)
    | _ => (e, .consumed)
  | _ => (e, .consumed)

def operate (operator : Operator) : Option Range → Call
  | some range => .applyOperator operator range false
  | none => .consumed

def findRange (b : VimBuffer) (motion : FindMotion) (count : Nat) : Option Range :=
  if b.text.isEmpty then none
  else
    let caret := normalCaret b.caret b.len
    (findIndex b.text caret motion count).map fun found =>
      findOperatorRange caret found motion b.len

def normalPending (pending : Pending) (key : Key) (e : Editor) : Editor × Call :=
  let count := e.vim.counts
  let closed := e.setPending none
  match pending with
  | .register =>
    match key with
    | .char c =>
      (if isRegisterName c then { closed with vim := { closed.vim with register := c } } else closed,
        .consumed)
    | _ => (closed, .consumed)
  | .replace =>
    match key with
    | .char c => (closed.dropCounts, .overwrite count c)
    | _ => (closed.dropCounts, .consumed)
  | .find motion =>
    match key with
    | .char c =>
      let motion := { motion with target := c }
      let e := closed.dropCounts
      ({ e with vim := { e.vim with lastFind := some motion } }, .findMove motion count)
    | _ => (closed.dropCounts, .consumed)
  | .operatorFind operator motion =>
    match key with
    | .char c =>
      let motion := { motion with target := c }
      let e := closed.dropCounts
      ({ e with vim := { e.vim with lastFind := some motion } },
        operate operator (findRange e.buffer motion count))
    | _ => (closed.dropCounts, .consumed)
  | .g => gCommand key closed
  | .visualObject around =>
    match key with
    | .char c =>
      (closed,
        match textObject c around false e.buffer with
        | some range => .select range
        | none => .consumed)
    | _ => (closed, .consumed)
  | .textObject operator around =>
    match key with
    | .char c =>
      (closed.dropCounts, operate operator (textObject c around (operator = .change) e.buffer))
    | _ => (closed.dropCounts, .consumed)
  | .operator operator =>
    match key with
    | .char c =>
      if c.isDigit ∧ (c ≠ '0' ∨ e.vim.count2.isSome) then
        ({ e with vim := e.vim.pushCount c }.setPending (some (.operator operator)),
          .consumed)
      else if c = 'i' ∨ c = 'a' then
        (e.setPending (some (.textObject operator (c = 'a'))), .consumed)
      else if c ∈ ['f', 'F', 't', 'T'] then
        (e.setPending (some (.operatorFind operator (findMotionOf c))), .consumed)
      else if Operator.fromChar c = some operator then
        -- `dd`, `cc`, `yy`: the whole line
        (closed.dropCounts, .applyOperator operator ⟨0, e.buffer.len⟩ true)
      else
        (closed.dropCounts,
          operate operator (motionRange c count e.buffer (operator = .change) e.vim.lastFind))
    | _ => (closed, .consumed)

def normalKey (key : Key) (e : Editor) : Editor × Call :=
  match e.vim.pending with
  | some pending => normalPending pending key.named (e.record key.named)
  | none =>
    match key.named with
    | .char c =>
      let e' := e.record (.char c)
      -- a leading `0` is the line motion
      if c.isDigit ∧ (c ≠ '0' ∨ e.vim.count.isSome) then
        ({ e' with vim := e'.vim.pushCount c }, .consumed)
      else normalCommand c e'
    | _ => (e, .passthrough)

/-- The operator a key of visual mode applies to the selection. -/
def visualOperator : Char → Operator
  | 'd' | 'x' => .delete
  | 'c' | 's' => .change
  | 'y' | 'Y' => .yank
  | '~' => .toggleCase
  | 'u' => .lowercase
  | _ => .uppercase

def visualCommand (c : Char) (e : Editor) : Editor × Call :=
  let b := e.buffer
  let count := e.vim.counts
  match c with
  | 'h' => (e.dropCounts, .moveCaret count fun _ pos => pos - 1)
  | 'l' | ' ' => (e.dropCounts, .moveCaret count fun chars pos => min (pos + 1) (chars.length - 1))
  | 'j' | 'k' => (e.dropCounts, .consumed)
  | 'w' | 'W' | 'b' | 'B' | 'e' | 'E' => (e.dropCounts, .moveCaret count (wordMotion c (wordKind c)))
  | '0' => (e, .moveCaret 1 fun _ _ => 0)
  | '^' => (e, .moveCaret 1 fun chars _ => firstNonBlank chars)
  | '$' | 'G' => (e, .moveCaret 1 fun chars _ => chars.length - 1)
  | '%' =>
    (e.dropCounts, .moveCaret count fun chars pos => (matchingBracketIndex chars pos).getD pos)
  | 'f' | 'F' | 't' | 'T' => (e.setPending (some (.find (findMotionOf c))), .consumed)
  | ';' | ',' =>
    match e.vim.lastFind with
    | none => (e.dropCounts, .consumed)
    | some motion => (e.dropCounts, .findMove (motion.again c) count)
  | 'i' | 'a' => (e.setPending (some (.visualObject (c = 'a'))), .consumed)
  | 'o' => (e, .swapEnds)
  | 'v' => (e, .leaveVisual)
  | 'V' => ((e.setMode (.visual .linewise)).setAnchor 0, .consumed)
  | 'd' | 'x' | 'c' | 's' | 'y' | 'Y' | '~' | 'u' | 'U' =>
    let linewise := e.vim.mode = .visual .linewise ∨ c = 'Y'
    match e.vim.selection b.caret b.len with
    | none => (e.setMode .normal, .consumed)
    | some range => (e.setMode .normal, .applyOperator (visualOperator c) range linewise)
  | 'p' | 'P' =>
    let content := e.readRegister e.vim.register
    match e.vim.selection b.caret b.len with
    | none => (e.useRegister.setMode .normal, .consumed)
    | some range =>
      (e.useRegister.dropCounts.setMode .normal,
        .pasteOver range (Editor.repeated content.text count))
  | _ => (e, .consumed)

def visualKey (key : Key) (e : Editor) : Editor × Call :=
  match e.vim.pending with
  | some (.visualObject around) =>
    normalPending (.visualObject around) key.named (e.record key.named)
  | _ =>
    match key.named with
    | .char c => visualCommand c (e.record (.char c))
    | _ => (e, .passthrough)

/-! ### Modes -/

namespace Editor

variable (e : Editor)

/-- Escape leaves insert mode or drops a half-typed command. -/
def escape : Editor × VimOutcome :=
  let caret := normalCaret e.buffer.caret e.buffer.len
  match e.vim.mode with
  | .insert =>
    ((({ e with vim := e.vim.finishInsert }.setMode .normal).clearPending).setCaret caret,
      .consumed)
  | .visual _ | .replace => (((e.setMode .normal).clearPending).setCaret caret, .consumed)
  | .normal => if e.vim.isPending then (e.clearPending, .consumed) else (e, .passthrough)

/-- Insert mode: characters land in the text, other keys stay the host's. -/
def insert (key : Key) : Editor × VimOutcome :=
  match key with
  | .backspace =>
    if e.buffer.caret = 0 then (e, .consumed)
    else
      let e := e.snapshot.delete ⟨e.buffer.caret - 1, e.buffer.caret⟩
      ({ e with vim := { e.vim with insertText := e.vim.insertText.dropLast } }, .edited)
  | .delete =>
    if e.buffer.caret ≥ e.buffer.len then (e, .consumed)
    else (e.snapshot.delete ⟨e.buffer.caret, e.buffer.caret + 1⟩, .edited)
  | .char c =>
    let e := e.snapshot.insertText e.buffer.caret [c]
    ({ e with vim := { e.vim with insertText := e.vim.insertText ++ [c] } }, .edited)
  | _ => (e, .passthrough)

def replace (key : Key) : Editor × VimOutcome :=
  match key with
  | .char c =>
    let e := ((e.setMode .normal).clearPending).snapshot
    match e.buffer.replaceWith e.buffer.caret 1 c with
    | some b => ({ e with buffer := { b with caret := min (b.caret + 1) (b.len - 1) } }, .edited)
    | none => (e, .consumed)
  | _ => (e, .passthrough)

/-- Whether the normal-mode table reads the key as the dot command. -/
def readsDot (key : Key) : Bool := e.vim.pending.isNone && key = .char '.'

variable [CaseTable]

def normalWith (dot : Editor → Option (Editor × VimOutcome)) (key : Key) :
    Option (Editor × VimOutcome) :=
  if e.readsDot key then dot (e.record key) else some (perform (normalKey key e))

end Editor

section Replay

variable (press : Key → Editor → Option (Editor × VimOutcome)) (change : LastChange)

/-- The keys of the change through `press`, its text through insert mode, and an escape when that
ends in insert mode. The outcome is that of the last key. -/
def replayOnce (r : Editor × VimOutcome) : Option (Editor × VimOutcome) := do
  let r ← change.keys.foldlM (fun r key => press key r.1) r
  let r := change.insert.foldl (fun r c => r.1.insert (.char c)) r
  pure (if r.1.vim.mode = .insert then (r.1.escape.1, r.2) else r)

def replayTimes : Nat → Editor × VimOutcome → Option (Editor × VimOutcome)
  | 0, r => some r
  | n + 1, r => (replayOnce press change r).bind (replayTimes n)

end Replay

namespace Editor

def startReplay (e : Editor) : Editor :=
  { e with
    vim := { e.vim.dropCounts with replaying := e.vim.replaying + 1 }
    clipboard := none }

def endReplay (e : Editor) (change : LastChange) (clipboard : Option Clipboard) : Editor :=
  { e with
    vim := { e.vim with replaying := e.vim.replaying - 1, lastChange := some change }
    clipboard := clipboard }

def dotWith (press : Key → Editor → Option (Editor × VimOutcome)) (e : Editor) :
    Option (Editor × VimOutcome) :=
  match e.vim.lastChange with
  | none => some (e, .consumed)
  | some change =>
    (replayTimes press change (max e.vim.counts 1) (e.startReplay, .consumed)).map fun r =>
      (r.1.endReplay change e.clipboard, r.2)

variable [CaseTable]

/-- Normal mode, with at most `depth` replays inside each other. -/
def normal : Nat → Key → Editor → Option (Editor × VimOutcome)
  | 0, key, e => e.normalWith (fun _ => none) key
  | depth + 1, key, e => e.normalWith (dotWith (normal depth)) key

def handle (depth : Nat) (key : Key) (modifiers : ModifiersState) (e : Editor) :
    Option (Editor × VimOutcome) :=
  if key = .escape ∨ (modifiers.ctrl ∧ key = .char '[') then some e.escape
  -- shortcuts with the command key belong to the app
  else if modifiers.command then some (e, .passthrough)
  else if modifiers.ctrl then
    if e.vim.mode = .normal ∧ (key = .char 'r' ∨ key = .char 'R') then some e.redo
    else some (e, .passthrough)
  else if modifiers.alt then
    some (e, if e.vim.mode = .insert then .passthrough else .consumed)
  else
    match e.vim.mode with
    | .insert => some (e.insert key)
    | .replace => some (e.replace key)
    | .normal => normal depth key e
    | .visual _ => some (perform (visualKey key e))

end Editor

end Goble.Vim
