import Mathlib.Algebra.Ring.Nat
import Mathlib.Logic.Function.Basic
import Goble.Vim.Objects

/-!
# The modal state

What the engine keeps between keys (`VimState`), the text it is handed for the length of one key
(`VimBuffer`), and the small operations on the two from which the key tables are built. An `Editor`
is the two together with the clipboard of the call.

A text is a list of characters and every position a character index. The host may name a caret past
the end; the operations clamp as the source does. `HashMap<char, Register>` is only ever read with a
default, so the registers are a total function.

A release build wraps `caret + count`, which needs a text of more than `2 ^ 33` characters; here it
is a sum of naturals.
-/

namespace Goble.Vim

/-- How many edits one input's undo history holds. -/
def undoLimit : Nat := 100

/-- Whether a visual selection covers characters or the whole line. -/
inductive MotionType
  | charwise | linewise
deriving DecidableEq, Repr

inductive VimMode
  | normal | insert | visual (kind : MotionType) | replace
deriving DecidableEq, Repr

/-- What the host does with the key it handed over: it writes the caret back for `moved`, the text
and the caret for `edited`, and nothing otherwise. -/
inductive VimOutcome
  | passthrough | consumed | moved | edited
deriving DecidableEq, Repr

/-- A key, by the name the platform gives it: a single character, one of the named keys the engine
looks for, or any other name. -/
inductive Key
  | char (c : Char)
  | escape | backspace | delete | arrowLeft | arrowRight | arrowUp | arrowDown | home | lineEnd
  | other (name : List Char)
deriving DecidableEq, Repr

structure ModifiersState where
  alt : Bool
  ctrl : Bool
  command : Bool
  shift : Bool
deriving DecidableEq, Repr

def ModifiersState.none : ModifiersState := ⟨false, false, false, false⟩

/-! ### The buffer -/

/-- The case tables of the standard library. A mapping to several characters is read as its first
one, as the source reads it. -/
class CaseTable where
  isUppercase : Char → Bool
  isLowercase : Char → Bool
  toLowercase : Char → Char
  toUppercase : Char → Char

@[reducible] def asciiCase : CaseTable where
  isUppercase := Char.isUpper
  isLowercase := Char.isLower
  toLowercase := Char.toLower
  toUppercase := Char.toUpper

inductive Case
  | toggle | lower | upper
deriving DecidableEq, Repr

def Case.apply [CaseTable] : Case → Char → Char
  | toggle, c =>
    if CaseTable.isUppercase c then CaseTable.toLowercase c
    else if CaseTable.isLowercase c then CaseTable.toUppercase c
    else c
  | lower, c => CaseTable.toLowercase c
  | upper, c => CaseTable.toUppercase c

structure VimBuffer where
  text : List Char
  caret : Nat
deriving DecidableEq, Repr

namespace VimBuffer

/-- `VimBuffer::new` clamps the caret to the text. -/
def new (text : List Char) (caret : Nat) : VimBuffer := ⟨text, min caret text.length⟩

def len (b : VimBuffer) : Nat := b.text.length

/-- Remove `range`, leaving the caret at its start; `none` where there is nothing to remove. -/
def delete (b : VimBuffer) (range : Range) : Option VimBuffer :=
  let start := min range.start b.len
  let stop := min range.stop b.len
  if start ≥ stop then none else some ⟨b.text.take start ++ b.text.drop stop, start⟩

def insert (b : VimBuffer) (pos : Nat) (text : List Char) : VimBuffer :=
  let pos := min pos b.len
  ⟨b.text.take pos ++ text ++ b.text.drop pos, pos + text.length⟩

/-- Overwrite `count` characters from `pos`; `none` past the end. -/
def replaceWith (b : VimBuffer) (pos count : Nat) (c : Char) : Option VimBuffer :=
  if pos ≥ b.len then none
  else
    let stop := min (pos + count) b.len
    some ⟨b.text.take pos ++ List.replicate (stop - pos) c ++ b.text.drop stop, pos⟩

def changeCase [CaseTable] (b : VimBuffer) (range : Range) (case : Case) : Option VimBuffer :=
  let start := min range.start b.len
  let stop := min range.stop b.len
  if start ≥ stop then none
  else
    some ⟨b.text.take start ++ ((b.text.take stop).drop start).map case.apply ++ b.text.drop stop,
      start⟩

def slice (b : VimBuffer) (range : Range) : List Char :=
  let start := min range.start b.len
  let stop := min range.stop b.len
  if start ≥ stop then [] else (b.text.take stop).drop start

end VimBuffer

/-- Where a caret of normal mode may sit: on a character. -/
def normalCaret (caret len : Nat) : Nat := if len = 0 then 0 else min caret (len - 1)

def firstNonBlank (chars : List Char) : Nat :=
  (chars.findIdx? fun c => !Text.isWhitespace c).getD 0

/-! ### What the engine keeps -/

structure Register where
  text : List Char
  linewise : Bool
deriving DecidableEq, Repr

def Register.default : Register := ⟨[], false⟩

inductive Operator
  | delete | change | yank | toggleCase | lowercase | uppercase
deriving DecidableEq, Repr

def Operator.fromChar (c : Char) : Option Operator :=
  if c = 'd' then some delete
  else if c = 'c' then some change
  else if c = 'y' then some yank
  else none

/-- A `f`/`F`/`t`/`T` motion, kept so that `;` and `,` can repeat it. -/
structure FindMotion where
  forward : Bool
  before : Bool
  target : Char
deriving DecidableEq, Repr

/-- A command that is only half typed, and what it waits for. -/
inductive Pending
  | operator (op : Operator)
  | textObject (op : Operator) (around : Bool)
  | g
  | find (motion : FindMotion)
  | operatorFind (op : Operator) (motion : FindMotion)
  | replace
  | register
  | visualObject (around : Bool)
deriving DecidableEq, Repr

/-- The change `.` repeats: the keys that started it and the text an insert session typed. -/
structure LastChange where
  keys : List Key
  insert : List Char
deriving DecidableEq, Repr

structure VimState where
  mode : VimMode
  anchor : Nat
  pending : Option Pending
  count : Option Nat
  count2 : Option Nat
  register : Char
  registers : Char → Register
  lastFind : Option FindMotion
  lastChange : Option LastChange
  /-- The keys of the command being typed, for `.`. -/
  command : List Key
  /-- The keys that opened the insert session being recorded. -/
  insertKeys : List Key
  insertText : List Char
  /-- The most recent entry first. -/
  undo : List VimBuffer
  redo : List VimBuffer
  unnamedClipboard : Bool
  replaying : Nat

namespace VimState

def new : VimState where
  mode := .insert
  anchor := 0
  pending := none
  count := none
  count2 := none
  register := '\x22'
  registers := fun _ => .default
  lastFind := none
  lastChange := none
  command := []
  insertKeys := []
  insertText := []
  undo := []
  redo := []
  unnamedClipboard := false
  replaying := 0

def isPending (s : VimState) : Bool :=
  s.pending.isSome || s.count.isSome || s.count2.isSome

def setUnnamedClipboard (s : VimState) (on : Bool) : VimState := { s with unnamedClipboard := on }

def selection (s : VimState) (caret len : Nat) : Option Range :=
  match s.mode with
  | .visual kind =>
    if len = 0 then none
    else
      match kind with
      | .linewise => some ⟨0, len⟩
      | .charwise =>
        some ⟨min (min s.anchor caret) (len - 1), min (max s.anchor caret) (len - 1) + 1⟩
  | _ => none

/-- The host calls this when the input loses focus or a click moves the caret. -/
def reset (s : VimState) : VimState :=
  { s with
    pending := none, count := none, count2 := none, command := [], insertKeys := []
    insertText := [], mode := .insert }

def record (s : VimState) (key : Key) : VimState :=
  if s.replaying = 0 then { s with command := s.command ++ [key] } else s

/-- Close the command in progress as a change `.` can repeat. -/
def rememberChange (s : VimState) (insert : Option (List Char)) : VimState :=
  if s.replaying > 0 then s
  else
    { s with
      command := []
      lastChange := some ⟨s.command, insert.getD s.insertText⟩
      insertText := if insert.isSome then s.insertText else []
      insertKeys := [] }

def snapshot (s : VimState) (b : VimBuffer) : VimState :=
  let undo := b :: s.undo
  { s with undo := if undo.length > undoLimit then undo.dropLast else undo, redo := [] }

/-- `u32::saturating_mul` and `saturating_add`. -/
def saturate (n : Nat) : Nat := min n (2 ^ 32 - 1)

def pushDigit (slot : Option Nat) (c : Char) : Option Nat :=
  some (saturate (saturate (slot.getD 0 * 10) + (c.toNat - '0'.toNat)))

def pushCount (s : VimState) (c : Char) : VimState :=
  if s.pending.isSome then { s with count2 := pushDigit s.count2 c }
  else { s with count := pushDigit s.count c }

/-- What `take_counts` answers: the counts typed so far, multiplied. -/
def counts (s : VimState) : Nat :=
  min (max (s.count.getD 1) 1 * max (s.count2.getD 1) 1) (2 ^ 64 - 1)

def dropCounts (s : VimState) : VimState := { s with count := none, count2 := none }

def clearPending (s : VimState) : VimState :=
  { s with pending := none, count := none, count2 := none, command := [] }

def store (s : VimState) (key : Char) (text : List Char) (linewise append : Bool) : VimState :=
  let entry := s.registers key
  let text :=
    if append then
      if linewise ∧ entry.text.getLast? ≠ some '\n' ∧ entry.text ≠ [] then
        entry.text ++ '\n' :: text
      else entry.text ++ text
    else text
  { s with registers := Function.update s.registers key ⟨text, linewise⟩ }

def finishInsert (s : VimState) : VimState :=
  if s.insertKeys = [] then { s with insertKeys := [], insertText := [], command := [] }
  else
    { s with
      insertKeys := []
      insertText := []
      lastChange :=
        if s.replaying = 0 then some ⟨s.insertKeys, s.insertText⟩ else s.lastChange
      command := [] }

end VimState

/-! ### The editor of one call -/

/-- The system clipboard: what `read` answers in this call, and what was written. -/
structure Clipboard where
  answer : Option (List Char)
  written : Option (List Char)
deriving DecidableEq, Repr

structure Editor where
  vim : VimState
  buffer : VimBuffer
  clipboard : Option Clipboard

namespace Editor

variable (e : Editor)

def record (key : Key) : Editor := { e with vim := e.vim.record key }

def rememberChange (insert : Option (List Char)) : Editor :=
  { e with vim := e.vim.rememberChange insert }

def snapshot : Editor := { e with vim := e.vim.snapshot e.buffer }

def dropCounts : Editor := { e with vim := e.vim.dropCounts }

def clearPending : Editor := { e with vim := e.vim.clearPending }

def setPending (pending : Option Pending) : Editor :=
  { e with vim := { e.vim with pending := pending } }

def setMode (mode : VimMode) : Editor := { e with vim := { e.vim with mode := mode } }

def setAnchor (anchor : Nat) : Editor := { e with vim := { e.vim with anchor := anchor } }

def setCaret (caret : Nat) : Editor := { e with buffer := { e.buffer with caret := caret } }

/-- Remove a range. Whether there was anything to remove is not read. -/
def delete (range : Range) : Editor := { e with buffer := (e.buffer.delete range).getD e.buffer }

def insertText (pos : Nat) (text : List Char) : Editor :=
  { e with buffer := e.buffer.insert pos text }

/-- What `used_register` leaves: the unnamed register selected for the next command. -/
def useRegister : Editor := { e with vim := { e.vim with register := '\x22' } }

/-- The keys typed so far become those of an insert session. -/
def openInsert : Editor :=
  { e with
    vim :=
      { e.vim with insertKeys := e.vim.command, command := [], insertText := [], mode := .insert } }

/-- Store `text` under `name` and in the unnamed register, and in the clipboard when the name asks
for it. An uppercase name appends; the black hole keeps nothing. -/
def writeRegister (name : Char) (text : List Char) (linewise : Bool) : Editor :=
  if name = '_' then e
  else
    let (key, append) := if name.isUpper then (name.toLower, true) else (name, false)
    let vim := e.vim.store key text linewise append
    let vim := if key ≠ '\x22' then vim.store '\x22' text linewise false else vim
    let clipboard :=
      if name = '+' ∨ name = '*' ∨ (e.vim.unnamedClipboard ∧ name = '\x22') then
        e.clipboard.map fun clipboard => { clipboard with written := some text }
      else e.clipboard
    { e with vim := vim, clipboard := clipboard }

def readRegister (name : Char) : Register :=
  if name = '_' then .default
  else if name = '+' ∨ name = '*' then
    ⟨(e.clipboard.bind fun clipboard => clipboard.answer).getD [], false⟩
  else
    let stored := e.vim.registers name
    if name = '\x22' ∧ e.vim.unnamedClipboard then
      -- the clipboard wins when it holds something else
      match e.clipboard.bind fun clipboard => clipboard.answer with
      | some text => if text ≠ stored.text then ⟨text, false⟩ else stored
      | none => stored
    else stored

def afterUndo : Editor × VimOutcome :=
  ({ e with
      vim := { e.vim with mode := .normal, pending := none, count := none, count2 := none }
      buffer := { e.buffer with caret := normalCaret e.buffer.caret e.buffer.len } }, .edited)

def undo : Editor × VimOutcome :=
  match e.vim.undo with
  | [] => (e, .consumed)
  | entry :: rest =>
    afterUndo
      { e with
        vim := { e.vim with undo := rest, redo := e.buffer :: e.vim.redo }
        buffer := entry }

def redo : Editor × VimOutcome :=
  match e.vim.redo with
  | [] => (e, .consumed)
  | entry :: rest =>
    afterUndo
      { e with
        vim := { e.vim with redo := rest, undo := e.buffer :: e.vim.undo }
        buffer := entry }

end Editor

end Goble.Vim
