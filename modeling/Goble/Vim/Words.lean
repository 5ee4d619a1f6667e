import Goble.Lib.Text

/-!
# Character classes and word motions

Positions are character indices into the text. The loops of the source that walk an index down are
recursions on it; those that walk up are recursions on what is left of the text, with the index
beside it.
-/

namespace Goble.Vim

open Text (isWhitespace)

/-- The character at an index. Every caller has checked the index. -/
def charAt (chars : List Char) (i : Nat) : Char := chars.getD i ' '

/-! ### Walking an index -/

def backWhile (p : Char → Bool) (chars : List Char) : Nat → Nat
  | 0 => 0
  | i + 1 => if p (charAt chars i) then backWhile p chars i else i + 1

def backOver (p : Char → Bool) (chars : List Char) : Nat → Nat
  | 0 => 0
  | i + 1 => if p (charAt chars (i + 1)) then backOver p chars i else i + 1

def forwardWhile (p : Char → Bool) (chars : List Char) (i : Nat) : Nat :=
  i + ((chars.drop i).takeWhile p).length

theorem forwardWhile_le (p : Char → Bool) {chars : List Char} {i : Nat} (h : i ≤ chars.length) :
    forwardWhile p chars i ≤ chars.length := by
  have htake : ((chars.drop i).takeWhile p).length ≤ (chars.drop i).length :=
    (List.takeWhile_sublist p).length_le
  rw [List.length_drop] at htake
  unfold forwardWhile
  omega

/-! ### Character classes -/

/-- Characters that break words: a run of them is its own word. -/
def wordBoundaryChars : List Char :=
  ['\x60', '~', '!', '@', '#', '$', '%', '^', '&', '*', '(', ')', '-', '=', '+', '[', '\x7b', ']',
    '\x7d', '\x5c', '|', ';', ':', '\x27', '\x22', ',', '.', '<', '>', '/', '?', '«', '»']

inductive CharKind
  | word | symbol | whitespace
deriving DecidableEq, Repr

inductive WordKind
  | word | bigWord
deriving DecidableEq, Repr

namespace CharKind

def of (c : Char) : CharKind :=
  if isWhitespace c then whitespace else if c ∈ wordBoundaryChars then symbol else word

/-- Whether a motion that crossed from one class to the other stayed inside one word. -/
def continues (a b : CharKind) : WordKind → Bool
  | .word => a = b
  | .bigWord => a = b || (a ≠ whitespace && b ≠ whitespace)

end CharKind

def kindAt (chars : List Char) (i : Nat) : CharKind := .of (charAt chars i)

/-! ### Word motions -/

/-- The loop of `word_start_forward`, at index `i` with the text from there on. -/
def wordStartFrom (kind : WordKind) : CharKind → Nat → List Char → Nat
  | _, i, [] => i
  | context, i, c :: rest =>
    let here := CharKind.of c
    if !context.continues here kind && here ≠ .whitespace then i
    else wordStartFrom kind here (i + 1) rest

def wordStartForward (chars : List Char) (caret : Nat) (kind : WordKind) : Nat :=
  if caret ≥ chars.length then caret
  else wordStartFrom kind (kindAt chars caret) (caret + 1) (chars.drop (caret + 1))

def wordStartBackward (chars : List Char) (caret : Nat) (kind : WordKind) : Nat :=
  if chars.isEmpty then 0
  else
    let caret := min caret (chars.length - 1)
    if caret = 0 then 0
    else
      let i := backOver (fun c => CharKind.of c = .whitespace) chars (caret - 1)
      let cls := kindAt chars i
      backWhile (fun c => (CharKind.of c).continues cls kind) chars i

/-- The loop of `word_end_forward`, at index `i` with the text from there on. -/
def wordEndFrom (kind : WordKind) : Nat → List Char → Nat
  | i, c :: next :: rest =>
    let here := CharKind.of c
    if !here.continues (.of next) kind && here ≠ .whitespace then i
    else wordEndFrom kind (i + 1) (next :: rest)
  | i, _ => i

def wordEndForward (chars : List Char) (caret : Nat) (kind : WordKind) : Nat :=
  if chars.length = 0 then 0
  else
    let caret := min caret (chars.length - 1)
    if caret + 1 ≥ chars.length then caret
    else wordEndFrom kind (caret + 1) (chars.drop (caret + 1))

def wordEndBackward (chars : List Char) (caret : Nat) (kind : WordKind) : Nat :=
  if chars.isEmpty then 0
  else
    let caret := min caret (chars.length - 1)
    let cls := kindAt chars caret
    let i :=
      if cls ≠ .whitespace then
        backWhile (fun c => (CharKind.of c).continues cls kind) chars caret
      else caret
    if i = 0 then 0
    else
      let i := backOver (fun c => CharKind.of c = .whitespace) chars (i - 1)
      let previous := kindAt chars i
      i + ((chars.drop (i + 1)).takeWhile fun c =>
        (CharKind.of c).continues previous kind).length

example : wordStartForward "foo(bar) baz".toList 0 .word = 3 := by decide

example : wordEndForward "foo(bar) baz".toList 0 .word = 2 := by decide

end Goble.Vim
