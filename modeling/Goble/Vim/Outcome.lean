import Goble.Vim.Replay

/-!
# What a press reports

The host writes the caret back for `Moved`, the text and the caret for `Edited`, and nothing
otherwise, so a press reports well when that is all that changed (`Reported`).

Three keys put the caret on a character and report `Consumed`: Escape out of any other mode, `i`, and
`v` out of visual mode. They report well where the caret is on a character already (`Tidy`). A dot
reports what its last key does: it reports well when it types text, and when it is one command made
once (`Simple`).
-/

namespace Goble.Vim

def Reported (before after : VimBuffer) : VimOutcome → Prop
  | .passthrough | .consumed => after = before
  | .moved => after.text = before.text
  | .edited => True

def written (before after : VimBuffer) : VimOutcome → VimBuffer
  | .passthrough | .consumed => before
  | .moved => { before with caret := after.caret }
  | .edited => after

namespace Editor

variable {e f : Editor} {p : Press} {key : Key}

/-- The caret is on a character, or at the start of an empty text. -/
def OnChar (b : VimBuffer) : Prop := normalCaret b.caret b.len = b.caret

instance (b : VimBuffer) : Decidable (OnChar b) := inferInstanceAs (Decidable (_ = _))

variable {r : Editor × VimOutcome}

section Tables

variable [CaseTable]

/-- Where the caret has to be on a character for a press to report well. -/
structure Tidy (e : Editor) (p : Press) : Prop where
  escape : p.isEscape → e.vim.mode ≠ .normal → OnChar e.buffer
  here : p.isPlain → e.vim.mode = .normal → e.vim.pending = none → p.key.named = .char 'i' →
    OnChar e.buffer
  leave : ∀ kind, p.isPlain → e.vim.mode = .visual kind →
    (∀ around, e.vim.pending ≠ some (.visualObject around)) → p.key.named = .char 'v' →
      OnChar e.buffer
  dot : ∀ change, e.isDot p → e.vim.lastChange = some change → change.insert = [] →
    Reading.idle.lastCommand change.keys = some 'i' → OnChar e.buffer

end Tables

end Editor

end Goble.Vim
