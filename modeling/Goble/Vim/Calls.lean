import Goble.Vim.Tables

/-!
# What the calls do

One lemma per call says everything it can end in: `applied_applyOperator` for the operators,
`shape_toggle`, `shape_overwrite` and `shape_paste` for the others that edit. The frames
below are the operations these results are composed of.
-/

namespace Goble.Vim

/-! ### The buffer -/

namespace VimBuffer

variable {b b' : VimBuffer} {range : Range}

theorem slice_eq_nil : b.slice range = [] ↔ min range.start b.len ≥ min range.stop b.len := by
  unfold slice
  dsimp only
  split_ifs with h
  · exact ⟨fun _ => h, fun _ => rfl⟩
  · refine ⟨fun hnil => ?_, fun hge => absurd hge h⟩
    have hlen := congrArg List.length hnil
    simp only [List.length_drop, List.length_take, List.length_nil, len] at hlen h
    omega

theorem slice_ne_nil : b.slice range ≠ [] ↔ min range.start b.len < min range.stop b.len := by
  rw [ne_eq, slice_eq_nil, ge_iff_le, Nat.not_le]

theorem delete_of_slice (h : b.slice range ≠ []) :
    b.delete range =
      some ⟨b.text.take (min range.start b.len) ++ b.text.drop (min range.stop b.len),
        min range.start b.len⟩ := by
  have hlt := slice_ne_nil.mp h
  simp only [delete, if_neg (Nat.not_le.mpr hlt)]

theorem changeCase_of_slice [CaseTable] (h : b.slice range ≠ []) (case : Case) :
    ∃ b', b.changeCase range case = some b' := by
  have hlt := slice_ne_nil.mp h
  simp only [changeCase, if_neg (Nat.not_le.mpr hlt)]
  exact ⟨_, rfl⟩

theorem replaceWith_eq_none {pos count : Nat} {c : Char} :
    b.replaceWith pos count c = none ↔ b.len ≤ pos := by
  unfold replaceWith
  split_ifs with h
  · exact ⟨fun _ => h, fun _ => rfl⟩
  · exact ⟨nofun, fun hle => absurd hle h⟩

end VimBuffer

namespace Editor

variable {e f g : Editor}

/-! ### Frames -/

def Wrote (e f : Editor) : Prop :=
  f = { e with
    vim :=
      { e.vim with
        registers := f.vim.registers, register := f.vim.register, count := f.vim.count
        count2 := f.vim.count2, anchor := f.vim.anchor }
    clipboard := f.clipboard }

theorem Wrote.refl (e : Editor) : Wrote e e := rfl

theorem Wrote.trans (h : Wrote e f) (k : Wrote f g) : Wrote e g := by
  rw [Wrote] at h k ⊢
  rw [h] at k
  exact k

theorem wrote_useRegister (e : Editor) : Wrote e e.useRegister := rfl

theorem wrote_writeRegister (e : Editor) (name : Char) (text : List Char) (linewise : Bool) :
    Wrote e (e.writeRegister name text linewise) := by
  unfold writeRegister
  dsimp only
  split_ifs <;> rfl

theorem writeRegister_anchor (e : Editor) (name : Char) (text : List Char) (linewise : Bool) :
    (e.writeRegister name text linewise).vim.anchor = e.vim.anchor := by
  unfold writeRegister
  dsimp only
  split_ifs <;> rfl

theorem Wrote.buffer (h : Wrote e f) : f.buffer = e.buffer := congrArg (·.buffer) h

theorem Wrote.text (h : Wrote e f) : f.buffer.text = e.buffer.text := congrArg (·.buffer.text) h

theorem Wrote.mode (h : Wrote e f) : f.vim.mode = e.vim.mode := congrArg (·.vim.mode) h

theorem Wrote.undo (h : Wrote e f) : f.vim.undo = e.vim.undo := congrArg (·.vim.undo) h

theorem Wrote.redo (h : Wrote e f) : f.vim.redo = e.vim.redo := congrArg (·.vim.redo) h

theorem Wrote.lastChange (h : Wrote e f) : f.vim.lastChange = e.vim.lastChange :=
  congrArg (·.vim.lastChange) h

theorem Wrote.command (h : Wrote e f) : f.vim.command = e.vim.command :=
  congrArg (·.vim.command) h

theorem Wrote.insertText (h : Wrote e f) : f.vim.insertText = e.vim.insertText :=
  congrArg (·.vim.insertText) h

theorem Wrote.replaying (h : Wrote e f) : f.vim.replaying = e.vim.replaying :=
  congrArg (·.vim.replaying) h

/-! ### What a call can end in -/

/-- Whether a call closes a change or opens an insert session, and so takes the recorded keys. -/
def takes : Editor × Call → Bool
  | (e, .applyOperator operator range _) => operator ≠ .yank ∧ e.buffer.slice range ≠ []
  | (e, .toggle count) =>
    e.buffer.slice ⟨e.buffer.caret, min (e.buffer.caret + count) e.buffer.len⟩ ≠ []
  | (e, .overwrite _ _) => e.buffer.caret < e.buffer.len
  | (e, .paste _ _) => (e.readRegister e.vim.register).text ≠ []
  | (_, .pasteOver _ _) | (_, .enterInsert _) => true
  | _ => false

def opens : Editor × Call → Bool
  | (e, .applyOperator .change range _) => e.buffer.slice range ≠ []
  | (_, .enterInsert _) => true
  | _ => false

inductive Shape (e : Editor) : Call → Editor × VimOutcome → Prop
  /-- the buffer is as it was -/
  | stay {call : Call} {w : Editor} {o : VimOutcome} (wrote : Wrote e w)
      (quiet : o = .consumed ∨ o = .passthrough) (takes : takes (e, call) = false) :
      Shape e call (w, o)
  /-- a motion in an empty text -/
  | home {call : Call} {w : Editor} (wrote : Wrote e w) (empty : e.buffer.text = [])
      (takes : takes (e, call) = false) : Shape e call (w.setCaret 0, .consumed)
  | place {call : Call} {w : Editor} (n : Nat) (wrote : Wrote e w)
      (takes : takes (e, call) = false) : Shape e call (w.setCaret n, .moved)
  | leave :
      Shape e .leaveVisual
        ((e.setMode .normal).setCaret (normalCaret e.buffer.caret e.buffer.len), .consumed)
  | enter {place : InsertAt} {n : Nat} {o : VimOutcome}
      (report : o = .moved ∨
        (place = .here ∧ o = .consumed ∧ n = normalCaret e.buffer.caret e.buffer.len)) :
      Shape e (.enterInsert place) ((e.setCaret n).openInsert, o)
  | edit {call : Call} {w : Editor} (b : VimBuffer) (wrote : Wrote e w)
      (takes : takes (e, call) = true) (opens : opens (e, call) = false) :
      Shape e call ({ w.snapshot with buffer := b }.rememberChange none, .edited)
  /-- the text was changed and an insert session opened -/
  | change {call : Call} {w : Editor} (b : VimBuffer) (wrote : Wrote e w)
      (takes : takes (e, call) = true) (opens : opens (e, call) = true) :
      Shape e call ({ w.snapshot with buffer := b }.openInsert, .edited)
  /-- `r` found no character to overwrite -/
  | scrap {count : Nat} {c : Char} (past : e.buffer.len ≤ e.buffer.caret) :
      Shape e (.overwrite count c) (e.snapshot, .consumed)
  | undo : Shape e .undo e.undo

theorem shape_overwrite (e : Editor) (count : Nat) (c : Char) :
    Shape e (.overwrite count c) (e.overwrite count c) := by
  unfold overwrite
  split
  · next b hb =>
    have hlt : e.buffer.caret < e.buffer.len := by
      refine Nat.not_le.mp fun hle => ?_
      rw [VimBuffer.replaceWith_eq_none.mpr hle] at hb
      cases hb
    exact .edit b (.refl e) (by simp [takes, hlt]) rfl
  · next hnone => exact .scrap (VimBuffer.replaceWith_eq_none.mp hnone)

theorem shape_paste (e : Editor) (count : Nat) (before : Bool) :
    Shape e (.paste count before) (e.paste count before) := by
  unfold paste
  dsimp only
  split_ifs with hempty
  · exact .stay (wrote_useRegister e) (.inl rfl) (by simpa [takes] using hempty)
  all_goals exact .edit _ (wrote_useRegister e) (by simpa [takes] using hempty) rfl

theorem shape_moveCaret (e : Editor) (count : Nat) (step : List Char → Nat → Nat) :
    Shape e (.moveCaret count step) (e.moveCaret count step) := by
  unfold moveCaret
  dsimp only
  split_ifs with hempty
  · exact .home (w := e.dropCounts) rfl (List.isEmpty_iff.mp hempty) rfl
  · exact .place (w := e.dropCounts) _ rfl rfl

theorem shape_findMove (e : Editor) (motion : FindMotion) (count : Nat) :
    Shape e (.findMove motion count) (e.findMove motion count) := by
  unfold findMove
  dsimp only
  split_ifs with hempty
  · exact .stay (.refl e) (.inl rfl) rfl
  · split
    · exact .place _ (.refl e) rfl
    · exact .stay (.refl e) (.inl rfl) rfl

theorem shape_enterInsert (e : Editor) (place : InsertAt) :
    Shape e (.enterInsert place) (e.enterInsert place) := by
  cases place with
  | here => exact .enter (.inr ⟨rfl, rfl, rfl⟩)
  | after | firstNonBlank | lineEnd => exact .enter (.inl rfl)

/-! ### Operators -/

variable [CaseTable]

inductive Applied (e : Editor) (operator : Operator) (range : Range) : Editor × VimOutcome → Prop
  | nothing (empty : e.buffer.slice range = []) :
      Applied e operator range (e.useRegister, .consumed)
  | yanked {w : Editor} (slice : e.buffer.slice range ≠ []) (yank : operator = .yank)
      (wrote : Wrote e.useRegister w) (anchor : w.vim.anchor = e.vim.anchor) :
      Applied e operator range (w.setCaret range.start, .moved)
  | deleted {w : Editor} (slice : e.buffer.slice range ≠ []) (delete : operator = .delete)
      (wrote : Wrote e.useRegister w) (anchor : w.vim.anchor = e.vim.anchor) :
      Applied e operator range ((w.snapshot.delete range).rememberChange none, .edited)
  | changed {w : Editor} (slice : e.buffer.slice range ≠ []) (change : operator = .change)
      (wrote : Wrote e.useRegister w) (anchor : w.vim.anchor = e.vim.anchor) :
      Applied e operator range ((w.snapshot.delete range).openInsert, .edited)
  | recased {b : VimBuffer} (slice : e.buffer.slice range ≠ [])
      (recase : operator = .toggleCase ∨ operator = .lowercase ∨ operator = .uppercase)
      (case : e.buffer.changeCase range (operatorCase operator) = some b) :
      Applied e operator range
        ({ e.useRegister.snapshot with buffer := b }.rememberChange none, .edited)

theorem applied_applyOperator (e : Editor) (operator : Operator) (range : Range) (linewise : Bool) :
    Applied e operator range (e.applyOperator operator range linewise) := by
  have hbuffer : e.useRegister.buffer = e.buffer := rfl
  unfold applyOperator
  by_cases hslice : e.buffer.slice range = []
  · simp only [hbuffer, hslice, List.isEmpty_nil, if_true]
    exact .nothing hslice
  · have hne : (e.buffer.slice range).isEmpty = false := by simpa using hslice
    obtain ⟨b, hb⟩ := VimBuffer.changeCase_of_slice hslice (operatorCase operator)
    cases operator with
    | yank =>
      simp only [hbuffer, hne, Bool.false_eq_true, if_false]
      exact .yanked hslice rfl (wrote_writeRegister _ _ _ _) (writeRegister_anchor _ _ _ _)
    | delete =>
      simp only [hbuffer, hne, Bool.false_eq_true, if_false]
      exact .deleted hslice rfl (wrote_writeRegister _ _ _ _) (writeRegister_anchor _ _ _ _)
    | change =>
      simp only [hbuffer, hne, Bool.false_eq_true, if_false]
      exact .changed hslice rfl (wrote_writeRegister _ _ _ _) (writeRegister_anchor _ _ _ _)
    | toggleCase | lowercase | uppercase =>
      simp only [hbuffer, hne, hb, Bool.false_eq_true, if_false]
      exact .recased hslice (by simp) hb

theorem shape_applyOperator (e : Editor) (operator : Operator) (range : Range) (linewise : Bool) :
    Shape e (.applyOperator operator range linewise) (e.applyOperator operator range linewise) := by
  have happlied := applied_applyOperator e operator range linewise
  generalize e.applyOperator operator range linewise = r at happlied ⊢
  cases happlied with
  | nothing empty => exact .stay (wrote_useRegister e) (.inl rfl) (by simp [takes, empty])
  | yanked slice yank wrote =>
    exact .place range.start ((wrote_useRegister e).trans wrote) (by simp [takes, yank])
  | deleted slice delete wrote =>
    exact .edit _ ((wrote_useRegister e).trans wrote) (by simp [takes, delete, slice])
      (by simp [opens, delete])
  | changed slice change wrote =>
    exact .change _ ((wrote_useRegister e).trans wrote) (by simp [takes, change, slice])
      (by simp [opens, change, slice])
  | recased slice recase case =>
    refine .edit _ (wrote_useRegister e) ?_ ?_
    · rcases recase with rfl | rfl | rfl <;> simp [takes, slice]
    · rcases recase with rfl | rfl | rfl <;> simp [opens]

theorem shape_toggle (e : Editor) (count : Nat) : Shape e (.toggle count) (e.toggle count) := by
  unfold toggle
  dsimp only
  have happlied := applied_applyOperator e .toggleCase
    ⟨e.buffer.caret, min (e.buffer.caret + count) e.buffer.len⟩ false
  generalize e.applyOperator .toggleCase _ false = r at happlied ⊢
  cases happlied with
  | nothing empty => exact .stay (wrote_useRegister e) (.inl rfl) (by simp [takes, empty])
  | yanked slice yank wrote => cases yank
  | deleted slice delete wrote => cases delete
  | changed slice change wrote => cases change
  | @recased b slice recase case =>
    have htakes : takes (e, .toggle count) = true := decide_eq_true slice
    rw [if_pos rfl]
    exact .edit { b with caret := min (b.caret + count) (e.buffer.len - 1) } (wrote_useRegister e)
      htakes rfl

theorem shape_perform (e : Editor) (call : Call) : Shape e call (perform (e, call)) := by
  cases call with
  | consumed => exact .stay (.refl e) (.inl rfl) rfl
  | passthrough => exact .stay (.refl e) (.inr rfl) rfl
  | moveCaret count step => exact shape_moveCaret e count step
  | findMove motion count => exact shape_findMove e motion count
  | enterInsert place => exact shape_enterInsert e place
  | applyOperator operator range linewise => exact shape_applyOperator e operator range linewise
  | toggle count => exact shape_toggle e count
  | overwrite count c => exact shape_overwrite e count c
  | undo => exact .undo
  | paste count before => exact shape_paste e count before
  | pasteOver range text => exact .edit _ (.refl e) rfl rfl
  | select range => exact .place (w := e.setAnchor range.start) _ rfl rfl
  | swapEnds => exact .place (w := e.setAnchor e.buffer.caret) _ rfl rfl
  | leaveVisual => exact .leave

end Editor

end Goble.Vim
