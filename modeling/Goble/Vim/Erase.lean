import Goble.Vim.Replay

/-!
# What the recording is for

The engine writes down the keys of a change, and no key of the tables reads what is written: only the
dot command does. So the recording can be erased, and with it the clipboard, without changing what a
key does to the text, the mode, the registers or the half-typed command (`shown_normalKey`,
`shown_perform`). The one call that reads the clipboard is a put from a clipboard register.

Hence two editors that differ in what they have recorded, as the one a dot replays in and the one the
same keys are typed in, stay alike.
-/

namespace Goble.Vim

def VimState.erase (s : VimState) : VimState :=
  { s with lastChange := none, command := [], insertKeys := [], insertText := [], replaying := 0 }

namespace Editor

variable (e : Editor)

def erase : Editor := { e with vim := e.vim.erase, clipboard := none }

/-- What a key shows. -/
def shown {α : Type} (x : Editor × α) : Editor × α := (x.1.erase, x.2)

/-! ### The operations that record -/

@[simp] theorem erase_record (key : Key) : (e.record key).erase = e.erase := by
  unfold record VimState.record
  split <;> rfl

@[simp] theorem erase_rememberChange (insert : Option (List Char)) :
    (e.rememberChange insert).erase = e.erase := by
  unfold rememberChange VimState.rememberChange
  split <;> rfl

theorem erase_finishInsert (s : VimState) : s.finishInsert.erase = s.erase := by
  unfold VimState.finishInsert
  split <;> rfl

theorem erase_writeRegister (name : Char) (text : List Char) (linewise : Bool) :
    (e.writeRegister name text linewise).erase =
      (e.erase.writeRegister name text linewise).erase := by
  unfold writeRegister
  dsimp only
  split_ifs <;> rfl

/-! ### The table -/

theorem shown_normalCommand (c : Char) :
    shown (normalCommand c e) = shown (normalCommand c e.erase) := by
  have hfind : e.erase.vim.lastFind = e.vim.lastFind := rfl
  unfold normalCommand
  split
  all_goals first | rfl | (dsimp only; rw [hfind]; split <;> rfl)

theorem shown_gCommand (key : Key) : shown (gCommand key e) = shown (gCommand key e.erase) := by
  unfold gCommand
  split
  · dsimp only
    split <;> rfl
  · rfl

theorem shown_pushCount (c : Char) :
    ({ e with vim := e.vim.pushCount c } : Editor).erase =
      ({ e.erase with vim := e.erase.vim.pushCount c } : Editor).erase := by
  have hpending : e.erase.vim.pending = e.vim.pending := rfl
  unfold VimState.pushCount
  rw [hpending]
  split <;> rfl

theorem shown_normalPending (pending : Pending) (key : Key) :
    shown (normalPending pending key e) = shown (normalPending pending key e.erase) := by
  unfold normalPending
  cases pending with
  | g => exact shown_gCommand (e.setPending none) key
  | register =>
    dsimp only
    split
    · split_ifs <;> rfl
    · rfl
  | operator operator =>
    dsimp only
    split
    · have hcount : e.erase.vim.count2 = e.vim.count2 := rfl
      rw [hcount]
      split_ifs
      · exact Prod.ext (congrArg (setPending · (some (.operator operator))) (shown_pushCount e _)) rfl
      all_goals rfl
    · rfl
  | textObject | find | operatorFind | replace | visualObject =>
    dsimp only
    split <;> rfl

theorem shown_normalKey (key : Key) :
    shown (normalKey key e) = shown (normalKey key e.erase) := by
  have hpending : e.erase.vim.pending = e.vim.pending := rfl
  have hcount : e.erase.vim.count = e.vim.count := rfl
  unfold normalKey
  rw [hpending]
  cases e.vim.pending with
  | some pending =>
    dsimp only
    rw [shown_normalPending, erase_record, shown_normalPending (e.erase.record _), erase_record]
    rfl
  | none =>
    dsimp only
    cases key.named with
    | char c =>
      dsimp only
      rw [hcount]
      split_ifs
      · have hpush := shown_pushCount (e.record (.char c)) c
        have hpush' := shown_pushCount (e.erase.record (.char c)) c
        rw [erase_record] at hpush hpush'
        exact Prod.ext (hpush.trans hpush'.symm) rfl
      · rw [shown_normalCommand, erase_record, shown_normalCommand (e.erase.record _), erase_record]
        rfl
    | _ => rfl

/-! ### The calls -/

section Calls

variable [CaseTable]

theorem shown_applyOperator (operator : Operator) (range : Range) (linewise : Bool) :
    shown (e.applyOperator operator range linewise) =
      shown (e.erase.applyOperator operator range linewise) := by
  have hbuffer : e.erase.useRegister.buffer = e.useRegister.buffer := rfl
  have hwrite : ∀ text, (e.useRegister.writeRegister e.vim.register text linewise).erase =
      (e.erase.useRegister.writeRegister e.vim.register text linewise).erase :=
    fun text => erase_writeRegister e.useRegister e.vim.register text linewise
  unfold applyOperator
  dsimp only
  rw [hbuffer]
  split_ifs
  · rfl
  · cases operator with
    | yank => exact Prod.ext (congrArg (setCaret · range.start) (hwrite _)) rfl
    | delete =>
      refine Prod.ext ?_ rfl
      change (rememberChange _ none).erase = (rememberChange _ none).erase
      rw [erase_rememberChange, erase_rememberChange]
      exact congrArg (fun w : Editor => w.snapshot.delete range) (hwrite _)
    | change =>
      exact Prod.ext (congrArg (fun w : Editor => (w.snapshot.delete range).openInsert)
        (hwrite _)) rfl
    | toggleCase | lowercase | uppercase =>
      dsimp only
      split
      · refine Prod.ext ?_ rfl
        change (rememberChange _ none).erase = (rememberChange _ none).erase
        rw [erase_rememberChange, erase_rememberChange]
        rfl
      · rfl

theorem shown_toggle (count : Nat) : shown (e.toggle count) = shown (e.erase.toggle count) := by
  have hbuffer : e.erase.buffer = e.buffer := rfl
  have hshown := shown_applyOperator e .toggleCase
    ⟨e.buffer.caret, min (e.buffer.caret + count) e.buffer.len⟩ false
  unfold toggle
  dsimp only
  rw [hbuffer]
  generalize e.applyOperator _ _ _ = r at hshown ⊢
  generalize e.erase.applyOperator _ _ _ = r' at hshown ⊢
  obtain ⟨herase, hout⟩ : r.1.erase = r'.1.erase ∧ r.2 = r'.2 := Prod.ext_iff.mp hshown
  have hcaret : r.1.buffer.caret = r'.1.buffer.caret := congrArg (·.buffer.caret) herase
  rw [hout, hcaret]
  split_ifs
  · exact Prod.ext (congrArg (setCaret · _) herase) rfl
  · exact hshown

theorem shown_perform {call : Call}
    (hread : ∀ count before, call = .paste count before →
      e.readRegister e.vim.register = e.erase.readRegister e.vim.register) :
    shown (perform (e, call)) = shown (perform (e.erase, call)) := by
  have hbuffer : e.erase.buffer = e.buffer := rfl
  cases call with
  | consumed | passthrough | select | swapEnds | leaveVisual => rfl
  | moveCaret count step =>
    have hdrop : e.erase.dropCounts.buffer = e.dropCounts.buffer := rfl
    simp only [perform, moveCaret, hdrop]
    split <;> rfl
  | findMove motion count =>
    simp only [perform, findMove, hbuffer]
    split
    · rfl
    · split <;> rfl
  | enterInsert place => cases place <;> rfl
  | applyOperator operator range linewise => exact shown_applyOperator e operator range linewise
  | toggle count => exact shown_toggle e count
  | overwrite count c =>
    simp only [perform, overwrite, hbuffer]
    split
    · refine Prod.ext ?_ rfl
      change (rememberChange _ none).erase = (rememberChange _ none).erase
      rw [erase_rememberChange, erase_rememberChange]
      rfl
    · rfl
  | undo =>
    have hundo : e.erase.vim.undo = e.vim.undo := rfl
    simp only [perform, undo, hundo]
    split <;> rfl
  | paste count before =>
    have hregister : e.erase.vim.register = e.vim.register := rfl
    simp only [perform, paste, hregister, ← hread count before rfl]
    split
    · rfl
    · refine Prod.ext ?_ rfl
      change (rememberChange _ none).erase = (rememberChange _ none).erase
      rw [erase_rememberChange, erase_rememberChange]
      rfl
  | pasteOver range text =>
    refine Prod.ext ?_ rfl
    change (rememberChange _ none).erase = (rememberChange _ none).erase
    rw [erase_rememberChange, erase_rememberChange]
    rfl

end Calls

end Editor

end Goble.Vim
