import Goble.Vim.Keys

/-!
# What the tables do

The bookkeeping of a key, whatever call it ends in: the tables leave the text, the registers, the
history and the recorded changes alone (`Kept`), and say which mode the call is made in.

A key that ends in more than an answer is the last of the recorded keys when the call is made
(`command_normalKey`, `command_visualKey`).
-/

namespace Goble.Vim

variable {key : Key}

namespace Editor

variable {e f g : Editor}

/-! ### What is left alone -/

def Kept (e f : Editor) : Prop :=
  f = { e with
    vim :=
      { e.vim with
        mode := f.vim.mode, anchor := f.vim.anchor, pending := f.vim.pending
        count := f.vim.count, count2 := f.vim.count2, register := f.vim.register
        lastFind := f.vim.lastFind, command := f.vim.command } }

theorem Kept.trans (h : Kept e f) (k : Kept f g) : Kept e g := by
  rw [Kept] at h k ⊢
  rw [h] at k
  exact k

theorem Kept.buffer (h : Kept e f) : f.buffer = e.buffer := congrArg (·.buffer) h

theorem Kept.clipboard (h : Kept e f) : f.clipboard = e.clipboard := congrArg (·.clipboard) h

theorem Kept.undo (h : Kept e f) : f.vim.undo = e.vim.undo := congrArg (·.vim.undo) h

theorem Kept.redo (h : Kept e f) : f.vim.redo = e.vim.redo := congrArg (·.vim.redo) h

theorem Kept.lastChange (h : Kept e f) : f.vim.lastChange = e.vim.lastChange :=
  congrArg (·.vim.lastChange) h

theorem Kept.insertText (h : Kept e f) : f.vim.insertText = e.vim.insertText :=
  congrArg (·.vim.insertText) h

theorem Kept.replaying (h : Kept e f) : f.vim.replaying = e.vim.replaying :=
  congrArg (·.vim.replaying) h

theorem kept_record (e : Editor) (key : Key) : Kept e (e.record key) := by
  unfold record VimState.record
  split <;> rfl

theorem kept_pushCount (e : Editor) (c : Char) : Kept e { e with vim := e.vim.pushCount c } := by
  unfold VimState.pushCount
  split <;> rfl

theorem kept_normalCommand (c : Char) (e : Editor) : Kept e (normalCommand c e).1 := by
  unfold normalCommand
  split
  all_goals first | rfl | (split <;> rfl)

theorem kept_gCommand (key : Key) (e : Editor) : Kept e (gCommand key e).1 := by
  unfold gCommand
  split
  · split <;> rfl
  · rfl

theorem kept_normalPending (pending : Pending) (key : Key) (e : Editor) :
    Kept e (normalPending pending key e).1 := by
  unfold normalPending
  cases pending with
  | g => exact kept_gCommand key (e.setPending none)
  | register =>
    dsimp only
    split
    · split <;> rfl
    · rfl
  | operator operator =>
    dsimp only
    split
    · split_ifs
      · exact (kept_pushCount e _).trans rfl
      all_goals rfl
    · rfl
  | textObject | find | operatorFind | replace | visualObject =>
    dsimp only
    split <;> rfl

theorem kept_normalKey (key : Key) (e : Editor) : Kept e (normalKey key e).1 := by
  unfold normalKey
  split
  · exact (kept_record e _).trans (kept_normalPending _ _ _)
  · split
    · dsimp only
      split_ifs
      · exact (kept_record e _).trans (kept_pushCount _ _)
      · exact (kept_record e _).trans (kept_normalCommand _ _)
    · rfl

theorem kept_visualCommand (c : Char) (e : Editor) : Kept e (visualCommand c e).1 := by
  unfold visualCommand
  split
  all_goals first | rfl | (dsimp only; split <;> rfl)

theorem kept_visualKey (key : Key) (e : Editor) : Kept e (visualKey key e).1 := by
  unfold visualKey
  split
  · exact (kept_record e _).trans (kept_normalPending _ _ _)
  · split
    · exact (kept_record e _).trans (kept_visualCommand _ _)
    · rfl

/-! ### The mode a call is made in -/

inductive Turns (e f : Editor) : Prop
  | same (mode : f.vim.mode = e.vim.mode) (anchor : f.vim.anchor = e.vim.anchor)
  | replace (mode : f.vim.mode = .replace)
  | visual (kind : MotionType) (mode : f.vim.mode = .visual kind)
      (anchor : f.vim.anchor = normalCaret e.buffer.caret e.buffer.len ∨ f.vim.anchor = 0)

theorem record_mode (e : Editor) (key : Key) : (e.record key).vim.mode = e.vim.mode := by
  unfold record VimState.record
  split <;> rfl

theorem record_anchor (e : Editor) (key : Key) : (e.record key).vim.anchor = e.vim.anchor := by
  unfold record VimState.record
  split <;> rfl

theorem pushCount_mode (s : VimState) (c : Char) : (s.pushCount c).mode = s.mode := by
  unfold VimState.pushCount
  split <;> rfl

theorem pushCount_anchor (s : VimState) (c : Char) : (s.pushCount c).anchor = s.anchor := by
  unfold VimState.pushCount
  split <;> rfl

theorem Turns.of_same (mode : e.vim.mode = f.vim.mode) (anchor : e.vim.anchor = f.vim.anchor)
    (buffer : e.buffer = f.buffer) (h : Turns f g) : Turns e g := by
  cases h with
  | same hmode hanchor => exact .same (hmode.trans mode.symm) (hanchor.trans anchor.symm)
  | replace hmode => exact .replace hmode
  | visual kind hmode hanchor => exact .visual kind hmode (buffer ▸ hanchor)

theorem Turns.of_record (h : Turns (e.record key) g) : Turns e g :=
  .of_same (record_mode e key).symm (record_anchor e key).symm (kept_record e key).buffer.symm h

theorem Turns.ne_insert (h : Turns e g) (hmode : e.vim.mode ≠ .insert) : g.vim.mode ≠ .insert := by
  cases h with
  | same mode => exact fun hinsert => hmode (mode ▸ hinsert)
  | replace mode => exact fun hinsert => nomatch mode.symm.trans hinsert
  | visual kind mode => exact fun hinsert => nomatch mode.symm.trans hinsert

theorem turns_normalCommand (c : Char) (e : Editor) : Turns e (normalCommand c e).1 := by
  unfold normalCommand
  split
  -- `R`, `v` and `V` change the mode; `;` and `,` look at the last find
  all_goals
    first
    | exact .same rfl rfl
    | exact .replace rfl
    | exact .visual .charwise rfl (.inl rfl)
    | exact .visual .linewise rfl (.inr rfl)
    | (split <;> exact .same rfl rfl)

theorem turns_gCommand (key : Key) (e : Editor) : Turns e (gCommand key e).1 := by
  unfold gCommand
  split
  · split <;> exact .same rfl rfl
  · exact .same rfl rfl

theorem turns_normalPending (pending : Pending) (key : Key) (e : Editor) :
    Turns e (normalPending pending key e).1 := by
  unfold normalPending
  cases pending with
  | g => exact .of_same (f := e.setPending none) rfl rfl rfl (turns_gCommand key _)
  | register =>
    dsimp only
    split
    · split <;> exact .same rfl rfl
    · exact .same rfl rfl
  | operator operator =>
    dsimp only
    split
    · split_ifs
      · exact .same (pushCount_mode _ _) (pushCount_anchor _ _)
      all_goals exact .same rfl rfl
    · exact .same rfl rfl
  | textObject | find | operatorFind | replace | visualObject =>
    dsimp only
    split <;> exact .same rfl rfl

theorem turns_normalKey (key : Key) (e : Editor) : Turns e (normalKey key e).1 := by
  unfold normalKey
  split
  · exact .of_record (turns_normalPending _ _ _)
  · split
    · dsimp only
      split_ifs
      · exact .of_record (.same (pushCount_mode _ _) (pushCount_anchor _ _))
      · exact .of_record (turns_normalCommand _ _)
    · exact .same rfl rfl

theorem turns_visualCommand (c : Char) (e : Editor) :
    Turns e (visualCommand c e).1 ∨ (visualCommand c e).1.vim.mode = .normal := by
  unfold visualCommand
  split
  all_goals
    first
    | exact .inl (.same rfl rfl)
    | exact .inl (.visual .linewise rfl (.inr rfl))
    | (dsimp only; split <;> first | exact .inr rfl | exact .inl (.same rfl rfl))

theorem turns_visualKey (key : Key) (e : Editor) :
    Turns e (visualKey key e).1 ∨ (visualKey key e).1.vim.mode = .normal := by
  unfold visualKey
  split
  · exact .inl (.of_record (turns_normalPending _ _ _))
  · split
    · exact (turns_visualCommand _ _).imp_left .of_record
    · exact .inl (.same rfl rfl)

/-! ### The recorded keys -/

end Editor

def Call.isAnswer : Call → Bool
  | consumed | passthrough => true
  | _ => false

namespace Editor

variable {e : Editor}

theorem record_command (h : e.vim.replaying = 0) :
    (e.record key).vim.command = e.vim.command ++ [key] := by
  simp [record, VimState.record, h]

theorem command_normalCommand {c : Char} (h : (normalCommand c e).2.isAnswer = false) :
    (normalCommand c e).1.vim.command = e.vim.command := by
  revert h
  unfold normalCommand
  split
  all_goals first | exact fun _ => rfl | (split <;> exact fun _ => rfl) | exact nofun

theorem command_gCommand (key : Key) (e : Editor) :
    (gCommand key e).1.vim.command = e.vim.command := by
  unfold gCommand
  split
  · split <;> rfl
  · rfl

theorem pushCount_command (s : VimState) (c : Char) : (s.pushCount c).command = s.command := by
  unfold VimState.pushCount
  split <;> rfl

theorem command_normalPending (pending : Pending) (key : Key) (e : Editor) :
    (normalPending pending key e).1.vim.command = e.vim.command := by
  unfold normalPending
  cases pending with
  | g => exact command_gCommand key _
  | register =>
    dsimp only
    split
    · split <;> rfl
    · rfl
  | operator operator =>
    dsimp only
    split
    · split_ifs
      · exact pushCount_command _ _
      all_goals rfl
    · rfl
  | textObject | find | operatorFind | replace | visualObject =>
    dsimp only
    split <;> rfl

theorem command_normalKey (h : (normalKey key e).2.isAnswer = false) :
    (normalKey key e).1.vim.command = (e.record key.named).vim.command := by
  revert h
  unfold normalKey
  split
  · exact fun _ => command_normalPending _ _ _
  · split
    · next c hc =>
      dsimp only
      rw [hc]
      split_ifs
      · exact nofun
      · exact command_normalCommand
    · exact nofun

theorem command_visualCommand (c : Char) (e : Editor) :
    (visualCommand c e).1.vim.command = e.vim.command := by
  unfold visualCommand
  split
  all_goals first | rfl | (dsimp only; split <;> rfl)

theorem command_visualKey (h : (visualKey key e).2.isAnswer = false) :
    (visualKey key e).1.vim.command = (e.record key.named).vim.command := by
  revert h
  unfold visualKey
  split
  · exact fun _ => command_normalPending _ _ _
  · split
    · next c hc => exact fun _ => hc ▸ command_visualCommand _ _
    · exact nofun

/-! ### Which calls a table makes -/

inductive FromCommand (c : Char) : Call → Prop
  | consumed : FromCommand c .consumed
  | moveCaret (count : Nat) (step : List Char → Nat → Nat) : FromCommand c (.moveCaret count step)
  | findMove (motion : FindMotion) (count : Nat) : FromCommand c (.findMove motion count)
  | here (key : c = 'i') : FromCommand c (.enterInsert .here)
  | enterInsert (place : InsertAt) (here : place ≠ .here) : FromCommand c (.enterInsert place)
  | applyOperator (operator : Operator) (range : Range) (linewise : Bool) :
      FromCommand c (.applyOperator operator range linewise)
  | toggle (count : Nat) : FromCommand c (.toggle count)
  | undo (key : c = 'u') : FromCommand c .undo
  | paste (count : Nat) (before : Bool) : FromCommand c (.paste count before)

theorem fromCommand (c : Char) (e : Editor) : FromCommand c (normalCommand c e).2 := by
  unfold normalCommand
  split
  all_goals
    first
    | exact .consumed
    | exact .moveCaret _ _
    | exact .applyOperator _ _ _
    | exact .here rfl
    | exact .enterInsert _ nofun
    | exact .toggle _
    | exact .undo rfl
    | exact .paste _ _
    | (split <;> first | exact .consumed | exact .findMove _ _)

/-- The calls a key ends in after a half-typed command. -/
inductive FromPending (pending : Pending) (key : Key) : Call → Prop
  | consumed : FromPending pending key .consumed
  | moveCaret (count : Nat) (step : List Char → Nat → Nat) :
      FromPending pending key (.moveCaret count step)
  | findMove (motion : FindMotion) (count : Nat) : FromPending pending key (.findMove motion count)
  | applyOperator (operator : Operator) (range : Range) (linewise : Bool) :
      FromPending pending key (.applyOperator operator range linewise)
  | overwrite (count : Nat) (c : Char) (replace : pending = .replace) (char : key = .char c) :
      FromPending pending key (.overwrite count c)
  | select (around : Bool) (c : Char) (range : Range) (object : pending = .visualObject around)
      (char : key = .char c) : FromPending pending key (.select range)

theorem fromPending_operate (pending : Pending) (key : Key) (operator : Operator)
    (range : Option Range) : FromPending pending key (operate operator range) := by
  cases range with
  | none => exact .consumed
  | some range => exact .applyOperator operator range false

theorem fromPending_gCommand (key : Key) (e : Editor) : FromPending .g key (gCommand key e).2 := by
  unfold gCommand
  split
  · dsimp only
    split <;> first | exact .consumed | exact .moveCaret _ _ | exact .applyOperator _ _ _
  · exact .consumed

theorem fromPending (pending : Pending) (key : Key) (e : Editor) :
    FromPending pending key (normalPending pending key e).2 := by
  unfold normalPending
  cases pending with
  | g => exact fromPending_gCommand key _
  | register =>
    dsimp only
    split <;> exact .consumed
  | replace =>
    dsimp only
    split
    · exact .overwrite _ _ rfl rfl
    · exact .consumed
  | find =>
    dsimp only
    split
    · exact .findMove _ _
    · exact .consumed
  | operatorFind | textObject =>
    dsimp only
    split
    · exact fromPending_operate _ _ _ _
    · exact .consumed
  | visualObject around =>
    dsimp only
    split
    · dsimp only
      split
      · exact .select _ _ _ rfl rfl
      · exact .consumed
    · exact .consumed
  | operator operator =>
    dsimp only
    split
    · split_ifs
      · exact .consumed
      · exact .consumed
      · exact .consumed
      · exact .applyOperator _ _ _
      · exact fromPending_operate _ _ _ _
    · exact .consumed

inductive FromNormal (e : Editor) (key : Key) : Call → Prop
  | passthrough : FromNormal e key .passthrough
  | digit : FromNormal e key .consumed
  | command {c : Char} {call : Call} (idle : e.vim.pending = none) (char : key.named = .char c)
      (made : FromCommand c call) : FromNormal e key call
  | pending {pending : Pending} {call : Call} (half : e.vim.pending = some pending)
      (made : FromPending pending key.named call) : FromNormal e key call

theorem fromNormal (key : Key) (e : Editor) : FromNormal e key (normalKey key e).2 := by
  unfold normalKey
  split
  · next pending hpending => exact .pending hpending (fromPending _ _ _)
  · next hpending =>
    split
    · next c hc =>
      dsimp only
      split_ifs
      · exact .digit
      · exact .command hpending hc (fromCommand _ _)
    · exact .passthrough

theorem normalKey_eq_undo (h : (normalKey key e).2 = .undo) :
    e.vim.pending = none ∧ key.named = .char 'u' := by
  have hfrom := fromNormal key e
  rw [h] at hfrom
  cases hfrom with
  | command idle char made =>
    cases made with
    | undo key => exact ⟨idle, key ▸ char⟩
  | pending half made => cases made

theorem normalKey_eq_overwrite {count : Nat} {c : Char}
    (h : (normalKey key e).2 = .overwrite count c) :
    e.vim.pending = some .replace ∧ key.named = .char c := by
  have hfrom := fromNormal key e
  rw [h] at hfrom
  cases hfrom with
  | command idle char made => cases made
  | pending half made =>
    cases made with
    | overwrite count c replace char => exact ⟨replace ▸ half, char⟩

inductive FromVisual (e : Editor) (key : Key) : Call → Prop
  | consumed : FromVisual e key .consumed
  | passthrough : FromVisual e key .passthrough
  | moveCaret (count : Nat) (step : List Char → Nat → Nat) : FromVisual e key (.moveCaret count step)
  | findMove (motion : FindMotion) (count : Nat) : FromVisual e key (.findMove motion count)
  | applyOperator (operator : Operator) (range : Range) (linewise : Bool) :
      FromVisual e key (.applyOperator operator range linewise)
  | pasteOver (range : Range) (text : List Char) : FromVisual e key (.pasteOver range text)
  | swapEnds : FromVisual e key .swapEnds
  | leaveVisual (idle : ∀ around, e.vim.pending ≠ some (.visualObject around))
      (char : key.named = .char 'v') : FromVisual e key .leaveVisual
  | select (range : Range) : FromVisual e key (.select range)

theorem fromVisual (key : Key) (e : Editor) : FromVisual e key (visualKey key e).2 := by
  unfold visualKey
  split
  · next around hpending =>
    have hfrom := fromPending (.visualObject around) key.named (e.record key.named)
    generalize (normalPending (.visualObject around) key.named (e.record key.named)).2 = call
      at hfrom ⊢
    cases hfrom with
    | consumed => exact .consumed
    | moveCaret count step => exact .moveCaret count step
    | findMove motion count => exact .findMove motion count
    | applyOperator operator range linewise => exact .applyOperator operator range linewise
    | overwrite count c replace => cases replace
    | select around c range => exact .select range
  · next hpending =>
    split
    · next c hc =>
      unfold visualCommand
      split
      all_goals
        first
        | exact .consumed
        | exact .moveCaret _ _
        | exact .swapEnds
        | exact .leaveVisual hpending hc
        | (dsimp only
           split <;>
             first
             | exact .consumed
             | exact .findMove _ _
             | exact .applyOperator _ _ _
             | exact .pasteOver _ _)
    · exact .passthrough

/-! ### The selected register -/

theorem pushCount_register (s : VimState) (c : Char) : (s.pushCount c).register = s.register := by
  unfold VimState.pushCount
  split <;> rfl

theorem record_register (e : Editor) (key : Key) :
    (e.record key).vim.register = e.vim.register := by
  unfold record VimState.record
  split <;> rfl

theorem register_normalPending (pending : Pending) (key : Key) (e : Editor) :
    (normalPending pending key e).1.vim.register = e.vim.register ∨
      (pending = .register ∧ key = .char (normalPending pending key e).1.vim.register) := by
  unfold normalPending
  cases pending with
  | g =>
    left
    unfold gCommand
    dsimp only
    split
    · split <;> rfl
    · rfl
  | register =>
    dsimp only
    split
    · split
      · exact .inr ⟨rfl, rfl⟩
      · exact .inl rfl
    · exact .inl rfl
  | operator operator =>
    left
    dsimp only
    split
    · split_ifs
      · exact pushCount_register _ _
      all_goals rfl
    · rfl
  | textObject | find | operatorFind | replace | visualObject =>
    left
    dsimp only
    split <;> rfl

theorem register_normalKey (key : Key) (e : Editor) :
    (normalKey key e).1.vim.register = e.vim.register ∨
      (e.vim.pending = some .register ∧ key.named = .char (normalKey key e).1.vim.register) := by
  unfold normalKey
  cases e.vim.pending with
  | some pending =>
    rcases register_normalPending pending key.named (e.record key.named) with hsame | ⟨rfl, hkey⟩
    · exact .inl (hsame.trans (record_register e _))
    · exact .inr ⟨rfl, hkey⟩
  | none =>
    left
    cases key.named with
    | char c =>
      dsimp only
      split_ifs
      · exact (pushCount_register _ _).trans (record_register e _)
      · refine Eq.trans ?_ (record_register e (.char c))
        unfold normalCommand
        split
        all_goals first | rfl | (split <;> rfl)
    | _ => rfl

end Editor

end Goble.Vim
