import Goble.Lib.Machine
import Goble.Vim.Calls

/-!
# Key presses and sessions

A press is a key with its modifiers and the clipboard the host has at hand. A session is a run of
presses on one buffer. `Handled` says once what a press can do, by the mode it finds.

The number of replays that may nest inside each other is carried by the press: a press whose replay
needs more is not enabled, and every press that returns is enabled with enough of them.
-/

namespace Goble.Vim

structure Press where
  key : Key
  modifiers : ModifiersState
  clipboard : Option Clipboard
  depth : Nat
deriving DecidableEq

namespace Press

variable (p : Press)

def isEscape : Prop := p.key = .escape ∨ (p.modifiers.ctrl ∧ p.key = .char '[')

/-- A key the tables read: no Escape, and no modifier but shift. -/
def isPlain : Prop :=
  ¬p.isEscape ∧ p.modifiers.command = false ∧ p.modifiers.ctrl = false ∧ p.modifiers.alt = false

def isRedo : Prop :=
  ¬p.isEscape ∧ p.modifiers.command = false ∧ p.modifiers.ctrl = true ∧
    (p.key = .char 'r' ∨ p.key = .char 'R')

instance : Decidable p.isEscape := inferInstanceAs (Decidable (_ ∨ _))

instance : Decidable p.isPlain := inferInstanceAs (Decidable (_ ∧ _))

instance : Decidable p.isRedo := inferInstanceAs (Decidable (_ ∧ _))

/-- A key without modifiers, for which one level of replays is enough. -/
def of (key : Key) : Press := ⟨key, .none, none, 1⟩

end Press

namespace Editor

variable [CaseTable] (e : Editor) (p : Press)

def facing : Editor := { e with clipboard := p.clipboard }

def press : Option (Editor × VimOutcome) := handle p.depth p.key p.modifiers (e.facing p)

def isDot : Prop := p.isPlain ∧ e.vim.mode = .normal ∧ e.readsDot p.key

def isUndo : Prop :=
  p.isPlain ∧ e.vim.mode = .normal ∧ e.vim.pending = none ∧ p.key = .char 'u'

omit [CaseTable] in
instance : Decidable (e.isDot p) := inferInstanceAs (Decidable (_ ∧ _))

omit [CaseTable] in
instance : Decidable (e.isUndo p) := inferInstanceAs (Decidable (_ ∧ _))

inductive Handled (e : Editor) (p : Press) : Editor × VimOutcome → Prop
  | escape (esc : p.isEscape) : Handled e p e.escape
  | ignored {o : VimOutcome} (esc : ¬p.isEscape) (plain : ¬p.isPlain)
      (quiet : o = .consumed ∨ o = .passthrough) : Handled e p (e, o)
  | redo (redo : p.isRedo) (mode : e.vim.mode = .normal) : Handled e p e.redo
  | insert (plain : p.isPlain) (mode : e.vim.mode = .insert) : Handled e p (e.insert p.key)
  | replace (plain : p.isPlain) (mode : e.vim.mode = .replace) : Handled e p (e.replace p.key)
  | normal (plain : p.isPlain) (mode : e.vim.mode = .normal) (dot : e.readsDot p.key = false) :
      Handled e p (perform (normalKey p.key e))
  | visual {kind : MotionType} (plain : p.isPlain) (mode : e.vim.mode = .visual kind) :
      Handled e p (perform (visualKey p.key e))
  | dot {r : Editor × VimOutcome} (dot : e.isDot p)
      (replay : Editor.normal p.depth p.key e = some r) : Handled e p r

section Plain

variable {e : Editor} {p : Press}

theorem press_of_plain (hp : p.isPlain) :
    e.press p =
      match e.vim.mode with
      | .insert => some ((e.facing p).insert p.key)
      | .replace => some ((e.facing p).replace p.key)
      | .normal => Editor.normal p.depth p.key (e.facing p)
      | .visual _ => some (perform (visualKey p.key (e.facing p))) := by
  obtain ⟨hesc, hcommand, hctrl, halt⟩ := hp
  unfold press handle
  rw [Press.isEscape] at hesc
  rw [if_neg hesc, hcommand, hctrl, halt]
  rfl

theorem normal_of_not_dot {depth : Nat} {key : Key} (h : e.readsDot key = false) :
    e.normal depth key = some (perform (normalKey key e)) := by
  cases depth <;> simp only [Editor.normal, normalWith, h] <;> rfl

theorem press_normal (hp : p.isPlain) (hmode : e.vim.mode = .normal)
    (hdot : e.readsDot p.key = false) :
    e.press p = some (perform (normalKey p.key (e.facing p))) := by
  rw [press_of_plain hp, hmode]
  exact normal_of_not_dot hdot

end Plain

theorem press_of_redo {e : Editor} {p : Press} (hp : p.isRedo) (hmode : e.vim.mode = .normal) :
    e.press p = some (e.facing p).redo := by
  obtain ⟨hesc, hcommand, hctrl, hkey⟩ := hp
  have hmode' : (e.facing p).vim.mode = .normal := hmode
  unfold press handle
  rw [Press.isEscape] at hesc
  rw [if_neg hesc, if_neg (by simp [hcommand]), if_pos hctrl, if_pos ⟨hmode', hkey⟩]

theorem handled {e : Editor} {p : Press} {r : Editor × VimOutcome} (h : e.press p = some r) :
    Handled (e.facing p) p r := by
  unfold press handle at h
  generalize e.facing p = f at h ⊢
  split_ifs at h with hesc hcommand hctrl hredo halt hmode
  · obtain rfl := Option.some.inj h
    exact .escape hesc
  · obtain rfl := Option.some.inj h
    exact .ignored hesc (fun hp => by simp [hp.2.1] at hcommand) (.inr rfl)
  · obtain rfl := Option.some.inj h
    exact .redo ⟨hesc, by simpa using hcommand, hctrl, hredo.2⟩ hredo.1
  · obtain rfl := Option.some.inj h
    exact .ignored hesc (fun hp => by simp [hp.2.2.1] at hctrl) (.inr rfl)
  · obtain rfl := Option.some.inj h
    exact .ignored hesc (fun hp => by simp [hp.2.2.2] at halt) (.inr rfl)
  · obtain rfl := Option.some.inj h
    exact .ignored hesc (fun hp => by simp [hp.2.2.2] at halt) (.inl rfl)
  · have hplain : p.isPlain :=
      ⟨hesc, by simpa using hcommand, by simpa using hctrl, by simpa using halt⟩
    split at h
    · next hmode => exact Option.some.inj h ▸ .insert hplain hmode
    · next hmode => exact Option.some.inj h ▸ .replace hplain hmode
    · next hmode =>
      by_cases hdot : f.readsDot p.key
      · exact .dot ⟨hplain, hmode, hdot⟩ h
      · have hdot : f.readsDot p.key = false := by simpa using hdot
        rw [normal_of_not_dot hdot] at h
        exact Option.some.inj h ▸ .normal hplain hmode hdot
    · next hmode => exact Option.some.inj h ▸ .visual hplain hmode

def fresh (text : List Char) (caret : Nat) : Editor := ⟨.new, .new text caret, none⟩

/-- Presses on one buffer, from `e`. -/
def session : Machine Editor Press where
  init := e
  step e p := (e.press p).map Prod.fst

end Editor

end Goble.Vim
