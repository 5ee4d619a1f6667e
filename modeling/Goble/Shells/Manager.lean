import Goble.Lib.Base64
import Mathlib.Logic.Function.Basic

/-!
# The panes of a worker

A worker has one shell per pane id. `spawn` opens a pane for a connection, its owner, if the id is
free, `close` and `close_owned` take panes of an owner away and kill their shells, and the task that
waits for a shell takes its pane away when the shell has ended (`forget`). A pane that is opened
later under the same id is told apart by its generation.

What the system answers when a shell is started or killed is handed in.
-/

namespace Goble.Shells

abbrev PaneId := List Char

/-- The connection that a pane belongs to. -/
abbrev Owner := List Char

inductive WorkerMessage where
  | ptyOpened (paneId : PaneId)
  | ptyOutput (paneId : PaneId) (data : String)
  | ptyExit (paneId : PaneId) (code : Option Int)
  | ptyError (paneId : PaneId) (message : List Char)
deriving DecidableEq, Repr

structure Pane where
  generation : Nat
  owner : Owner
deriving DecidableEq, Repr

structure PtyManager where
  panes : PaneId → Option Pane
  nextGeneration : Nat

inductive Start where
  | started
  /-- The directory does not exist and cannot be created. -/
  | noCwd (message : List Char)
  /-- The terminal or the shell is not to be had. -/
  | failed (message : List Char)
deriving DecidableEq, Repr

namespace PtyManager

def new : PtyManager := ⟨fun _ => none, 1⟩

variable (m : PtyManager)

/-- The events to be emitted, and the generation of the pane if there is one now. -/
def spawn (owner : Owner) (paneId : PaneId) (cols rows : Nat) (start : Start) :
    List WorkerMessage × Option Nat × PtyManager :=
  if cols = 0 ∨ rows = 0 then
    ([.ptyError paneId "cols and rows must be greater than zero".toList], none, m)
  else match start, m.panes paneId with
    | .noCwd message, _ => ([.ptyError paneId message], none, m)
    | _, some _ => ([.ptyError paneId "a pane with this id is already open".toList], none, m)
    | .failed message, none => ([.ptyError paneId message], none, m)
    | .started, none =>
      ([.ptyOpened paneId], some m.nextGeneration,
        { panes := Function.update m.panes paneId (some ⟨m.nextGeneration, owner⟩)
          nextGeneration := m.nextGeneration + 1 })

/-- The pane is taken away and its shell killed, which may fail. -/
def close (owner : Owner) (paneId : PaneId) (killed : Except (List Char) Unit) :
    List WorkerMessage × Option Pane × PtyManager :=
  match m.panes paneId with
  | none => ([], none, m)
  | some pane =>
    if pane.owner ≠ owner then
      ([.ptyError paneId "pane belongs to another connection".toList], none, m)
    else
      let events := match killed with
        | .ok () => []
        | .error error => [.ptyError paneId ("kill pty: ".toList ++ error)]
      (events, some pane, { m with panes := Function.update m.panes paneId none })

/-- The shell of a pane has ended. -/
def forget (generation : Nat) (paneId : PaneId) : PtyManager :=
  match m.panes paneId with
  | some pane =>
    if pane.generation = generation then
      { m with panes := Function.update m.panes paneId none }
    else m
  | none => m

variable {m} {owner : Owner} {paneId p : PaneId} {pane : Pane}

theorem spawn_cases (m : PtyManager) (owner : Owner) (paneId : PaneId) (cols rows : Nat)
    (start : Start) :
    (∃ message, m.spawn owner paneId cols rows start = ([.ptyError paneId message], none, m)) ∨
      (m.panes paneId = none ∧
        m.spawn owner paneId cols rows start = ([.ptyOpened paneId], some m.nextGeneration,
          { panes := Function.update m.panes paneId (some ⟨m.nextGeneration, owner⟩)
            nextGeneration := m.nextGeneration + 1 })) := by
  unfold spawn
  by_cases hsize : cols = 0 ∨ rows = 0
  · rw [if_pos hsize]
    exact .inl ⟨_, rfl⟩
  rw [if_neg hsize]
  cases start with
  | noCwd message => exact .inl ⟨_, rfl⟩
  | failed message =>
    cases m.panes paneId with
    | some pane => exact .inl ⟨_, rfl⟩
    | none => exact .inl ⟨_, rfl⟩
  | started =>
    cases m.panes paneId with
    | some pane => exact .inl ⟨_, rfl⟩
    | none => exact .inr ⟨rfl, rfl⟩

theorem close_cases (m : PtyManager) (owner : Owner) (paneId : PaneId)
    (killed : Except (List Char) Unit) :
    ((m.panes paneId = none ∨ ∃ pane, m.panes paneId = some pane ∧ pane.owner ≠ owner) ∧
        ∃ events, m.close owner paneId killed = (events, none, m)) ∨
      ∃ pane events, m.panes paneId = some pane ∧ pane.owner = owner ∧
        m.close owner paneId killed =
          (events, some pane, { m with panes := Function.update m.panes paneId none }) := by
  unfold close
  cases hpane : m.panes paneId with
  | none => exact .inl ⟨.inl rfl, _, rfl⟩
  | some pane =>
    dsimp only
    by_cases howner : pane.owner = owner
    · rw [if_neg (not_not.mpr howner)]
      exact .inr ⟨pane, _, rfl, howner, rfl⟩
    · rw [if_pos howner]
      exact .inl ⟨.inr ⟨pane, rfl, howner⟩, _, rfl⟩

/-- What is still there was there before. -/
theorem panes_forget {generation : Nat} (h : (m.forget generation paneId).panes p = some pane) :
    m.panes p = some pane := by
  rw [forget] at h
  split at h
  · split at h
    · dsimp only at h
      by_cases hp : p = paneId
      · rw [hp, Function.update_self] at h
        exact absurd h nofun
      · exact (Function.update_of_ne hp _ _).symm.trans h
    · exact h
  · exact h

theorem nextGeneration_forget {generation : Nat} :
    (m.forget generation paneId).nextGeneration = m.nextGeneration := by
  rw [forget]
  split
  · split <;> rfl
  · rfl

end PtyManager

end Goble.Shells
