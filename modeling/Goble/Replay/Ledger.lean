import Goble.Harness.Protocol
import Mathlib.Data.List.Basic

/-!
# The replay ledger

A translation of `goble-replay`: the per-session transcript ledger with its settlement
marker. `ReplayLedger` is an `Arc<Mutex<LedgerState>>` and each of its methods takes the
lock once, so every method is one atomic function on `LedgerState`. A method that fails
leaves the state alone; the model returns `Except` and the caller keeps the old state.

The source's parameter `at` is a reserved word here and reads `pos`.

Five methods shorten or replace the list of turns (`apply`, `discard`, `rewindTo`,
`revertTo`, `restore`). All but the rewinds reset the settlement marker `selected`.
-/

namespace Goble

inductive ReplayError where
  | noTurn
  | indexOutOfRange (requested len : Nat)
  | candidateNotSelected (pos : Nat) (selected : Option Nat)
deriving DecidableEq, Repr

def ReplayError.message : ReplayError → String
  | .noTurn => "no turn has been recorded yet"
  | .indexOutOfRange requested len =>
    "checkpoint index " ++ toString requested ++ " is out of range (ledger has "
      ++ toString len ++ " turns)"
  | .candidateNotSelected pos selected =>
    "candidate turn " ++ toString pos ++ " is not the currently selected candidate (selected: "
      ++ (match selected with
          | none => "None"
          | some k => "Some(" ++ toString k ++ ")") ++ ")"

/-- The life-cycle of one recorded turn. -/
inductive TurnStatus where
  | running
  | success
  | failed (message : String)
  | cancelled
deriving DecidableEq, Repr, Inhabited

/-- One turn of the transcript: the request, everything the harness produced for it and how
it settled. -/
structure TurnRecord where
  index : Nat
  turn : HarnessTurn
  startedAt : Time
  finishedAt : Option Time
  status : TurnStatus
  events : List HarnessServerEvent
deriving Repr, Inhabited

def TurnRecord.extend (events : List HarnessServerEvent) (t : TurnRecord) : TurnRecord :=
  { t with events := t.events ++ events }

def TurnRecord.settle (status : TurnStatus) (now : Time) (t : TurnRecord) : TurnRecord :=
  { t with status := status, finishedAt := some now }

/-- A snapshot of the ledger; `pos` is the number of turns captured. -/
structure Checkpoint where
  sessionId : SessionId
  pos : Nat
  turns : List TurnRecord
  createdAt : Time
deriving Repr, Inhabited

structure LedgerState where
  sessionId : SessionId
  turns : List TurnRecord
  /-- Index of the turn marked as the settlement candidate. -/
  selected : Option Nat
deriving Repr, Inhabited

namespace LedgerState

def new (sessionId : SessionId) : LedgerState where
  sessionId := sessionId
  turns := []
  selected := none

def fromCheckpoint (cp : Checkpoint) : LedgerState where
  sessionId := cp.sessionId
  turns := cp.turns
  selected := none

def len (s : LedgerState) : Nat := s.turns.length

def recordTurn (s : LedgerState) (turn : HarnessTurn) (now : Time) : Nat × LedgerState :=
  let index := s.turns.length
  (index, { s with turns := s.turns ++ [⟨index, turn, now, none, .running, []⟩] })

def appendEvents (s : LedgerState) (events : List HarnessServerEvent) :
    Except ReplayError LedgerState :=
  if s.turns.length = 0 then .error .noTurn
  else .ok { s with turns := s.turns.modify (s.turns.length - 1) (.extend events) }

def settleTurn (s : LedgerState) (status : TurnStatus) (now : Time) :
    Except ReplayError LedgerState :=
  if s.turns.length = 0 then .error .noTurn
  else .ok { s with turns := s.turns.modify (s.turns.length - 1) (.settle status now) }

def appendEventsTo (s : LedgerState) (index : Nat) (events : List HarnessServerEvent) :
    Except ReplayError LedgerState :=
  if index < s.turns.length then
    .ok { s with turns := s.turns.modify index (.extend events) }
  else .error (.indexOutOfRange index s.turns.length)

def settleTurnAt (s : LedgerState) (index : Nat) (status : TurnStatus) (now : Time) :
    Except ReplayError LedgerState :=
  if index < s.turns.length then
    .ok { s with turns := s.turns.modify index (.settle status now) }
  else .error (.indexOutOfRange index s.turns.length)

def select (s : LedgerState) (pos : Nat) : Except ReplayError LedgerState :=
  if s.turns.length ≤ pos then .error (.indexOutOfRange pos s.turns.length)
  else .ok { s with selected := some pos }

/-- Commit the selected candidate: keep it and its prefix, drop the tail. Returns how many
turns were removed. -/
def apply (s : LedgerState) (pos : Nat) : Except ReplayError (Nat × LedgerState) :=
  if s.turns.length ≤ pos then .error (.indexOutOfRange pos s.turns.length)
  else if s.selected ≠ some pos then .error (.candidateNotSelected pos s.selected)
  else .ok (s.turns.length - pos - 1,
    { s with turns := s.turns.take (pos + 1), selected := none })

/-- Drop the pending selection at `pos` without rewinding. Returns whether one was pending. -/
def release (s : LedgerState) (pos : Nat) : Except ReplayError (Bool × LedgerState) :=
  if s.turns.length ≤ pos then .error (.indexOutOfRange pos s.turns.length)
  else if s.selected = some pos then .ok (true, { s with selected := none })
  else .ok (false, s)

/-- Discard the candidate at `pos` and its tail. Returns how many turns were removed. -/
def discard (s : LedgerState) (pos : Nat) : Except ReplayError (Nat × LedgerState) :=
  if s.turns.length ≤ pos then .error (.indexOutOfRange pos s.turns.length)
  else .ok (s.turns.length - pos, { s with turns := s.turns.take pos, selected := none })

/-- Keep exactly `index` turns, dropping the tail. Returns how many were removed; an index at
or beyond the length is a no-op. The marker `selected` is not touched. -/
def rewindTo (s : LedgerState) (index : Nat) : Nat × LedgerState :=
  if s.turns.length ≤ index then (0, s)
  else (s.turns.length - index, { s with turns := s.turns.take index })

def revertTo (s : LedgerState) (index : Nat) : Nat × LedgerState :=
  s.rewindTo index

/-- Branch a fresh ledger carrying the prefix `[0, pos)`; `pos` is clamped. -/
def fork (s : LedgerState) (pos : Nat) (newSessionId : SessionId) : LedgerState where
  sessionId := newSessionId
  turns := s.turns.take (min pos s.turns.length)
  selected := none

def checkpoint (s : LedgerState) (now : Time) : Checkpoint :=
  ⟨s.sessionId, s.turns.length, s.turns, now⟩

/-- A snapshot of the prefix `[0, pos)`; `pos` is clamped. -/
def checkpointAt (s : LedgerState) (pos : Nat) (now : Time) : Checkpoint :=
  ⟨s.sessionId, min pos s.turns.length, s.turns.take (min pos s.turns.length), now⟩

/-- Overwrite the ledger in place with a saved checkpoint. -/
def restore (_ : LedgerState) (cp : Checkpoint) : LedgerState where
  sessionId := cp.sessionId
  turns := cp.turns
  selected := none

/-- Re-emit the recorded events from turn `pos` onward, concatenated; `pos` is clamped. -/
def replay (s : LedgerState) (pos : Nat) : List HarnessServerEvent :=
  (s.turns.drop (min pos s.turns.length)).flatMap (·.events)

/-! ### What each method does to the list of turns -/

section Turns

variable (s : LedgerState)

@[simp] theorem new_turns (sid : SessionId) : (new sid).turns = [] := rfl

@[simp] theorem new_selected (sid : SessionId) : (new sid).selected = none := rfl

@[simp] theorem new_sessionId (sid : SessionId) : (new sid).sessionId = sid := rfl

@[simp] theorem fromCheckpoint_turns (cp : Checkpoint) :
    (fromCheckpoint cp).turns = cp.turns := rfl

@[simp] theorem fromCheckpoint_sessionId (cp : Checkpoint) :
    (fromCheckpoint cp).sessionId = cp.sessionId := rfl

@[simp] theorem recordTurn_fst (turn : HarnessTurn) (now : Time) :
    (s.recordTurn turn now).1 = s.turns.length := rfl

@[simp] theorem recordTurn_turns (turn : HarnessTurn) (now : Time) :
    (s.recordTurn turn now).2.turns
      = s.turns ++ [⟨s.turns.length, turn, now, none, .running, []⟩] := rfl

@[simp] theorem recordTurn_selected (turn : HarnessTurn) (now : Time) :
    (s.recordTurn turn now).2.selected = s.selected := rfl

@[simp] theorem recordTurn_sessionId (turn : HarnessTurn) (now : Time) :
    (s.recordTurn turn now).2.sessionId = s.sessionId := rfl

@[simp] theorem fork_turns (pos : Nat) (sid : SessionId) :
    (s.fork pos sid).turns = s.turns.take pos := by
  simp [fork, List.take_eq_take_min]

@[simp] theorem fork_sessionId (pos : Nat) (sid : SessionId) :
    (s.fork pos sid).sessionId = sid := rfl

@[simp] theorem rewindTo_turns (index : Nat) :
    (s.rewindTo index).2.turns = s.turns.take index := by
  unfold rewindTo
  split
  · next h => rw [List.take_of_length_le h]
  · rfl

@[simp] theorem rewindTo_selected (index : Nat) :
    (s.rewindTo index).2.selected = s.selected := by
  unfold rewindTo; split <;> rfl

@[simp] theorem rewindTo_sessionId (index : Nat) :
    (s.rewindTo index).2.sessionId = s.sessionId := by
  unfold rewindTo; split <;> rfl

variable {s}

theorem appendEventsTo_eq_ok {s' : LedgerState} {index : Nat}
    {events : List HarnessServerEvent} (h : s.appendEventsTo index events = .ok s') :
    index < s.turns.length ∧ s' = { s with turns := s.turns.modify index (.extend events) } := by
  unfold appendEventsTo at h
  split at h
  · next hlt => exact ⟨hlt, (Except.ok.inj h).symm⟩
  · cases h

/-- What a successful `settleTurnAt` did. -/
theorem settleTurnAt_eq_ok {s' : LedgerState} {index : Nat} {status : TurnStatus} {now : Time}
    (h : s.settleTurnAt index status now = .ok s') :
    index < s.turns.length ∧
      s' = { s with turns := s.turns.modify index (.settle status now) } := by
  unfold settleTurnAt at h
  split at h
  · next hlt => exact ⟨hlt, (Except.ok.inj h).symm⟩
  · cases h

theorem select_eq_ok {s' : LedgerState} {pos : Nat} (h : s.select pos = .ok s') :
    pos < s.turns.length ∧ s' = { s with selected := some pos } := by
  unfold select at h
  split at h
  · cases h
  · next hlt => exact ⟨Nat.lt_of_not_le hlt, (Except.ok.inj h).symm⟩

theorem apply_eq_ok {s' : LedgerState} {pos removed : Nat}
    (h : s.apply pos = .ok (removed, s')) :
    pos < s.turns.length ∧ s.selected = some pos ∧ removed = s.turns.length - pos - 1 ∧
      s' = { s with turns := s.turns.take (pos + 1), selected := none } := by
  unfold apply at h
  split at h
  · cases h
  · next hlt =>
    split at h
    · cases h
    · next hsel =>
      obtain ⟨rfl, rfl⟩ := Prod.mk.inj (Except.ok.inj h)
      exact ⟨Nat.lt_of_not_le hlt, not_not.mp hsel, rfl, rfl⟩

theorem release_eq_ok {s' : LedgerState} {pos : Nat} {was : Bool}
    (h : s.release pos = .ok (was, s')) :
    pos < s.turns.length ∧
      ((s.selected = some pos ∧ was = true ∧ s' = { s with selected := none }) ∨
        (s.selected ≠ some pos ∧ was = false ∧ s' = s)) := by
  unfold release at h
  split at h
  · cases h
  · next hlt =>
    refine ⟨Nat.lt_of_not_le hlt, ?_⟩
    split at h
    · next hsel =>
      obtain ⟨rfl, rfl⟩ := Prod.mk.inj (Except.ok.inj h)
      exact .inl ⟨hsel, rfl, rfl⟩
    · next hsel =>
      obtain ⟨rfl, rfl⟩ := Prod.mk.inj (Except.ok.inj h)
      exact .inr ⟨hsel, rfl, rfl⟩

theorem discard_eq_ok {s' : LedgerState} {pos removed : Nat}
    (h : s.discard pos = .ok (removed, s')) :
    pos < s.turns.length ∧ removed = s.turns.length - pos ∧
      s' = { s with turns := s.turns.take pos, selected := none } := by
  unfold discard at h
  split at h
  · cases h
  · next hlt =>
    obtain ⟨rfl, rfl⟩ := Prod.mk.inj (Except.ok.inj h)
    exact ⟨Nat.lt_of_not_le hlt, rfl, rfl⟩

end Turns

end LedgerState

end Goble
