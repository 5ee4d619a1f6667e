import Goble.Lib.Base64

/-!
# The stream of a pane

The tasks behind a pane of the worker, and what they share. The reader moves chunks from the pty to
a bounded queue, the output task joins queued chunks into frames, and the waiter reaps the child,
cancels the stream, forgets the pane and reports the exit. A step is one look of one task at what is
shared, so that every interleaving of the tasks is a sequence of steps.

Of the pty it is assumed that the reader gets every byte the child wrote, and then the end of file.
-/

namespace Goble.Goblin

abbrev Bytes := List UInt8

/-- Bytes read from the pty at a time. -/
def readChunk : Nat := 8 * 1024

/-- Largest raw byte count carried by a single `PtyOutput` frame. -/
def maxOutputEvent : Nat := 32 * 1024

/-- Chunks the reader may queue before it blocks the child on its pty. -/
def outputQueue : Nat := 32

inductive Child
  | running
  | exited (code : Option Int32)
deriving DecidableEq

inductive Reader
  | reading
  /-- It waits for room in the queue. -/
  | sending (chunk : Bytes)
  | ended
deriving DecidableEq

inductive Output
  /-- Before the `select!`: cancellation is looked at first. -/
  | select
  /-- Not cancelled; the queue is looked at. -/
  | receive
  | joining (batch : Bytes)
  | emitting (batch : Bytes) (pending : Option Bytes)
  | ended
deriving DecidableEq

inductive Waiter
  | waiting
  | reaped (code : Option Int32)
  | cancelled (code : Option Int32)
  | forgotten (code : Option Int32)
  | reported (code : Option Int32)
deriving DecidableEq

/-- What a task reports for its pane. -/
inductive Event
  | output (data : String)
  | exit (code : Option Int32)
deriving DecidableEq

structure Stream where
  wrote : Bytes
  unread : Bytes
  child : Child
  reader : Reader
  queue : List Bytes
  output : Output
  cancel : Bool
  waiter : Waiter
deriving DecidableEq

def Stream.init : Stream where
  wrote := []
  unread := []
  child := .running
  reader := .reading
  queue := []
  output := .select
  cancel := false
  waiter := .waiting

inductive Task
  | childWrites (bytes : Bytes)
  | childExits (code : Option Int32)
  /-- `read` gives this many bytes. -/
  | readerReads (count : Nat)
  | readerEnds
  | readerSends
  | outputSelects
  | outputReceives
  | outputJoins
  | outputEmits
  | waiterReaps
  | waiterCancels
  | waiterForgets
  | waiterReports
deriving DecidableEq

namespace Stream

def childStep (s : Stream) (writes : Bytes) (child : Child) : Option (Stream × List Event) :=
  match s.child with
  | .running =>
    some ({ s with wrote := s.wrote ++ writes, unread := s.unread ++ writes, child }, [])
  | .exited _ => none

def readerReads (s : Stream) (count : Nat) : Option (Stream × List Event) :=
  match s.reader with
  | .reading =>
    if 0 < count ∧ count ≤ readChunk ∧ count ≤ s.unread.length then
      some ({ s with
        unread := s.unread.drop count, reader := .sending (s.unread.take count) }, [])
    else none
  | _ => none

def readerEnds (s : Stream) : Option (Stream × List Event) :=
  match s.reader, s.child with
  | .reading, .exited _ => if s.unread = [] then some ({ s with reader := .ended }, []) else none
  | _, _ => none

/-- The sending fails when the output task is gone. -/
def readerSends (s : Stream) : Option (Stream × List Event) :=
  match s.reader with
  | .sending chunk =>
    if s.output = .ended then some ({ s with reader := .ended }, [])
    else if s.queue.length < outputQueue then
      some ({ s with queue := s.queue ++ [chunk], reader := .reading }, [])
    else none
  | _ => none

def outputSelects (s : Stream) : Option (Stream × List Event) :=
  match s.output with
  | .select => some ({ s with output := if s.cancel then .ended else .receive }, [])
  | _ => none

/-- An empty queue is waited for, unless the reader is gone. -/
def outputReceives (s : Stream) : Option (Stream × List Event) :=
  match s.output, s.queue with
  | .receive, chunk :: queue => some ({ s with queue, output := .joining chunk }, [])
  | .receive, [] =>
    some ({ s with output := if s.reader = .ended then .ended else .select }, [])
  | _, _ => none

def outputJoins (s : Stream) : Option (Stream × List Event) :=
  match s.output with
  | .joining batch =>
    if batch.length < maxOutputEvent then
      match s.queue with
      | [] => some ({ s with output := .emitting batch none }, [])
      | next :: queue =>
        let room := maxOutputEvent - batch.length
        if next.length ≤ room then some ({ s with queue, output := .joining (batch ++ next) }, [])
        else
          some ({ s with
            queue, output := .emitting (batch ++ next.take room) (some (next.drop room)) }, [])
    else some ({ s with output := .emitting batch none }, [])
  | _ => none

def outputEmits (s : Stream) : Option (Stream × List Event) :=
  match s.output with
  | .emitting batch pending =>
    some ({ s with output := pending.elim .select .joining }, [.output (Base64.encode batch)])
  | _ => none

def waiterStep (s : Stream) : Task → Option (Stream × List Event)
  | .waiterReaps =>
    match s.waiter, s.child with
    | .waiting, .exited code => some ({ s with waiter := .reaped code }, [])
    | _, _ => none
  | .waiterCancels =>
    match s.waiter with
    | .reaped code => some ({ s with waiter := .cancelled code, cancel := true }, [])
    | _ => none
  | .waiterForgets =>
    match s.waiter with
    | .cancelled code => some ({ s with waiter := .forgotten code }, [])
    | _ => none
  | .waiterReports =>
    match s.waiter with
    | .forgotten code => some ({ s with waiter := .reported code }, [.exit code])
    | _ => none
  | _ => none

def step (s : Stream) : Task → Option (Stream × List Event)
  | .childWrites bytes => s.childStep bytes .running
  | .childExits code => s.childStep [] (.exited code)
  | .readerReads count => s.readerReads count
  | .readerEnds => s.readerEnds
  | .readerSends => s.readerSends
  | .outputSelects => s.outputSelects
  | .outputReceives => s.outputReceives
  | .outputJoins => s.outputJoins
  | .outputEmits => s.outputEmits
  | task => s.waiterStep task

/-! ### What a step can do -/

variable {out : List Event} {s' s : Stream}

theorem childStep_cases {writes : Bytes} {child : Child}
    (hstep : s.childStep writes child = some (s', out)) :
    s.child = .running ∧ out = [] ∧
      s' = { s with wrote := s.wrote ++ writes, unread := s.unread ++ writes, child } := by
  rw [childStep] at hstep
  split at hstep
  · next hrunning =>
    obtain ⟨rfl, rfl⟩ := Prod.mk.inj (Option.some.inj hstep)
    exact ⟨hrunning, rfl, rfl⟩
  · cases hstep

theorem readerReads_cases {count : Nat} (hstep : s.readerReads count = some (s', out)) :
    s.reader = .reading ∧ 0 < count ∧ count ≤ readChunk ∧ count ≤ s.unread.length ∧ out = [] ∧
      s' = { s with unread := s.unread.drop count, reader := .sending (s.unread.take count) } := by
  rw [readerReads] at hstep
  split at hstep
  · next hreading =>
    split at hstep
    · next hcount =>
      obtain ⟨rfl, rfl⟩ := Prod.mk.inj (Option.some.inj hstep)
      exact ⟨hreading, hcount.1, hcount.2.1, hcount.2.2, rfl, rfl⟩
    · cases hstep
  · cases hstep

theorem readerEnds_cases (hstep : s.readerEnds = some (s', out)) :
    s.reader = .reading ∧ (∃ code, s.child = .exited code) ∧ s.unread = [] ∧ out = [] ∧
      s' = { s with reader := .ended } := by
  rw [readerEnds] at hstep
  split at hstep
  · next hreading hexited =>
    split at hstep
    · next hunread =>
      obtain ⟨rfl, rfl⟩ := Prod.mk.inj (Option.some.inj hstep)
      exact ⟨hreading, ⟨_, hexited⟩, hunread, rfl, rfl⟩
    · cases hstep
  · cases hstep

theorem readerSends_cases (hstep : s.readerSends = some (s', out)) :
    ∃ chunk, s.reader = .sending chunk ∧ out = [] ∧
      (s.output = .ended ∧ s' = { s with reader := .ended } ∨
        s.output ≠ .ended ∧ s' = { s with queue := s.queue ++ [chunk], reader := .reading }) := by
  rw [readerSends] at hstep
  split at hstep
  · next chunk hsending =>
    split at hstep
    · next hended =>
      obtain ⟨rfl, rfl⟩ := Prod.mk.inj (Option.some.inj hstep)
      exact ⟨chunk, hsending, rfl, .inl ⟨hended, rfl⟩⟩
    · next hgoesOn =>
      split at hstep
      · obtain ⟨rfl, rfl⟩ := Prod.mk.inj (Option.some.inj hstep)
        exact ⟨chunk, hsending, rfl, .inr ⟨hgoesOn, rfl⟩⟩
      · cases hstep
  · cases hstep

theorem outputSelects_cases (hstep : s.outputSelects = some (s', out)) :
    s.output = .select ∧ out = [] ∧
      s' = { s with output := if s.cancel then .ended else .receive } := by
  rw [outputSelects] at hstep
  split at hstep
  · next hselect =>
    obtain ⟨rfl, rfl⟩ := Prod.mk.inj (Option.some.inj hstep)
    exact ⟨hselect, rfl, rfl⟩
  · cases hstep

theorem outputReceives_cases (hstep : s.outputReceives = some (s', out)) :
    s.output = .receive ∧ out = [] ∧
      ((∃ chunk queue, s.queue = chunk :: queue ∧
        s' = { s with queue, output := .joining chunk }) ∨
      s.queue = [] ∧
        s' = { s with output := if s.reader = .ended then .ended else .select }) := by
  rw [outputReceives] at hstep
  split at hstep
  · next chunk queue hreceive hqueue =>
    obtain ⟨rfl, rfl⟩ := Prod.mk.inj (Option.some.inj hstep)
    exact ⟨hreceive, rfl, .inl ⟨chunk, queue, hqueue, rfl⟩⟩
  · next hreceive hqueue =>
    obtain ⟨rfl, rfl⟩ := Prod.mk.inj (Option.some.inj hstep)
    exact ⟨hreceive, rfl, .inr ⟨hqueue, rfl⟩⟩
  · cases hstep

theorem outputJoins_cases (hstep : s.outputJoins = some (s', out)) :
    ∃ batch, s.output = .joining batch ∧ out = [] ∧
      (s' = { s with output := .emitting batch none } ∨
      ∃ next queue, s.queue = next :: queue ∧ batch.length < maxOutputEvent ∧
        (batch.length + next.length ≤ maxOutputEvent ∧
          s' = { s with queue, output := .joining (batch ++ next) } ∨
        ∃ room, batch.length + room = maxOutputEvent ∧
          s' = { s with
            queue, output := .emitting (batch ++ next.take room) (some (next.drop room)) })) := by
  rw [outputJoins] at hstep
  split at hstep
  · next batch hjoining =>
    refine ⟨batch, hjoining, ?_⟩
    split at hstep
    · next hbatch =>
      split at hstep
      · obtain ⟨rfl, rfl⟩ := Prod.mk.inj (Option.some.inj hstep)
        exact ⟨rfl, .inl rfl⟩
      · next next queue hqueue =>
        dsimp only at hstep
        split at hstep
        · next hroom =>
          obtain ⟨rfl, rfl⟩ := Prod.mk.inj (Option.some.inj hstep)
          exact ⟨rfl, .inr ⟨next, queue, hqueue, hbatch, .inl ⟨by omega, rfl⟩⟩⟩
        · obtain ⟨rfl, rfl⟩ := Prod.mk.inj (Option.some.inj hstep)
          exact ⟨rfl, .inr ⟨next, queue, hqueue, hbatch, .inr ⟨_, by omega, rfl⟩⟩⟩
    · obtain ⟨rfl, rfl⟩ := Prod.mk.inj (Option.some.inj hstep)
      exact ⟨rfl, .inl rfl⟩
  · cases hstep

theorem outputEmits_cases (hstep : s.outputEmits = some (s', out)) :
    ∃ batch pending, s.output = .emitting batch pending ∧
      out = [.output (Base64.encode batch)] ∧
      s' = { s with output := pending.elim .select .joining } := by
  rw [outputEmits] at hstep
  split at hstep
  · next batch pending hemitting =>
    obtain ⟨rfl, rfl⟩ := Prod.mk.inj (Option.some.inj hstep)
    exact ⟨batch, pending, hemitting, rfl, rfl⟩
  · cases hstep

end Stream

end Goble.Goblin
