import Goble.Lib.Machine
import Goble.Replay.Ledger
import Goble.Daemon.Events

/-!
# The daemon state and its operations

A translation of `goble-daemon`'s `DaemonState`: the `DaemonPort` methods (`state/port.rs`),
the constructors and the checkpoint hook (`state/core.rs`) and the drain task of
`spawn_stream` (`state/streams.rs`).

## Shared memory

`Arc`s are references into allocation tables: a ledger (`Arc<Mutex<LedgerState>>`) is a
`LedgerRef`, the per-run `Arc<SessionState>` a `RunRef`, a spawned drain task a `TaskId`.
A reference is allocated when it is below the table's counter. Hash maps are functions to
`Option`; no modelled method iterates over one. `wire` is everything `DaemonEventSink::emit`
was called with, `store` what the attached `CheckpointSink` keeps (the last checkpoint per
session id), `restores` the calls of `HarnessRuntime::restore`.

## Granularity

A `DaemonPort` method is a synchronous call and one step. A drain task is a loop that holds
no lock across its statements, so each of its accesses to shared memory is a step of its own
(`DrainPc` is the program counter): appending to the ledger, pushing into the session's
mirror, emitting to the sink, and, once the stream has ended with a terminal event, settling
the ledger's turn, asking the harness for a snapshot, writing the snapshot log, persisting,
setting `status` and `finished_at`, emitting `TraceFinished` and removing the session.

What a harness does is not the daemon's business: which events its streams yield, whether it
supports `resume`, what `snapshot` answers, are all carried by the labels (`DaemonOp`), as
are the clock and the success of `create_dir_all`.
-/

namespace Goble

abbrev LedgerRef := Nat

/-- A reference to the `SessionState` of one run. -/
abbrev RunRef := Nat

abbrev TaskId := Nat

inductive RunStatus where
  | running
  | success
  | failed
deriving DecidableEq, Repr, Inhabited

/-- The status as the wire and the execution record spell it. -/
def RunStatus.text : RunStatus → String
  | .running => "running"
  | .success => "success"
  | .failed => "failed"

structure SessionState where
  sessionId : SessionId
  projectId : ProjectId
  mediumId : MediumId
  harness : Harness
  cancel : Bool
  traceId : String
  startedAt : Time
  status : RunStatus
  finishedAt : Option Time
  events : List DaemonEvent
  /-- The ledger this run's turn is recorded into. -/
  ledger : LedgerRef
  /-- Position of this run's turn within that ledger. -/
  turnIndex : Nat
deriving Repr

inductive DrainPc where
  | next
  /-- The event is in the ledger; its wire form goes to `state.events` next. -/
  | mirror (e : DaemonEvent)
  /-- The wire form goes to `sink.emit` next. -/
  | emit (e : DaemonEvent)
  /-- The stream ended with a terminal event: `settle_turn_at` is next. -/
  | settle
  | capture
  /-- The snapshot goes into the session's log next. -/
  | log (snapshot : Option HarnessSnapshot)
  | persist
  | setStatus
  | setFinished
  | traceFinished
  | remove
  | done
deriving Repr

/-- A drain task: its captured variables and its program counter. -/
structure Drain where
  sessionId : SessionId
  traceId : String
  state : RunRef
  finalStatus : RunStatus
  finalError : Option String
  pc : DrainPc
deriving Repr

/-- One call of `DaemonEventSink::emit`, with the run it was made for. -/
structure Emission where
  run : RunRef
  event : DaemonEvent
deriving Repr

/-- One call of `HarnessRuntime::restore`. -/
structure RestoreCall where
  harness : HarnessId
  session : SessionId
  snapshot : HarnessSnapshot
deriving Repr

/-- The daemon, with the memory its tasks share and what it has told its environment. -/
structure DaemonState where
  registry : HarnessId → Option Harness
  sessions : SessionId → Option RunRef
  ledgers : SessionId → Option LedgerRef
  checkpointSink : Bool
  snapshots : SessionId → Option (List (Option HarnessSnapshot))
  workspaceRoot : Option String
  ledgerHeap : LedgerRef → LedgerState
  ledgerCount : Nat
  runs : RunRef → SessionState
  runCount : Nat
  drains : TaskId → Drain
  drainCount : Nat
  wire : List Emission
  store : SessionId → Option Checkpoint
  restores : List RestoreCall

/-- Errors of a port call: one of the daemon's own, or one of the ledger's. -/
inductive PortError where
  | message (text : String)
  | workspace
  | replay (error : ReplayError)
deriving DecidableEq, Repr

def SessionState.unallocated : SessionState :=
  ⟨⟨""⟩, ⟨""⟩, ⟨""⟩, ⟨⟨""⟩, false⟩, false, "", 0, .success, none, [], 0, 0⟩

def Drain.unallocated : Drain := ⟨⟨""⟩, "", 0, .running, none, .done⟩

namespace DaemonState

/-- A fresh daemon around a registry, with nothing run, recorded or persisted. -/
def new (registry : HarnessId → Option Harness) (workspaceRoot : Option String) :
    DaemonState where
  registry := registry
  sessions := fun _ => none
  ledgers := fun _ => none
  checkpointSink := false
  snapshots := fun _ => none
  workspaceRoot := workspaceRoot
  ledgerHeap := fun _ => .new ⟨""⟩
  ledgerCount := 0
  runs := fun _ => .unallocated
  runCount := 0
  drains := fun _ => .unallocated
  drainCount := 0
  wire := []
  store := fun _ => none
  restores := []

/-! ### `core.rs` -/

/-- The reference `ledger` returns: the session's ledger, or the one it is about to
allocate. -/
def ledgerRef (d : DaemonState) (sid : SessionId) : LedgerRef :=
  (d.ledgers sid).getD d.ledgerCount

/-- `DaemonState::ledger`: create and remember the session's ledger if it has none. -/
def ensureLedger (d : DaemonState) (sid : SessionId) : DaemonState :=
  match d.ledgers sid with
  | some _ => d
  | none =>
    { d with
      ledgers := Function.update d.ledgers sid (some d.ledgerCount)
      ledgerHeap := Function.update d.ledgerHeap d.ledgerCount (.new sid)
      ledgerCount := d.ledgerCount + 1 }

/-- Put a freshly allocated ledger under `sid`, replacing the one that was there. -/
@[simps]
def insertLedger (d : DaemonState) (sid : SessionId) (l : LedgerState) : DaemonState :=
  { d with
    ledgers := Function.update d.ledgers sid (some d.ledgerCount)
    ledgerHeap := Function.update d.ledgerHeap d.ledgerCount l
    ledgerCount := d.ledgerCount + 1 }

@[simps]
def setLedger (d : DaemonState) (r : LedgerRef) (l : LedgerState) : DaemonState :=
  { d with ledgerHeap := Function.update d.ledgerHeap r l }

/-- `let _ = …` on a fallible ledger method: write back the ledger unless the call failed. -/
def tryLedger (d : DaemonState) (r : LedgerRef) : Except ReplayError LedgerState → DaemonState
  | .ok l => d.setLedger r l
  | .error _ => d

@[simps]
def setRun (d : DaemonState) (r : RunRef) (st : SessionState) : DaemonState :=
  { d with runs := Function.update d.runs r st }

@[simps]
def setDrain (d : DaemonState) (t : TaskId) (dr : Drain) : DaemonState :=
  { d with drains := Function.update d.drains t dr }

@[simps]
def emit (d : DaemonState) (r : RunRef) (e : DaemonEvent) : DaemonState :=
  { d with wire := d.wire ++ [⟨r, e⟩] }

@[simps]
def setCheckpointSink (d : DaemonState) (attached : Bool) : DaemonState :=
  { d with checkpointSink := attached }

def restoreCheckpoint (d : DaemonState) (cp : Checkpoint) : DaemonState :=
  d.insertLedger cp.sessionId (.fromCheckpoint cp)

def snapshotLog (d : DaemonState) (sid : SessionId) : List (Option HarnessSnapshot) :=
  (d.snapshots sid).getD []

@[simps]
def register (d : DaemonState) (h : Harness) : DaemonState :=
  { d with registry := Function.update d.registry h.id (some h) }

/-! ### `streams.rs` -/

@[simps]
def spawnStream (d : DaemonState) (sid : SessionId) (traceId : String) (r : RunRef) :
    DaemonState :=
  { d with
    drains := Function.update d.drains d.drainCount ⟨sid, traceId, r, .running, none, .next⟩
    drainCount := d.drainCount + 1 }

def finalStatusAfter (dr : Drain) : DaemonEvent → RunStatus
  | .done _ => .success
  | .error _ _ => .failed
  | _ => dr.finalStatus

def finalErrorAfter (dr : Drain) : DaemonEvent → Option String
  | .error _ message => some message
  | _ => dr.finalError

def turnStatus (dr : Drain) : TurnStatus :=
  match dr.finalStatus with
  | .success => .success
  | _ => .failed (dr.finalError.getD "failed")

def writeLog (log : List (Option HarnessSnapshot)) (index : Nat)
    (snapshot : Option HarnessSnapshot) : List (Option HarnessSnapshot) :=
  (log ++ List.replicate (index + 1 - log.length) none).set index snapshot

@[simps]
def setLog (d : DaemonState) (sid : SessionId) (log : List (Option HarnessSnapshot)) :
    DaemonState :=
  { d with snapshots := Function.update d.snapshots sid (some log) }

@[simps]
def removeSession (d : DaemonState) (sid : SessionId) : DaemonState :=
  { d with sessions := Function.update d.sessions sid none }

/-- The stream yielded `ev`: append it to the ledger (a failure is ignored), and keep its
wire form for the mirror and the sink. -/
def drainEvent (d : DaemonState) (t : TaskId) (ev : HarnessServerEvent) : DaemonState :=
  let dr := d.drains t
  let st := d.runs dr.state
  let d := d.tryLedger st.ledger ((d.ledgerHeap st.ledger).appendEventsTo st.turnIndex [ev])
  match mapEvent ev with
  | none => d
  | some e => d.setDrain t { dr with
      finalStatus := finalStatusAfter dr e
      finalError := finalErrorAfter dr e
      pc := .mirror e }

/-- The stream ended: the turn is suspended unless a terminal event was seen. -/
def drainClose (d : DaemonState) (t : TaskId) : DaemonState :=
  let dr := d.drains t
  d.setDrain t { dr with pc := if dr.finalStatus = .running then .done else .settle }

/-- The next step of task `t` outside `stream.next()`. `answer` is what `harness.snapshot`
returns, `now` what the clock does. -/
def drainAdvance (d : DaemonState) (t : TaskId) (answer : Option HarnessSnapshot)
    (now : Time) : Option DaemonState :=
  let dr := d.drains t
  let st := d.runs dr.state
  match dr.pc with
  | .next | .done => none
  | .mirror e =>
    some <| (d.setRun dr.state { st with events := st.events ++ [e] }).setDrain t
      { dr with pc := .emit e }
  | .emit e => some <| (d.emit dr.state e).setDrain t { dr with pc := .next }
  | .settle =>
    let d := d.tryLedger st.ledger
      ((d.ledgerHeap st.ledger).settleTurnAt st.turnIndex (turnStatus dr) now)
    some <| d.setDrain t { dr with pc := .capture }
  | .capture =>
    some <| d.setDrain t
      { dr with pc := .log (if st.harness.reversible then answer else none) }
  | .log snapshot =>
    let log := writeLog (d.snapshotLog dr.sessionId) st.turnIndex snapshot
    some <| (d.setLog dr.sessionId log).setDrain t { dr with pc := .persist }
  | .persist =>
    let cp := (d.ledgerHeap st.ledger).checkpoint now
    let d := if d.checkpointSink then
        { d with store := Function.update d.store cp.sessionId (some cp) }
      else d
    some <| d.setDrain t { dr with pc := .setStatus }
  | .setStatus =>
    some <| (d.setRun dr.state { st with status := dr.finalStatus }).setDrain t
      { dr with pc := .setFinished }
  | .setFinished =>
    some <| (d.setRun dr.state { st with finishedAt := some now }).setDrain t
      { dr with pc := .traceFinished }
  | .traceFinished =>
    let e := .traceFinished dr.sessionId dr.traceId dr.finalStatus.text st.projectId st.mediumId
    some <| (d.emit dr.state e).setDrain t { dr with pc := .remove }
  | .remove =>
    some <| (d.removeSession dr.sessionId).setDrain t { dr with pc := .done }

/-! ### `port.rs` -/

def runState (d : DaemonState) (turn : HarnessTurn) (harness : Harness) (now : Time) :
    SessionState where
  sessionId := turn.sessionId
  projectId := turn.projectId
  mediumId := turn.mediumId
  harness := harness
  cancel := false
  traceId := "trace-" ++ turn.sessionId.val
  startedAt := now
  status := .running
  finishedAt := none
  events := []
  ledger := d.ledgerRef turn.sessionId
  turnIndex := (d.ledgerHeap (d.ledgerRef turn.sessionId)).len

/-- Allocate the state of a run and make it the session's live one. -/
@[simps]
def insertRun (d : DaemonState) (st : SessionState) : DaemonState :=
  { d with
    runs := Function.update d.runs d.runCount st
    runCount := d.runCount + 1
    sessions := Function.update d.sessions st.sessionId (some d.runCount) }

def startRun (d : DaemonState) (turn : HarnessTurn) (harness : Harness) (now : Time) :
    DaemonState :=
  let st := d.runState turn harness now
  let r := d.runCount
  let d := d.setLedger st.ledger ((d.ledgerHeap st.ledger).recordTurn turn now).2
  let d := d.insertRun st
  (d.emit r (.traceStarted st.sessionId st.traceId st.projectId st.mediumId)).spawnStream
    st.sessionId st.traceId r

section StartRun

variable (d : DaemonState) (turn : HarnessTurn) (harness : Harness) (now : Time)

@[simp] theorem startRun_sessions : (d.startRun turn harness now).sessions =
    Function.update d.sessions turn.sessionId (some d.runCount) := rfl

@[simp] theorem startRun_ledgers : (d.startRun turn harness now).ledgers = d.ledgers := rfl

@[simp] theorem startRun_ledgerHeap : (d.startRun turn harness now).ledgerHeap =
    Function.update d.ledgerHeap (d.ledgerRef turn.sessionId)
      ((d.ledgerHeap (d.ledgerRef turn.sessionId)).recordTurn turn now).2 := rfl

@[simp] theorem startRun_ledgerCount :
    (d.startRun turn harness now).ledgerCount = d.ledgerCount := rfl

@[simp] theorem startRun_runs : (d.startRun turn harness now).runs =
    Function.update d.runs d.runCount (d.runState turn harness now) := rfl

@[simp] theorem startRun_runCount :
    (d.startRun turn harness now).runCount = d.runCount + 1 := rfl

@[simp] theorem startRun_drains : (d.startRun turn harness now).drains =
    Function.update d.drains d.drainCount
      ⟨turn.sessionId, "trace-" ++ turn.sessionId.val, d.runCount, .running, none, .next⟩ := rfl

@[simp] theorem startRun_drainCount :
    (d.startRun turn harness now).drainCount = d.drainCount + 1 := rfl

@[simp] theorem startRun_snapshots : (d.startRun turn harness now).snapshots = d.snapshots := rfl

@[simp] theorem startRun_store : (d.startRun turn harness now).store = d.store := rfl

@[simp] theorem startRun_wire : (d.startRun turn harness now).wire =
    d.wire ++ [⟨d.runCount, .traceStarted turn.sessionId ("trace-" ++ turn.sessionId.val)
      turn.projectId turn.mediumId⟩] := rfl

end StartRun

/-- `DaemonPort::run`. `dirOk` is whether the session's workspace could be created. -/
def run (d : DaemonState) (turn : HarnessTurn) (dirOk : Bool) (now : Time) :
    DaemonState × Except PortError Unit :=
  match d.registry turn.harnessId with
  | none => (d, .error (.message ("no harness resolved for " ++ turn.harnessId.val)))
  | some harness =>
    if d.workspaceRoot.isSome ∧ dirOk = false then (d, .error .workspace)
    else ((d.ensureLedger turn.sessionId).startRun turn harness now, .ok ())

/-- The common body of `resume` and `resume_command`: `supported` is whether the harness
returned a stream. -/
def resumeWith (d : DaemonState) (sid : SessionId) (supported : Bool) (refusal : String) :
    DaemonState × Except PortError Unit :=
  match d.sessions sid with
  | none => (d, .error (.message ("no live session for " ++ sid.val)))
  | some r =>
    if supported then (d.spawnStream sid (d.runs r).traceId r, .ok ())
    else (d, .error (.message refusal))

def resume (d : DaemonState) (sid : SessionId) (supported : Bool) :
    DaemonState × Except PortError Unit :=
  d.resumeWith sid supported "harness does not support resume"

def resumeCommand (d : DaemonState) (sid : SessionId) (supported : Bool) :
    DaemonState × Except PortError Unit :=
  d.resumeWith sid supported "harness does not support command approval"

/-- `DaemonPort::cancel`: raise the flag of the session's live run. -/
def cancel (d : DaemonState) (sid : SessionId) : DaemonState × Except PortError Unit :=
  match d.sessions sid with
  | none => (d, .error (.message ("no live session for " ++ sid.val)))
  | some r => (d.setRun r { d.runs r with cancel := true }, .ok ())

def rewindRestore (d : DaemonState) (sid : SessionId) (l : LedgerState) (pos : Nat) :
    Option RestoreCall :=
  if 0 < pos ∧ pos < l.len then do
    let snapshot ← ((d.snapshotLog sid)[pos - 1]?).join
    let kept ← l.turns[pos - 1]?
    let harness ← d.registry kept.turn.harnessId
    if harness.reversible then some ⟨kept.turn.harnessId, sid, snapshot⟩ else none
  else none

/-- `DaemonPort::rewind`: refused while the session is live. -/
def rewind (d : DaemonState) (sid : SessionId) (pos : Nat) :
    DaemonState × Except PortError Nat :=
  if (d.sessions sid).isSome then
    (d, .error (.message ("session " ++ sid.val
      ++ " is live; cancel or let it settle before rewinding")))
  else
    let d := d.ensureLedger sid
    let r := d.ledgerRef sid
    let l := d.ledgerHeap r
    let pos := min pos l.len
    let restores := d.restores ++ (d.rewindRestore sid l pos).toList
    (({ d with restores := restores }).setLedger r (l.rewindTo pos).2, .ok (l.rewindTo pos).1)

/-- `DaemonPort::fork`: the branch replaces whatever ledger `newSid` had. -/
def fork (d : DaemonState) (sid : SessionId) (pos : Nat) (newSid : SessionId) :
    DaemonState × Except PortError SessionId :=
  let d := d.ensureLedger sid
  let branch := (d.ledgerHeap (d.ledgerRef sid)).fork pos newSid
  (d.insertLedger newSid branch, .ok newSid)

def replay (d : DaemonState) (sid : SessionId) (pos : Nat) :
    DaemonState × Except PortError (List DaemonEvent) :=
  let d := d.ensureLedger sid
  (d, .ok (((d.ledgerHeap (d.ledgerRef sid)).replay pos).filterMap mapEvent))

def checkpoints (d : DaemonState) (sid : SessionId) (now : Time) :
    DaemonState × Except PortError (List Checkpoint) :=
  let d := d.ensureLedger sid
  let l := d.ledgerHeap (d.ledgerRef sid)
  (d, .ok ((List.range (l.len + 1)).map fun i => l.checkpointAt i now))

/-- The common body of the settlement calls: one ledger method on the session's ledger. -/
def onLedger {α : Type} (d : DaemonState) (sid : SessionId)
    (f : LedgerState → Except ReplayError (α × LedgerState)) :
    DaemonState × Except PortError α :=
  let d := d.ensureLedger sid
  let r := d.ledgerRef sid
  match f (d.ledgerHeap r) with
  | .ok (a, l) => (d.setLedger r l, .ok a)
  | .error e => (d, .error (.replay e))

def select (d : DaemonState) (sid : SessionId) (pos : Nat) :
    DaemonState × Except PortError Unit :=
  d.onLedger sid fun l => (l.select pos).map fun l' => ((), l')

def apply (d : DaemonState) (sid : SessionId) (pos : Nat) :
    DaemonState × Except PortError Nat :=
  d.onLedger sid fun l => l.apply pos

def release (d : DaemonState) (sid : SessionId) (pos : Nat) :
    DaemonState × Except PortError Bool :=
  d.onLedger sid fun l => l.release pos

def discard (d : DaemonState) (sid : SessionId) (pos : Nat) :
    DaemonState × Except PortError Nat :=
  d.onLedger sid fun l => l.discard pos

end DaemonState

/-! ### The machine -/

/-- One step of the daemon: a port call, a call on the daemon itself, or a step of a drain
task, with whatever the environment answered. -/
inductive DaemonOp where
  | run (turn : HarnessTurn) (dirOk : Bool) (now : Time)
  | resume (sid : SessionId) (supported : Bool)
  | resumeCommand (sid : SessionId) (supported : Bool)
  | cancel (sid : SessionId)
  | rewind (sid : SessionId) (pos : Nat)
  | fork (sid : SessionId) (pos : Nat) (newSid : SessionId)
  | replay (sid : SessionId) (pos : Nat)
  | checkpoints (sid : SessionId) (now : Time)
  | select (sid : SessionId) (pos : Nat)
  | apply (sid : SessionId) (pos : Nat)
  | release (sid : SessionId) (pos : Nat)
  | discard (sid : SessionId) (pos : Nat)
  | restoreCheckpoint (cp : Checkpoint)
  | setCheckpointSink (attached : Bool)
  | register (h : Harness)
  | drainEvent (t : TaskId) (ev : HarnessServerEvent)
  | drainClose (t : TaskId)
  | drainAdvance (t : TaskId) (answer : Option HarnessSnapshot) (now : Time)
deriving Repr

def Drain.awaiting (dr : Drain) : Bool :=
  match dr.pc with
  | .next => true
  | _ => false

/-- The state after one step; `none` when the task cannot move that way. -/
def DaemonState.step (d : DaemonState) : DaemonOp → Option DaemonState
  | .run turn dirOk now => some (d.run turn dirOk now).1
  | .resume sid supported => some (d.resume sid supported).1
  | .resumeCommand sid supported => some (d.resumeCommand sid supported).1
  | .cancel sid => some (d.cancel sid).1
  | .rewind sid pos => some (d.rewind sid pos).1
  | .fork sid pos newSid => some (d.fork sid pos newSid).1
  | .replay sid pos => some (d.replay sid pos).1
  | .checkpoints sid now => some (d.checkpoints sid now).1
  | .select sid pos => some (d.select sid pos).1
  | .apply sid pos => some (d.apply sid pos).1
  | .release sid pos => some (d.release sid pos).1
  | .discard sid pos => some (d.discard sid pos).1
  | .restoreCheckpoint cp => some (d.restoreCheckpoint cp)
  | .setCheckpointSink attached => some (d.setCheckpointSink attached)
  | .register h => some (d.register h)
  | .drainEvent t ev => if (d.drains t).awaiting then some (d.drainEvent t ev) else none
  | .drainClose t => if (d.drains t).awaiting then some (d.drainClose t) else none
  | .drainAdvance t answer now => d.drainAdvance t answer now

def daemonMachine (registry : HarnessId → Option Harness) (workspaceRoot : Option String) :
    Machine DaemonState DaemonOp where
  init := .new registry workspaceRoot
  step := DaemonState.step

def mockRegistry : HarnessId → Option Harness :=
  Function.update (Function.update (fun _ => none) ⟨"mock"⟩ (some ⟨⟨"mock"⟩, false⟩))
    ⟨"git"⟩ (some ⟨⟨"git"⟩, true⟩)

def drainToEnd (t : TaskId) (sid : SessionId) (answer : Option HarnessSnapshot) :
    List DaemonOp :=
  [.drainEvent t (.done sid), .drainAdvance t answer 0, .drainAdvance t answer 0,
    .drainClose t] ++ List.replicate 8 (.drainAdvance t answer 0)

end Goble
