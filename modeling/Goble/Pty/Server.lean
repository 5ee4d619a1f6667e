import Goble.Lib.Machine
import Goble.Lib.Table
import Goble.Pty.Protocol
import Goble.Pty.Ring

/-!
# The PTY daemon

The server as a machine: its sessions behind one lock, a thread for each connection
(`handle_client`) with a bounded queue and a writer thread at its end, and a thread for each
session that delivers its output.

A step is what happens between two points where threads can interleave. Everything done under
the lock in one go is one step, with two exceptions. `attach` holds the lock while it replays
the ring into the client's queue, and the queue's writer takes messages meanwhile, so each of
its `try_send`s is a step of its own (`Phase.replaying`). `kill` sends the exit events, and
`resize` resizes the pty, after the lock has been released (`Phase.exiting`,
`Phase.resizing`). A broadcast is one step: it sends one message to each queue, so a writer that
takes a message meanwhile might as well have done so before.

A queue remembers every message ever put in it (`sent`) and how many of them its writer has
taken.
-/

namespace Goble.Pty

/-- How many queued messages a client may fall behind before it is detached. -/
def clientQueue : Nat := 4096

/-- A connection, in the order of their `accept`. -/
abbrev ConnId := Nat

/-- A client's subscription: the name it goes by and the queue it is served through, which is
that of the connection. -/
structure Subscriber where
  clientId : String
  tx : ConnId
deriving DecidableEq, Repr

structure Session where
  info : SessionInfo
  ring : ReplayRing
  subscribers : List Subscriber
deriving DecidableEq, Repr

/-- What becomes of a connection after a message has been put in its queue: a response that
cannot be sent ends it, an error about a line does not, an error about its size does anyway. -/
inductive After where
  | response
  | invalid
  | tooLarge
deriving DecidableEq, Repr

/-- Where a connection's thread is in `handle_client`. -/
inductive Phase where
  | unborn
  | reading
  /-- In `attach`, under the lock, with these messages still to be tried. -/
  | replaying (sessionId : String) (pending : List ServerMessage) (response : ServerMessage)
  /-- In `resize`, between its two critical sections. -/
  | resizing (id : Nat) (sessionId : String) (cols rows : UInt16)
  /-- In `kill`, with the exit event still to be tried on these queues. -/
  | exiting (pending : List ConnId) (event response : ServerMessage)
  | replying (message : ServerMessage) (after : After)
  /-- Out of the loop, with `remove_client` to come. -/
  | closing
  /-- Waiting for the writer thread. -/
  | joining
  | returned
deriving DecidableEq, Repr

/-- Where the thread goes on after `tx.send` has returned. -/
def After.next : After → Bool → Phase
  | .response, true => .reading
  | .response, false => .closing
  | .invalid, _ => .reading
  | .tooLarge, _ => .closing

/-- The thread holds a sender of connection `c`, taken out of a session that was killed. -/
def Phase.holds (c : ConnId) : Phase → Bool
  | .exiting pending _ _ => pending.contains c
  | _ => false

/-- A connection: the name it goes by, its thread, and its queue. -/
structure Connection where
  clientId : String
  phase : Phase
  sent : List ServerMessage
  /-- How many of them the writer has taken. -/
  taken : Nat
  /-- The writer still holds the receiving end. -/
  receiver : Bool
deriving DecidableEq, Repr

namespace Connection

def queued (conn : Connection) : Nat := conn.sent.length - conn.taken

def trySend (conn : Connection) (message : ServerMessage) : Option Connection :=
  if conn.receiver ∧ conn.queued < clientQueue then
    some { conn with sent := conn.sent ++ [message] }
  else none

end Connection

structure ServerState where
  sessions : Table String Session
  conns : ConnId → Connection
  connCount : Nat
  /-- The connection in `attach`, which holds the lock. -/
  lock : Option ConnId

namespace ServerState

def init : ServerState where
  sessions := ∅
  conns := fun _ => ⟨"", .unborn, [], 0, false⟩
  connCount := 0
  lock := none

variable (d : ServerState)

@[simps]
def setConn (c : ConnId) (conn : Connection) : ServerState :=
  { d with conns := Function.update d.conns c conn }

@[simps]
def setSessions (sessions : Table String Session) : ServerState := { d with sessions }

@[simps]
def setLock (lock : Option ConnId) : ServerState := { d with lock }

def setPhase (c : ConnId) (phase : Phase) : ServerState :=
  d.setConn c { d.conns c with phase }

/-- A thread with a response goes on to send it. -/
def respond (c : ConnId) (response : ServerMessage) : ServerState :=
  d.setPhase c (.replying response .response)

def broadcast (event : ServerMessage) :
    (ConnId → Connection) → List Subscriber → (ConnId → Connection) × List Subscriber
  | conns, [] => (conns, [])
  | conns, sub :: subs =>
    match (conns sub.tx).trySend event with
    | some conn =>
      let (conns', kept) := broadcast event (Function.update conns sub.tx conn) subs
      (conns', sub :: kept)
    | none => broadcast event conns subs

def publish (sid : String) (session : Session) (event : ServerMessage) : ServerState :=
  let (conns, subscribers) := broadcast event d.conns session.subscribers
  { d with conns, sessions := d.sessions.insert sid { session with subscribers } }

def deliverOutput (sid : String) (bytes : List UInt8) : ServerState :=
  match d.sessions.lookup sid with
  | none => d
  | some session =>
    let (seq, ring) := session.ring.push bytes
    d.publish sid { session with ring } (.ofOutput sid seq bytes)

def finishSession (sid : String) (code : Int32) : ServerState :=
  match d.sessions.lookup sid with
  | none => d
  | some session =>
    if session.info.alive then
      let d' := d.publish sid { session with info := { session.info with alive := false } }
        (.exit sid code)
      d'.setSessions (d'.sessions.erase sid)
    else d

/-! ### Requests -/

inductive Answer where
  /-- It did what it was asked; a new session gets this id. -/
  | done (sessionId : String)
  /-- It could not, or a field did not parse; this is the text of the error. -/
  | failed (message : String)
deriving DecidableEq, Repr

def Answer.text : Answer → String
  | .done _ => ""
  | .failed message => message

def noSession (sid : String) : String := "no session " ++ sid

def unsubscribe (clientId : String) (session : Session) : Session :=
  { session with subscribers := session.subscribers.filter fun sub => sub.clientId ≠ clientId }

/-- `attach`, up to its first `try_send`. -/
def attach (c : ConnId) (id : Nat) (sid : String) (fromSeq : Nat) : ServerState :=
  match d.sessions.lookup sid with
  | none => d.respond c (.error (some id) (noSession sid))
  | some session =>
    let clientId := (d.conns c).clientId
    let kept := (unsubscribe clientId session).subscribers
    let session := { session with subscribers := kept ++ [⟨clientId, c⟩] }
    let chunks := session.ring.chunksFrom fromSeq
    ((d.setSessions (d.sessions.insert sid session)).setLock (some c)).setPhase c
      (.replaying sid
        (.session session.info :: chunks.map fun (seq, bytes) => .ofOutput sid seq bytes)
        (.ok id (some session.info)))

def detach (c : ConnId) (id : Nat) (sid : String) : ServerState :=
  match d.sessions.lookup sid with
  | none => d.respond c (.error (some id) (noSession sid))
  | some session =>
    (d.setSessions (d.sessions.insert sid (unsubscribe (d.conns c).clientId session))).respond c
      (.ok id none)

def createSession (c : ConnId) (id : Nat) (paneId : String) (cols rows : UInt16)
    (answer : Answer) : ServerState :=
  if cols = 0 ∨ rows = 0 then
    d.respond c (.error (some id) "cols and rows must be greater than zero")
  else
    match answer with
    | .failed message => d.respond c (.error (some id) message)
    | .done sid =>
      let info : SessionInfo := ⟨sid, paneId, true, cols, rows⟩
      (d.setSessions (d.sessions.insert sid ⟨info, .new replayCapacity, []⟩)).respond c
        (.ok id (some info))

/-- A request that leaves the sessions alone: `input` and `signal`, once the session has been
looked up. -/
def poke (c : ConnId) (id : Nat) (sid : String) (answer : Answer) : ServerState :=
  match d.sessions.lookup sid with
  | none => d.respond c (.error (some id) (noSession sid))
  | some session =>
    if session.info.alive then
      match answer with
      | .done _ => d.respond c (.ok id none)
      | .failed message => d.respond c (.error (some id) message)
    else d.respond c (.error (some id) ("session " ++ sid ++ " is not alive"))

def writeInput (c : ConnId) (id : Nat) (sid bytesB64 : String) (answer : Answer) : ServerState :=
  match Base64.decode bytesB64 with
  | none => d.respond c (.error (some id) ("invalid base64: " ++ answer.text))
  | some _ => d.poke c id sid answer

/-- `resize`, up to the call of the operating system. -/
def resize (c : ConnId) (id : Nat) (sid : String) (cols rows : UInt16) : ServerState :=
  if cols = 0 ∨ rows = 0 then
    d.respond c (.error (some id) "cols and rows must be greater than zero")
  else
    match d.sessions.lookup sid with
    | none => d.respond c (.error (some id) (noSession sid))
    | some _ => d.setPhase c (.resizing id sid cols rows)

def resizeDone (c : ConnId) (id : Nat) (sid : String) (cols rows : UInt16) (answer : Answer) :
    ServerState :=
  match answer with
  | .failed message => d.respond c (.error (some id) message)
  | .done _ =>
    match d.sessions.lookup sid with
    | none => d.respond c (.error (some id) (noSession sid))
    | some session =>
      let info := { session.info with cols, rows }
      (d.publish sid { session with info } (.session info)).respond c (.ok id (some info))

def kill (c : ConnId) (id : Nat) (sid : String) : ServerState :=
  match d.sessions.lookup sid with
  | none => d.respond c (.error (some id) (noSession sid))
  | some session =>
    let d' := d.setSessions (d.sessions.erase sid)
    if session.info.alive then
      d'.setPhase c
        (.exiting (session.subscribers.map Subscriber.tx) (.exit sid (-1)) (.ok id none))
    else d'.respond c (.ok id none)

def list : List SessionInfo :=
  (d.sessions.values.map Session.info).mergeSort fun a b => decide (a.sessionId ≤ b.sessionId)

/-- `handle_client` with a request: a `Hello` renames the connection, and `dispatch` does the
rest. -/
def request (c : ConnId) (answer : Answer) : Request → ServerState
  | .hello id clientId =>
    (d.setConn c { d.conns c with clientId }).respond c (.ok id none)
  | .list id => d.respond c (.sessions id d.list)
  | .create id paneId _ cols rows _ _ _ => d.createSession c id paneId cols rows answer
  | .attach id sid fromSeq => d.attach c id sid fromSeq
  | .detach id sid => d.detach c id sid
  | .input id sid bytesB64 => d.writeInput c id sid bytesB64 answer
  | .resize id sid cols rows _ _ => d.resize c id sid cols rows
  | .kill id sid => d.kill c id sid
  | .signal id sid _ => d.poke c id sid answer

/-! ### The connection threads -/

/-- A connection is accepted, with a name of its own. -/
@[simps]
def accept : ServerState :=
  { d with
    conns := Function.update d.conns d.connCount
      ⟨"anon-" ++ toString (d.connCount + 1), .reading, [], 0, true⟩
    connCount := d.connCount + 1 }

inductive ReadError where
  /-- A line that is not a request; this is the parser's message. -/
  | invalid (message : String)
  | tooLarge
  /-- The end of the stream, or a failure of the connection. -/
  | ended
deriving DecidableEq, Repr

/-- `handle_client` without a request. -/
def readError (c : ConnId) : ReadError → ServerState
  | .invalid message =>
    d.setPhase c (.replying (.error none ("invalid request: " ++ message)) .invalid)
  | .tooLarge =>
    d.setPhase c (.replying (.error none "request exceeds the message size limit") .tooLarge)
  | .ended => d.setPhase c .closing

def trySend (c : ConnId) (message : ServerMessage) : ServerState :=
  d.setConn c (((d.conns c).trySend message).getD (d.conns c))

def tryNext (c : ConnId) : Option ServerState :=
  match (d.conns c).phase with
  | .replaying sid (message :: pending) response =>
    some ((d.trySend c message).setPhase c (.replaying sid pending response))
  | .replaying _ [] response => some ((d.setLock none).respond c response)
  | .exiting (t :: pending) event response =>
    some ((d.trySend t event).setPhase c (.exiting pending event response))
  | .exiting [] _ response => some (d.respond c response)
  | _ => none

/-- `tx.send`, which waits for room in the queue. -/
def send (c : ConnId) : Option ServerState :=
  match (d.conns c).phase with
  | .replying message after =>
    match (d.conns c).trySend message with
    | some conn => some (d.setConn c { conn with phase := after.next true })
    | none => if (d.conns c).receiver then none else some (d.setPhase c (after.next false))
  | _ => none

/-- `remove_client`, and the connection's own sender is dropped. -/
def disconnect (c : ConnId) : ServerState :=
  (d.setSessions (d.sessions.mapValues (unsubscribe (d.conns c).clientId))).setPhase c .joining

/-- The queue of a connection has no sender left. -/
def Orphaned (c : ConnId) : Prop :=
  (d.conns c).phase = .joining ∧
    (∀ session ∈ d.sessions.values, ∀ sub ∈ session.subscribers, sub.tx ≠ c) ∧
    ∀ o < d.connCount, (d.conns o).phase.holds c = false

instance decidableOrphaned (c : ConnId) : Decidable (d.Orphaned c) :=
  inferInstanceAs (Decidable (_ ∧ _))

end ServerState

inductive ServerOp where
  | accept
  | request (c : ConnId) (request : Request) (answer : ServerState.Answer)
  | readError (c : ConnId) (error : ServerState.ReadError)
  | tryNext (c : ConnId)
  /-- The operating system has resized a pty. -/
  | resized (c : ConnId) (answer : ServerState.Answer)
  | send (c : ConnId)
  | disconnect (c : ConnId)
  /-- `handle_client` returns. -/
  | join (c : ConnId)
  | take (c : ConnId)
  | writeFailed (c : ConnId)
  /-- The writer finds the queue empty and without a sender. -/
  | writerDone (c : ConnId)
  | deliverOutput (sid : String) (bytes : List UInt8)
  | finishSession (sid : String) (code : Int32)
deriving DecidableEq, Repr

def Request.locks : Request → Bool
  | .hello _ _ => false
  | _ => true

namespace ServerState

/-- One step. A step that needs the lock waits for an `attach` that holds it. -/
def step (d : ServerState) : ServerOp → Option ServerState
  | .accept => some d.accept
  | .request c req answer =>
    if (d.conns c).phase = .reading ∧ (req.locks = true → d.lock = none) then
      some (d.request c answer req)
    else none
  | .readError c error =>
    if (d.conns c).phase = .reading then some (d.readError c error) else none
  | .tryNext c => d.tryNext c
  | .resized c answer =>
    match (d.conns c).phase with
    | .resizing id sid cols rows =>
      if d.lock = none then some (d.resizeDone c id sid cols rows answer) else none
    | _ => none
  | .send c => d.send c
  | .disconnect c =>
    if (d.conns c).phase = .closing ∧ d.lock = none then some (d.disconnect c) else none
  | .join c =>
    if (d.conns c).phase = .joining ∧ (d.conns c).receiver = false then
      some (d.setPhase c .returned)
    else none
  | .take c =>
    if (d.conns c).receiver ∧ 0 < (d.conns c).queued then
      some (d.setConn c { d.conns c with taken := (d.conns c).taken + 1 })
    else none
  | .writeFailed c =>
    if (d.conns c).receiver ∧ 0 < (d.conns c).queued then
      some (d.setConn c { d.conns c with taken := (d.conns c).taken + 1, receiver := false })
    else none
  | .writerDone c =>
    if (d.conns c).receiver ∧ (d.conns c).queued = 0 ∧ d.Orphaned c then
      some (d.setConn c { d.conns c with receiver := false })
    else none
  | .deliverOutput sid bytes => if d.lock = none then some (d.deliverOutput sid bytes) else none
  | .finishSession sid code => if d.lock = none then some (d.finishSession sid code) else none

end ServerState

def serverMachine : Machine ServerState ServerOp where
  init := .init
  step := ServerState.step

end Goble.Pty
