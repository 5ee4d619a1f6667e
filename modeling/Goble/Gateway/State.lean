import Goble.Lib.Machine

/-!
# The gateway between workers and browsers

A worker connects under an id, and clients attach to it by that id. Every text or binary frame that
comes from the worker is copied into the queue of each attached client, from which the client's sink
task sends it; a queue has a bound, and a client whose queue does not take a frame is removed. A
worker that connects again under its id takes over the clients, and from then on what its old
connection still does is recognised by the token that connection got when it registered.

What the clients send to the worker is not part of this. Tokens are random, and taken to be
distinct.
-/

namespace Goble.Gateway

abbrev WorkerId := List Char

/-- The token of one connection of a worker. -/
abbrev ConnectionId := List Char

abbrev ClientId := Nat

/-- A frame that is relayed. It is not looked into. -/
inductive Message where
  | text (text : List Char)
  | binary (bytes : List UInt8)
deriving DecidableEq, Repr

def clientOutboundCapacity : Nat := 128

inductive Phase where
  | running
  /-- The loop has been left, and the table not yet. -/
  | leaving
  | over
deriving DecidableEq, Repr

/-- A client's queue and signal, with the history of both. -/
structure Client where
  worker : WorkerId
  queue : List Message
  /-- The sink task still has the other end of the queue. -/
  receiving : Bool
  shutdown : Bool
  phase : Phase
  /-- Everything that was ever put into the queue. -/
  enqueued : List Message
  /-- Everything that was ever taken from it. -/
  received : List Message
  /-- The frames that were relayed from the worker since the client registered, and whether the
  queue had room for each when it came. -/
  relayed : List (Message × Bool)
  /-- How many these were when the client left the table, if not for want of room. -/
  removedAt : Option Nat
deriving DecidableEq, Repr

namespace Client

def new (worker : WorkerId) : Client := ⟨worker, [], true, false, .running, [], [], [], none⟩

def hasRoom (client : Client) : Bool :=
  client.receiving && decide (client.queue.length < clientOutboundCapacity)

def trySend (message : Message) (client : Client) : Client :=
  if client.hasRoom then
    { client with
      queue := client.queue ++ [message]
      enqueued := client.enqueued ++ [message] }
  else { client with shutdown := true }

/-- The signal that is sent when a client leaves the table otherwise. -/
def remove (client : Client) : Client :=
  { client with shutdown := true, removedAt := some client.relayed.length }

end Client

structure WorkerEntry where
  connectionId : ConnectionId
  clients : List ClientId
deriving DecidableEq, Repr

structure Connection where
  worker : WorkerId
  shutdown : Bool
  phase : Phase
deriving DecidableEq, Repr

structure GatewayState where
  workers : WorkerId → Option WorkerEntry
  nextClientId : ClientId
  clients : ClientId → Option Client
  connections : ConnectionId → Option Connection

namespace GatewayState

def init : GatewayState := ⟨fun _ => none, 1, fun _ => none, fun _ => none⟩

variable (s : GatewayState)

def workerCurrent (id : WorkerId) (connectionId : ConnectionId) : Bool :=
  match s.workers id with
  | some entry => entry.connectionId = connectionId
  | none => false

def hasRoom (c : ClientId) : Bool := (s.clients c).any Client.hasRoom

def modifyClients (p : ClientId → Bool) (f : Client → Client) : GatewayState :=
  { s with clients := fun c => if p c then (s.clients c).map f else s.clients c }

def setConnection (connectionId : ConnectionId) (connection : Connection) : GatewayState :=
  { s with connections := Function.update s.connections connectionId (some connection) }

/-- The signal to a connection that it has been replaced. -/
def supersede (connectionId : ConnectionId) : GatewayState :=
  match s.connections connectionId with
  | some connection => s.setConnection connectionId { connection with shutdown := true }
  | none => s

def registerWorker (id : WorkerId) (token : ConnectionId) : GatewayState :=
  let (s, clients) := match s.workers id with
    | some previous => (s.supersede previous.connectionId, previous.clients)
    | none => (s, [])
  { s.setConnection token ⟨id, false, .running⟩ with
    workers := Function.update s.workers id (some ⟨token, clients⟩) }

def disconnectWorker (id : WorkerId) (connectionId : ConnectionId) : GatewayState :=
  match s.workers id with
  | some entry =>
    if entry.connectionId = connectionId then
      { s.modifyClients (· ∈ entry.clients) Client.remove with
        workers := Function.update s.workers id none }
    else s
  | none => s

/-- The frame is put into the queues of the attached clients, those without room are removed, and
every client of the worker notes it. -/
def copyToClients (id : WorkerId) (entry : WorkerEntry) (message : Message) : GatewayState :=
  { s with
    workers := Function.update s.workers id
      (some { entry with clients := entry.clients.filter s.hasRoom })
    clients := fun c => (s.clients c).map fun client =>
      let sent := if c ∈ entry.clients then client.trySend message else client
      { sent with
        relayed := if client.worker = id then client.relayed ++ [(message, client.hasRoom)]
          else client.relayed } }

def relayFromWorker (id : WorkerId) (connectionId : ConnectionId) (message : Message) :
    Bool × GatewayState :=
  match s.workers id with
  | none => (false, s)
  | some entry =>
    if entry.connectionId ≠ connectionId then (false, s)
    else (true, s.copyToClients id entry message)

def registerClient (id : WorkerId) : Option GatewayState :=
  (s.workers id).map fun entry =>
    { s with
      workers := Function.update s.workers id
        (some { entry with clients := s.nextClientId :: entry.clients })
      nextClientId := s.nextClientId + 1
      clients := Function.update s.clients s.nextClientId (some (.new id)) }

def unregisterClient (id : WorkerId) (c : ClientId) : GatewayState :=
  match s.workers id with
  | some entry =>
    if c ∈ entry.clients then
      { s.modifyClients (· = c) Client.remove with
        workers := Function.update s.workers id
          (some { entry with clients := entry.clients.filter (· ≠ c) }) }
    else s
  | none => s

end GatewayState

inductive GatewayStep where
  /-- A worker's socket is there, and its handler registers it. -/
  | connectWorker (id : WorkerId) (token : ConnectionId)
  | workerFrame (connectionId : ConnectionId) (message : Message)
  | workerControl (connectionId : ConnectionId)
  /-- The socket closes or fails, or the handler sees the signal. -/
  | workerStop (connectionId : ConnectionId)
  | workerLeave (connectionId : ConnectionId)
  | connectClient (id : WorkerId)
  /-- The socket closes or fails, the worker is gone, or the handler sees the signal. -/
  | clientStop (c : ClientId)
  | clientLeave (c : ClientId)
  | clientReceive (c : ClientId)
  /-- The sink ends, and its end of the queue with it. -/
  | clientSinkEnd (c : ClientId)
deriving DecidableEq, Repr

namespace GatewayStep

def connection : GatewayStep → Option ConnectionId
  | workerFrame connectionId _ | workerControl connectionId | workerStop connectionId
  | workerLeave connectionId => some connectionId
  | _ => none

end GatewayStep

namespace GatewayState

variable (s : GatewayState)

/-- A step of the handler of a connection that is in the given phase. -/
def withConnection (connectionId : ConnectionId) (phase : Phase)
    (f : Connection → GatewayState) : Option GatewayState :=
  (s.connections connectionId).bind fun connection =>
    if connection.phase = phase then some (f connection) else none

def withClient (c : ClientId) (p : Client → Bool) (f : Client → GatewayState) :
    Option GatewayState :=
  (s.clients c).bind fun client => if p client then some (f client) else none

def setClient (c : ClientId) (client : Client) : GatewayState :=
  { s with clients := Function.update s.clients c (some client) }

def step : GatewayStep → Option GatewayState
  | .connectWorker id token =>
    match s.connections token with
    | none => some (s.registerWorker id token)
    | some _ => none
  | .workerFrame connectionId message =>
    s.withConnection connectionId .running fun connection =>
      let (relayed, s) := s.relayFromWorker connection.worker connectionId message
      if relayed then s else s.setConnection connectionId { connection with phase := .leaving }
  | .workerControl connectionId =>
    s.withConnection connectionId .running fun connection =>
      if s.workerCurrent connection.worker connectionId then s
      else s.setConnection connectionId { connection with phase := .leaving }
  | .workerStop connectionId =>
    s.withConnection connectionId .running fun connection =>
      s.setConnection connectionId { connection with phase := .leaving }
  | .workerLeave connectionId =>
    s.withConnection connectionId .leaving fun connection =>
      (s.disconnectWorker connection.worker connectionId).setConnection connectionId
        { connection with phase := .over }
  | .connectClient id => s.registerClient id
  | .clientStop c => s.withClient c (·.phase = .running) fun client =>
      s.setClient c { client with phase := .leaving }
  | .clientLeave c => s.withClient c (·.phase = .leaving) fun client =>
      (s.setClient c { client with phase := .over }).unregisterClient client.worker c
  | .clientReceive c => s.withClient c (·.receiving) fun client =>
      match client.queue with
      | [] => s
      | message :: queue =>
        s.setClient c { client with queue, received := client.received ++ [message] }
  | .clientSinkEnd c => s.withClient c (·.receiving) fun client =>
      s.setClient c { client with receiving := false }

end GatewayState

/-- Any number of workers, connections and clients. -/
def gateway : Machine GatewayState GatewayStep := ⟨.init, GatewayState.step⟩

end Goble.Gateway
