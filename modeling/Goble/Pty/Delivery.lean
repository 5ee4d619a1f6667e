import Goble.Pty.ServerStep

/-!
# Contiguous output

What a subscriber's queue has been given of a session since its latest `attach`, against the
output the session has produced. The history (`Deliveries`) remembers each session's whole
output, and for each connection and session how long the queue was at the latest `attach` and
which offset that `attach` had to start from.

A client is served through two paths: `attach` replays the ring, and `deliver_output` sends what
comes after. `Served` asks that the outputs put in the queue follow on each other from the start
on, byte for byte, and reach the end of the output once the replay is over.

Live delivery drops a subscriber whose queue is full; the replay ignores that its message was
refused. `keepsReplay` asks that a replayed chunk is never refused, and `keepsName`, since
subscriptions are kept by name, that no connection renames itself while it holds one.
`served_of_keepsReplay` is the result over whole runs; `not_served` attaches a client whose queue
is full.
-/

namespace Goble.Pty

/-! ### Streams -/

def ServerMessage.outputOf (sid : String) : ServerMessage → Option (Nat × List UInt8)
  | .output sessionId seq bytesB64 =>
    if sessionId = sid then (Base64.decode bytesB64).map fun bytes => (seq, bytes) else none
  | _ => none

def ServerMessage.isOutput : ServerMessage → Bool
  | .output _ _ _ => true
  | _ => false

def outputs (sid : String) (messages : List ServerMessage) : List (Nat × List UInt8) :=
  messages.filterMap (ServerMessage.outputOf sid)

theorem outputs_append (sid : String) (xs ys : List ServerMessage) :
    outputs sid (xs ++ ys) = outputs sid xs ++ outputs sid ys :=
  List.filterMap_append

theorem outputs_ofOutput (sid : String) (seq : Nat) (bytes : List UInt8) :
    outputs sid [.ofOutput sid seq bytes] = [(seq, bytes)] := by
  simp [outputs, ServerMessage.ofOutput, ServerMessage.outputOf, Base64.decode_encode]

theorem outputs_ofOutput_ne {sid sid' : String} (h : sid' ≠ sid) (seq : Nat)
    (bytes : List UInt8) : outputs sid [.ofOutput sid' seq bytes] = [] := by
  simp [outputs, ServerMessage.ofOutput, ServerMessage.outputOf, h]

variable {message : ServerMessage}

theorem outputs_of_not_output (h : message.isOutput = false) (sid : String) :
    outputs sid [message] = [] := by
  cases message <;> first | rfl | cases h

theorem outputs_map_ofOutput (sid : String) (chunks : List (Nat × List UInt8)) :
    outputs sid (chunks.map fun (seq, bytes) => .ofOutput sid seq bytes) = chunks := by
  induction chunks with
  | nil => rfl
  | cons chunk chunks ih =>
    rw [List.map_cons, ← List.singleton_append, outputs_append, outputs_ofOutput, ih]
    rfl

def Phase.remaining (sid : String) : Phase → List (Nat × List UInt8)
  | .replaying sid' pending _ => if sid' = sid then outputs sid pending else []
  | _ => []

namespace Connection

/-- The output of session `sid` put in the queue after its first `mark` messages. -/
def delivered (conn : Connection) (mark : Nat) (sid : String) : List (Nat × List UInt8) :=
  outputs sid (conn.sent.drop mark)

/-- The same, and what `attach` is still about to put there. -/
def stream (conn : Connection) (mark : Nat) (sid : String) : List (Nat × List UInt8) :=
  conn.delivered mark sid ++ conn.phase.remaining sid

end Connection

structure Deliveries where
  /-- A session's output. -/
  output : String → List UInt8
  /-- How long a connection's queue was at its latest `attach` to a session. -/
  mark : ConnId × String → Nat
  /-- The offset that `attach` had to start from. -/
  start : ConnId × String → Nat

namespace Deliveries

def init : Deliveries := ⟨fun _ => [], fun _ => 0, fun _ => 0⟩

/-- A connection attaches to a session, to be served from `start` on. -/
@[simps]
def attached (h : Deliveries) (c : ConnId) (sid : String) (mark start : Nat) : Deliveries :=
  { h with
    mark := Function.update h.mark (c, sid) mark
    start := Function.update h.start (c, sid) start }

@[simps]
def produced (h : Deliveries) (sid : String) (output : List UInt8) : Deliveries :=
  { h with output := Function.update h.output sid output }

def update (d : ServerState) (op : ServerOp) (_ : ServerState) (h : Deliveries) : Deliveries :=
  match op with
  | .request c (.attach _ sid fromSeq) _ =>
    match d.sessions.lookup sid with
    | some session => h.attached c sid (d.conns c).sent.length
      (min (max fromSeq session.ring.startSeq) session.ring.endSeq)
    | none => h
  | .request _ (.create _ _ _ cols rows _ _ _) (.done sid) =>
    if cols = 0 ∨ rows = 0 then h else h.produced sid []
  | .deliverOutput sid bytes =>
    match d.sessions.lookup sid with
    | some _ => h.produced sid (h.output sid ++ bytes)
    | none => h
  | _ => h

end Deliveries

/-- Each subscriber of each session has been given contiguous output since its latest `attach`,
from the offset that had to start from on, and all of it unless some is still to be replayed. -/
def Served (p : ServerState × Deliveries) : Prop :=
  ∀ sid session, p.1.sessions.lookup sid = some session → ∀ sub ∈ session.subscribers,
    let pieces := (p.1.conns sub.tx).delivered (p.2.mark (sub.tx, sid)) sid
    Contiguous (p.2.output sid) (p.2.start (sub.tx, sid)) pieces ∧
      ((p.1.conns sub.tx).phase.remaining sid = [] →
        p.2.start (sub.tx, sid) + span pieces = (p.2.output sid).length)

/-- A connection renames itself only while it holds no subscription. -/
def keepsName (d : ServerState) : ServerOp → Bool
  | .request c (.hello _ clientId) _ =>
    decide (clientId = (d.conns c).clientId ∨ d.Unsubscribed c)
  | _ => true

/-- A chunk that `attach` replays is not refused. -/
def keepsReplay (d : ServerState) : ServerOp → Bool
  | .tryNext c =>
    match (d.conns c).phase with
    | .replaying _ (message :: _) _ =>
      !message.isOutput || ((d.conns c).trySend message).isSome
    | _ => true
  | _ => true

/-! ### Connections -/

/-- The messages a thread is about to send are what they should be: `attach` holds the lock and
replays its own session, and nobody else sends output. -/
def Phase.Ok (lock : Option ConnId) (c : ConnId) : Phase → Prop
  | .replaying sid pending response => lock = some c ∧ response.isOutput = false ∧
    ∀ message ∈ pending, ∀ sid', sid' ≠ sid → outputs sid' [message] = []
  | .exiting _ event response => event.isOutput = false ∧ response.isOutput = false
  | .replying message _ => message.isOutput = false
  | _ => True

variable {c : ConnId}

/-- While nobody holds the lock, no thread is in a replay. -/
theorem Phase.Ok.of_free {lock lock' : Option ConnId} {phase : Phase} (h : phase.Ok lock c)
    (hlock : lock ≠ some c) : phase.Ok lock' c := by
  cases phase with
  | replaying => exact absurd h.1 hlock
  | _ => exact h

theorem Phase.Ok.remaining_of_free {lock : Option ConnId} {phase : Phase} (h : phase.Ok lock c)
    (hlock : lock ≠ some c) (sid : String) : phase.remaining sid = [] := by
  cases phase with
  | replaying => exact absurd h.1 hlock
  | _ => rfl

/-- The connection goes on under its name, and its queue is fed the same output of session
`sid`. -/
structure Carries (sid : String) (conn conn' : Connection) : Prop where
  clientId : conn'.clientId = conn.clientId
  sent_le : conn.sent.length ≤ conn'.sent.length
  stream : ∀ mark ≤ conn.sent.length, conn'.stream mark sid = conn.stream mark sid

namespace Carries

variable {sid : String} {conn conn' : Connection}

theorem refl (sid : String) (conn : Connection) : Carries sid conn conn :=
  ⟨rfl, Nat.le_refl _, fun _ _ => rfl⟩

theorem trans {conn'' : Connection} (h : Carries sid conn conn') (h' : Carries sid conn' conn'') :
    Carries sid conn conn'' where
  clientId := h'.clientId.trans h.clientId
  sent_le := Nat.le_trans h.sent_le h'.sent_le
  stream mark hmark :=
    (h'.stream mark (Nat.le_trans hmark h.sent_le)).trans (h.stream mark hmark)

/-- Nothing is put in the queue, and no replay is begun or cut short. -/
theorem of_sent (hname : conn'.clientId = conn.clientId) (hsent : conn'.sent = conn.sent)
    (hrem : conn'.phase.remaining sid = conn.phase.remaining sid) : Carries sid conn conn' where
  clientId := hname
  sent_le := by rw [hsent]
  stream mark _ := by simp only [Connection.stream, Connection.delivered, hsent, hrem]

/-- A message is put in the queue that has just been taken off what is to be replayed, or that
carries no output. -/
theorem push (hname : conn'.clientId = conn.clientId) (hsent : conn'.sent = conn.sent ++ [message])
    (hrem : outputs sid [message] ++ conn'.phase.remaining sid = conn.phase.remaining sid) :
    Carries sid conn conn' where
  clientId := hname
  sent_le := by rw [hsent, List.length_append]; omega
  stream mark hmark := by
    rw [Connection.stream, Connection.delivered, hsent, List.drop_append_of_le_length hmark,
      outputs_append, List.append_assoc, hrem]
    rfl

theorem trySend (hout : outputs sid [message] = []) (h : conn.trySend message = some conn') :
    Carries sid conn conn' := by
  obtain rfl := Connection.trySend_eq_some h
  exact .push rfl rfl (by rw [hout]; rfl)

theorem broadcast {event : ServerMessage} (hout : outputs sid [event] = [])
    (conns : ConnId → Connection) (subs : List Subscriber) (c : ConnId) :
    Carries sid (conns c) ((ServerState.broadcast event conns subs).1 c) := by
  induction subs generalizing conns with
  | nil => exact .refl sid _
  | cons sub subs ih =>
    rw [ServerState.broadcast]
    split
    · next conn hconn =>
      refine .trans ?_ (ih _)
      rw [Function.update_apply]
      split
      · next h => exact h ▸ .trySend hout hconn
      · exact .refl sid _
    · exact ih conns

end Carries

/-! ### The invariant -/

/-- A subscriber goes by its connection's name and has been served, or is about to be. -/
structure SubscriberOk (d : ServerState) (h : Deliveries) (sid : String) (sub : Subscriber) :
    Prop where
  tx_lt : sub.tx < d.connCount
  named : sub.clientId = (d.conns sub.tx).clientId
  contiguous : Contiguous (h.output sid) (h.start (sub.tx, sid))
    ((d.conns sub.tx).stream (h.mark (sub.tx, sid)) sid)
  reaches : h.start (sub.tx, sid) + span ((d.conns sub.tx).stream (h.mark (sub.tx, sid)) sid) =
    (h.output sid).length

/-- The ring holds the end of the session's output, and its subscribers go by distinct names. -/
structure SessionOk (d : ServerState) (h : Deliveries) (sid : String) (session : Session) :
    Prop where
  retains : session.ring.Retains (h.output sid)
  nodup : (session.subscribers.map Subscriber.clientId).Nodup
  subscribers : ∀ sub ∈ session.subscribers, SubscriberOk d h sid sub

structure DeliveryInv (d : ServerState) (h : Deliveries) : Prop where
  phases : ∀ c, (d.conns c).phase.Ok d.lock c
  unborn : ∀ c, d.connCount ≤ c → d.conns c = ServerState.init.conns c
  mark_le : ∀ c sid, h.mark (c, sid) ≤ (d.conns c).sent.length
  sessions : ∀ sid session, d.sessions.lookup sid = some session → SessionOk d h sid session

theorem SubscriberOk.carry {d d' : ServerState} {h h' : Deliveries} {sid : String}
    {sub : Subscriber} (hsub : SubscriberOk d h sid sub) (hcount : d.connCount ≤ d'.connCount)
    (hmark : h.mark (sub.tx, sid) ≤ (d.conns sub.tx).sent.length)
    (hcarry : Carries sid (d.conns sub.tx) (d'.conns sub.tx))
    (hout : h'.output sid = h.output sid) (hmark' : h'.mark (sub.tx, sid) = h.mark (sub.tx, sid))
    (hstart' : h'.start (sub.tx, sid) = h.start (sub.tx, sid)) :
    SubscriberOk d' h' sid sub where
  tx_lt := Nat.lt_of_lt_of_le hsub.tx_lt hcount
  named := hsub.named.trans hcarry.clientId.symm
  contiguous := by
    rw [hout, hmark', hstart', hcarry.stream _ hmark]
    exact hsub.contiguous
  reaches := by
    rw [hout, hmark', hstart', hcarry.stream _ hmark]
    exact hsub.reaches

namespace DeliveryInv

variable {d d' : ServerState} {h : Deliveries}

/-- What the invariant is for. -/
theorem served (hI : DeliveryInv d h) : Served (d, h) := by
  intro sid session hs sub hsub
  have hok := (hI.sessions sid session hs).subscribers sub hsub
  refine ⟨(contiguous_append.mp hok.contiguous).1, fun hrem => ?_⟩
  have hreach := hok.reaches
  rw [Connection.stream, hrem, List.append_nil] at hreach
  exact hreach

theorem initial : DeliveryInv .init .init where
  phases _ := trivial
  unborn _ _ := rfl
  mark_le _ _ := Nat.le_refl 0
  sessions _ _ hs := by cases hs

/-- The sessions keep being served by a step that narrows them and feeds the queues the same
output. -/
theorem sessions_carry (hI : DeliveryInv d h) (hn : ServerState.Narrows d d')
    (hcount : d.connCount ≤ d'.connCount)
    (hcarry : ∀ sid c, c < d.connCount → Carries sid (d.conns c) (d'.conns c))
    (sid : String) (session : Session) (hs : d'.sessions.lookup sid = some session) :
    SessionOk d' h sid session := by
  obtain ⟨old, hold, hring, hsubs⟩ := hn sid session hs
  have hok := hI.sessions sid old hold
  refine ⟨hring ▸ hok.retains, hok.nodup.sublist (hsubs.map _), fun sub hsub => ?_⟩
  have hsubok := hok.subscribers sub (hsubs.subset hsub)
  exact hsubok.carry hcount (hI.mark_le _ _) (hcarry sid _ hsubok.tx_lt) rfl rfl rfl

/-- A thread that is somewhere was accepted. -/
theorem lt_of_phase (hI : DeliveryInv d h) (hc : (d.conns c).phase ≠ .unborn) :
    c < d.connCount := by
  refine Nat.lt_of_not_le fun hle => hc ?_
  rw [hI.unborn c hle]
  rfl

theorem lt_of_receiver (hI : DeliveryInv d h) (hc : (d.conns c).receiver = true) :
    c < d.connCount := by
  refine Nat.lt_of_not_le fun hle => ?_
  rw [hI.unborn c hle] at hc
  cases hc

theorem setConn (hI : DeliveryInv d h) {conn : Connection} (hc : c < d.connCount)
    (hcarry : ∀ sid, Carries sid (d.conns c) conn) (hok : conn.phase.Ok d.lock c) :
    DeliveryInv (d.setConn c conn) h where
  phases o := by
    rw [ServerState.setConn_conns, Function.update_apply]
    split
    · next ho => exact ho ▸ hok
    · exact hI.phases o
  unborn o ho := by
    rw [ServerState.setConn_conns, Function.update_of_ne]
    · exact hI.unborn o ho
    · exact Nat.ne_of_gt (Nat.lt_of_lt_of_le hc ho)
  mark_le o sid := by
    rw [ServerState.setConn_conns, Function.update_apply]
    split
    · next ho => exact ho ▸ Nat.le_trans (hI.mark_le c sid) (hcarry sid).sent_le
    · exact hI.mark_le o sid
  sessions := by
    refine hI.sessions_carry (.of_eq rfl) (Nat.le_refl _) fun sid o _ => ?_
    rw [ServerState.setConn_conns, Function.update_apply]
    split
    · next ho => exact ho ▸ hcarry sid
    · exact .refl sid _

/-- A thread moves, and neither begins a replay nor cuts one short. -/
theorem setPhase (hI : DeliveryInv d h) {phase : Phase} (hc : (d.conns c).phase ≠ .unborn)
    (hrem : ∀ sid, phase.remaining sid = (d.conns c).phase.remaining sid)
    (hok : phase.Ok d.lock c) : DeliveryInv (d.setPhase c phase) h :=
  hI.setConn (hI.lt_of_phase hc) (fun sid => .of_sent rfl rfl (hrem sid)) hok

variable {response : ServerMessage}

theorem respond (hI : DeliveryInv d h) (hc : (d.conns c).phase ≠ .unborn)
    (hrem : ∀ sid, (d.conns c).phase.remaining sid = []) (hout : response.isOutput = false) :
    DeliveryInv (d.respond c response) h :=
  hI.setPhase hc (fun sid => (hrem sid).symm) hout

theorem setSessions (hI : DeliveryInv d h) {sessions : Table String Session}
    (hn : ServerState.Narrows d (d.setSessions sessions)) :
    DeliveryInv (d.setSessions sessions) h where
  phases := hI.phases
  unborn := hI.unborn
  mark_le := hI.mark_le
  sessions := hI.sessions_carry hn (Nat.le_refl _) fun sid _ _ => .refl sid _

theorem setLock (hI : DeliveryInv d h) {lock : Option ConnId}
    (hok : ∀ c, (d.conns c).phase.Ok lock c) : DeliveryInv (d.setLock lock) h where
  phases := hok
  unborn := hI.unborn
  mark_le := hI.mark_le
  sessions := hI.sessions_carry (.of_eq rfl) (Nat.le_refl _) fun sid _ _ => .refl sid _

variable {sid : String}

theorem publish (hI : DeliveryInv d h) {s t : Session} {event : ServerMessage}
    (hs : d.sessions.lookup sid = some s) (hring : t.ring = s.ring)
    (hsubs : t.subscribers = s.subscribers) (hout : event.isOutput = false) :
    DeliveryInv (d.publish sid t event) h where
  phases c := by
    obtain ⟨sent, hsent⟩ := ServerState.broadcast_conn event d.conns t.subscribers c
    have := hI.phases c
    simp only [ServerState.publish, hsent]
    exact this
  unborn c hc := by
    have hborn := hI.unborn c hc
    refine Eq.trans (ServerState.broadcast_of_dead event d.conns t.subscribers ?_) hborn
    rw [hborn]
    rfl
  mark_le c sid' := Nat.le_trans (hI.mark_le c sid')
    (Carries.broadcast (outputs_of_not_output hout sid') d.conns t.subscribers c).sent_le
  sessions := hI.sessions_carry (.publish hs hring hsubs event) (Nat.le_refl _) fun sid' c _ =>
    .broadcast (outputs_of_not_output hout sid') d.conns t.subscribers c

theorem trySend (hI : DeliveryInv d h) (hout : message.isOutput = false) :
    DeliveryInv (d.trySend c message) h := by
  cases hsend : (d.conns c).trySend message with
  | none =>
    have hsame : d.trySend c message = d := by
      simp [ServerState.trySend, hsend, ServerState.setConn]
    rwa [hsame]
  | some conn =>
    have hc : c < d.connCount := by
      refine Nat.lt_of_not_le fun hle => ?_
      rw [hI.unborn c hle] at hsend
      cases hsend
    have hphase := hI.phases c
    rw [ServerState.trySend, hsend]
    refine hI.setConn hc (fun sid => .trySend (outputs_of_not_output hout sid) hsend) ?_
    rw [Connection.trySend_eq_some hsend]
    exact hphase

/-! ### Steps -/

theorem accept (hI : DeliveryInv d h) : DeliveryInv d.accept h where
  phases c := by
    rw [ServerState.accept_conns, Function.update_apply]
    split
    · trivial
    · exact hI.phases c
  unborn c hc := by
    rw [ServerState.accept_conns, Function.update_of_ne (Nat.ne_of_gt hc)]
    exact hI.unborn c (Nat.le_of_succ_le hc)
  mark_le c sid := by
    have hmark := hI.mark_le c sid
    rw [ServerState.accept_conns, Function.update_apply]
    split
    · next hc =>
      rw [hI.unborn c (Nat.le_of_eq hc.symm)] at hmark
      exact hmark
    · exact hmark
  sessions := by
    refine hI.sessions_carry (.of_eq rfl) (Nat.le_succ _) fun sid c hc => ?_
    rw [ServerState.accept_conns, Function.update_of_ne (Nat.ne_of_lt hc)]
    exact .refl sid _

theorem rename (hI : DeliveryInv d h) {clientId : String} (hc : (d.conns c).phase ≠ .unborn)
    (hname : clientId = (d.conns c).clientId ∨ d.Unsubscribed c) :
    DeliveryInv (d.setConn c { d.conns c with clientId }) h := by
  rcases hname with rfl | hun
  · exact hI.setConn (hI.lt_of_phase hc) (fun sid => .refl sid _) (hI.phases c)
  · refine ⟨fun o => ?_, fun o ho => ?_, fun o sid => ?_, fun sid session hs => ?_⟩
    · rw [ServerState.setConn_conns, Function.update_apply]
      split
      · next ho => exact ho ▸ hI.phases c
      · exact hI.phases o
    · rw [ServerState.setConn_conns, Function.update_of_ne]
      · exact hI.unborn o ho
      · exact Nat.ne_of_gt (Nat.lt_of_lt_of_le (hI.lt_of_phase hc) ho)
    · rw [ServerState.setConn_conns, Function.update_apply]
      split
      · next ho => exact ho ▸ hI.mark_le c sid
      · exact hI.mark_le o sid
    · have hok := hI.sessions sid session hs
      refine ⟨hok.retains, hok.nodup, fun sub hsub => ?_⟩
      have hne : sub.tx ≠ c := hun session (Table.mem_values_of_lookup hs) sub hsub
      refine (hok.subscribers sub hsub).carry (Nat.le_refl _) (hI.mark_le _ _) ?_ rfl rfl rfl
      rw [ServerState.setConn_conns, Function.update_of_ne hne]
      exact .refl sid _

theorem create (hI : DeliveryInv d h) (sid : String) (info : SessionInfo) :
    DeliveryInv (d.setSessions (d.sessions.insert sid ⟨info, .new replayCapacity, []⟩))
      (h.produced sid []) where
  phases := hI.phases
  unborn := hI.unborn
  mark_le := hI.mark_le
  sessions sid' session hs := by
    rw [ServerState.setSessions_sessions, Table.lookup_insert_eq] at hs
    split at hs
    · next heq =>
      obtain rfl := Option.some.inj hs
      refine ⟨?_, List.nodup_nil, fun sub hsub => by cases hsub⟩
      rw [heq]
      simpa using ReplayRing.retains_new replayCapacity
    · next hne =>
      have hok := hI.sessions sid' session hs
      have hout : (h.produced sid []).output sid' = h.output sid' :=
        Function.update_of_ne hne _ _
      refine ⟨by rw [hout]; exact hok.retains, hok.nodup, fun sub hsub => ?_⟩
      exact (hok.subscribers sub hsub).carry (Nat.le_refl _) (hI.mark_le _ _) (.refl sid' _) hout
        rfl rfl

theorem attach (hI : DeliveryInv d h) {fromSeq : Nat} {session : Session}
    (hphase : (d.conns c).phase = .reading) (hlock : d.lock = none)
    (hs : d.sessions.lookup sid = some session) (hresp : response.isOutput = false)
    (hcount : d'.connCount = d.connCount) (hlock' : d'.lock = some c)
    (hsessions : d'.sessions = d.sessions.insert sid { session with
      subscribers := (ServerState.unsubscribe (d.conns c).clientId session).subscribers ++
        [⟨(d.conns c).clientId, c⟩] })
    (hconns : d'.conns = Function.update d.conns c { d.conns c with
      phase := .replaying sid (.session session.info :: (session.ring.chunksFrom fromSeq).map
        fun (seq, bytes) => .ofOutput sid seq bytes) response }) :
    DeliveryInv d' (h.attached c sid (d.conns c).sent.length
      (min (max fromSeq session.ring.startSeq) session.ring.endSeq)) := by
  have hc := hI.lt_of_phase (c := c) (by rw [hphase]; simp)
  have hok := hI.sessions sid session hs
  have hother : ∀ o, o ≠ c → d'.conns o = d.conns o := fun o ho => by
    rw [hconns, Function.update_of_ne ho]
  have hself := congrFun hconns c
  rw [Function.update_self] at hself
  -- every subscriber but the one just installed is served as before
  have hcarry : ∀ sid' sub, sub.tx ≠ c ∨ sid' ≠ sid → SubscriberOk d h sid' sub →
      SubscriberOk d' (h.attached c sid (d.conns c).sent.length
        (min (max fromSeq session.ring.startSeq) session.ring.endSeq)) sid' sub := by
    intro sid' sub hne hsub
    have hpair : (sub.tx, sid') ≠ (c, sid) := fun heq => by
      obtain ⟨hx, hy⟩ := Prod.mk.inj heq
      exact hne.elim (absurd hx) (absurd hy)
    refine hsub.carry (Nat.le_of_eq hcount.symm) (hI.mark_le _ _) ?_ rfl
      (Function.update_of_ne hpair _ _) (Function.update_of_ne hpair _ _)
    by_cases ho : sub.tx = c
    · have hsid : sid ≠ sid' := (hne.resolve_left (absurd ho)).symm
      rw [ho, hself]
      exact .of_sent rfl rfl (by rw [hphase]; exact if_neg hsid)
    · rw [hother _ ho]
      exact .refl sid' _
  refine ⟨fun o => ?_, fun o ho => ?_, fun o sid' => ?_, fun sid' session' hs' => ?_⟩
  · by_cases ho : o = c
    · rw [ho, hself, hlock']
      refine ⟨rfl, hresp, fun message hmem sid' hne => ?_⟩
      rcases List.mem_cons.mp hmem with rfl | hmem
      · rfl
      · obtain ⟨chunk, -, rfl⟩ := List.mem_map.mp hmem
        exact outputs_ofOutput_ne hne.symm _ _
    · rw [hother o ho]
      exact (hI.phases o).of_free (by rw [hlock]; simp)
  · rw [hcount] at ho
    rw [hother o (Nat.ne_of_gt (Nat.lt_of_lt_of_le hc ho))]
    exact hI.unborn o ho
  · have hsent : (d'.conns o).sent = (d.conns o).sent := by
      by_cases ho : o = c
      · rw [ho, hself]
      · rw [hother o ho]
    rw [hsent, Deliveries.attached_mark, Function.update_apply]
    split
    · next heq => rw [(Prod.mk.inj heq).1]
    · exact hI.mark_le o sid'
  · rw [hsessions, Table.lookup_insert_eq] at hs'
    split at hs'
    · next heq =>
      obtain rfl := Option.some.inj hs'
      subst heq
      have hkept : ∀ sub ∈ (ServerState.unsubscribe (d.conns c).clientId session).subscribers,
          sub ∈ session.subscribers ∧ sub.clientId ≠ (d.conns c).clientId := fun sub hsub => by
        simpa [ServerState.unsubscribe] using hsub
      refine ⟨hok.retains, ?_, fun sub hsub => ?_⟩
      · rw [List.map_append, List.map_singleton, List.nodup_append]
        refine ⟨hok.nodup.sublist (List.filter_sublist.map _), List.nodup_singleton _, ?_⟩
        intro a ha b hb
        obtain ⟨sub, hsub, rfl⟩ := List.mem_map.mp ha
        rw [List.mem_singleton.mp hb]
        exact (hkept sub hsub).2
      · rcases List.mem_append.mp hsub with hsub | hsub
        · have hold := hok.subscribers sub (hkept sub hsub).1
          refine hcarry sid' sub (.inl fun htx => (hkept sub hsub).2 ?_) hold
          rw [hold.named, htx]
        · obtain rfl := List.mem_singleton.mp hsub
          -- the new one: nothing queued yet, and the chunks of the ring to come
          obtain ⟨hcont, hreach⟩ := hok.retains.chunksFrom fromSeq
          have hstream : (d'.conns c).stream (d.conns c).sent.length sid' =
              session.ring.chunksFrom fromSeq := by
            simp only [hself, Connection.stream, Connection.delivered, List.drop_length,
              Phase.remaining, if_true]
            rw [← List.singleton_append, outputs_append, outputs_map_ofOutput]
            rfl
          refine ⟨hcount ▸ hc, by rw [hself], ?_, ?_⟩
          · simp only [Deliveries.attached_mark, Deliveries.attached_start,
              Deliveries.attached_output, Function.update_self, hstream]
            exact hcont
          · simp only [Deliveries.attached_mark, Deliveries.attached_start,
              Deliveries.attached_output, Function.update_self, hstream]
            exact hreach
    · next hne =>
      have hok' := hI.sessions sid' session' hs'
      exact ⟨hok'.retains, hok'.nodup, fun sub hsub =>
        hcarry sid' sub (.inr hne) (hok'.subscribers sub hsub)⟩

/-- Subscribers that go by distinct names are served through distinct queues. -/
theorem nodup_tx (hI : DeliveryInv d h) {session : Session}
    (hs : d.sessions.lookup sid = some session) :
    (session.subscribers.map Subscriber.tx).Nodup := by
  have hok := hI.sessions sid session hs
  have hnames : session.subscribers.map Subscriber.clientId =
      (session.subscribers.map Subscriber.tx).map fun c => (d.conns c).clientId := by
    rw [List.map_map]
    exact List.map_congr_left fun sub hsub => (hok.subscribers sub hsub).named
  exact List.Nodup.of_map _ (hnames ▸ hok.nodup)

theorem deliver (hI : DeliveryInv d h) {session : Session} (hlock : d.lock = none)
    (hs : d.sessions.lookup sid = some session) (bytes : List UInt8) :
    DeliveryInv
      (d.publish sid { session with ring := (session.ring.push bytes).2 }
        (.ofOutput sid (session.ring.push bytes).1 bytes))
      (h.produced sid (h.output sid ++ bytes)) := by
  have hok := hI.sessions sid session hs
  have hseq : (session.ring.push bytes).1 = (h.output sid).length := hok.retains.endSeq
  rw [hseq]
  have hsent := ServerState.broadcast_sent (.ofOutput sid (h.output sid).length bytes) d.conns
    session.subscribers (hI.nodup_tx hs)
  have hsub := ServerState.broadcast_sublist (.ofOutput sid (h.output sid).length bytes) d.conns
    session.subscribers
  generalize hb : ServerState.broadcast (.ofOutput sid (h.output sid).length bytes) d.conns
    session.subscribers = b at hsent hsub
  obtain ⟨conns, kept⟩ := b
  have hd' : d.publish sid { session with ring := (session.ring.push bytes).2 }
      (.ofOutput sid (h.output sid).length bytes) =
      { d with
        conns
        sessions := d.sessions.insert sid
          { session with ring := (session.ring.push bytes).2, subscribers := kept } } := by
    simp only [ServerState.publish, hb]
  rw [hd']
  simp only at hsent hsub
  refine ⟨fun c => ?_, fun c hc => ?_, fun c sid' => ?_, fun sid' session' hs' => ?_⟩
  · simp only [hsent]
    split <;> exact hI.phases c
  · have hnot : c ∉ kept.map Subscriber.tx := fun hmem => by
      obtain ⟨sub, hkept, rfl⟩ := List.mem_map.mp hmem
      exact absurd (hok.subscribers sub (hsub.subset hkept)).tx_lt (Nat.not_lt_of_le hc)
    simp only [hsent, if_neg hnot]
    exact hI.unborn c hc
  · have hmark := hI.mark_le c sid'
    simp only [hsent]
    split
    · simp only [Deliveries.produced_mark, List.length_append]
      omega
    · exact hmark
  · simp only [Table.lookup_insert_eq] at hs'
    split at hs'
    · next heq =>
      subst heq
      obtain rfl := Option.some.inj hs'
      have hout : (h.produced sid' (h.output sid' ++ bytes)).output sid' =
          h.output sid' ++ bytes := Function.update_self _ _ _
      refine ⟨by rw [hout]; exact hok.retains.push bytes, hok.nodup.sublist (hsub.map _),
        fun sub hmem => ?_⟩
      have hold := hok.subscribers sub (hsub.subset hmem)
      -- nobody is in a replay, so the queue gets the new piece after all the others
      have hrem := (hI.phases sub.tx).remaining_of_free (by rw [hlock]; simp) sid'
      have hstream : (conns sub.tx).stream (h.mark (sub.tx, sid')) sid' =
          (d.conns sub.tx).stream (h.mark (sub.tx, sid')) sid' ++
            [((h.output sid').length, bytes)] := by
        rw [hsent, if_pos (List.mem_map_of_mem hmem)]
        simp only [Connection.stream, Connection.delivered, hrem, List.append_nil,
          List.drop_append_of_le_length (hI.mark_le sub.tx sid'), outputs_append,
          outputs_ofOutput]
      refine ⟨hold.tx_lt, ?_, ?_, ?_⟩
      · simp only [hsent, if_pos (List.mem_map_of_mem hmem)]
        exact hold.named
      · simp only [hout, Deliveries.produced_mark, Deliveries.produced_start, hstream]
        refine contiguous_append.mpr ⟨hold.contiguous.append_output bytes, ?_⟩
        rw [hold.reaches]
        exact ⟨rfl, by simp, trivial⟩
      · simp only [hout, Deliveries.produced_mark, Deliveries.produced_start, hstream,
          span_append, span, List.length_append]
        have := hold.reaches
        omega
    · next hne =>
      have hok' := hI.sessions sid' session' hs'
      have hout : (h.produced sid (h.output sid ++ bytes)).output sid' = h.output sid' :=
        Function.update_of_ne hne _ _
      refine ⟨by rw [hout]; exact hok'.retains, hok'.nodup, fun sub hmem => ?_⟩
      refine (hok'.subscribers sub hmem).carry (Nat.le_refl _) (hI.mark_le _ _) ?_ hout rfl rfl
      simp only [hsent]
      split
      · exact .push rfl rfl (by rw [outputs_ofOutput_ne (Ne.symm hne)]; rfl)
      · exact .refl sid' _

theorem replay (hI : DeliveryInv d h) {pending : List ServerMessage}
    (hphase : (d.conns c).phase = .replaying sid (message :: pending) response)
    (hkeep : message.isOutput = true → ((d.conns c).trySend message).isSome = true) :
    DeliveryInv ((d.trySend c message).setPhase c (.replaying sid pending response)) h := by
  have hc := hI.lt_of_phase (c := c) (by rw [hphase]; simp)
  have hok := hI.phases c
  rw [hphase] at hok
  obtain ⟨hlock, hresp, hpending⟩ := hok
  have hok' : (Phase.replaying sid pending response).Ok d.lock c :=
    ⟨hlock, hresp, fun m hm => hpending m (List.mem_cons_of_mem _ hm)⟩
  have hrem : ∀ sid',
      outputs sid' [message] ++ (Phase.replaying sid pending response).remaining sid' =
      (d.conns c).phase.remaining sid' := by
    intro sid'
    rw [hphase]
    by_cases hsid : sid = sid'
    · subst hsid
      simp only [Phase.remaining, if_true, ← outputs_append, List.singleton_append]
    · simp only [Phase.remaining, if_neg hsid,
        hpending message List.mem_cons_self sid' (Ne.symm hsid),
        List.append_nil]
  have hset : (d.trySend c message).setPhase c (.replaying sid pending response) =
      d.setConn c { ((d.conns c).trySend message).getD (d.conns c) with
        phase := .replaying sid pending response } := by
    simp [ServerState.trySend, ServerState.setPhase, ServerState.setConn]
  rw [hset]
  refine hI.setConn hc (fun sid' => ?_) hok'
  cases hsend : (d.conns c).trySend message with
  | some conn =>
    obtain rfl := Connection.trySend_eq_some hsend
    exact .push rfl rfl (hrem sid')
  | none =>
    have hout : message.isOutput = false := by
      cases hm : message.isOutput with
      | false => rfl
      | true =>
        rw [hsend] at hkeep
        cases hkeep hm
    have := hrem sid'
    rw [outputs_of_not_output hout, List.nil_append] at this
    exact .of_sent rfl rfl this

theorem release (hI : DeliveryInv d h) (hphase : (d.conns c).phase = .replaying sid [] response) :
    DeliveryInv ((d.setLock none).respond c response) h := by
  have hc := hI.lt_of_phase (c := c) (by rw [hphase]; simp)
  have hok := hI.phases c
  rw [hphase] at hok
  obtain ⟨hlock, hresp, -⟩ := hok
  have hcarry : ∀ sid', Carries sid' (d.conns c)
      { d.conns c with phase := .replying response .response } := fun sid' =>
    .of_sent rfl rfl (by rw [hphase]; simp [Phase.remaining, outputs])
  refine (hI.setConn hc hcarry hresp).setLock fun o => ?_
  rw [ServerState.setConn_conns, Function.update_apply]
  split
  · exact hresp
  · next ho => exact (hI.phases o).of_free (by rw [hlock]; simpa using Ne.symm ho)

/-- A request that leaves the sessions alone. -/
theorem poke (hI : DeliveryInv d h) (hc : (d.conns c).phase ≠ .unborn)
    (hrem : ∀ sid, (d.conns c).phase.remaining sid = []) (id : Nat) (sid : String)
    (answer : ServerState.Answer) : DeliveryInv (d.poke c id sid answer) h := by
  unfold ServerState.poke
  split
  · exact hI.respond hc hrem rfl
  · split
    · cases answer with
      | done => exact hI.respond hc hrem rfl
      | failed => exact hI.respond hc hrem rfl
    · exact hI.respond hc hrem rfl

theorem request (hI : DeliveryInv d h) {req : Request} {answer : ServerState.Answer}
    (hphase : (d.conns c).phase = .reading) (hlock : req.locks = true → d.lock = none)
    (hname : keepsName d (.request c req answer) = true) :
    DeliveryInv (d.request c answer req)
      (Deliveries.update d (.request c req answer) d' h) := by
  have hc : (d.conns c).phase ≠ .unborn := by rw [hphase]; simp
  have hrem : ∀ sid, (d.conns c).phase.remaining sid = [] := fun sid => by rw [hphase]; rfl
  cases req with
  | hello id clientId =>
    have hI' := hI.rename hc (of_decide_eq_true hname)
    refine hI'.respond ?_ (fun sid => ?_) rfl
    · simpa using hc
    · simpa using hrem sid
  | list id => exact hI.respond hc hrem rfl
  | create id paneId cwd cols rows shell args env =>
    simp only [ServerState.request, ServerState.createSession, Deliveries.update]
    by_cases hsize : cols = 0 ∨ rows = 0
    · rw [if_pos hsize]
      cases answer with
      | done sid =>
        simp only [if_pos hsize]
        exact hI.respond hc hrem rfl
      | failed message => exact hI.respond hc hrem rfl
    · rw [if_neg hsize]
      cases answer with
      | done sid =>
        simp only [if_neg hsize]
        exact (hI.create sid _).respond hc hrem rfl
      | failed message => exact hI.respond hc hrem rfl
  | attach id sid fromSeq =>
    simp only [ServerState.request, ServerState.attach, Deliveries.update]
    cases hs : d.sessions.lookup sid with
    | none => exact hI.respond hc hrem rfl
    | some session => exact hI.attach hphase (hlock rfl) hs rfl rfl rfl rfl rfl
  | detach id sid =>
    simp only [ServerState.request, ServerState.detach, Deliveries.update]
    split
    · exact hI.respond hc hrem rfl
    · next session hs =>
      refine (hI.setSessions (.insert
        (t := ServerState.unsubscribe (d.conns c).clientId session) hs rfl rfl ?_)).respond
        hc hrem rfl
      exact ServerState.unsubscribe_subscribers _ session
  | input id sid bytesB64 =>
    simp only [ServerState.request, ServerState.writeInput, Deliveries.update]
    split
    · exact hI.respond hc hrem rfl
    · exact hI.poke hc hrem id sid answer
  | resize id sid cols rows pixelWidth pixelHeight =>
    simp only [ServerState.request, ServerState.resize, Deliveries.update]
    split
    · exact hI.respond hc hrem rfl
    · split
      · exact hI.respond hc hrem rfl
      · exact hI.setPhase hc (fun sid => (hrem sid).symm) trivial
  | kill id sid =>
    simp only [ServerState.request, ServerState.kill, Deliveries.update]
    split
    · exact hI.respond hc hrem rfl
    · next session hs =>
      have hI' : DeliveryInv (d.setSessions (d.sessions.erase sid)) h :=
        hI.setSessions (.erase rfl)
      split
      · exact hI'.setPhase hc (fun sid => (hrem sid).symm) ⟨rfl, rfl⟩
      · exact hI'.respond hc hrem rfl
  | signal id sid signal => exact hI.poke hc hrem id sid answer

theorem resizeDone (hI : DeliveryInv d h) {id : Nat} {cols rows : UInt16}
    (hphase : (d.conns c).phase = .resizing id sid cols rows) (answer : ServerState.Answer) :
    DeliveryInv (d.resizeDone c id sid cols rows answer) h := by
  have hc : (d.conns c).phase ≠ .unborn := by rw [hphase]; simp
  have hrem : ∀ sid, (d.conns c).phase.remaining sid = [] := fun sid => by rw [hphase]; rfl
  unfold ServerState.resizeDone
  split
  · exact hI.respond hc hrem rfl
  · split
    · exact hI.respond hc hrem rfl
    · next session hs =>
      have hI' : DeliveryInv
          (d.publish sid { session with info := { session.info with cols, rows } }
          (.session { session.info with cols, rows })) h := hI.publish hs rfl rfl rfl
      obtain ⟨sent, hsent⟩ := ServerState.broadcast_conn
        (.session { session.info with cols, rows }) d.conns session.subscribers c
      refine hI'.respond ?_ (fun sid => ?_) rfl
      · simp only [ServerState.publish, hsent]
        exact hc
      · simp only [ServerState.publish, hsent]
        exact hrem sid

theorem send (hI : DeliveryInv d h) (hs : d.send c = some d') :
    DeliveryInv d' h := by
  unfold ServerState.send at hs
  split at hs
  · next message after hphase =>
    have hc : (d.conns c).phase ≠ .unborn := by rw [hphase]; simp
    have hrem : ∀ sid, (d.conns c).phase.remaining sid = [] := fun sid => by rw [hphase]; rfl
    have hout := hI.phases c
    rw [hphase] at hout
    have hnext : ∀ b, (After.next after b).Ok d.lock c ∧
        ∀ sid, (After.next after b).remaining sid = [] := by
      intro b
      cases after <;> cases b <;> exact ⟨trivial, fun _ => rfl⟩
    split at hs
    · next conn hconn =>
      obtain rfl := Option.some.inj hs
      obtain rfl := Connection.trySend_eq_some hconn
      refine hI.setConn (hI.lt_of_phase hc) (fun sid => ?_) (hnext true).1
      refine .push rfl rfl ?_
      rw [outputs_of_not_output hout, hrem, List.nil_append]
      exact (hnext true).2 sid
    · split at hs
      · cases hs
      · obtain rfl := Option.some.inj hs
        exact hI.setPhase hc (fun sid => ((hnext false).2 sid).trans (hrem sid).symm)
          (hnext false).1
  · cases hs

/-- The next `try_send` of `attach` or `kill`. -/
theorem tryNext (hI : DeliveryInv d h) (hkeep : keepsReplay d (.tryNext c) = true)
    (hs : d.tryNext c = some d') : DeliveryInv d' h := by
  unfold ServerState.tryNext at hs
  split at hs
  · next sid message pending response hphase =>
    obtain rfl := Option.some.inj hs
    refine hI.replay hphase fun hout => ?_
    simpa [keepsReplay, hphase, hout] using hkeep
  · next sid response hphase =>
    obtain rfl := Option.some.inj hs
    exact hI.release hphase
  · next t pending event response hphase =>
    obtain rfl := Option.some.inj hs
    have hok := hI.phases c
    rw [hphase] at hok
    have hsame : ((d.trySend t event).conns c).phase = (d.conns c).phase := by
      rw [ServerState.trySend, ServerState.setConn_conns, Function.update_apply]
      split
      · next htc =>
        cases hsend : (d.conns t).trySend event with
        | none => rw [htc]; rfl
        | some conn => rw [htc, Connection.trySend_eq_some hsend]; rfl
      · rfl
    refine (hI.trySend hok.1).setPhase ?_ (fun sid => ?_) hok
    · rw [hsame, hphase]
      simp
    · rw [hsame, hphase]
      rfl
  · next event response hphase =>
    obtain rfl := Option.some.inj hs
    have hok := hI.phases c
    rw [hphase] at hok
    exact hI.respond (by rw [hphase]; simp) (fun sid => by rw [hphase]; rfl) hok.2
  · cases hs

/-- **Invariant preservation.** -/
theorem step {op : ServerOp} (hI : DeliveryInv d h) (hname : keepsName d op = true)
    (hreplay : keepsReplay d op = true) (hs : d.step op = some d') :
    DeliveryInv d' (Deliveries.update d op d' h) := by
  cases op with
  | accept =>
    obtain rfl := Option.some.inj hs
    exact hI.accept
  | request c req answer =>
    simp only [ServerState.step, Option.ite_none_right_eq_some] at hs
    obtain ⟨⟨hphase, hlock⟩, hs⟩ := hs
    obtain rfl := Option.some.inj hs
    exact hI.request hphase hlock hname
  | readError c error =>
    simp only [ServerState.step, Option.ite_none_right_eq_some] at hs
    obtain ⟨hphase, hs⟩ := hs
    obtain rfl := Option.some.inj hs
    have hc : (d.conns c).phase ≠ .unborn := by rw [hphase]; simp
    have hrem : ∀ sid, (d.conns c).phase.remaining sid = [] := fun sid => by rw [hphase]; rfl
    cases error with
    | invalid message => exact hI.setPhase hc (fun sid => (hrem sid).symm) rfl
    | tooLarge => exact hI.setPhase hc (fun sid => (hrem sid).symm) rfl
    | ended => exact hI.setPhase hc (fun sid => (hrem sid).symm) trivial
  | tryNext c => exact hI.tryNext hreplay hs
  | resized c answer =>
    simp only [ServerState.step] at hs
    split at hs
    · next id sid cols rows hphase =>
      obtain ⟨-, hs⟩ := Option.ite_none_right_eq_some.mp hs
      obtain rfl := Option.some.inj hs
      exact hI.resizeDone hphase answer
    · cases hs
  | send c => exact hI.send hs
  | disconnect c =>
    simp only [ServerState.step, Option.ite_none_right_eq_some] at hs
    obtain ⟨⟨hphase, -⟩, hs⟩ := hs
    obtain rfl := Option.some.inj hs
    have hc : (d.conns c).phase ≠ .unborn := by rw [hphase]; simp
    refine (hI.setSessions (.mapValues rfl)).setPhase hc (fun sid => ?_) trivial
    exact (congrArg (Phase.remaining sid) hphase).symm
  | join c =>
    simp only [ServerState.step, Option.ite_none_right_eq_some] at hs
    obtain ⟨⟨hphase, -⟩, hs⟩ := hs
    obtain rfl := Option.some.inj hs
    exact hI.setPhase (by rw [hphase]; simp) (fun sid => by rw [hphase]; rfl) trivial
  | take c =>
    simp only [ServerState.step, Option.ite_none_right_eq_some] at hs
    obtain ⟨⟨hrecv, -⟩, hs⟩ := hs
    obtain rfl := Option.some.inj hs
    exact hI.setConn (hI.lt_of_receiver hrecv) (fun sid => .of_sent rfl rfl rfl) (hI.phases c)
  | writeFailed c =>
    simp only [ServerState.step, Option.ite_none_right_eq_some] at hs
    obtain ⟨⟨hrecv, -⟩, hs⟩ := hs
    obtain rfl := Option.some.inj hs
    exact hI.setConn (hI.lt_of_receiver hrecv) (fun sid => .of_sent rfl rfl rfl) (hI.phases c)
  | writerDone c =>
    simp only [ServerState.step, Option.ite_none_right_eq_some] at hs
    obtain ⟨⟨hrecv, -⟩, hs⟩ := hs
    obtain rfl := Option.some.inj hs
    exact hI.setConn (hI.lt_of_receiver hrecv) (fun sid => .of_sent rfl rfl rfl) (hI.phases c)
  | deliverOutput sid bytes =>
    simp only [ServerState.step, Option.ite_none_right_eq_some] at hs
    obtain ⟨hlock, hs⟩ := hs
    obtain rfl := Option.some.inj hs
    simp only [ServerState.deliverOutput, Deliveries.update]
    cases hs : d.sessions.lookup sid with
    | none => exact hI
    | some session => exact hI.deliver hlock hs bytes
  | finishSession sid code =>
    simp only [ServerState.step, Option.ite_none_right_eq_some] at hs
    obtain ⟨hlock, hs⟩ := hs
    obtain rfl := Option.some.inj hs
    simp only [ServerState.finishSession, Deliveries.update]
    split
    · exact hI
    · next session hs =>
      split
      · have hI' : DeliveryInv (d.publish sid
            { session with info := { session.info with alive := false } } (.exit sid code)) h :=
          hI.publish hs rfl rfl rfl
        exact hI'.setSessions (.erase rfl)
      · exact hI

end DeliveryInv

end Goble.Pty
