import Goble.Pty.ServerStep

/-!
# Exit is final

What the queues are given of one session around its end. Two paths announce it: the session's
thread, under the lock, and a `kill`, which takes the session out of the table under the lock and
sends the event afterwards. The history (`Attachments`) counts how often the session was created
and how often each connection was attached to it; ids are fresh, so it is created once.

* `ExitInv` — while the session is in the table no exit has been announced; once it is not, the
  exits queued and those a `kill` has still to send are within the attachments, and nobody has an
  event of the session left to send.
* `exit_final` — along every run a queue gets at most one exit for each attachment, and after it
  neither output nor a session event.
-/

namespace Goble.Pty

namespace ServerMessage

def isExitOf (sid : String) : ServerMessage → Bool
  | .exit sessionId _ => decide (sessionId = sid)
  | _ => false

def isEventOf (sid : String) : ServerMessage → Bool
  | .output sessionId _ _ => decide (sessionId = sid)
  | .session info => decide (info.sessionId = sid)
  | _ => false

def isReply : ServerMessage → Bool
  | .ok _ _ | .sessions _ _ | .error _ _ => true
  | _ => false

variable {sid : String} {m : ServerMessage}

theorem isExitOf_of_isReply (h : m.isReply = true) : m.isExitOf sid = false := by
  cases m with
  | ok | sessions | error => rfl
  | _ => cases h

theorem isEventOf_of_isReply (h : m.isReply = true) : m.isEventOf sid = false := by
  cases m with
  | ok | sessions | error => rfl
  | _ => cases h

theorem isEventOf_of_isExitOf (h : m.isExitOf sid = true) : m.isEventOf sid = false := by
  cases m with
  | exit => rfl
  | _ => cases h

end ServerMessage

/-- The exits of the session a `kill` has still to send. -/
def Phase.exits (sid : String) : Phase → Option (List ConnId)
  | .exiting pending event _ => if event.isExitOf sid then some pending else none
  | _ => none

/-- What a thread has still to send: the replay is about its own session and holds the lock, a
`kill` sends no other events, and all else are responses. -/
def Phase.Sound (sid : String) (lock : Option ConnId) (live : Prop) (c : ConnId) : Phase → Prop
  | .replaying _ pending response => lock = some c ∧ response.isReply = true ∧
    ∀ m ∈ pending, m.isExitOf sid = false ∧ (m.isEventOf sid = true → live)
  | .exiting _ event response => event.isEventOf sid = false ∧ response.isReply = true
  | .replying message _ => message.isReply = true
  | _ => True

variable {c : ConnId}

theorem Phase.Sound.of_free {sid : String} {lock lock' : Option ConnId} {live live' : Prop}
    {phase : Phase} (h : phase.Sound sid lock live c) (hlock : lock ≠ some c) :
    phase.Sound sid lock' live' c := by
  cases phase with
  | replaying => exact absurd h.1 hlock
  | _ => exact h

theorem Phase.Sound.mono {sid : String} {lock : Option ConnId} {live live' : Prop} {phase : Phase}
    (h : phase.Sound sid lock live c) (hlive : live → live') :
    phase.Sound sid lock live' c := by
  cases phase with
  | replaying =>
    exact ⟨h.1, h.2.1, fun m hm => ⟨(h.2.2 m hm).1, fun he => hlive ((h.2.2 m hm).2 he)⟩⟩
  | _ => exact h

/-- How often the session was created, and how often each connection was attached to it. -/
structure Attachments where
  created : Nat
  attached : ConnId → Nat

def ServerOp.creates (sid : String) : ServerOp → Bool
  | .request _ (.create _ _ _ cols rows _ _ _) (.done sessionId) =>
    decide (sessionId = sid ∧ cols ≠ 0 ∧ rows ≠ 0)
  | _ => false

def ServerOp.attaches (sid : String) (d : ServerState) : ServerOp → Option ConnId
  | .request c (.attach _ sessionId _) _ =>
    if sessionId = sid ∧ (d.sessions.lookup sid).isSome = true then some c else none
  | _ => none

def Attachments.update (sid : String) (d : ServerState) (op : ServerOp) (_ : ServerState)
    (h : Attachments) : Attachments where
  created := h.created + if op.creates sid then 1 else 0
  attached :=
    match op.attaches sid d with
    | some c => Function.update h.attached c (h.attached c + 1)
    | none => h.attached

/-- The daemon with the history of one session. -/
def exitServer (sid : String) : Machine (ServerState × Attachments) ServerOp :=
  serverMachine.withHistory ⟨0, fun _ => 0⟩ (Attachments.update sid)

/-- How many exits of the session a queue has been given. -/
def Connection.exitCount (sid : String) (conn : Connection) : Nat :=
  conn.sent.countP (·.isExitOf sid)

def Connection.Final (sid : String) (conn : Connection) : Prop :=
  conn.sent.Pairwise fun m m' => m.isExitOf sid = true → m'.isEventOf sid = false

def ServerState.Live (sid : String) (d : ServerState) : Prop :=
  (d.sessions.lookup sid).isSome = true

/-! ### The invariant -/

/-- How many subscriptions of a session go to a queue. -/
def Session.count (session : Session) (c : ConnId) : Nat :=
  session.subscribers.countP fun sub => sub.tx = c

structure ExitInv (sid : String) (d : ServerState) (h : Attachments) : Prop where
  keyed : ∀ k session, d.sessions.lookup k = some session → session.info.sessionId = k
  phases : ∀ c, (d.conns c).phase.Sound sid d.lock (d.Live sid) c
  unborn : h.created = 0 → d.sessions.lookup sid = none
  /-- Before the session and while it lasts nothing is said of its end. -/
  quiet : h.created = 0 ∨ d.Live sid →
    ∀ c, (d.conns c).phase.exits sid = none ∧ (d.conns c).exitCount sid = 0
  live : ∀ session, d.sessions.lookup sid = some session → ∀ c, session.count c ≤ h.attached c
  gone : d.sessions.lookup sid = none → ∀ c, (d.conns c).exitCount sid ≤ h.attached c
  /-- One `kill` at most is sending exits, within the attachments. -/
  sending : ∀ o pending, (d.conns o).phase.exits sid = some pending →
    (∀ c, (d.conns c).exitCount sid + pending.count c ≤ h.attached c) ∧
      ∀ o', (d.conns o').phase.exits sid ≠ none → o' = o
  final : ∀ c, (d.conns c).Final sid

variable {more : List ServerMessage}

namespace Connection

variable {sid : String} {conn conn' : Connection}

theorem exitCount_append (hsent : conn'.sent = conn.sent ++ more)
    (hmore : ∀ m ∈ more, m.isExitOf sid = false) : conn'.exitCount sid = conn.exitCount sid := by
  have hnone : more.countP (·.isExitOf sid) = 0 :=
    List.countP_eq_zero.mpr fun m hm => by rw [hmore m hm]; decide
  rw [exitCount, hsent, List.countP_append, hnone]
  rfl

theorem final_append (h : conn.Final sid) (hsent : conn'.sent = conn.sent ++ more)
    (hmore : ∀ m ∈ more, m.isExitOf sid = false)
    (hevent : ∀ m ∈ more, m.isEventOf sid = true → conn.exitCount sid = 0) :
    conn'.Final sid := by
  rw [Final, hsent, List.pairwise_append]
  refine ⟨h, List.pairwise_of_forall_mem_list fun m hm _ _ hexit => ?_,
    fun m hm m' hm' hexit => ?_⟩
  · rw [hmore m hm] at hexit
    cases hexit
  · by_contra hev
    have hzero := hevent m' hm' (Bool.not_eq_false _ ▸ hev)
    exact List.countP_eq_zero.mp hzero m hm hexit

theorem final_append_exits (h : conn.Final sid) (hsent : conn'.sent = conn.sent ++ more)
    (hmore : ∀ m ∈ more, m.isExitOf sid = true) :
    conn'.Final sid := by
  rw [Final, hsent, List.pairwise_append]
  have hquiet : ∀ m ∈ more, m.isEventOf sid = false :=
    fun m hm => ServerMessage.isEventOf_of_isExitOf (hmore m hm)
  exact ⟨h, List.pairwise_of_forall_mem_list fun _ _ m' hm' _ => hquiet m' hm',
    fun _ _ m' hm' _ => hquiet m' hm'⟩

theorem trySend_getD (conn : Connection) (m : ServerMessage) :
    ∃ more, (∀ m' ∈ more, m' = m) ∧ more.length ≤ 1 ∧
      (conn.trySend m).getD conn = { conn with sent := conn.sent ++ more } := by
  cases hsend : conn.trySend m with
  | none => exact ⟨[], fun _ hm => absurd hm List.not_mem_nil, Nat.zero_le 1, by simp⟩
  | some conn' =>
    refine ⟨[m], fun _ hm => List.mem_singleton.mp hm, Nat.le_refl 1, ?_⟩
    exact Connection.trySend_eq_some hsend

end Connection

theorem ServerState.broadcast_more (event : ServerMessage) (conns : ConnId → Connection)
    (subs : List Subscriber) (c : ConnId) :
    ∃ more, (∀ m ∈ more, m = event) ∧ more.length ≤ subs.countP (fun sub => sub.tx = c) ∧
      (broadcast event conns subs).1 c = { conns c with sent := (conns c).sent ++ more } := by
  induction subs generalizing conns with
  | nil => exact ⟨[], fun _ hm => absurd hm List.not_mem_nil, Nat.le_refl 0, by simp [broadcast]⟩
  | cons sub subs ih =>
    rw [broadcast]
    split
    · next conn hconn =>
      obtain ⟨more, hmore, hlen, heq⟩ := ih (Function.update conns sub.tx conn)
      simp only [heq, Function.update_apply, List.countP_cons]
      by_cases hc : c = sub.tx
      · subst hc
        refine ⟨event :: more, List.forall_mem_cons.mpr ⟨rfl, hmore⟩, ?_, ?_⟩
        · simp only [List.length_cons, decide_true, if_true]
          exact Nat.succ_le_succ hlen
        · obtain rfl := Connection.trySend_eq_some hconn
          simp
      · refine ⟨more, hmore, Nat.le_trans hlen (Nat.le_add_right _ _), ?_⟩
        rw [if_neg hc]
    · obtain ⟨more, hmore, hlen, heq⟩ := ih conns
      rw [List.countP_cons]
      exact ⟨more, hmore, Nat.le_trans hlen (Nat.le_add_right _ _), heq⟩

namespace ExitInv

variable {sid : String} {d d' : ServerState} {h : Attachments}

theorem initial : ExitInv sid .init ⟨0, fun _ => 0⟩ where
  keyed _ _ hs := by cases hs
  phases _ := trivial
  unborn _ := rfl
  quiet _ _ := ⟨rfl, rfl⟩
  live _ hs := by cases hs
  gone _ _ := Nat.le_refl 0
  sending _ _ hp := by cases hp
  final _ := List.Pairwise.nil

/-- A step that neither begins nor ends the session, and announces no end of it. -/
theorem calm (hI : ExitInv sid d h)
    (hkeyed : ∀ k session, d'.sessions.lookup k = some session → session.info.sessionId = k)
    (hphases : ∀ c, (d'.conns c).phase.Sound sid d'.lock (d'.Live sid) c)
    (hlive : ∀ session', d'.sessions.lookup sid = some session' →
      ∃ session, d.sessions.lookup sid = some session ∧
        session'.subscribers.Sublist session.subscribers)
    (hgone : d'.sessions.lookup sid = none → d.sessions.lookup sid = none)
    (hcount : ∀ c, (d'.conns c).exitCount sid ≤ (d.conns c).exitCount sid)
    (hfinal : ∀ c, (d'.conns c).Final sid)
    (hexits : ∀ c pending, (d'.conns c).phase.exits sid = some pending →
      (d.conns c).phase.exits sid = some pending) : ExitInv sid d' h where
  keyed := hkeyed
  phases := hphases
  unborn hzero := by
    by_contra hne
    obtain ⟨session', hs'⟩ := Option.ne_none_iff_exists'.mp hne
    obtain ⟨session, hs, -⟩ := hlive session' hs'
    rw [hI.unborn hzero] at hs
    cases hs
  quiet hq c := by
    have hq' : h.created = 0 ∨ d.Live sid := by
      refine hq.imp_right fun hl => ?_
      obtain ⟨session', hs'⟩ := Option.isSome_iff_exists.mp hl
      obtain ⟨session, hs, -⟩ := hlive session' hs'
      exact Option.isSome_iff_exists.mpr ⟨session, hs⟩
    obtain ⟨hnone, hzero⟩ := hI.quiet hq' c
    refine ⟨?_, Nat.le_zero.mp (hzero ▸ hcount c)⟩
    by_contra hne
    obtain ⟨pending, hp⟩ := Option.ne_none_iff_exists'.mp hne
    rw [hexits c pending hp] at hnone
    cases hnone
  live session' hs' c := by
    obtain ⟨session, hs, hsub⟩ := hlive session' hs'
    exact Nat.le_trans hsub.countP_le (hI.live session hs c)
  gone hnone c := Nat.le_trans (hcount c) (hI.gone (hgone hnone) c)
  sending o pending hp := by
    obtain ⟨hle, hone⟩ := hI.sending o pending (hexits o pending hp)
    refine ⟨fun c => Nat.le_trans (Nat.add_le_add_right (hcount c) _) (hle c), fun o' hne => ?_⟩
    obtain ⟨pending', hp'⟩ := Option.ne_none_iff_exists'.mp hne
    exact hone o' (by rw [hexits o' pending' hp']; simp)
  final := hfinal

/-- While events of the session are sent no exit is queued. -/
theorem exitCount_eq (hI : ExitInv sid d h) (hlive : d.Live sid) (c : ConnId) :
    (d.conns c).exitCount sid = 0 :=
  (hI.quiet (.inr hlive) c).2

/-- One connection changes: its queue gets messages that announce no end. -/
theorem setConn (hI : ExitInv sid d h) {conn : Connection}
    (hsent : conn.sent = (d.conns c).sent ++ more)
    (hmore : ∀ m ∈ more, m.isExitOf sid = false ∧ (m.isEventOf sid = true → d.Live sid))
    (hphase : conn.phase.Sound sid d.lock (d.Live sid) c)
    (hexits : ∀ pending, conn.phase.exits sid = some pending →
      (d.conns c).phase.exits sid = some pending) : ExitInv sid (d.setConn c conn) h := by
  refine hI.calm hI.keyed ?_ (fun session' hs' => ⟨session', hs', .refl _⟩) id ?_ ?_ ?_
  · intro o
    rw [ServerState.setConn_conns, Function.update_apply]
    split
    · next ho => exact ho ▸ hphase
    · exact hI.phases o
  · intro o
    rw [ServerState.setConn_conns, Function.update_apply]
    split
    · next ho =>
      rw [ho]
      exact Nat.le_of_eq (Connection.exitCount_append hsent fun m hm => (hmore m hm).1)
    · exact Nat.le_refl _
  · intro o
    rw [ServerState.setConn_conns, Function.update_apply]
    split
    · exact Connection.final_append (hI.final c) hsent (fun m hm => (hmore m hm).1)
        fun m hm he => hI.exitCount_eq ((hmore m hm).2 he) c
    · exact hI.final o
  · intro o pending
    rw [ServerState.setConn_conns, Function.update_apply]
    split
    · next ho => exact ho ▸ hexits pending
    · exact id

theorem setPhase (hI : ExitInv sid d h) {phase : Phase}
    (hphase : phase.Sound sid d.lock (d.Live sid) c)
    (hexits : ∀ pending, phase.exits sid = some pending →
      (d.conns c).phase.exits sid = some pending) : ExitInv sid (d.setPhase c phase) h :=
  hI.setConn (List.append_nil _).symm (fun _ hm => absurd hm List.not_mem_nil) hphase hexits

variable {response : ServerMessage}

theorem respond (hI : ExitInv sid d h) (hreply : response.isReply = true) :
    ExitInv sid (d.respond c response) h :=
  hI.setPhase hreply fun _ hp => by cases hp

theorem setSessions (hI : ExitInv sid d h) {sessions : Table String Session}
    (hkeyed : ∀ k session, sessions.lookup k = some session → session.info.sessionId = k)
    (hlive : ∀ session', sessions.lookup sid = some session' →
      ∃ session, d.sessions.lookup sid = some session ∧
        session'.subscribers.Sublist session.subscribers)
    (hgone : sessions.lookup sid = none → d.sessions.lookup sid = none) :
    ExitInv sid (d.setSessions sessions) h := by
  refine hI.calm hkeyed (fun c => (hI.phases c).mono fun hl => ?_) hlive hgone
    (fun _ => Nat.le_refl _) hI.final fun _ _ => id
  by_contra hnone
  have := hgone (Option.not_isSome_iff_eq_none.mp hnone)
  rw [ServerState.Live, this] at hl
  cases hl

theorem trySend (hI : ExitInv sid d h) {m : ServerMessage} (hm : m.isExitOf sid = false)
    (hevent : m.isEventOf sid = true → d.Live sid) :
    ExitInv sid (d.trySend c m) h := by
  obtain ⟨more, hmore, -, heq⟩ := Connection.trySend_getD (d.conns c) m
  rw [ServerState.trySend, heq]
  refine hI.setConn rfl (fun m' hm' => ?_) (hI.phases c) fun _ hp => hp
  rw [hmore m' hm']
  exact ⟨hm, hevent⟩

variable {k : String}

theorem publish (hI : ExitInv sid d h) {s t : Session} {event : ServerMessage}
    (hs : d.sessions.lookup k = some s) (hkey : t.info.sessionId = k)
    (hsubs : t.subscribers = s.subscribers) (hexit : event.isExitOf sid = false)
    (hevent : event.isEventOf sid = true → k = sid) : ExitInv sid (d.publish k t event) h := by
  have hlive : event.isEventOf sid = true → d.Live sid := fun he =>
    Option.isSome_iff_exists.mpr ⟨s, hevent he ▸ hs⟩
  have hlookup : ∀ k' session', (d.publish k t event).sessions.lookup k' = some session' →
      (k' = k ∧ session'.info = t.info ∧ session'.subscribers.Sublist s.subscribers) ∨
        d.sessions.lookup k' = some session' := by
    intro k' session' hs'
    simp only [ServerState.publish, Table.lookup_insert_eq] at hs'
    split at hs'
    · next heq =>
      obtain rfl := Option.some.inj hs'
      exact .inl ⟨heq, rfl, hsubs ▸ ServerState.broadcast_sublist event d.conns t.subscribers⟩
    · exact .inr hs'
  have hgone : (d.publish k t event).sessions.lookup sid = none →
      d.sessions.lookup sid = none := by
    intro hnone
    simp only [ServerState.publish, Table.lookup_insert_eq] at hnone
    split at hnone
    · cases hnone
    · exact hnone
  have hconn : ∀ c, ∃ more, (∀ m ∈ more, m = event) ∧ (d.publish k t event).conns c =
      { d.conns c with sent := (d.conns c).sent ++ more } := by
    intro c
    obtain ⟨more, hmore, -, heq⟩ := ServerState.broadcast_more event d.conns t.subscribers c
    exact ⟨more, hmore, heq⟩
  refine hI.calm ?_ ?_ ?_ hgone ?_ ?_ ?_
  · intro k' session' hs'
    obtain ⟨rfl, hinfo, -⟩ | hs' := hlookup k' session' hs'
    · rw [hinfo]
      exact hkey
    · exact hI.keyed k' session' hs'
  · intro c
    obtain ⟨more, -, heq⟩ := hconn c
    rw [heq]
    refine (hI.phases c).mono fun hl => ?_
    by_contra hnone
    have := hgone (Option.not_isSome_iff_eq_none.mp hnone)
    rw [ServerState.Live, this] at hl
    cases hl
  · intro session' hs'
    obtain ⟨hk, -, hsub⟩ | hs' := hlookup sid session' hs'
    · exact ⟨s, hk ▸ hs, hsub⟩
    · exact ⟨session', hs', .refl _⟩
  · intro c
    obtain ⟨more, hmore, heq⟩ := hconn c
    rw [heq]
    refine Nat.le_of_eq (Connection.exitCount_append rfl fun m hm => ?_)
    rw [hmore m hm]
    exact hexit
  · intro c
    obtain ⟨more, hmore, heq⟩ := hconn c
    rw [heq]
    refine Connection.final_append (hI.final c) rfl (fun m hm => ?_) fun m hm he => ?_
    · rw [hmore m hm]
      exact hexit
    · rw [hmore m hm] at he
      exact hI.exitCount_eq (hlive he) c
  · intro c pending hp
    obtain ⟨more, -, heq⟩ := hconn c
    rwa [heq] at hp

/-! ### The session's life -/

theorem accept (hI : ExitInv sid d h) : ExitInv sid d.accept h := by
  refine hI.calm hI.keyed ?_ (fun session' hs' => ⟨session', hs', .refl _⟩) id ?_ ?_ ?_
  · intro o
    rw [ServerState.accept_conns, Function.update_apply]
    split
    · trivial
    · exact hI.phases o
  · intro o
    rw [ServerState.accept_conns, Function.update_apply]
    split
    · exact Nat.zero_le _
    · exact Nat.le_refl _
  · intro o
    rw [ServerState.accept_conns, Function.update_apply]
    split
    · exact List.Pairwise.nil
    · exact hI.final o
  · intro o pending
    rw [ServerState.accept_conns, Function.update_apply]
    split
    · intro hp
      cases hp
    · exact id

variable {session : Session}

theorem create (hI : ExitInv sid d h) (hzero : h.created = 0) (hlock : d.lock = none)
    (hkey : session.info.sessionId = sid) (hsubs : session.subscribers = []) :
    ExitInv sid (d.setSessions (d.sessions.insert sid session)) { h with created := 1 } where
  keyed k session' hs' := by
    replace hs' : (d.sessions.insert sid session).lookup k = some session' := hs'
    rw [Table.lookup_insert_eq] at hs'
    split at hs'
    · next heq =>
      obtain rfl := Option.some.inj hs'
      exact hkey.trans heq.symm
    · exact hI.keyed k session' hs'
  phases c := (hI.phases c).of_free (by rw [hlock]; simp)
  unborn hone := by cases hone
  quiet _ := hI.quiet (.inl hzero)
  live session' hs' c := by
    rw [ServerState.setSessions_sessions, AList.lookup_insert] at hs'
    obtain rfl := Option.some.inj hs'
    rw [Session.count, hsubs]
    exact Nat.zero_le _
  gone hnone := by
    rw [ServerState.setSessions_sessions, AList.lookup_insert] at hnone
    cases hnone
  sending o pending hp := by
    exact absurd ((hI.quiet (.inl hzero) o).1.symm.trans hp) (by simp)
  final := hI.final

theorem setOther (hI : ExitInv sid d h) {sessions : Table String Session}
    (hkeyed : ∀ k session, sessions.lookup k = some session → session.info.sessionId = k)
    (hsame : sessions.lookup sid = d.sessions.lookup sid) :
    ExitInv sid (d.setSessions sessions) h :=
  hI.setSessions hkeyed (fun session' hs' => ⟨session', hsame ▸ hs', .refl _⟩)
    fun hnone => hsame ▸ hnone

theorem keyed_insert (hI : ExitInv sid d h) (hkey : session.info.sessionId = k) (k' : String)
    (session' : Session) (hs' : (d.sessions.insert k session).lookup k' = some session') :
    session'.info.sessionId = k' := by
  rw [Table.lookup_insert_eq] at hs'
  split at hs'
  · next heq =>
    obtain rfl := Option.some.inj hs'
    exact hkey.trans heq.symm
  · exact hI.keyed k' session' hs'

theorem keyed_erase (hI : ExitInv sid d h) (k k' : String) (session' : Session)
    (hs' : (d.sessions.erase k).lookup k' = some session') : session'.info.sessionId = k' := by
  rw [Table.lookup_erase_eq] at hs'
  split at hs'
  · cases hs'
  · exact hI.keyed k' session' hs'

theorem replayed (k : String) (ring : ReplayRing) {info : SessionInfo} (hkey : info.sessionId = k)
    (fromSeq : Nat) : ∀ m ∈ ServerMessage.session info :: (ring.chunksFrom fromSeq).map
      (fun (seq, bytes) => ServerMessage.ofOutput k seq bytes),
      m.isExitOf sid = false ∧ (m.isEventOf sid = true → k = sid) := by
  intro m hm
  obtain rfl | hm := List.mem_cons.mp hm
  · exact ⟨rfl, fun he => hkey.symm.trans (of_decide_eq_true he)⟩
  · obtain ⟨chunk, -, rfl⟩ := List.mem_map.mp hm
    exact ⟨rfl, fun he => of_decide_eq_true he⟩

theorem subscribe (hI : ExitInv sid d h) {session' : Session}
    (hs : d.sessions.lookup k = some session) (hkey : session'.info = session.info)
    (hsubs : ∀ c', session'.count c' ≤ session.count c' + if c' = c then 1 else 0)
    {h' : Attachments} (hcreated : h'.created = h.created)
    (hattached : ∀ c', h'.attached c' = h.attached c' + if k = sid ∧ c' = c then 1 else 0) :
    ExitInv sid (d.setSessions (d.sessions.insert k session')) h' := by
  have hlookup : ∀ s', (d.sessions.insert k session').lookup sid = some s' →
      ∃ s, d.sessions.lookup sid = some s ∧
        ∀ c', s'.count c' ≤ s.count c' + if k = sid ∧ c' = c then 1 else 0 := by
    intro s' hs'
    rw [Table.lookup_insert_eq] at hs'
    split at hs'
    · next heq =>
      obtain rfl := Option.some.inj hs'
      exact ⟨session, heq ▸ hs, fun c' => by simpa [heq] using hsubs c'⟩
    · exact ⟨s', hs', fun c' => Nat.le_add_right _ _⟩
  have hgone : (d.sessions.insert k session').lookup sid = none → d.sessions.lookup sid = none := by
    intro hnone
    rw [Table.lookup_insert_eq] at hnone
    split at hnone
    · cases hnone
    · exact hnone
  have hle : ∀ c', h.attached c' ≤ h'.attached c' :=
    fun c' => hattached c' ▸ Nat.le_add_right _ _
  have hback : (d.setSessions (d.sessions.insert k session')).Live sid → d.Live sid := by
    intro hl
    obtain ⟨s', hs'⟩ := Option.isSome_iff_exists.mp hl
    obtain ⟨s, hs, -⟩ := hlookup s' hs'
    exact Option.isSome_iff_exists.mpr ⟨s, hs⟩
  refine ⟨hI.keyed_insert (hkey ▸ hI.keyed k session hs), fun o => (hI.phases o).mono fun hl => ?_,
    fun hzero => ?_, fun hq => hI.quiet (hq.imp (fun hzero => hcreated ▸ hzero) hback),
    fun s' hs' c' => ?_, fun hnone o => Nat.le_trans (hI.gone (hgone hnone) o) (hle o),
    fun o p hp => ?_, hI.final⟩
  · by_contra hnone
    have := hgone (Option.not_isSome_iff_eq_none.mp hnone)
    rw [ServerState.Live, this] at hl
    cases hl
  · by_contra hne
    obtain ⟨s', hs'⟩ := Option.ne_none_iff_exists'.mp hne
    obtain ⟨s, hs, -⟩ := hlookup s' hs'
    rw [hI.unborn (hcreated ▸ hzero)] at hs
    cases hs
  · obtain ⟨s, hs, hsub⟩ := hlookup s' hs'
    rw [hattached]
    exact Nat.le_trans (hsub c') (Nat.add_le_add_right (hI.live s hs c') _)
  · obtain ⟨hsum, hone⟩ := hI.sending o p hp
    exact ⟨fun c' => Nat.le_trans (hsum c') (hle c'), hone⟩

theorem replay (hI : ExitInv sid d h) {pending : List ServerMessage} (hlock : d.lock = none)
    (hpending : ∀ m ∈ pending, m.isExitOf sid = false ∧ (m.isEventOf sid = true → d.Live sid))
    (hreply : response.isReply = true) :
    ExitInv sid ((d.setLock (some c)).setPhase c (.replaying k pending response)) h := by
  -- nobody else is in a replay
  have hI' : ExitInv sid (d.setLock (some c)) h :=
    { hI with phases := fun o => (hI.phases o).of_free (by rw [hlock]; simp) }
  exact hI'.setPhase ⟨rfl, hreply, hpending⟩ fun _ hp => by cases hp

theorem release (hI : ExitInv sid d h) (hphase : (d.conns c).phase = .replaying k [] response) :
    ExitInv sid ((d.setLock none).respond c response) h := by
  have hsound := hI.phases c
  rw [hphase] at hsound
  refine hI.calm hI.keyed ?_ (fun session' hs' => ⟨session', hs', .refl _⟩) id ?_ ?_ ?_
  · intro o
    simp only [ServerState.respond, ServerState.setPhase, ServerState.setConn_conns,
      Function.update_apply]
    split
    · exact hsound.2.1
    · next ho =>
      refine (hI.phases o).of_free ?_
      rw [hsound.1]
      exact fun heq => ho (Option.some.inj heq).symm
  · intro o
    simp only [ServerState.respond, ServerState.setPhase, ServerState.setConn_conns,
      Function.update_apply]
    split
    · next ho => rw [ho]; exact Nat.le_refl _
    · exact Nat.le_refl _
  · intro o
    simp only [ServerState.respond, ServerState.setPhase, ServerState.setConn_conns,
      Function.update_apply]
    split
    · exact hI.final c
    · exact hI.final o
  · intro o pending
    simp only [ServerState.respond, ServerState.setPhase, ServerState.setConn_conns,
      Function.update_apply]
    split
    · intro hp
      cases hp
    · exact id

theorem finish (hI : ExitInv sid d h) (hlock : d.lock = none) {s t : Session}
    (hs : d.sessions.lookup sid = some s) (hsubs : t.subscribers = s.subscribers) (code : Int32) :
    ExitInv sid ((d.publish sid t (.exit sid code)).setSessions
      ((d.publish sid t (.exit sid code)).sessions.erase sid)) h := by
  have hlive : d.Live sid := Option.isSome_iff_exists.mpr ⟨s, hs⟩
  have hnone : ((d.publish sid t (.exit sid code)).sessions.erase sid).lookup sid = none :=
    AList.lookup_erase _ _
  have hconn : ∀ c, ∃ more, (∀ m ∈ more, m = .exit sid code) ∧ more.length ≤ h.attached c ∧
      (d.publish sid t (.exit sid code)).conns c =
        { d.conns c with sent := (d.conns c).sent ++ more } := by
    intro c
    obtain ⟨more, hmore, hlen, heq⟩ :=
      ServerState.broadcast_more (.exit sid code) d.conns t.subscribers c
    exact ⟨more, hmore, Nat.le_trans hlen (hsubs ▸ hI.live s hs c), heq⟩
  have hexits : ∀ c, ((d.publish sid t (.exit sid code)).conns c).phase.exits sid = none := by
    intro c
    obtain ⟨more, -, -, heq⟩ := hconn c
    rw [heq]
    exact (hI.quiet (.inr hlive) c).1
  refine ⟨fun k session hk => ?_, fun c => ?_, fun _ => hnone, fun hq => ?_, fun session hs' => ?_,
    fun _ c => ?_, fun o pending hp => ?_, fun c => ?_⟩
  · replace hk : ((d.publish sid t (.exit sid code)).sessions.erase sid).lookup k =
      some session := hk
    simp only [Table.lookup_erase_eq, ServerState.publish, Table.lookup_insert_eq] at hk
    split at hk
    · cases hk
    · exact hI.keyed k session hk
  · obtain ⟨more, -, -, heq⟩ := hconn c
    simp only [ServerState.setSessions_conns, heq]
    exact (hI.phases c).of_free (by rw [hlock]; simp)
  · -- the session was there, so it was created
    obtain hzero | hl := hq
    · rw [hI.unborn hzero] at hs
      cases hs
    · rw [ServerState.Live, ServerState.setSessions_sessions, hnone] at hl
      cases hl
  · rw [ServerState.setSessions_sessions, hnone] at hs'
    cases hs'
  · obtain ⟨more, hmore, hlen, heq⟩ := hconn c
    simp only [ServerState.setSessions_conns, heq, Connection.exitCount, List.countP_append]
    have hzero : (d.conns c).sent.countP (·.isExitOf sid) = 0 := hI.exitCount_eq hlive c
    rw [hzero, Nat.zero_add]
    exact Nat.le_trans List.countP_le_length hlen
  · exact absurd ((hexits o).symm.trans hp) (by simp)
  · obtain ⟨more, hmore, -, heq⟩ := hconn c
    simp only [ServerState.setSessions_conns, heq]
    refine Connection.final_append_exits (hI.final c) rfl fun m hm => ?_
    rw [hmore m hm]
    exact decide_eq_true rfl

theorem kill (hI : ExitInv sid d h) (hlock : d.lock = none)
    (hs : d.sessions.lookup sid = some session) (code : Int32) (hreply : response.isReply = true) :
    ExitInv sid ((d.setSessions (d.sessions.erase sid)).setPhase c
      (.exiting (session.subscribers.map Subscriber.tx) (.exit sid code) response)) h := by
  have hlive : d.Live sid := Option.isSome_iff_exists.mpr ⟨session, hs⟩
  have hnone : (d.sessions.erase sid).lookup sid = none := AList.lookup_erase _ _
  have hconns : ∀ o, ((d.setSessions (d.sessions.erase sid)).setPhase c
      (.exiting (session.subscribers.map Subscriber.tx) (.exit sid code) response)).conns o =
        if o = c then { d.conns c with
          phase := .exiting (session.subscribers.map Subscriber.tx) (.exit sid code) response }
        else d.conns o := by
    intro o
    simp only [ServerState.setPhase, ServerState.setConn_conns, ServerState.setSessions_conns,
      Function.update_apply]
  have hsent : ∀ o, (((d.setSessions (d.sessions.erase sid)).setPhase c
      (.exiting (session.subscribers.map Subscriber.tx) (.exit sid code) response)).conns o).sent =
        (d.conns o).sent := by
    intro o
    rw [hconns]
    split
    · next ho => rw [ho]
    · rfl
  have hzero : ∀ o, (d.conns o).sent.countP (·.isExitOf sid) = 0 := hI.exitCount_eq hlive
  refine ⟨hI.keyed_erase sid, fun o => ?_, fun _ => hnone, fun hq => ?_, fun s' hs' => ?_,
    fun _ o => ?_, fun o pending hp => ?_, fun o => ?_⟩
  · rw [hconns]
    split
    · exact ⟨rfl, hreply⟩
    · exact (hI.phases o).of_free (by rw [hlock]; simp)
  · obtain hcreated | hl := hq
    · rw [hI.unborn hcreated] at hs
      cases hs
    · replace hl : ((d.sessions.erase sid).lookup sid).isSome = true := hl
      rw [hnone] at hl
      cases hl
  · replace hs' : (d.sessions.erase sid).lookup sid = some s' := hs'
    rw [hnone] at hs'
    cases hs'
  · rw [Connection.exitCount, hsent, hzero]
    exact Nat.zero_le _
  · -- this one sends, within the attachments, and nobody sent before
    have hother : ∀ o', o' ≠ c → ((((d.setSessions (d.sessions.erase sid)).setPhase c
        (.exiting (session.subscribers.map Subscriber.tx) (.exit sid code) response)).conns
          o').phase.exits sid = none) := by
      intro o' ho'
      rw [hconns, if_neg ho']
      exact (hI.quiet (.inr hlive) o').1
    have ho : o = c := by
      by_contra hne
      exact absurd ((hother o hne).symm.trans hp) (by simp)
    subst ho
    rw [hconns, if_pos rfl] at hp
    have hpending : session.subscribers.map Subscriber.tx = pending := by
      simpa [Phase.exits, ServerMessage.isExitOf] using hp
    refine ⟨fun c' => ?_, fun o' hne => ?_⟩
    · rw [Connection.exitCount, hsent, hzero, Nat.zero_add, ← hpending, List.count, List.countP_map]
      exact hI.live session hs c'
    · by_contra hne'
      exact hne (hother o' hne')
  · rw [Connection.Final, hsent]
    exact hI.final o

theorem announce (hI : ExitInv sid d h) {t : ConnId} {pending : List ConnId} {event : ServerMessage}
    (hphase : (d.conns c).phase = .exiting (t :: pending) event response)
    (hexit : event.isExitOf sid = true) :
    ExitInv sid ((d.trySend t event).setPhase c (.exiting pending event response)) h := by
  have hexits : (d.conns c).phase.exits sid = some (t :: pending) := by
    rw [hphase, Phase.exits, if_pos hexit]
  obtain ⟨hsum, hone⟩ := hI.sending c _ hexits
  -- so the session was created, and is gone
  have hnot : ¬ (h.created = 0 ∨ d.Live sid) := fun hq =>
    absurd ((hI.quiet hq c).1.symm.trans hexits) (by simp)
  obtain ⟨hcreated, hdead⟩ := not_or.mp hnot
  have hgone : d.sessions.lookup sid = none := Option.not_isSome_iff_eq_none.mp hdead
  have hconns : ∀ o, ∃ more, (∀ m ∈ more, m = event) ∧
      more.length ≤ (if o = t then 1 else 0) ∧
      ((d.trySend t event).setPhase c (.exiting pending event response)).conns o =
        { d.conns o with
          phase := if o = c then .exiting pending event response else (d.conns o).phase
          sent := (d.conns o).sent ++ more } := by
    intro o
    obtain ⟨more, hmore, hlen, heq⟩ := Connection.trySend_getD (d.conns t) event
    simp only [ServerState.setPhase, ServerState.trySend, ServerState.setConn_conns, heq,
      Function.update_apply]
    by_cases hot : o = t
    · refine ⟨more, hmore, by rwa [if_pos hot], ?_⟩
      subst hot
      by_cases hoc : o = c
      · subst hoc
        simp
      · simp [hoc]
    · refine ⟨[], fun _ hm => absurd hm List.not_mem_nil, Nat.zero_le _, ?_⟩
      by_cases hoc : o = c
      · subst hoc
        simp [hot]
      · simp [hot, hoc]
  have hcount : ∀ o, (((d.trySend t event).setPhase c
      (.exiting pending event response)).conns o).exitCount sid ≤
        (d.conns o).exitCount sid + if o = t then 1 else 0 := by
    intro o
    obtain ⟨more, -, hlen, heq⟩ := hconns o
    rw [heq, Connection.exitCount, List.countP_append]
    exact Nat.add_le_add_left (Nat.le_trans List.countP_le_length hlen) _
  have hpending : ∀ o, ((d.conns o).exitCount sid + if o = t then 1 else 0) + pending.count o ≤
      h.attached o := by
    intro o
    have := hsum o
    rw [List.count_cons] at this
    by_cases hot : o = t
    · simp only [hot, BEq.rfl, if_true] at this ⊢
      omega
    · simp only [hot, if_false, beq_iff_eq, Ne.symm hot] at this ⊢
      omega
  refine ⟨hI.keyed, fun o => ?_, fun _ => hgone, fun hq => absurd hq hnot, fun s hs => ?_,
    fun _ o => ?_, fun o p hp => ?_, fun o => ?_⟩
  · obtain ⟨more, -, -, heq⟩ := hconns o
    rw [heq]
    have hsound := hI.phases o
    dsimp only
    split
    · next hoc =>
      rw [hoc, hphase] at hsound
      exact hsound
    · exact hsound
  · cases hgone.symm.trans hs
  · exact Nat.le_trans (hcount o) (Nat.le_trans (Nat.le_add_right _ _) (hpending o))
  · obtain ⟨more, -, -, heq⟩ := hconns o
    rw [heq] at hp
    dsimp only at hp
    have hoc : o = c := by
      by_contra hne
      rw [if_neg hne] at hp
      exact hne (hone o (by rw [hp]; simp))
    subst hoc
    rw [if_pos rfl, Phase.exits, if_pos hexit] at hp
    obtain rfl := Option.some.inj hp
    refine ⟨fun o' => Nat.le_trans (Nat.add_le_add_right (hcount o') _) (hpending o'),
      fun o' hne => ?_⟩
    by_contra hne'
    obtain ⟨more', -, -, heq'⟩ := hconns o'
    rw [heq'] at hne
    dsimp only at hne
    rw [if_neg hne'] at hne
    exact hne' (hone o' hne)
  · obtain ⟨more, hmore, -, heq⟩ := hconns o
    rw [heq]
    refine Connection.final_append_exits (hI.final o) rfl fun m hm => ?_
    rw [hmore m hm]
    exact hexit

/-! ### Steps -/

/-- A request that leaves the sessions alone. -/
theorem poke (hI : ExitInv sid d h) (id : Nat) (k : String) (answer : ServerState.Answer) :
    ExitInv sid (d.poke c id k answer) h := by
  unfold ServerState.poke
  split
  · exact hI.respond rfl
  · split
    · cases answer with
      | done => exact hI.respond rfl
      | failed => exact hI.respond rfl
    · exact hI.respond rfl

theorem unsubscribe (hI : ExitInv sid d h) {clientId : String}
    (hs : d.sessions.lookup k = some session) :
    ExitInv sid
      (d.setSessions (d.sessions.insert k (ServerState.unsubscribe clientId session))) h := by
  refine hI.setSessions (hI.keyed_insert (hI.keyed k session hs)) (fun s' hs' => ?_)
    fun hnone => ?_
  · rw [Table.lookup_insert_eq] at hs'
    split at hs'
    · next heq =>
      obtain rfl := Option.some.inj hs'
      exact ⟨session, heq ▸ hs, ServerState.unsubscribe_subscribers clientId session⟩
    · exact ⟨s', hs', .refl _⟩
  · rw [Table.lookup_insert_eq] at hnone
    split at hnone
    · cases hnone
    · exact hnone

theorem disconnect (hI : ExitInv sid d h) (c : ConnId) : ExitInv sid (d.disconnect c) h := by
  have hlookup : ∀ k s', (d.sessions.mapValues
      (ServerState.unsubscribe (d.conns c).clientId)).lookup k = some s' →
        ∃ s, d.sessions.lookup k = some s ∧
          ServerState.unsubscribe (d.conns c).clientId s = s' := by
    intro k s' hs'
    rw [Table.lookup_mapValues] at hs'
    exact Option.map_eq_some_iff.mp hs'
  have hI' : ExitInv sid (d.setSessions
      (d.sessions.mapValues (ServerState.unsubscribe (d.conns c).clientId))) h := by
    refine hI.setSessions (fun k s' hs' => ?_) (fun s' hs' => ?_) fun hnone => ?_
    · obtain ⟨s, hs, rfl⟩ := hlookup k s' hs'
      exact hI.keyed k s hs
    · obtain ⟨s, hs, rfl⟩ := hlookup sid s' hs'
      exact ⟨s, hs, ServerState.unsubscribe_subscribers _ s⟩
    · rw [Table.lookup_mapValues] at hnone
      exact Option.map_eq_none_iff.mp hnone
  exact hI'.setPhase trivial fun _ hp => by cases hp

/-- A session that is not alive leaves the table without a word. -/
theorem remove (hI : ExitInv sid d h) (hlock : d.lock = none)
    (hs : d.sessions.lookup sid = some session) :
    ExitInv sid (d.setSessions (d.sessions.erase sid)) h := by
  have hlive : d.Live sid := Option.isSome_iff_exists.mpr ⟨session, hs⟩
  have hnone : (d.sessions.erase sid).lookup sid = none := AList.lookup_erase _ _
  refine ⟨hI.keyed_erase sid, fun c => (hI.phases c).of_free (by rw [hlock]; simp),
    fun _ => hnone, fun _ => hI.quiet (.inr hlive), fun s' hs' => ?_, fun _ c => ?_,
    fun o pending hp => ?_, hI.final⟩
  · replace hs' : (d.sessions.erase sid).lookup sid = some s' := hs'
    rw [hnone] at hs'
    cases hs'
  · exact Nat.le_trans (Nat.le_of_eq (hI.exitCount_eq hlive c)) (Nat.zero_le _)
  · exact absurd ((hI.quiet (.inr hlive) o).1.symm.trans hp) (by simp)

theorem eraseOther (hI : ExitInv sid d h) (hk : k ≠ sid) :
    ExitInv sid (d.setSessions (d.sessions.erase k)) h :=
  hI.setOther (hI.keyed_erase k) (AList.lookup_erase_ne (Ne.symm hk))

theorem deliverOutput (hI : ExitInv sid d h) (k : String) (bytes : List UInt8) :
    ExitInv sid (d.deliverOutput k bytes) h := by
  unfold ServerState.deliverOutput
  split
  · exact hI
  · next session hs =>
    exact hI.publish (t := { session with ring := (session.ring.push bytes).2 }) hs
      (hI.keyed k session hs) rfl rfl fun he => of_decide_eq_true he

theorem finishSession (hI : ExitInv sid d h) (hlock : d.lock = none) (k : String) (code : Int32) :
    ExitInv sid (d.finishSession k code) h := by
  unfold ServerState.finishSession
  split
  · exact hI
  · next session hs =>
    split
    · by_cases hk : k = sid
      · subst hk
        exact hI.finish (t := { session with info := { session.info with alive := false } }) hlock
          hs rfl code
      · have hI' : ExitInv sid (d.publish k
            { session with info := { session.info with alive := false } } (.exit k code)) h :=
          hI.publish hs (hI.keyed k session hs) rfl (decide_eq_false hk) fun he => by cases he
        exact hI'.eraseOther hk
    · exact hI

theorem resizeDone (hI : ExitInv sid d h) (c : ConnId) (id : Nat) (k : String)
    (cols rows : UInt16) (answer : ServerState.Answer) :
    ExitInv sid (d.resizeDone c id k cols rows answer) h := by
  unfold ServerState.resizeDone
  split
  · exact hI.respond rfl
  · split
    · exact hI.respond rfl
    · next session hs =>
      have hkey : session.info.sessionId = k := hI.keyed k session hs
      have hI' : ExitInv sid (d.publish k
          { session with info := { session.info with cols, rows } }
          (.session { session.info with cols, rows })) h :=
        hI.publish hs hkey rfl rfl fun he => hkey.symm.trans (of_decide_eq_true he)
      exact hI'.respond rfl

theorem send (hI : ExitInv sid d h) (hs : d.send c = some d') :
    ExitInv sid d' h := by
  unfold ServerState.send at hs
  split at hs
  · next message after hphase =>
    have hreply : message.isReply = true := by
      have := hI.phases c
      rwa [hphase] at this
    have hnext : ∀ b, (After.next after b).Sound sid d.lock (d.Live sid) c ∧
        (After.next after b).exits sid = none := by
      intro b
      cases after <;> cases b <;> exact ⟨trivial, rfl⟩
    split at hs
    · next conn hconn =>
      obtain rfl := Option.some.inj hs
      obtain rfl := Connection.trySend_eq_some hconn
      refine @setConn c [message] sid d h hI _ rfl (fun m hm => ?_) (hnext true).1
        fun pending hp => ?_
      · obtain rfl := List.mem_singleton.mp hm
        exact ⟨ServerMessage.isExitOf_of_isReply hreply,
          fun he => by rw [ServerMessage.isEventOf_of_isReply hreply] at he; cases he⟩
      · exact absurd ((hnext true).2.symm.trans hp) (by simp)
    · split at hs
      · cases hs
      · obtain rfl := Option.some.inj hs
        exact hI.setPhase (hnext false).1 fun pending hp =>
          absurd ((hnext false).2.symm.trans hp) (by simp)
  · cases hs

/-- The next `try_send` of `attach` or `kill`. -/
theorem tryNext (hI : ExitInv sid d h) (hs : d.tryNext c = some d') :
    ExitInv sid d' h := by
  have hsound := hI.phases c
  unfold ServerState.tryNext at hs
  split at hs
  · next k message pending response hphase =>
    obtain rfl := Option.some.inj hs
    rw [hphase] at hsound
    obtain ⟨hlock, hreply, hpending⟩ := hsound
    have hI' := hI.trySend (c := c) (hpending message List.mem_cons_self).1
      (hpending message List.mem_cons_self).2
    exact hI'.setPhase ⟨hlock, hreply, fun m hm => hpending m (List.mem_cons_of_mem _ hm)⟩
      fun _ hp => by cases hp
  · next k response hphase =>
    obtain rfl := Option.some.inj hs
    exact hI.release hphase
  · next t pending event response hphase =>
    obtain rfl := Option.some.inj hs
    rw [hphase] at hsound
    by_cases hexit : event.isExitOf sid = true
    · exact hI.announce hphase hexit
    · -- the exit of another session
      have hI' := hI.trySend (c := t) (Bool.eq_false_iff.mpr hexit)
        fun he => by rw [hsound.1] at he; cases he
      refine hI'.setPhase hsound fun p hp => ?_
      rw [Phase.exits, if_neg hexit] at hp
      cases hp
  · next event response hphase =>
    obtain rfl := Option.some.inj hs
    rw [hphase] at hsound
    exact hI.respond hsound.2
  · cases hs

theorem request (hI : ExitInv sid d h) {req : Request} {answer : ServerState.Answer}
    (hlock : req.locks = true → d.lock = none)
    (honce : (Attachments.update sid d (.request c req answer) d' h).created ≤ 1) :
    ExitInv sid (d.request c answer req)
      (Attachments.update sid d (.request c req answer) d' h) := by
  cases req with
  | hello id clientId =>
    have hI' : ExitInv sid (d.setConn c { d.conns c with clientId }) h :=
      @setConn c [] sid d h hI _ (List.append_nil _).symm (fun _ hm => absurd hm List.not_mem_nil)
        (hI.phases c) fun _ hp => hp
    exact hI'.respond rfl
  | list id => exact hI.respond rfl
  | create id paneId cwd cols rows shell args env =>
    simp only [ServerState.request, ServerState.createSession]
    by_cases hsize : cols = 0 ∨ rows = 0
    · have hnot : ServerOp.creates sid
          (.request c (.create id paneId cwd cols rows shell args env) answer) = false := by
        cases answer with
        | done k => exact decide_eq_false fun h => hsize.elim h.2.1 h.2.2
        | failed => rfl
      rw [if_pos hsize]
      simp only [Attachments.update, hnot, Bool.false_eq_true, if_false]
      exact hI.respond rfl
    · rw [if_neg hsize]
      cases answer with
      | failed message => exact hI.respond rfl
      | done k =>
        obtain ⟨hcols, hrows⟩ := not_or.mp hsize
        by_cases hk : k = sid
        · subst hk
          have hcreates : ServerOp.creates k
              (.request c (.create id paneId cwd cols rows shell args env) (.done k)) = true :=
            decide_eq_true ⟨rfl, hcols, hrows⟩
          simp only [Attachments.update, hcreates, if_true] at honce ⊢
          -- it was not created before
          have hzero : h.created = 0 := by omega
          rw [hzero]
          exact (hI.create hzero (hlock rfl) rfl rfl).respond rfl
        · have hcreates : ServerOp.creates sid
              (.request c (.create id paneId cwd cols rows shell args env) (.done k)) = false :=
            decide_eq_false fun h => hk h.1
          simp only [Attachments.update, hcreates, Bool.false_eq_true, if_false]
          refine (hI.setOther (hI.keyed_insert ?_) ?_).respond rfl
          · rfl
          · exact AList.lookup_insert_ne (Ne.symm hk)
  | attach id k fromSeq =>
    simp only [ServerState.request, ServerState.attach]
    split
    · next hnone =>
      have hnot : ServerOp.attaches sid d (.request c (.attach id k fromSeq) answer) = none := by
        refine if_neg fun hlive => ?_
        rw [← hlive.1, hnone] at hlive
        cases hlive.2
      simp only [Attachments.update, hnot]
      exact hI.respond rfl
    · next session hs =>
      have hkey := hI.keyed k session hs
      have hcount : ∀ c', (⟨session.info, session.ring,
          (ServerState.unsubscribe (d.conns c).clientId session).subscribers ++
            [⟨(d.conns c).clientId, c⟩]⟩ : Session).count c' ≤
              session.count c' + if c' = c then 1 else 0 := by
        intro c'
        simp only [Session.count, List.countP_append, List.countP_singleton]
        refine Nat.add_le_add
          (ServerState.unsubscribe_subscribers (d.conns c).clientId session).countP_le ?_
        by_cases hc : c' = c
        · rw [if_pos hc]
          split <;> decide
        · rw [if_neg hc, if_neg fun he => hc (of_decide_eq_true he).symm]
      have hattached : ∀ c', (Attachments.update sid d (.request c (.attach id k fromSeq) answer)
          d' h).attached c' = h.attached c' + if k = sid ∧ c' = c then 1 else 0 := by
        intro c'
        by_cases hk : k = sid
        · have hyes : ServerOp.attaches sid d (.request c (.attach id k fromSeq) answer) =
              some c := if_pos ⟨hk, hk ▸ Option.isSome_iff_exists.mpr ⟨session, hs⟩⟩
          simp only [Attachments.update, hyes, Function.update_apply]
          by_cases hc : c' = c
          · rw [if_pos hc, if_pos ⟨hk, hc⟩, hc]
          · rw [if_neg hc, if_neg fun h => hc h.2]
            rfl
        · have hnot : ServerOp.attaches sid d (.request c (.attach id k fromSeq) answer) =
              none := if_neg fun h => hk h.1
          simp only [Attachments.update, hnot]
          rw [if_neg fun h => hk h.1]
          rfl
      have hsub := @subscribe c sid d h k session hI
        ⟨session.info, session.ring,
          (ServerState.unsubscribe (d.conns c).clientId session).subscribers ++
            [⟨(d.conns c).clientId, c⟩]⟩ hs rfl hcount
        (Attachments.update sid d (.request c (.attach id k fromSeq) answer) d' h) rfl hattached
      refine hsub.replay (hlock rfl) (fun m hm => ?_) rfl
      obtain ⟨hexit, hevent⟩ := @replayed sid k session.ring session.info hkey fromSeq m hm
      refine ⟨hexit, fun he => ?_⟩
      rw [ServerState.Live, ← hevent he, ServerState.setSessions_sessions, AList.lookup_insert]
      rfl
  | detach id k =>
    simp only [ServerState.request, ServerState.detach]
    split
    · exact hI.respond rfl
    · next session hs => exact (hI.unsubscribe hs).respond rfl
  | input id k bytesB64 =>
    simp only [ServerState.request, ServerState.writeInput]
    split
    · exact hI.respond rfl
    · exact hI.poke id k answer
  | resize id k cols rows pixelWidth pixelHeight =>
    simp only [ServerState.request, ServerState.resize]
    split
    · exact hI.respond rfl
    · split
      · exact hI.respond rfl
      · exact hI.setPhase trivial fun _ hp => by cases hp
  | kill id k =>
    simp only [ServerState.request, ServerState.kill]
    split
    · exact hI.respond rfl
    · next session hs =>
      by_cases hk : k = sid
      · subst hk
        split
        · exact hI.kill (hlock rfl) hs (-1) rfl
        · exact (hI.remove (hlock rfl) hs).respond rfl
      · have hI' := hI.eraseOther hk
        split
        · refine hI'.setPhase ⟨rfl, rfl⟩ fun p hp => ?_
          rw [Phase.exits, if_neg (show ¬ (ServerMessage.exit k (-1)).isExitOf sid = true from
            fun he => hk (of_decide_eq_true he))] at hp
          cases hp
        · exact hI'.respond rfl
  | signal id k signal => exact hI.poke id k answer

/-- **Invariant preservation.** -/
theorem step {op : ServerOp} (hI : ExitInv sid d h)
    (honce : (Attachments.update sid d op d' h).created ≤ 1) (hs : d.step op = some d') :
    ExitInv sid d' (Attachments.update sid d op d' h) := by
  have hkeep : ∀ {c : ConnId} {conn : Connection}, conn.sent = (d.conns c).sent →
      conn.phase = (d.conns c).phase → ExitInv sid (d.setConn c conn) h := by
    intro c conn hsent hphase
    refine @setConn c [] sid d h hI conn (by rw [hsent, List.append_nil])
      (fun _ hm => absurd hm List.not_mem_nil) ?_ fun p hp => ?_
    · rw [hphase]
      exact hI.phases c
    · rwa [hphase] at hp
  cases op with
  | accept =>
    obtain rfl := Option.some.inj hs
    exact hI.accept
  | request c req answer =>
    simp only [ServerState.step, Option.ite_none_right_eq_some] at hs
    obtain ⟨⟨-, hlock⟩, hs⟩ := hs
    obtain rfl := Option.some.inj hs
    exact hI.request hlock honce
  | readError c error =>
    simp only [ServerState.step, Option.ite_none_right_eq_some] at hs
    obtain rfl := Option.some.inj hs.2
    cases error with
    | invalid message => exact hI.setPhase rfl fun _ hp => by cases hp
    | tooLarge => exact hI.setPhase rfl fun _ hp => by cases hp
    | ended => exact hI.setPhase trivial fun _ hp => by cases hp
  | tryNext c => exact hI.tryNext hs
  | resized c answer =>
    simp only [ServerState.step] at hs
    split at hs
    · next id k cols rows hphase =>
      obtain ⟨-, hs⟩ := Option.ite_none_right_eq_some.mp hs
      obtain rfl := Option.some.inj hs
      exact hI.resizeDone c id k cols rows answer
    · cases hs
  | send c => exact hI.send hs
  | disconnect c =>
    simp only [ServerState.step, Option.ite_none_right_eq_some] at hs
    obtain rfl := Option.some.inj hs.2
    exact hI.disconnect c
  | join c =>
    simp only [ServerState.step, Option.ite_none_right_eq_some] at hs
    obtain rfl := Option.some.inj hs.2
    exact hI.setPhase trivial fun _ hp => by cases hp
  | take c =>
    simp only [ServerState.step, Option.ite_none_right_eq_some] at hs
    obtain rfl := Option.some.inj hs.2
    exact hkeep rfl rfl
  | writeFailed c =>
    simp only [ServerState.step, Option.ite_none_right_eq_some] at hs
    obtain rfl := Option.some.inj hs.2
    exact hkeep rfl rfl
  | writerDone c =>
    simp only [ServerState.step, Option.ite_none_right_eq_some] at hs
    obtain rfl := Option.some.inj hs.2
    exact hkeep rfl rfl
  | deliverOutput k bytes =>
    simp only [ServerState.step, Option.ite_none_right_eq_some] at hs
    obtain rfl := Option.some.inj hs.2
    exact hI.deliverOutput k bytes
  | finishSession k code =>
    simp only [ServerState.step, Option.ite_none_right_eq_some] at hs
    obtain ⟨hlock, hs⟩ := hs
    obtain rfl := Option.some.inj hs
    exact hI.finishSession hlock k code

end ExitInv

theorem created_exec {sid : String} {p q : ServerState × Attachments} {ops : List ServerOp}
    (hrun : (exitServer sid).exec p ops = some q) :
    q.2.created = p.2.created + ops.countP (·.creates sid) := by
  induction ops generalizing p with
  | nil =>
    obtain rfl := Option.some.inj hrun
    rfl
  | cons op ops ih =>
    obtain ⟨t, hstep, hrest⟩ := Machine.exec_cons_eq_some.mp hrun
    have hcreated : t.2.created = p.2.created + if op.creates sid then 1 else 0 :=
      congrArg Attachments.created (Machine.step_withHistory_eq_some.mp hstep).2
    rw [ih hrest, hcreated, List.countP_cons, Nat.add_assoc, Nat.add_comm (ite _ _ _)]

/-- **Exit is final.** Session ids are fresh, so that a session is created once; then, along every
run, each queue is given at most one exit of it for each time it was attached, and after an exit
neither output nor a session event. -/
theorem exit_final (sid : String) (ops : List ServerOp) {p : ServerState × Attachments}
    (honce : ops.countP (·.creates sid) ≤ 1)
    (hrun : (exitServer sid).exec (exitServer sid).init ops = some p) (c : ConnId) :
    (p.1.conns c).sent.countP (·.isExitOf sid) ≤ p.2.attached c ∧
      (p.1.conns c).sent.Pairwise fun m m' => m.isExitOf sid = true → m'.isEventOf sid = false := by
  have hcreated : p.2.created ≤ 1 := by
    rw [created_exec hrun]
    exact Nat.le_trans (Nat.le_of_eq (Nat.zero_add _)) honce
  have hI : p.2.created ≤ 1 → ExitInv sid p.1 p.2 := by
    refine Machine.invariant_of_step (M := exitServer sid)
      (I := fun p => p.2.created ≤ 1 → ExitInv sid p.1 p.2) (fun _ => ExitInv.initial) ?_ hrun
    rintro ⟨d, h⟩ op ⟨d', h'⟩ hI hstep honce
    obtain ⟨hs, hh⟩ := Machine.step_withHistory_eq_some.mp hstep
    replace hh : h' = Attachments.update sid d op d' h := hh
    subst hh
    exact (hI (Nat.le_trans (Nat.le_add_right _ _) honce)).step honce hs
  have hI := hI hcreated
  refine ⟨?_, hI.final c⟩
  by_cases hlive : p.1.Live sid
  · exact Nat.le_trans (Nat.le_of_eq (hI.exitCount_eq hlive c)) (Nat.zero_le _)
  · exact hI.gone (Option.not_isSome_iff_eq_none.mp hlive) c

/-- A session is killed with one client attached, and then its child ends. -/
theorem exit_final_kill :
    ∃ p, (exitServer "s").exec (exitServer "s").init
        [.accept, .request 0 (.create 1 "p" "" 80 24 none [] []) (.done "s"), .send 0,
          .request 0 (.attach 2 "s" 0) (.done ""), .tryNext 0, .tryNext 0, .send 0,
          .deliverOutput "s" [104], .accept, .request 1 (.kill 3 "s") (.done ""), .tryNext 1,
          .tryNext 1, .send 1, .finishSession "s" 0] = some p ∧
      (p.1.conns 0).sent.countP (·.isExitOf "s") = 1 ∧
      (p.1.conns 0).sent.countP (·.isExitOf "s") ≤ p.2.attached 0 ∧
      (p.1.conns 0).sent.Pairwise fun m m' => m.isExitOf "s" = true → m'.isEventOf "s" = false := by
  obtain ⟨p, hrun, hexit⟩ := Option.map_eq_some_iff.mp (show
    ((exitServer "s").exec (exitServer "s").init
      [.accept, .request 0 (.create 1 "p" "" 80 24 none [] []) (.done "s"), .send 0,
        .request 0 (.attach 2 "s" 0) (.done ""), .tryNext 0, .tryNext 0, .send 0,
        .deliverOutput "s" [104], .accept, .request 1 (.kill 3 "s") (.done ""), .tryNext 1,
        .tryNext 1, .send 1, .finishSession "s" 0]).map
      (fun p => (p.1.conns 0).sent.countP (·.isExitOf "s")) = some 1 by decide +kernel)
  exact ⟨p, hrun, hexit, exit_final "s" _ (by decide +kernel) hrun 0⟩

end Goble.Pty
