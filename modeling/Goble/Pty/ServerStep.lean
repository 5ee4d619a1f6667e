import Goble.Pty.Server

/-!
# What a step of the daemon can do

`broadcast` is characterised once (`broadcast_sublist`, `broadcast_conn`, and `broadcast_sent`
for subscribers on distinct queues). `Narrows` is what most steps do to the sessions: drop
sessions and subscribers, and nothing else. `stays_cases` says which steps rename a connection or
move it from one stage of its life to the next, and `subscribed_cases` which of them subscribe it.
-/

namespace Goble.Pty

namespace Connection

theorem trySend_eq_some {conn conn' : Connection} {message : ServerMessage}
    (h : conn.trySend message = some conn') :
    conn' = { conn with sent := conn.sent ++ [message] } := by
  unfold trySend at h
  split at h
  · exact (Option.some.inj h).symm
  · cases h

end Connection

variable {c : ConnId}

namespace ServerState

variable {d d' : ServerState} {op : ServerOp}

/-! ### Broadcasts -/

theorem broadcast_sublist (event : ServerMessage) (conns : ConnId → Connection)
    (subs : List Subscriber) : (broadcast event conns subs).2.Sublist subs := by
  induction subs generalizing conns with
  | nil => exact .slnil
  | cons sub subs ih =>
    rw [broadcast]
    split
    · exact (ih _).cons_cons _
    · exact (ih _).cons _

theorem broadcast_conn (event : ServerMessage) (conns : ConnId → Connection)
    (subs : List Subscriber) (c : ConnId) :
    ∃ sent, (broadcast event conns subs).1 c = { conns c with sent } := by
  induction subs generalizing conns with
  | nil => exact ⟨(conns c).sent, rfl⟩
  | cons sub subs ih =>
    rw [broadcast]
    split
    · next conn hconn =>
      obtain ⟨sent, hsent⟩ := ih (Function.update conns sub.tx conn)
      refine ⟨sent, hsent.trans ?_⟩
      rw [Function.update_apply]
      split
      · next h => rw [Connection.trySend_eq_some hconn, h]
      · rfl
    · exact ih conns

theorem broadcast_of_dead (event : ServerMessage) (conns : ConnId → Connection)
    (subs : List Subscriber) (hdead : (conns c).receiver = false) :
    (broadcast event conns subs).1 c = conns c := by
  induction subs generalizing conns with
  | nil => rfl
  | cons sub subs ih =>
    rw [broadcast]
    split
    · next conn hconn =>
      have hne : c ≠ sub.tx := by
        rintro rfl
        simp [Connection.trySend, hdead] at hconn
      have hsame : Function.update conns sub.tx conn c = conns c := Function.update_of_ne hne _ _
      rw [ih _ (by rw [hsame, hdead]), hsame]
    · exact ih conns hdead

/-- On distinct queues, the subscribers kept are those whose queue has taken the event, once. -/
theorem broadcast_sent (event : ServerMessage) (conns : ConnId → Connection)
    (subs : List Subscriber) (hnodup : (subs.map Subscriber.tx).Nodup) (c : ConnId) :
    (broadcast event conns subs).1 c =
      if c ∈ (broadcast event conns subs).2.map Subscriber.tx then
        { conns c with sent := (conns c).sent ++ [event] }
      else conns c := by
  induction subs generalizing conns with
  | nil => simp [broadcast]
  | cons sub subs ih =>
    rw [List.map_cons, List.nodup_cons] at hnodup
    rw [broadcast]
    split
    · next conn hconn =>
      have ih := ih (Function.update conns sub.tx conn) hnodup.2
      simp only [ih, List.map_cons, List.mem_cons]
      by_cases hc : c = sub.tx
      · have hnot : c ∉ ((broadcast event (Function.update conns sub.tx conn) subs).2).map
            Subscriber.tx := fun hmem =>
          hnodup.1 (hc ▸ ((broadcast_sublist event _ subs).map Subscriber.tx).subset hmem)
        rw [if_neg hnot, if_pos (.inl hc), hc, Function.update_self,
          Connection.trySend_eq_some hconn]
      · simp only [hc, false_or, Function.update_of_ne hc]
    · exact ih conns hnodup.2

/-! ### Sessions -/

def Narrows (d d' : ServerState) : Prop :=
  ∀ sid s', d'.sessions.lookup sid = some s' →
    ∃ s, d.sessions.lookup sid = some s ∧ s'.ring = s.ring ∧
      s'.subscribers.Sublist s.subscribers

theorem Narrows.of_eq (h : d'.sessions = d.sessions) : Narrows d d' :=
  fun _ s' hs' => ⟨s', h ▸ hs', rfl, .refl _⟩

theorem Narrows.erase {sid : String} (h : d'.sessions = d.sessions.erase sid) :
    Narrows d d' := by
  intro sid' s' hs'
  rw [h, Table.lookup_erase_eq] at hs'
  split at hs'
  · cases hs'
  · exact ⟨s', hs', rfl, .refl _⟩

variable {t : Session}

theorem Narrows.insert {sid : String} {s : Session} (hs : d.sessions.lookup sid = some s)
    (h : d'.sessions = d.sessions.insert sid t) (hring : t.ring = s.ring)
    (hsubs : t.subscribers.Sublist s.subscribers) : Narrows d d' := by
  intro sid' s' hs'
  rw [h, Table.lookup_insert_eq] at hs'
  split at hs'
  · next heq =>
    obtain rfl := Option.some.inj hs'
    exact ⟨s, heq ▸ hs, hring, hsubs⟩
  · exact ⟨s', hs', rfl, .refl _⟩

theorem Narrows.publish {sid : String} {s : Session} (hs : d.sessions.lookup sid = some s)
    (hring : t.ring = s.ring) (hsubs : t.subscribers = s.subscribers) (event : ServerMessage) :
    Narrows d (d.publish sid t event) :=
  .insert hs rfl hring (hsubs ▸ broadcast_sublist event d.conns t.subscribers)

theorem Narrows.mapValues {clientId : String}
    (h : d'.sessions = d.sessions.mapValues (unsubscribe clientId)) : Narrows d d' := by
  intro sid s' hs'
  rw [h, Table.lookup_mapValues] at hs'
  obtain ⟨s, hs, rfl⟩ := Option.map_eq_some_iff.mp hs'
  exact ⟨s, hs, rfl, List.filter_sublist⟩

theorem unsubscribe_subscribers (clientId : String) (s : Session) :
    (unsubscribe clientId s).subscribers.Sublist s.subscribers :=
  List.filter_sublist

/-! ### Subscriptions -/

def Subscribed (d : ServerState) (sid : String) (sub : Subscriber) : Prop :=
  ∃ session ∈ d.sessions.lookup sid, sub ∈ session.subscribers

instance decidableSubscribed (d : ServerState) (sid : String) (sub : Subscriber) :
    Decidable (d.Subscribed sid sub) :=
  inferInstanceAs (Decidable (∃ session ∈ d.sessions.lookup sid, sub ∈ session.subscribers))

def Unsubscribed (d : ServerState) (c : ConnId) : Prop :=
  ∀ session ∈ d.sessions.values, ∀ sub ∈ session.subscribers, sub.tx ≠ c

instance decidableUnsubscribed (d : ServerState) (c : ConnId) : Decidable (d.Unsubscribed c) :=
  inferInstanceAs (Decidable (∀ session ∈ d.sessions.values, ∀ sub ∈ session.subscribers,
    sub.tx ≠ c))

theorem unsubscribed_iff :
    d.Unsubscribed c ↔ ∀ sid sub, d.Subscribed sid sub → sub.tx ≠ c := by
  constructor
  · rintro hun sid sub ⟨session, hs, hsub⟩
    exact hun session (Table.mem_values_of_lookup hs) sub hsub
  · intro hun session hs sub hsub
    obtain ⟨sid, hs⟩ := Table.mem_values_iff.mp hs
    exact hun sid sub ⟨session, hs, hsub⟩

variable {sid : String} {sub : Subscriber}

theorem Narrows.subscribed (h : Narrows d d') (hsub : d'.Subscribed sid sub) :
    d.Subscribed sid sub := by
  obtain ⟨session', hs', hsub⟩ := hsub
  obtain ⟨session, hs, -, hsubs⟩ := h sid session' hs'
  exact ⟨session, hs, hsubs.subset hsub⟩

theorem Subscribed.of_insert {sid' : String} (h : d'.sessions = d.sessions.insert sid' t)
    (ht : ∀ sub ∈ t.subscribers, d.Subscribed sid' sub) (hsub : d'.Subscribed sid sub) :
    d.Subscribed sid sub := by
  obtain ⟨session, hs, hsub⟩ := hsub
  rw [h, Table.lookup_insert_eq] at hs
  split at hs
  · next heq =>
    obtain rfl := Option.some.inj hs
    exact heq ▸ ht sub hsub
  · exact ⟨session, hs, hsub⟩

theorem Subscribed.of_publish {sid' : String} {s : Session} {event : ServerMessage}
    (hs : d.sessions.lookup sid' = some s) (ht : t.subscribers = s.subscribers)
    (hsub : (d.publish sid' t event).Subscribed sid sub) : d.Subscribed sid sub :=
  .of_insert rfl (fun _ hmem =>
    ⟨s, hs, ht ▸ (broadcast_sublist event d.conns t.subscribers).subset hmem⟩) hsub

/-- `remove_client` removes the subscribers of one name. -/
theorem subscribed_disconnect :
    (d.disconnect c).Subscribed sid sub ↔
      d.Subscribed sid sub ∧ sub.clientId ≠ (d.conns c).clientId := by
  have hsessions : (d.disconnect c).sessions =
      d.sessions.mapValues (unsubscribe (d.conns c).clientId) := rfl
  simp only [Subscribed, hsessions, Table.lookup_mapValues, Option.mem_def,
    Option.map_eq_some_iff]
  constructor
  · rintro ⟨session', ⟨session, hs, rfl⟩, hsub⟩
    simp only [unsubscribe, List.mem_filter, decide_eq_true_eq] at hsub
    exact ⟨⟨session, hs, hsub.1⟩, hsub.2⟩
  · rintro ⟨⟨session, hs, hsub⟩, hne⟩
    refine ⟨_, ⟨session, hs, rfl⟩, ?_⟩
    simp only [unsubscribe, List.mem_filter, decide_eq_true_eq]
    exact ⟨hsub, hne⟩

end ServerState

/-! ### The life of a connection -/

/-- Before `accept`, before `remove_client`, and after it. -/
inductive Stage where
  | unborn
  | live
  | retired
deriving DecidableEq, Repr

def Phase.stage : Phase → Stage
  | .unborn => .unborn
  | .joining => .retired
  | .returned => .retired
  | _ => .live

namespace ServerState

/-- Every connection goes on under its name and in its stage. -/
structure Stays (d d' : ServerState) : Prop where
  connCount : d'.connCount = d.connCount
  clientId : ∀ c, (d'.conns c).clientId = (d.conns c).clientId
  stage : ∀ c, (d'.conns c).phase.stage = (d.conns c).phase.stage

namespace Stays

variable {d d' d'' : ServerState}

theorem refl (d : ServerState) : Stays d d := ⟨rfl, fun _ => rfl, fun _ => rfl⟩

theorem trans (h : Stays d d') (h' : Stays d' d'') : Stays d d'' where
  connCount := h'.connCount.trans h.connCount
  clientId c := (h'.clientId c).trans (h.clientId c)
  stage c := (h'.stage c).trans (h.stage c)

/-- The connections are left alone. -/
theorem of_conns (hconns : d'.conns = d.conns) (hcount : d'.connCount = d.connCount) :
    Stays d d' where
  connCount := hcount
  clientId c := by rw [hconns]
  stage c := by rw [hconns]

theorem setConn {conn : Connection} (hname : conn.clientId = (d.conns c).clientId)
    (hstage : conn.phase.stage = (d.conns c).phase.stage) : Stays d (d.setConn c conn) where
  connCount := rfl
  clientId o := by
    rw [setConn_conns, Function.update_apply]
    split
    · next h => rw [h, hname]
    · rfl
  stage o := by
    rw [setConn_conns, Function.update_apply]
    split
    · next h => rw [h, hstage]
    · rfl

theorem setPhase {phase : Phase} (hd : Stays d d') (h : phase.stage = (d.conns c).phase.stage) :
    Stays d (d'.setPhase c phase) :=
  hd.trans (.setConn rfl (h.trans (hd.stage c).symm))

/-- Then a thread that has not come to `remove_client` sends a response. -/
theorem respond {response : ServerMessage} (hd : Stays d d') (h : (d.conns c).phase.stage = .live) :
    Stays d (d'.respond c response) :=
  hd.setPhase h.symm

theorem publish (sid : String) (session : Session) (event : ServerMessage) :
    Stays d (d.publish sid session event) where
  connCount := rfl
  clientId c := by
    obtain ⟨sent, hsent⟩ := broadcast_conn event d.conns session.subscribers c
    simp only [ServerState.publish, hsent]
  stage c := by
    obtain ⟨sent, hsent⟩ := broadcast_conn event d.conns session.subscribers c
    simp only [ServerState.publish, hsent]

theorem trySend (c : ConnId) (message : ServerMessage) : Stays d (d.trySend c message) := by
  cases hsend : (d.conns c).trySend message with
  | none => exact .setConn (by rw [hsend]; rfl) (by rw [hsend]; rfl)
  | some conn =>
    obtain rfl := Connection.trySend_eq_some hsend
    exact .setConn (by rw [hsend]; rfl) (by rw [hsend]; rfl)

theorem poke (h : (d.conns c).phase.stage = .live) (id : Nat) (sid : String) (answer : Answer) :
    Stays d (d.poke c id sid answer) := by
  unfold ServerState.poke
  split
  · exact .respond (.refl d) h
  · split
    · cases answer with
      | done => exact .respond (.refl d) h
      | failed => exact .respond (.refl d) h
    · exact .respond (.refl d) h

theorem request (hphase : (d.conns c).phase = .reading) (answer : Answer) {req : Request}
    (hreq : ∀ id clientId, req ≠ .hello id clientId) :
    Stays d (d.request c answer req) := by
  have h : (d.conns c).phase.stage = .live := by rw [hphase]; rfl
  cases req with
  | hello id clientId => exact absurd rfl (hreq id clientId)
  | list id => exact .respond (.refl d) h
  | create id paneId cwd cols rows shell args env =>
    simp only [ServerState.request, createSession]
    split
    · exact .respond (.refl d) h
    · cases answer with
      | done sid => exact .respond (.of_conns rfl rfl) h
      | failed message => exact .respond (.refl d) h
  | attach id sid fromSeq =>
    simp only [ServerState.request, ServerState.attach]
    split
    · exact .respond (.refl d) h
    · exact .setPhase (.of_conns rfl rfl) h.symm
  | detach id sid =>
    simp only [ServerState.request, ServerState.detach]
    split
    · exact .respond (.refl d) h
    · exact .respond (.of_conns rfl rfl) h
  | input id sid bytesB64 =>
    simp only [ServerState.request, writeInput]
    split
    · exact .respond (.refl d) h
    · exact .poke h id sid answer
  | resize id sid cols rows pixelWidth pixelHeight =>
    simp only [ServerState.request, ServerState.resize]
    split
    · exact .respond (.refl d) h
    · split
      · exact .respond (.refl d) h
      · exact .setPhase (.refl d) h.symm
  | kill id sid =>
    simp only [ServerState.request, ServerState.kill]
    split
    · exact .respond (.refl d) h
    · split
      · exact .setPhase (.of_conns rfl rfl) h.symm
      · exact .respond (.of_conns rfl rfl) h
  | signal id sid signal => exact .poke h id sid answer

theorem resizeDone (h : (d.conns c).phase.stage = .live) (id : Nat) (sid : String)
    (cols rows : UInt16) (answer : Answer) :
    Stays d (d.resizeDone c id sid cols rows answer) := by
  unfold ServerState.resizeDone
  split
  · exact .respond (.refl d) h
  · split
    · exact .respond (.refl d) h
    · exact .respond (.publish sid _ _) h

theorem tryNext (hs : d.tryNext c = some d') : Stays d d' := by
  unfold ServerState.tryNext at hs
  split at hs
  · next sid message pending response hphase =>
    obtain rfl := Option.some.inj hs
    exact .setPhase (.trySend c message) (congrArg Phase.stage hphase).symm
  · next hphase =>
    obtain rfl := Option.some.inj hs
    exact .respond (.of_conns rfl rfl) (congrArg Phase.stage hphase)
  · next t pending event response hphase =>
    obtain rfl := Option.some.inj hs
    exact .setPhase (.trySend t event) (congrArg Phase.stage hphase).symm
  · next hphase =>
    obtain rfl := Option.some.inj hs
    exact .respond (.refl d) (congrArg Phase.stage hphase)
  · cases hs

theorem send (hs : d.send c = some d') : Stays d d' := by
  unfold ServerState.send at hs
  split at hs
  · next message after hphase =>
    have hnext : ∀ b, (After.next after b).stage = (d.conns c).phase.stage := by
      intro b
      rw [hphase]
      cases after <;> cases b <;> rfl
    split at hs
    · next conn hconn =>
      obtain rfl := Option.some.inj hs
      obtain rfl := Connection.trySend_eq_some hconn
      exact .setConn rfl (hnext true)
    · split at hs
      · cases hs
      · obtain rfl := Option.some.inj hs
        exact .setPhase (.refl d) (hnext false)
  · cases hs

theorem readError (hphase : (d.conns c).phase = .reading) (error : ReadError) :
    Stays d (d.readError c error) := by
  have h : (d.conns c).phase.stage = .live := by rw [hphase]; rfl
  cases error with
  | invalid message => exact .setPhase (.refl d) h.symm
  | tooLarge => exact .setPhase (.refl d) h.symm
  | ended => exact .setPhase (.refl d) h.symm

theorem finishSession (sid : String) (code : Int32) : Stays d (d.finishSession sid code) := by
  unfold ServerState.finishSession
  split
  · exact .refl d
  · split
    · exact .trans (.publish sid _ _) (.of_conns rfl rfl)
    · exact .refl d

theorem deliverOutput (sid : String) (bytes : List UInt8) :
    Stays d (d.deliverOutput sid bytes) := by
  unfold ServerState.deliverOutput
  split
  · exact .refl d
  · exact .publish _ _ _

end Stays

variable {d d' : ServerState} {op : ServerOp} {sid : String} {sub : Subscriber}

theorem stays_cases (hs : d.step op = some d') :
    Stays d d' ∨ d' = d.accept ∨
      (∃ c id clientId answer, op = .request c (.hello id clientId) answer ∧
        (d.conns c).phase.stage = .live ∧ d'.sessions = d.sessions ∧
        Stays (d.setConn c { d.conns c with clientId }) d') ∨
      (∃ c, (d.conns c).phase.stage = .live ∧ d' = d.disconnect c) := by
  cases op with
  | accept => exact .inr (.inl (Option.some.inj hs).symm)
  | request c req answer =>
    simp only [step, Option.ite_none_right_eq_some] at hs
    obtain ⟨⟨hphase, -⟩, hs⟩ := hs
    obtain rfl := Option.some.inj hs
    by_cases hreq : ∃ id clientId, req = .hello id clientId
    · obtain ⟨id, clientId, rfl⟩ := hreq
      have hlive : (d.conns c).phase.stage = .live := by rw [hphase]; rfl
      refine .inr (.inr (.inl ⟨c, id, clientId, answer, rfl, hlive, rfl, ?_⟩))
      exact .respond (.refl _) (by simpa using hlive)
    · exact .inl (.request hphase answer fun id clientId h => hreq ⟨id, clientId, h⟩)
  | readError c error =>
    simp only [step, Option.ite_none_right_eq_some] at hs
    obtain ⟨hphase, hs⟩ := hs
    obtain rfl := Option.some.inj hs
    exact .inl (.readError hphase error)
  | tryNext c => exact .inl (.tryNext hs)
  | resized c answer =>
    simp only [step] at hs
    split at hs
    · next hphase =>
      obtain ⟨-, hs⟩ := Option.ite_none_right_eq_some.mp hs
      obtain rfl := Option.some.inj hs
      exact .inl (.resizeDone (congrArg Phase.stage hphase) _ _ _ _ answer)
    · cases hs
  | send c => exact .inl (.send hs)
  | disconnect c =>
    simp only [step, Option.ite_none_right_eq_some] at hs
    obtain ⟨⟨hphase, -⟩, hs⟩ := hs
    exact .inr (.inr (.inr ⟨c, congrArg Phase.stage hphase, (Option.some.inj hs).symm⟩))
  | join c =>
    simp only [step, Option.ite_none_right_eq_some] at hs
    obtain ⟨⟨hphase, -⟩, hs⟩ := hs
    obtain rfl := Option.some.inj hs
    exact .inl (.setPhase (.refl d) (congrArg Phase.stage hphase).symm)
  | take c =>
    simp only [step, Option.ite_none_right_eq_some] at hs
    obtain rfl := Option.some.inj hs.2
    exact .inl (.setConn rfl rfl)
  | writeFailed c =>
    simp only [step, Option.ite_none_right_eq_some] at hs
    obtain rfl := Option.some.inj hs.2
    exact .inl (.setConn rfl rfl)
  | writerDone c =>
    simp only [step, Option.ite_none_right_eq_some] at hs
    obtain rfl := Option.some.inj hs.2
    exact .inl (.setConn rfl rfl)
  | deliverOutput sid bytes =>
    simp only [step, Option.ite_none_right_eq_some] at hs
    obtain rfl := Option.some.inj hs.2
    exact .inl (.deliverOutput sid bytes)
  | finishSession sid code =>
    simp only [step, Option.ite_none_right_eq_some] at hs
    obtain rfl := Option.some.inj hs.2
    exact .inl (.finishSession sid code)

theorem sessions_poke (c : ConnId) (id : Nat) (sid : String) (answer : Answer) :
    (d.poke c id sid answer).sessions = d.sessions := by
  unfold poke
  split
  · rfl
  · split
    · cases answer <;> rfl
    · rfl

theorem sessions_tryNext (hs : d.tryNext c = some d') :
    d'.sessions = d.sessions := by
  unfold tryNext at hs
  split at hs
  · exact Option.some.inj hs ▸ rfl
  · exact Option.some.inj hs ▸ rfl
  · exact Option.some.inj hs ▸ rfl
  · exact Option.some.inj hs ▸ rfl
  · cases hs

theorem sessions_send (hs : d.send c = some d') : d'.sessions = d.sessions := by
  unfold send at hs
  split at hs
  · split at hs
    · exact Option.some.inj hs ▸ rfl
    · split at hs
      · cases hs
      · exact Option.some.inj hs ▸ rfl
  · cases hs

theorem subscribed_request {req : Request} {answer : Answer}
    (hsub : (d.request c answer req).Subscribed sid sub) :
    d.Subscribed sid sub ∨ sub = ⟨(d.conns c).clientId, c⟩ := by
  cases req with
  | hello id clientId => exact .inl hsub
  | list id => exact .inl hsub
  | create id paneId cwd cols rows shell args env =>
    simp only [request, createSession] at hsub
    split at hsub
    · exact .inl hsub
    · cases answer with
      | done sid' => exact .inl (.of_insert rfl (fun _ hmem => by cases hmem) hsub)
      | failed message => exact .inl hsub
  | attach id sid' fromSeq =>
    simp only [request, attach] at hsub
    split at hsub
    · exact .inl hsub
    · next session hs =>
      obtain ⟨session', hs', hsub⟩ := hsub
      replace hs' : (d.sessions.insert sid' _).lookup sid = some session' := hs'
      rw [Table.lookup_insert_eq] at hs'
      split at hs'
      · next heq =>
        obtain rfl := Option.some.inj hs'
        rcases List.mem_append.mp hsub with hsub | hsub
        · exact .inl ⟨session, heq ▸ hs, (unsubscribe_subscribers _ session).subset hsub⟩
        · exact .inr (List.mem_singleton.mp hsub)
      · exact .inl ⟨session', hs', hsub⟩
  | detach id sid' =>
    simp only [request, detach] at hsub
    split at hsub
    · exact .inl hsub
    · next session hs =>
      refine .inl (.of_insert rfl (fun sub hmem => ⟨session, hs, ?_⟩) hsub)
      exact (unsubscribe_subscribers _ session).subset hmem
  | input id sid' bytesB64 =>
    simp only [request, writeInput] at hsub
    split at hsub
    · exact .inl hsub
    · exact .inl ((Narrows.of_eq (sessions_poke c _ _ answer)).subscribed hsub)
  | resize id sid' cols rows pixelWidth pixelHeight =>
    simp only [request, resize] at hsub
    split at hsub
    · exact .inl hsub
    · split at hsub
      · exact .inl hsub
      · exact .inl hsub
  | kill id sid' =>
    simp only [request, kill] at hsub
    split at hsub
    · exact .inl hsub
    · have hn : Narrows d (d.setSessions (d.sessions.erase sid')) := .erase rfl
      split at hsub
      · exact .inl (hn.subscribed hsub)
      · exact .inl (hn.subscribed hsub)
  | signal id sid' signal =>
    exact .inl ((Narrows.of_eq (sessions_poke c _ _ answer)).subscribed hsub)

theorem subscribed_cases (hs : d.step op = some d') (hsub : d'.Subscribed sid sub) :
    d.Subscribed sid sub ∨
      ((d.conns sub.tx).phase.stage = .live ∧ sub.clientId = (d.conns sub.tx).clientId) := by
  cases op with
  | accept =>
    obtain rfl := Option.some.inj hs
    exact .inl hsub
  | request c req answer =>
    simp only [step, Option.ite_none_right_eq_some] at hs
    obtain ⟨⟨hphase, -⟩, hs⟩ := hs
    obtain rfl := Option.some.inj hs
    rcases subscribed_request hsub with hold | rfl
    · exact .inl hold
    · exact .inr ⟨congrArg Phase.stage hphase, rfl⟩
  | readError c error =>
    simp only [step, Option.ite_none_right_eq_some] at hs
    obtain rfl := Option.some.inj hs.2
    cases error <;> exact .inl hsub
  | tryNext c => exact .inl ((Narrows.of_eq (sessions_tryNext hs)).subscribed hsub)
  | resized c answer =>
    simp only [step] at hs
    split at hs
    · next id sid' cols rows hphase =>
      obtain ⟨-, hs⟩ := Option.ite_none_right_eq_some.mp hs
      obtain rfl := Option.some.inj hs
      unfold resizeDone at hsub
      split at hsub
      · exact .inl hsub
      · split at hsub
        · exact .inl hsub
        · next session hs =>
          exact .inl (.of_publish (t := { session with
            info := { session.info with cols, rows } }) hs rfl hsub)
    · cases hs
  | send c => exact .inl ((Narrows.of_eq (sessions_send hs)).subscribed hsub)
  | disconnect c =>
    simp only [step, Option.ite_none_right_eq_some] at hs
    obtain rfl := Option.some.inj hs.2
    exact .inl (subscribed_disconnect.mp hsub).1
  | join c =>
    simp only [step, Option.ite_none_right_eq_some] at hs
    obtain rfl := Option.some.inj hs.2
    exact .inl hsub
  | take c =>
    simp only [step, Option.ite_none_right_eq_some] at hs
    obtain rfl := Option.some.inj hs.2
    exact .inl hsub
  | writeFailed c =>
    simp only [step, Option.ite_none_right_eq_some] at hs
    obtain rfl := Option.some.inj hs.2
    exact .inl hsub
  | writerDone c =>
    simp only [step, Option.ite_none_right_eq_some] at hs
    obtain rfl := Option.some.inj hs.2
    exact .inl hsub
  | deliverOutput sid' bytes =>
    simp only [step, Option.ite_none_right_eq_some] at hs
    obtain rfl := Option.some.inj hs.2
    unfold deliverOutput at hsub
    split at hsub
    · exact .inl hsub
    · next session hs =>
      exact .inl
        (.of_publish (t := { session with ring := (session.ring.push bytes).2 }) hs rfl hsub)
  | finishSession sid' code =>
    simp only [step, Option.ite_none_right_eq_some] at hs
    obtain rfl := Option.some.inj hs.2
    unfold finishSession at hsub
    split at hsub
    · exact .inl hsub
    · next session hs =>
      split at hsub
      · have hpub := (Narrows.erase rfl).subscribed hsub
        exact .inl (.of_publish (t := { session with
          info := { session.info with alive := false } }) hs rfl hpub)
      · exact .inl hsub

end ServerState

end Goble.Pty
