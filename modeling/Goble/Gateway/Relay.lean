import Goble.Gateway.State

/-!
# What a client gets

However workers reconnect and clients come and go, a client is attached to a worker from its
registration until it leaves the table, and while it is attached every frame that the worker's
current connection relays is put into its queue (`Client.Served`). It leaves the table with the first
frame that its queue has no room for, with its own handler, or with the connection of the worker,
and never comes back. The handler of a connection that has been replaced finds the token of another
in the table and touches nothing there.
-/

namespace Goble.Gateway

structure Client.Served (attached : Prop) (client : Client) : Prop where
  /-- In order and without a gap: the first frames that were relayed, for each of which there was
  room. -/
  inOrder : (client.enqueued.map fun message => (message, true)) <+: client.relayed
  complete : attached → client.enqueued.length = client.relayed.length
  /-- Off the table the client has been told, and the first frame that it did not get is one that
  there was no room for, unless it left the table otherwise before. -/
  stopped : ¬ attached → client.shutdown = true ∧
    (client.removedAt = some client.enqueued.length ∨
      ∃ message, client.relayed[client.enqueued.length]? = some (message, false))
  queued : client.received ++ client.queue = client.enqueued
  bounded : client.queue.length ≤ clientOutboundCapacity

namespace Client.Served

variable {attached attached' : Prop} {client : Client} {message : Message}

theorem congr (h : client.Served attached) (hiff : attached' ↔ attached) :
    client.Served attached' :=
  ⟨h.inOrder, fun h' => h.complete (hiff.mp h'), fun h' => h.stopped fun h'' => h' (hiff.mpr h''),
    h.queued, h.bounded⟩

/-- A change of what is not part of the table. -/
theorem of_same {client' : Client} (h : client.Served attached)
    (henqueued : client'.enqueued = client.enqueued) (hrelayed : client'.relayed = client.relayed)
    (hshutdown : client'.shutdown = client.shutdown) (hremoved : client'.removedAt = client.removedAt)
    (hqueued : client'.received ++ client'.queue = client.received ++ client.queue)
    (hbounded : client'.queue.length ≤ client.queue.length) : client'.Served attached := by
  refine ⟨?_, ?_, ?_, ?_, Nat.le_trans hbounded h.bounded⟩
  · rw [henqueued, hrelayed]
    exact h.inOrder
  · rw [henqueued, hrelayed]
    exact h.complete
  · rw [henqueued, hrelayed, hshutdown, hremoved]
    exact h.stopped
  · rw [henqueued, hqueued]
    exact h.queued

theorem new (worker : WorkerId) : (Client.new worker).Served True where
  inOrder := List.prefix_rfl
  complete _ := rfl
  stopped h := absurd trivial h
  queued := rfl
  bounded := Nat.zero_le _

/-- The relayed frames of an attached client are those in its queue's history. -/
theorem relayed_eq (h : client.Served True) :
    client.relayed = client.enqueued.map fun message => (message, true) :=
  (h.inOrder.eq_of_length (by rw [List.length_map]; exact h.complete trivial)).symm

/-- An attached client gets the next frame, and stays attached, if its queue has room. -/
theorem send (h : client.Served True) (message : Message) :
    { client.trySend message with relayed := client.relayed ++ [(message, client.hasRoom)] }.Served
      (client.hasRoom = true) := by
  have hrelayed := h.relayed_eq
  by_cases hroom : client.hasRoom = true
  · rw [trySend, if_pos hroom, hroom]
    refine ⟨?_, fun _ => ?_, fun hnot => absurd rfl hnot, ?_, ?_⟩
    · dsimp only
      rw [hrelayed, List.map_append]
      exact List.prefix_rfl
    · dsimp only
      rw [hrelayed, List.length_append, List.length_append, List.length_map]
      rfl
    · dsimp only
      rw [← List.append_assoc, h.queued]
    · dsimp only
      rw [List.length_append]
      exact of_decide_eq_true (Bool.and_eq_true_iff.mp hroom).2
  · rw [trySend, if_neg hroom, eq_false_of_ne_true hroom]
    refine ⟨?_, fun hfalse => absurd hfalse Bool.false_ne_true, fun _ => ⟨rfl, .inr ⟨message, ?_⟩⟩,
      h.queued, h.bounded⟩
    · dsimp only
      rw [hrelayed]
      exact List.prefix_append _ _
    · dsimp only
      rw [hrelayed, ← List.length_map, List.getElem?_concat_length]

theorem skip (h : client.Served False) (room : Bool) :
    { client with relayed := client.relayed ++ [(message, room)] }.Served False := by
  refine ⟨h.inOrder.trans (List.prefix_append _ _), False.elim, fun hnot => ?_, h.queued, h.bounded⟩
  obtain ⟨hshutdown, hremoved | ⟨m, hm⟩⟩ := h.stopped hnot
  · exact ⟨hshutdown, .inl hremoved⟩
  · refine ⟨hshutdown, .inr ⟨m, ?_⟩⟩
    exact (List.getElem?_append_left (List.getElem?_eq_some_iff.mp hm).1).trans hm

theorem remove (h : client.Served True) : client.remove.Served False :=
  ⟨h.inOrder, False.elim, fun _ => ⟨rfl, .inl (congrArg some (h.complete trivial).symm)⟩,
    h.queued, h.bounded⟩

end Client.Served

namespace GatewayState

def AttachedTo (s : GatewayState) (id : WorkerId) (c : ClientId) : Prop :=
  ∃ entry, s.workers id = some entry ∧ c ∈ entry.clients

def Attached (s : GatewayState) (c : ClientId) : Prop := ∃ id, s.AttachedTo id c

def Superseded (s : GatewayState) (connectionId : ConnectionId) : Prop :=
  ∃ connection, s.connections connectionId = some connection ∧
    ∀ id entry, s.workers id = some entry → entry.connectionId ≠ connectionId

/-- The table and the clients fit together. -/
structure Sound (s : GatewayState) : Prop where
  known : ∀ id c, s.AttachedTo id c → ∃ client, s.clients c = some client ∧ client.worker = id
  fresh : ∀ c, s.nextClientId ≤ c → s.clients c = none
  served : ∀ c client, s.clients c = some client → client.Served (s.Attached c)

variable {s s' : GatewayState} {id : WorkerId} {c : ClientId} {connectionId : ConnectionId}

theorem Sound.init : Sound .init where
  known _ _ h := by
    obtain ⟨entry, hentry, -⟩ := h
    exact absurd hentry nofun
  fresh _ _ := rfl
  served _ _ h := absurd h nofun

variable {client : Client}

theorem Sound.worker (h : s.Sound) (hclient : s.clients c = some client)
    (hattached : s.AttachedTo id c) : client.worker = id := by
  obtain ⟨client', hclient', hworker⟩ := h.known id c hattached
  obtain rfl := Option.some.inj (hclient.symm.trans hclient')
  exact hworker

theorem Sound.attached_iff (h : s.Sound) (hclient : s.clients c = some client) :
    s.Attached c ↔ s.AttachedTo client.worker c := by
  refine ⟨fun ⟨id, hid⟩ => ?_, fun h' => ⟨_, h'⟩⟩
  rw [h.worker hclient hid]
  exact hid

theorem Sound.of_same (h : s.Sound) (hworkers : s'.workers = s.workers)
    (hclients : s'.clients = s.clients) (hnext : s'.nextClientId = s.nextClientId) : s'.Sound := by
  have hattached (id : WorkerId) (c : ClientId) : s'.AttachedTo id c ↔ s.AttachedTo id c := by
    rw [AttachedTo, AttachedTo, hworkers]
  refine ⟨fun id c h' => ?_, fun c hc => ?_, fun c client hc => ?_⟩
  · rw [hclients]
    exact h.known id c ((hattached id c).mp h')
  · rw [hclients]
    exact h.fresh c (hnext ▸ hc)
  · exact (h.served c client (hclients ▸ hc)).congr (exists_congr fun id => hattached id c)

/-! ### The calls on the table -/

theorem attachedTo_update {entry : WorkerEntry}
    (h : s'.workers = Function.update s.workers id (some entry)) {id' : WorkerId} :
    s'.AttachedTo id' c ↔
      (id' = id ∧ c ∈ entry.clients) ∨ (id' ≠ id ∧ s.AttachedTo id' c) := by
  rw [AttachedTo, h]
  by_cases hid : id' = id
  · subst hid
    rw [Function.update_self]
    simp
  · rw [Function.update_of_ne hid]
    simp [hid, AttachedTo]

theorem attachedTo_of_entry {entry : WorkerEntry} (h : s.workers id = some entry) :
    s.AttachedTo id c ↔ c ∈ entry.clients := by
  rw [AttachedTo, h]
  simp

@[simp] theorem supersede_workers : (s.supersede connectionId).workers = s.workers := by
  rw [supersede]
  split <;> rfl

@[simp] theorem supersede_clients : (s.supersede connectionId).clients = s.clients := by
  rw [supersede]
  split <;> rfl

@[simp] theorem supersede_nextClientId :
    (s.supersede connectionId).nextClientId = s.nextClientId := by
  rw [supersede]
  split <;> rfl

section RegisterWorker

variable {token : ConnectionId}

theorem registerWorker_workers : (s.registerWorker id token).workers =
    Function.update s.workers id
      (some ⟨token, ((s.workers id).map WorkerEntry.clients).getD []⟩) := by
  rw [registerWorker]
  cases s.workers id with
  | none => rfl
  | some previous =>
    show Function.update (s.supersede previous.connectionId).workers id _ = _
    rw [supersede_workers]
    rfl

theorem registerWorker_clients : (s.registerWorker id token).clients = s.clients := by
  rw [registerWorker]
  cases s.workers id with
  | none => rfl
  | some previous => exact supersede_clients

theorem registerWorker_nextClientId :
    (s.registerWorker id token).nextClientId = s.nextClientId := by
  rw [registerWorker]
  cases s.workers id with
  | none => rfl
  | some previous => exact supersede_nextClientId

/-- The clients of the replaced connection are those of the new one. -/
theorem attachedTo_registerWorker {id' : WorkerId} :
    (s.registerWorker id token).AttachedTo id' c ↔ s.AttachedTo id' c := by
  rw [attachedTo_update registerWorker_workers]
  by_cases hid : id' = id
  · subst hid
    cases hentry : s.workers id' with
    | none => simp [AttachedTo, hentry]
    | some entry => simp [AttachedTo, hentry]
  · simp [hid]

theorem Sound.registerWorker (h : s.Sound) : (s.registerWorker id token).Sound := by
  refine ⟨fun id' c h' => ?_, fun c hc => ?_, fun c client hc => ?_⟩
  · rw [registerWorker_clients]
    exact h.known id' c (attachedTo_registerWorker.mp h')
  · rw [registerWorker_clients]
    exact h.fresh c (registerWorker_nextClientId (s := s) ▸ hc)
  · rw [registerWorker_clients] at hc
    exact (h.served c client hc).congr (exists_congr fun id' => attachedTo_registerWorker)

end RegisterWorker

theorem Sound.removed (h : s.Sound) {p : ClientId → Bool}
    (hworkers : ∀ id c, s'.AttachedTo id c ↔ s.AttachedTo id c ∧ p c = false)
    (hp : ∀ c, p c = true → s.Attached c)
    (hclients : s'.clients = (s.modifyClients p Client.remove).clients)
    (hnext : s'.nextClientId = s.nextClientId) : s'.Sound := by
  have hattached (c : ClientId) : s'.Attached c ↔ s.Attached c ∧ p c = false := by
    rw [Attached, Attached, ← exists_and_right]
    exact exists_congr fun id => hworkers id c
  refine ⟨fun id c h' => ?_, fun c hc => ?_, fun c client hc => ?_⟩
  · obtain ⟨hold, hkeep⟩ := (hworkers id c).mp h'
    rw [hclients, modifyClients]
    dsimp only
    rw [hkeep]
    exact h.known id c hold
  · have hnone := h.fresh c (hnext ▸ hc)
    rw [hclients, modifyClients]
    dsimp only
    rw [hnone]
    exact ite_self _
  · rw [hclients, modifyClients] at hc
    dsimp only at hc
    cases hpc : p c with
    | false =>
      rw [hpc] at hc
      exact (h.served c client hc).congr ((hattached c).trans (and_iff_left hpc))
    | true =>
      rw [hpc, if_pos rfl] at hc
      obtain ⟨client, hclient, rfl⟩ := Option.map_eq_some_iff.mp hc
      have hserved := (h.served c client hclient).congr (iff_of_true trivial (hp c hpc))
      refine hserved.remove.congr (iff_of_false (fun h' => ?_) id)
      exact absurd (((hattached c).mp h').2.symm.trans hpc) Bool.false_ne_true

theorem disconnectWorker_cases (s : GatewayState) (id : WorkerId) (connectionId : ConnectionId) :
    (s.workerCurrent id connectionId = false ∧ s.disconnectWorker id connectionId = s) ∨
      ∃ entry, s.workers id = some entry ∧ entry.connectionId = connectionId ∧
        s.disconnectWorker id connectionId =
          { s.modifyClients (· ∈ entry.clients) Client.remove with
            workers := Function.update s.workers id none } := by
  rw [disconnectWorker, workerCurrent]
  cases hentry : s.workers id with
  | none => exact .inl ⟨rfl, rfl⟩
  | some entry =>
    dsimp only
    by_cases hcurrent : entry.connectionId = connectionId
    · rw [if_pos hcurrent]
      exact .inr ⟨entry, rfl, hcurrent, rfl⟩
    · rw [if_neg hcurrent]
      exact .inl ⟨decide_eq_false hcurrent, rfl⟩

theorem Sound.disconnectWorker (h : s.Sound) (id : WorkerId) (connectionId : ConnectionId) :
    (s.disconnectWorker id connectionId).Sound := by
  obtain ⟨-, heq⟩ | ⟨entry, hentry, -, heq⟩ := disconnectWorker_cases s id connectionId
  · rw [heq]
    exact h
  · rw [heq]
    refine h.removed (p := (· ∈ entry.clients)) (fun id' c => ?_) (fun c hc => ?_) rfl rfl
    · by_cases hid : id' = id
      · subst hid
        rw [attachedTo_of_entry hentry]
        simp [AttachedTo]
      · have hsame : AttachedTo { s.modifyClients (· ∈ entry.clients) Client.remove with
            workers := Function.update s.workers id none } id' c ↔ s.AttachedTo id' c := by
          simp [AttachedTo, hid]
        rw [hsame]
        refine ⟨fun h' => ⟨h', decide_eq_false fun hmem => hid ?_⟩, And.left⟩
        obtain ⟨client, hclient, hworker⟩ := h.known id' c h'
        exact hworker.symm.trans (h.worker hclient ((attachedTo_of_entry hentry).mpr hmem))
    · exact ⟨id, (attachedTo_of_entry hentry).mpr (of_decide_eq_true hc)⟩

theorem unregisterClient_cases (s : GatewayState) (id : WorkerId) (c : ClientId) :
    (¬ s.AttachedTo id c ∧ s.unregisterClient id c = s) ∨
      ∃ entry, s.workers id = some entry ∧ c ∈ entry.clients ∧
        s.unregisterClient id c = { s.modifyClients (· = c) Client.remove with
          workers := Function.update s.workers id
            (some { entry with clients := entry.clients.filter (· ≠ c) }) } := by
  rw [unregisterClient]
  cases hentry : s.workers id with
  | none => exact .inl ⟨by simp [AttachedTo, hentry], rfl⟩
  | some entry =>
    dsimp only
    by_cases hmem : c ∈ entry.clients
    · rw [if_pos hmem]
      exact .inr ⟨entry, rfl, hmem, rfl⟩
    · rw [if_neg hmem]
      exact .inl ⟨fun h => hmem ((attachedTo_of_entry hentry).mp h), rfl⟩

theorem Sound.unregisterClient (h : s.Sound) (id : WorkerId) (c : ClientId) :
    (s.unregisterClient id c).Sound := by
  obtain ⟨-, heq⟩ | ⟨entry, hentry, hmem, heq⟩ := unregisterClient_cases s id c
  · rw [heq]
    exact h
  · have hattached : s.AttachedTo id c := (attachedTo_of_entry hentry).mpr hmem
    rw [heq]
    refine h.removed (p := (· = c)) (fun id' c' => ?_) (fun c' hc' => ?_) rfl rfl
    · rw [attachedTo_update rfl, decide_eq_false_iff_not]
      by_cases hid : id' = id
      · subst hid
        rw [attachedTo_of_entry hentry]
        simp
      · refine (or_iff_right fun h' => hid h'.1).trans ?_
        refine (and_iff_right hid).trans ⟨fun h' => ⟨h', fun hc' => hid ?_⟩, And.left⟩
        subst hc'
        obtain ⟨client, hclient, hworker⟩ := h.known id' c' h'
        exact hworker.symm.trans (h.worker hclient hattached)
    · obtain rfl := of_decide_eq_true hc'
      exact ⟨id, hattached⟩

theorem Sound.registerClient (h : s.Sound) (hstep : s.registerClient id = some s') :
    s'.Sound ∧ s'.AttachedTo id s.nextClientId := by
  obtain ⟨entry, hentry, rfl⟩ := Option.map_eq_some_iff.mp hstep
  have hnew : ¬ s.Attached s.nextClientId := by
    rintro ⟨id', hattached⟩
    obtain ⟨client, hclient, -⟩ := h.known id' _ hattached
    exact absurd ((h.fresh _ (Nat.le_refl _)).symm.trans hclient) (by simp)
  have hattached (id' : WorkerId) (c : ClientId) :
      AttachedTo { s with
        workers := Function.update s.workers id
          (some { entry with clients := s.nextClientId :: entry.clients })
        nextClientId := s.nextClientId + 1
        clients := Function.update s.clients s.nextClientId (some (.new id)) } id' c ↔
        (id' = id ∧ c = s.nextClientId) ∨ s.AttachedTo id' c := by
    rw [attachedTo_update rfl]
    by_cases hid : id' = id
    · subst hid
      simp [attachedTo_of_entry hentry]
    · simp [hid]
  refine ⟨⟨fun id' c h' => ?_, fun c hc => ?_, fun c client hc => ?_⟩,
    (hattached id _).mpr (.inl ⟨rfl, rfl⟩)⟩
  · by_cases hc : c = s.nextClientId
    · subst hc
      obtain ⟨rfl, -⟩ := ((hattached id' _).mp h').resolve_right fun h' => hnew ⟨id', h'⟩
      exact ⟨.new id', Function.update_self _ _ _, rfl⟩
    · obtain ⟨client, hclient, hworker⟩ :=
        h.known id' c (((hattached id' c).mp h').resolve_left fun h' => hc h'.2)
      exact ⟨client, (Function.update_of_ne hc _ _).trans hclient, hworker⟩
  · have hne : c ≠ s.nextClientId := Nat.ne_of_gt hc
    exact (Function.update_of_ne hne _ _).trans (h.fresh c (Nat.le_of_lt hc))
  · dsimp only at hc
    by_cases hne : c = s.nextClientId
    · rw [hne, Function.update_self] at hc
      obtain rfl := Option.some.inj hc
      rw [hne]
      exact (Client.Served.new id).congr
        (iff_of_true ⟨id, (hattached id _).mpr (.inl ⟨rfl, rfl⟩)⟩ trivial)
    · have hclient : s.clients c = some client := (Function.update_of_ne hne _ _).symm.trans hc
      refine (h.served c client hclient).congr (exists_congr fun id' => ?_)
      exact (hattached id' c).trans (or_iff_right fun h' => hne h'.2)

/-- **What a relayed frame does.** -/
theorem Sound.copyToClients (h : s.Sound) {entry : WorkerEntry} (hentry : s.workers id = some entry)
    (message : Message) : (s.copyToClients id entry message).Sound := by
  have hattached (id' : WorkerId) (c : ClientId) :
      (s.copyToClients id entry message).AttachedTo id' c ↔
        s.AttachedTo id' c ∧ (id' = id → s.hasRoom c = true) := by
    rw [attachedTo_update rfl]
    by_cases hid : id' = id
    · subst hid
      simp [attachedTo_of_entry hentry]
    · simp [hid]
  refine ⟨fun id' c h' => ?_, fun c hc => ?_, fun c client hc => ?_⟩
  · obtain ⟨client, hclient, hworker⟩ := h.known id' c ((hattached id' c).mp h').1
    rw [GatewayState.copyToClients]
    dsimp only
    rw [hclient]
    refine ⟨_, rfl, ?_⟩
    dsimp only
    split
    · rw [Client.trySend]
      split <;> exact hworker
    · exact hworker
  · rw [GatewayState.copyToClients]
    dsimp only
    rw [h.fresh c hc]
    rfl
  · rw [GatewayState.copyToClients] at hc
    dsimp only at hc
    obtain ⟨client, hclient, rfl⟩ := Option.map_eq_some_iff.mp hc
    have hserved := h.served c client hclient
    have hroom : s.hasRoom c = client.hasRoom := by rw [GatewayState.hasRoom, hclient]; rfl
    by_cases hmem : c ∈ entry.clients
    · -- attached to this worker: the frame is sent
      have hold := (attachedTo_of_entry hentry).mpr hmem
      have hworker := h.worker hclient hold
      rw [if_pos hmem, if_pos hworker]
      refine ((hserved.congr (iff_of_true trivial ⟨id, hold⟩)).send message).congr ?_
      rw [← hroom]
      refine ⟨fun ⟨id', hid'⟩ => ?_, fun h' => ⟨id, (hattached id c).mpr ⟨hold, fun _ => h'⟩⟩⟩
      obtain ⟨hid', hkeep⟩ := (hattached id' c).mp hid'
      exact hkeep ((h.worker hclient hid').symm.trans hworker)
    · rw [if_neg hmem]
      by_cases hworker : client.worker = id
      · -- a client of this worker that is off the table notes the frame
        have hoff : ¬ s.Attached c := fun h' =>
          hmem ((attachedTo_of_entry hentry).mp (hworker ▸ (h.attached_iff hclient).mp h'))
        rw [if_pos hworker]
        refine ((hserved.congr (iff_of_false not_false hoff)).skip client.hasRoom).congr ?_
        exact iff_of_false (fun ⟨id', h'⟩ => hoff ⟨id', ((hattached id' c).mp h').1⟩)
          not_false
      · rw [if_neg hworker]
        refine hserved.congr (exists_congr fun id' => (hattached id' c).trans ?_)
        refine and_iff_left_of_imp fun h' hid => absurd ?_ hworker
        exact (h.worker hclient h').trans hid

theorem relayFromWorker_cases (s : GatewayState) (id : WorkerId) (connectionId : ConnectionId)
    (message : Message) :
    (s.workerCurrent id connectionId = false ∧
        s.relayFromWorker id connectionId message = (false, s)) ∨
      ∃ entry, s.workers id = some entry ∧ entry.connectionId = connectionId ∧
        s.relayFromWorker id connectionId message = (true, s.copyToClients id entry message) := by
  rw [relayFromWorker, workerCurrent]
  cases hentry : s.workers id with
  | none => exact .inl ⟨rfl, rfl⟩
  | some entry =>
    dsimp only
    by_cases hcurrent : entry.connectionId = connectionId
    · rw [if_neg (not_not.mpr hcurrent)]
      exact .inr ⟨entry, rfl, hcurrent, rfl⟩
    · rw [if_pos hcurrent]
      exact .inl ⟨decide_eq_false hcurrent, rfl⟩

/-! ### One step -/

theorem Sound.setClient (h : s.Sound) {client' : Client} (hclient : s.clients c = some client)
    (hworker : client'.worker = client.worker)
    (hserved : ∀ attached, client.Served attached → client'.Served attached) :
    (s.setClient c client').Sound := by
  refine ⟨fun id c' h' => ?_, fun c' hc' => ?_, fun c' client'' hc' => ?_⟩
  · obtain ⟨old, hold, hid⟩ := h.known id c' h'
    by_cases hc' : c' = c
    · subst hc'
      obtain rfl := Option.some.inj (hclient.symm.trans hold)
      exact ⟨client', Function.update_self _ _ _, hworker.trans hid⟩
    · exact ⟨old, (Function.update_of_ne hc' _ _).trans hold, hid⟩
  · have hnone := h.fresh c' hc'
    have hne : c' ≠ c := by
      rintro rfl
      exact absurd (hnone.symm.trans hclient) nofun
    exact (Function.update_of_ne hne _ _).trans hnone
  · rw [GatewayState.setClient] at hc'
    dsimp only at hc'
    by_cases hne : c' = c
    · rw [hne, Function.update_self] at hc'
      obtain rfl := Option.some.inj hc'
      rw [hne]
      exact hserved _ (h.served c client hclient)
    · rw [Function.update_of_ne hne] at hc'
      exact h.served c' client'' hc'

theorem withConnection_eq_some {phase : Phase} {f : Connection → GatewayState} :
    s.withConnection connectionId phase f = some s' ↔
      ∃ connection, s.connections connectionId = some connection ∧ connection.phase = phase ∧
        f connection = s' := by
  rw [withConnection, Option.bind_eq_some_iff]
  refine exists_congr fun connection => and_congr_right fun _ => ?_
  split
  · next hphase => simp [hphase]
  · next hphase => simp [hphase]

theorem withClient_eq_some {p : Client → Bool} {f : Client → GatewayState} :
    s.withClient c p f = some s' ↔
      ∃ client, s.clients c = some client ∧ p client = true ∧ f client = s' := by
  rw [withClient, Option.bind_eq_some_iff]
  refine exists_congr fun client => and_congr_right fun _ => ?_
  split
  · next hp => simp [hp]
  · next hp => simp [hp]

variable {l : GatewayStep}

theorem Sound.step (h : s.Sound) (hstep : s.step l = some s') : s'.Sound := by
  cases l with
  | connectWorker id token =>
    rw [GatewayState.step] at hstep
    split at hstep
    · obtain rfl := Option.some.inj hstep
      exact h.registerWorker
    · exact absurd hstep nofun
  | workerFrame connectionId message =>
    obtain ⟨connection, -, -, rfl⟩ := withConnection_eq_some.mp hstep
    obtain ⟨-, heq⟩ | ⟨entry, hentry, -, heq⟩ :=
      relayFromWorker_cases s connection.worker connectionId message
    · rw [heq]
      exact h.of_same rfl rfl rfl
    · rw [heq]
      exact h.copyToClients hentry message
  | workerControl connectionId =>
    obtain ⟨connection, -, -, rfl⟩ := withConnection_eq_some.mp hstep
    split
    · exact h
    · exact h.of_same rfl rfl rfl
  | workerStop connectionId =>
    obtain ⟨connection, -, -, rfl⟩ := withConnection_eq_some.mp hstep
    exact h.of_same rfl rfl rfl
  | workerLeave connectionId =>
    obtain ⟨connection, -, -, rfl⟩ := withConnection_eq_some.mp hstep
    exact (h.disconnectWorker connection.worker connectionId).of_same rfl rfl rfl
  | connectClient id => exact (h.registerClient hstep).1
  | clientStop c =>
    obtain ⟨client, hclient, -, rfl⟩ := withClient_eq_some.mp hstep
    exact h.setClient hclient rfl fun _ h' => h'.of_same rfl rfl rfl rfl rfl (Nat.le_refl _)
  | clientLeave c =>
    obtain ⟨client, hclient, -, rfl⟩ := withClient_eq_some.mp hstep
    refine Sound.unregisterClient ?_ _ _
    exact h.setClient hclient rfl fun _ h' => h'.of_same rfl rfl rfl rfl rfl (Nat.le_refl _)
  | clientReceive c =>
    obtain ⟨client, hclient, -, rfl⟩ := withClient_eq_some.mp hstep
    cases hqueue : client.queue with
    | nil => exact h
    | cons message queue =>
      refine h.setClient hclient rfl fun _ h' => h'.of_same rfl rfl rfl rfl ?_ ?_
      · rw [hqueue, List.append_assoc]
        rfl
      · rw [hqueue]
        exact Nat.le_succ _
  | clientSinkEnd c =>
    obtain ⟨client, hclient, -, rfl⟩ := withClient_eq_some.mp hstep
    exact h.setClient hclient rfl fun _ h' => h'.of_same rfl rfl rfl rfl rfl (Nat.le_refl _)

theorem sound_of_run {steps : List GatewayStep} (hrun : gateway.exec gateway.init steps = some s) :
    s.Sound :=
  Machine.invariant_of_step (M := gateway) .init (fun _ _ _ h hstep => h.step hstep) hrun

/-! ### Off the table -/

theorem enqueued_remove (p : ClientId → Bool) (h : s.clients c = some client) :
    ∃ client', (s.modifyClients p Client.remove).clients c = some client' ∧
      client'.enqueued = client.enqueued := by
  rw [modifyClients]
  dsimp only
  split
  · rw [h]
    exact ⟨_, rfl, rfl⟩
  · exact ⟨client, h, rfl⟩

/-- A client that a step does not find on the table is not put on it, and gets nothing. -/
theorem Sound.step_off (h : s.Sound) (hstep : s.step l = some s')
    (hclient : s.clients c = some client) (hoff : ¬ s.Attached c) :
    ¬ s'.Attached c ∧
      ∃ client', s'.clients c = some client' ∧ client'.enqueued = client.enqueued := by
  -- the steps that leave the table alone
  have hsame : ∀ {t : GatewayState}, t.workers = s.workers → t.clients = s.clients →
      ¬ t.Attached c ∧
        ∃ client', t.clients c = some client' ∧ client'.enqueued = client.enqueued := by
    intro t hworkers hclients
    refine ⟨fun ⟨id, hid⟩ => hoff ⟨id, ?_⟩, client, hclients ▸ hclient, rfl⟩
    rwa [AttachedTo, hworkers] at hid
  have hown : ∀ {c' : ClientId} {old new : Client}, s.clients c' = some old →
      new.enqueued = old.enqueued → ∃ client', (s.setClient c' new).clients c = some client' ∧
        client'.enqueued = client.enqueued := by
    intro c' old new hold hnew
    by_cases hc : c = c'
    · subst hc
      obtain rfl := Option.some.inj (hclient.symm.trans hold)
      exact ⟨new, Function.update_self _ _ _, hnew⟩
    · exact ⟨client, (Function.update_of_ne hc _ _).trans hclient, rfl⟩
  cases l with
  | connectWorker id token =>
    rw [GatewayState.step] at hstep
    split at hstep
    · obtain rfl := Option.some.inj hstep
      refine ⟨fun ⟨id', hid'⟩ => hoff ⟨id', attachedTo_registerWorker.mp hid'⟩, client, ?_, rfl⟩
      rw [registerWorker_clients]
      exact hclient
    · exact absurd hstep nofun
  | workerFrame connectionId message =>
    obtain ⟨connection, -, -, rfl⟩ := withConnection_eq_some.mp hstep
    obtain ⟨-, heq⟩ | ⟨entry, hentry, -, heq⟩ :=
      relayFromWorker_cases s connection.worker connectionId message
    · rw [heq]
      exact hsame rfl rfl
    · rw [heq]
      have hmem : c ∉ entry.clients := fun hmem =>
        hoff ⟨_, (attachedTo_of_entry hentry).mpr hmem⟩
      refine ⟨fun ⟨id', hid'⟩ => hoff ⟨id', ?_⟩, ?_⟩
      · obtain ⟨-, hmem'⟩ | ⟨-, hold⟩ := (attachedTo_update rfl).mp hid'
        · exact absurd (List.mem_filter.mp hmem').1 hmem
        · exact hold
      · show ∃ client', (s.copyToClients connection.worker entry message).clients c = some client' ∧ _
        rw [GatewayState.copyToClients]
        dsimp only
        rw [hclient, Option.map_some, if_neg hmem]
        exact ⟨_, rfl, rfl⟩
  | workerControl connectionId =>
    obtain ⟨connection, -, -, rfl⟩ := withConnection_eq_some.mp hstep
    split
    · exact hsame rfl rfl
    · exact hsame rfl rfl
  | workerStop connectionId =>
    obtain ⟨connection, -, -, rfl⟩ := withConnection_eq_some.mp hstep
    exact hsame rfl rfl
  | workerLeave connectionId =>
    obtain ⟨connection, -, -, rfl⟩ := withConnection_eq_some.mp hstep
    obtain ⟨-, heq⟩ | ⟨entry, hentry, -, heq⟩ :=
      disconnectWorker_cases s connection.worker connectionId
    · rw [heq]
      exact hsame rfl rfl
    · rw [heq]
      refine ⟨fun ⟨id', entry', hentry', hmem⟩ => hoff ⟨id', entry', ?_, hmem⟩, ?_⟩
      · have hne : id' ≠ connection.worker := by
          rintro rfl
          exact absurd ((Function.update_self _ _ _).symm.trans hentry') nofun
        exact (Function.update_of_ne hne _ _).symm.trans hentry'
      · exact enqueued_remove (· ∈ entry.clients) hclient
  | connectClient id =>
    obtain ⟨entry, hentry, rfl⟩ := Option.map_eq_some_iff.mp hstep
    have hne : c ≠ s.nextClientId := by
      rintro rfl
      exact absurd ((h.fresh _ (Nat.le_refl _)).symm.trans hclient) nofun
    refine ⟨fun ⟨id', hid'⟩ => hoff ⟨id', ?_⟩, client, ?_, rfl⟩
    · obtain ⟨rfl, hmem⟩ | ⟨-, hold⟩ := (attachedTo_update rfl).mp hid'
      · exact (attachedTo_of_entry hentry).mpr ((List.mem_cons.mp hmem).resolve_left hne)
      · exact hold
    · exact (Function.update_of_ne hne _ _).trans hclient
  | clientStop c' =>
    obtain ⟨old, hold, -, rfl⟩ := withClient_eq_some.mp hstep
    exact ⟨hoff, hown hold rfl⟩
  | clientLeave c' =>
    obtain ⟨old, hold, -, rfl⟩ := withClient_eq_some.mp hstep
    obtain ⟨client', hclient', henqueued⟩ :
        ∃ client', (s.setClient c' { old with phase := .over }).clients c = some client' ∧
          client'.enqueued = client.enqueued := hown hold rfl
    obtain ⟨-, heq⟩ | ⟨entry, hentry, hmem, heq⟩ :=
      unregisterClient_cases (s.setClient c' { old with phase := .over }) old.worker c'
    · rw [heq]
      exact ⟨hoff, client', hclient', henqueued⟩
    · rw [heq]
      refine ⟨fun ⟨id', hid'⟩ => hoff ⟨id', ?_⟩, ?_⟩
      · obtain ⟨rfl, hmem'⟩ | ⟨-, hold'⟩ := (attachedTo_update rfl).mp hid'
        · exact (attachedTo_of_entry hentry).mpr (List.mem_filter.mp hmem').1
        · exact hold'
      · obtain ⟨client'', hclient'', henqueued'⟩ := enqueued_remove (· = c') hclient'
        exact ⟨client'', hclient'', henqueued'.trans henqueued⟩
  | clientReceive c' =>
    obtain ⟨old, hold, -, rfl⟩ := withClient_eq_some.mp hstep
    split
    · exact hsame rfl rfl
    · exact ⟨hoff, hown hold rfl⟩
  | clientSinkEnd c' =>
    obtain ⟨old, hold, -, rfl⟩ := withClient_eq_some.mp hstep
    exact ⟨hoff, hown hold rfl⟩

/-- Nor does a run of them. -/
theorem Sound.exec_off (h : s.Sound) (hclient : s.clients c = some client) (hoff : ¬ s.Attached c)
    {steps : List GatewayStep} (hrun : gateway.exec s steps = some s') :
    ¬ s'.Attached c ∧
      ∃ client', s'.clients c = some client' ∧ client'.enqueued = client.enqueued := by
  have hend : s'.Sound ∧ ¬ s'.Attached c ∧
      ∃ client', s'.clients c = some client' ∧ client'.enqueued = client.enqueued := by
    refine Machine.exec_invariant (C := fun _ _ => True) (M := gateway)
      (I := fun t => t.Sound ∧ ¬ t.Attached c ∧
        ∃ client', t.clients c = some client' ∧ client'.enqueued = client.enqueued)
      ?_ ⟨h, hoff, client, hclient, rfl⟩ (Machine.along_true s steps) hrun
    rintro t l t' ⟨ht, htoff, client', hclient', henqueued⟩ - hstep
    obtain ⟨hoff', client'', hclient'', henqueued'⟩ := ht.step_off hstep hclient' htoff
    exact ⟨ht.step hstep, hoff', client'', hclient'', henqueued'.trans henqueued⟩
  exact hend.2

/-! ### The handlers of the connections -/

def Live (s : GatewayState) : Prop :=
  ∀ id entry, s.workers id = some entry → ∃ connection,
    s.connections entry.connectionId = some connection ∧ connection.worker = id ∧
      connection.phase ≠ .over

theorem disconnectWorker_connections {id : WorkerId} :
    (s.disconnectWorker id connectionId).connections = s.connections := by
  obtain ⟨-, heq⟩ | ⟨entry, -, -, heq⟩ := disconnectWorker_cases s id connectionId
  · rw [heq]
  · rw [heq]
    rfl

theorem unregisterClient_connections :
    (s.unregisterClient id c).connections = s.connections := by
  obtain ⟨-, heq⟩ | ⟨entry, -, -, heq⟩ := unregisterClient_cases s id c
  · rw [heq]
  · rw [heq]
    rfl

/-- An entry of the table keeps its token, and a new one has a new token. -/
theorem connectionId_of_step (hstep : s.step l = some s') {entry' : WorkerEntry}
    (hentry' : s'.workers id = some entry') :
    (l = .connectWorker id entry'.connectionId ∧ s.connections entry'.connectionId = none) ∨
      ∃ entry, s.workers id = some entry ∧ entry.connectionId = entry'.connectionId := by
  have hupdate : ∀ {id' : WorkerId} {old new : WorkerEntry}, s.workers id' = some old →
      Function.update s.workers id' (some new) id = some entry' →
        new.connectionId = old.connectionId →
          ∃ entry, s.workers id = some entry ∧ entry.connectionId = entry'.connectionId := by
    intro id' old new hold h hnew
    by_cases hid : id = id'
    · rw [hid, Function.update_self] at h
      obtain rfl := Option.some.inj h
      exact ⟨old, hid ▸ hold, hnew.symm⟩
    · rw [Function.update_of_ne hid] at h
      exact ⟨entry', h, rfl⟩
  cases l with
  | connectWorker id' token =>
    rw [GatewayState.step] at hstep
    split at hstep
    · next hfresh =>
      obtain rfl := Option.some.inj hstep
      rw [registerWorker_workers] at hentry'
      by_cases hid : id = id'
      · rw [hid, Function.update_self] at hentry'
        obtain rfl := Option.some.inj hentry'
        exact .inl ⟨by rw [hid], hfresh⟩
      · rw [Function.update_of_ne hid] at hentry'
        exact .inr ⟨entry', hentry', rfl⟩
    · exact absurd hstep nofun
  | workerFrame k message =>
    obtain ⟨connection, -, -, rfl⟩ := withConnection_eq_some.mp hstep
    obtain ⟨-, heq⟩ | ⟨entry, hentry, -, heq⟩ :=
      relayFromWorker_cases s connection.worker k message
    · rw [heq] at hentry'
      exact .inr ⟨entry', hentry', rfl⟩
    · rw [heq] at hentry'
      exact .inr (hupdate hentry hentry' rfl)
  | workerControl k =>
    obtain ⟨connection, -, -, rfl⟩ := withConnection_eq_some.mp hstep
    split at hentry'
    · exact .inr ⟨entry', hentry', rfl⟩
    · exact .inr ⟨entry', hentry', rfl⟩
  | workerStop k =>
    obtain ⟨connection, -, -, rfl⟩ := withConnection_eq_some.mp hstep
    exact .inr ⟨entry', hentry', rfl⟩
  | workerLeave k =>
    obtain ⟨connection, -, -, rfl⟩ := withConnection_eq_some.mp hstep
    obtain ⟨-, heq⟩ | ⟨entry, -, -, heq⟩ := disconnectWorker_cases s connection.worker k
    · rw [heq] at hentry'
      exact .inr ⟨entry', hentry', rfl⟩
    · rw [heq] at hentry'
      refine .inr ⟨entry', ?_, rfl⟩
      have hne : id ≠ connection.worker := by
        rintro rfl
        exact absurd ((Function.update_self _ _ _).symm.trans hentry') nofun
      exact (Function.update_of_ne hne _ _).symm.trans hentry'
  | connectClient id' =>
    obtain ⟨entry, hentry, rfl⟩ := Option.map_eq_some_iff.mp hstep
    exact .inr (hupdate hentry hentry' rfl)
  | clientStop c =>
    obtain ⟨client, -, -, rfl⟩ := withClient_eq_some.mp hstep
    exact .inr ⟨entry', hentry', rfl⟩
  | clientLeave c =>
    obtain ⟨client, -, -, rfl⟩ := withClient_eq_some.mp hstep
    obtain ⟨-, heq⟩ | ⟨entry, hentry, -, heq⟩ :=
      unregisterClient_cases (s.setClient c { client with phase := .over }) client.worker c
    · rw [heq] at hentry'
      exact .inr ⟨entry', hentry', rfl⟩
    · rw [heq] at hentry'
      exact .inr (hupdate hentry hentry' rfl)
  | clientReceive c =>
    obtain ⟨client, -, -, rfl⟩ := withClient_eq_some.mp hstep
    split at hentry'
    · exact .inr ⟨entry', hentry', rfl⟩
    · exact .inr ⟨entry', hentry', rfl⟩
  | clientSinkEnd c =>
    obtain ⟨client, -, -, rfl⟩ := withClient_eq_some.mp hstep
    exact .inr ⟨entry', hentry', rfl⟩

theorem connection_of_step (hstep : s.step l = some s') {connection : Connection}
    (hconnection : s.connections connectionId = some connection) : ∃ connection',
      s'.connections connectionId = some connection' ∧ connection'.worker = connection.worker ∧
        (connection'.phase = .over → connection.phase = .over ∨ l = .workerLeave connectionId) := by
  have hset : ∀ {t : GatewayState} {k : ConnectionId} {old new : Connection},
      t.connections = s.connections → s.connections k = some old → new.worker = old.worker →
        (new.phase = .over → old.phase = .over ∨ l = .workerLeave k) →
          ∃ connection', (t.setConnection k new).connections connectionId = some connection' ∧
            connection'.worker = connection.worker ∧ (connection'.phase = .over →
              connection.phase = .over ∨ l = .workerLeave connectionId) := by
    intro t k old new ht hold hworker hphase
    rw [setConnection, ht]
    by_cases hk : connectionId = k
    · subst hk
      obtain rfl := Option.some.inj (hconnection.symm.trans hold)
      exact ⟨new, Function.update_self _ _ _, hworker, hphase⟩
    · exact ⟨connection, (Function.update_of_ne hk _ _).trans hconnection, rfl, .inl⟩
  cases l with
  | connectWorker id token =>
    rw [GatewayState.step] at hstep
    split at hstep
    · next hfresh =>
      obtain rfl := Option.some.inj hstep
      have hne : connectionId ≠ token := by
        rintro rfl
        exact absurd (hfresh.symm.trans hconnection) nofun
      rw [GatewayState.registerWorker]
      cases s.workers id with
      | none => exact ⟨connection, (Function.update_of_ne hne _ _).trans hconnection, rfl, .inl⟩
      | some previous =>
        show ∃ connection', Function.update (s.supersede previous.connectionId).connections token _
          connectionId = some connection' ∧ _
        rw [Function.update_of_ne hne, supersede]
        split
        · next old hold => exact hset rfl hold rfl .inl
        · exact ⟨connection, hconnection, rfl, .inl⟩
    · exact absurd hstep nofun
  | workerFrame k message =>
    obtain ⟨old, hold, hphase, rfl⟩ := withConnection_eq_some.mp hstep
    obtain ⟨-, heq⟩ | ⟨entry, -, -, heq⟩ := relayFromWorker_cases s old.worker k message
    · rw [heq]
      exact hset rfl hold rfl nofun
    · rw [heq]
      exact ⟨connection, hconnection, rfl, .inl⟩
  | workerControl k =>
    obtain ⟨old, hold, hphase, rfl⟩ := withConnection_eq_some.mp hstep
    split
    · exact ⟨connection, hconnection, rfl, .inl⟩
    · exact hset rfl hold rfl nofun
  | workerStop k =>
    obtain ⟨old, hold, hphase, rfl⟩ := withConnection_eq_some.mp hstep
    exact hset rfl hold rfl nofun
  | workerLeave k =>
    obtain ⟨old, hold, hphase, rfl⟩ := withConnection_eq_some.mp hstep
    exact hset disconnectWorker_connections hold rfl fun _ => .inr rfl
  | connectClient id =>
    obtain ⟨entry, hentry, rfl⟩ := Option.map_eq_some_iff.mp hstep
    exact ⟨connection, hconnection, rfl, .inl⟩
  | clientStop c =>
    obtain ⟨client, -, -, rfl⟩ := withClient_eq_some.mp hstep
    exact ⟨connection, hconnection, rfl, .inl⟩
  | clientLeave c =>
    obtain ⟨client, -, -, rfl⟩ := withClient_eq_some.mp hstep
    refine ⟨connection, ?_, rfl, .inl⟩
    rw [unregisterClient_connections]
    exact hconnection
  | clientReceive c =>
    obtain ⟨client, -, -, rfl⟩ := withClient_eq_some.mp hstep
    split
    · exact ⟨connection, hconnection, rfl, .inl⟩
    · exact ⟨connection, hconnection, rfl, .inl⟩
  | clientSinkEnd c =>
    obtain ⟨client, -, -, rfl⟩ := withClient_eq_some.mp hstep
    exact ⟨connection, hconnection, rfl, .inl⟩

theorem Live.step (h : s.Live) (hstep : s.step l = some s') : s'.Live := by
  intro id entry' hentry'
  obtain ⟨rfl, hfresh⟩ | ⟨entry, hentry, htoken⟩ := connectionId_of_step hstep hentry'
  · rw [GatewayState.step, hfresh] at hstep
    obtain rfl := Option.some.inj hstep
    refine ⟨⟨id, false, .running⟩, ?_, rfl, nofun⟩
    rw [registerWorker]
    exact Function.update_self _ _ _
  · obtain ⟨connection, hconnection, hworker, hphase⟩ := h id entry hentry
    rw [htoken] at hconnection
    obtain ⟨connection', hconnection', hworker', hover⟩ := connection_of_step hstep hconnection
    refine ⟨connection', hconnection', hworker'.trans hworker, fun hover' => ?_⟩
    obtain hold | rfl := hover hover'
    · exact hphase hold
    · -- a handler that leaves takes its entry with it
      obtain ⟨old, hold, -, rfl⟩ := withConnection_eq_some.mp hstep
      obtain rfl := Option.some.inj (hconnection.symm.trans hold)
      obtain ⟨hcurrent, -⟩ | ⟨_, -, -, heq⟩ :=
        disconnectWorker_cases s connection.worker entry'.connectionId
      · rw [workerCurrent, hworker, hentry] at hcurrent
        exact of_decide_eq_false hcurrent htoken
      · rw [heq, hworker] at hentry'
        exact absurd ((Function.update_self _ _ _).symm.trans hentry') nofun

theorem Superseded.step (h : s.Superseded connectionId) (hstep : s.step l = some s') :
    s'.Superseded connectionId := by
  obtain ⟨connection, hconnection, hnone⟩ := h
  obtain ⟨connection', hconnection', -⟩ := connection_of_step hstep hconnection
  refine ⟨connection', hconnection', fun id entry' hentry' htoken => ?_⟩
  obtain ⟨-, hfresh⟩ | ⟨entry, hentry, htoken'⟩ := connectionId_of_step hstep hentry'
  · rw [htoken] at hfresh
    exact absurd (hfresh.symm.trans hconnection) nofun
  · exact hnone id entry hentry (htoken'.trans htoken)

theorem Superseded.handler (h : s.Superseded connectionId) (hl : l.connection = some connectionId)
    (hstep : s.step l = some s') :
    s'.workers = s.workers ∧ s'.clients = s.clients := by
  cases l with
  | workerFrame k message =>
    obtain rfl := Option.some.inj hl
    obtain ⟨connection, -, -, rfl⟩ := withConnection_eq_some.mp hstep
    obtain ⟨-, heq⟩ | ⟨entry, hentry, htoken, -⟩ :=
      relayFromWorker_cases s connection.worker k message
    · rw [heq]
      exact ⟨rfl, rfl⟩
    · exact absurd htoken (h.choose_spec.2 _ entry hentry)
  | workerControl k =>
    obtain ⟨connection, -, -, rfl⟩ := withConnection_eq_some.mp hstep
    split
    · exact ⟨rfl, rfl⟩
    · exact ⟨rfl, rfl⟩
  | workerStop k =>
    obtain ⟨connection, -, -, rfl⟩ := withConnection_eq_some.mp hstep
    exact ⟨rfl, rfl⟩
  | workerLeave k =>
    obtain rfl := Option.some.inj hl
    obtain ⟨connection, -, -, rfl⟩ := withConnection_eq_some.mp hstep
    obtain ⟨-, heq⟩ | ⟨entry, hentry, htoken, -⟩ := disconnectWorker_cases s connection.worker k
    · rw [heq]
      exact ⟨rfl, rfl⟩
    · exact absurd htoken (h.choose_spec.2 _ entry hentry)
  | _ => exact absurd hl nofun

structure Relays (s : GatewayState) : Prop where
  joined : ∀ id s', s.step (.connectClient id) = some s' →
    s'.AttachedTo id s.nextClientId ∧ s'.clients s.nextClientId = some (.new id)
  served : ∀ c client, s.clients c = some client → client.Served (s.Attached c)
  /-- A client that is off the table gets nothing any more, whatever happens. -/
  final : ∀ c client, s.clients c = some client → ¬ s.Attached c →
    ∀ steps s', gateway.exec s steps = some s' → ¬ s'.Attached c ∧
      ∃ client', s'.clients c = some client' ∧ client'.enqueued = client.enqueued
  replaced : ∀ id token s', s.step (.connectWorker id token) = some s' →
    s'.workerCurrent id token = true ∧
      (∀ entry, s.workers id = some entry → s'.Superseded entry.connectionId) ∧
      ∀ c, s.AttachedTo id c → s'.AttachedTo id c ∧ s'.clients c = s.clients c
  /-- A connection that is not in the table stays out of it, and its handler changes neither the
  table nor what any client has been given. -/
  superseded : ∀ k, s.Superseded k →
    (∀ steps s', gateway.exec s steps = some s' → s'.Superseded k) ∧
      ∀ l s', l.connection = some k → s.step l = some s' →
        s'.workers = s.workers ∧ s'.clients = s.clients
  live : s.Live
  ended : ∀ id k s', s.workerCurrent id k = true → s.step (.workerLeave k) = some s' →
    s'.workers id = none ∧ ∀ c, s.AttachedTo id c →
      ¬ s'.Attached c ∧ ∃ client, s'.clients c = some client ∧ client.shutdown = true

theorem Sound.ended (h : s.Sound) (hlive : s.Live)
    (hcurrent : s.workerCurrent id connectionId = true)
    (hstep : s.step (.workerLeave connectionId) = some s') :
    s'.workers id = none ∧ ∀ c, s.AttachedTo id c →
      ¬ s'.Attached c ∧ ∃ client, s'.clients c = some client ∧ client.shutdown = true := by
  obtain ⟨connection, hconnection, -, heq⟩ := withConnection_eq_some.mp hstep
  have hsound : s'.Sound := h.step hstep
  -- the handler's worker is the one that it is current for
  rw [workerCurrent] at hcurrent
  split at hcurrent
  · next entry hentry =>
    obtain rfl := of_decide_eq_true hcurrent
    obtain ⟨connection', hconnection', rfl, -⟩ := hlive id entry hentry
    obtain rfl := Option.some.inj (hconnection.symm.trans hconnection')
    have hnone : s'.workers connection.worker = none := by
      subst heq
      obtain ⟨hnot, -⟩ | ⟨_, -, -, heq⟩ :=
        disconnectWorker_cases s connection.worker entry.connectionId
      · rw [workerCurrent, hentry] at hnot
        exact absurd rfl (of_decide_eq_false hnot)
      · rw [heq]
        exact Function.update_self _ _ _
    refine ⟨hnone, fun c hattached => ?_⟩
    obtain ⟨client, hclient, hworker⟩ := h.known _ c hattached
    have hclient' : ∃ client', s'.clients c = some client' ∧
        client'.worker = connection.worker := by
      subst heq
      obtain ⟨-, heq⟩ | ⟨entry', -, -, heq⟩ :=
        disconnectWorker_cases s connection.worker entry.connectionId
      · rw [heq]
        exact ⟨client, hclient, hworker⟩
      · rw [heq]
        show ∃ client', (s.modifyClients (· ∈ entry'.clients) Client.remove).clients c =
          some client' ∧ _
        rw [modifyClients]
        dsimp only
        split
        · rw [hclient]
          exact ⟨_, rfl, hworker⟩
        · exact ⟨client, hclient, hworker⟩
    obtain ⟨client', hclient', hworker'⟩ := hclient'
    have hoff : ¬ s'.Attached c := by
      rw [hsound.attached_iff hclient', hworker', AttachedTo, hnone]
      simp
    exact ⟨hoff, client', hclient', ((hsound.served c client' hclient').stopped hoff).1⟩
  · exact absurd hcurrent Bool.false_ne_true

theorem Sound.relays (h : s.Sound) (hlive : s.Live) : s.Relays where
  joined id s' hstep := by
    refine ⟨(h.registerClient hstep).2, ?_⟩
    obtain ⟨entry, -, rfl⟩ := Option.map_eq_some_iff.mp hstep
    exact Function.update_self _ _ _
  served := h.served
  final c client hclient hoff steps s' hrun := h.exec_off hclient hoff hrun
  replaced id token s' hstep := by
    rw [GatewayState.step] at hstep
    split at hstep
    · next hfresh =>
      obtain rfl := Option.some.inj hstep
      refine ⟨?_, fun entry hentry => ?_, fun c hattached => ?_⟩
      · rw [workerCurrent, registerWorker_workers, Function.update_self]
        exact decide_eq_true rfl
      · obtain ⟨connection, hconnection, hworker, -⟩ := hlive id entry hentry
        have hstep : s.step (.connectWorker id token) = some (s.registerWorker id token) := by
          rw [GatewayState.step, hfresh]
        obtain ⟨connection', hconnection', -⟩ := connection_of_step hstep hconnection
        refine ⟨connection', hconnection', fun id' entry' hentry' htoken => ?_⟩
        rw [registerWorker_workers] at hentry'
        by_cases hid : id' = id
        · rw [hid, Function.update_self] at hentry'
          obtain rfl := Option.some.inj hentry'
          obtain rfl : token = entry.connectionId := htoken
          exact absurd (hfresh.symm.trans hconnection) nofun
        · rw [Function.update_of_ne hid] at hentry'
          obtain ⟨other, hother, hworker', -⟩ := hlive id' entry' hentry'
          rw [htoken] at hother
          obtain rfl := Option.some.inj (hconnection.symm.trans hother)
          exact hid (hworker'.symm.trans hworker)
      · rw [registerWorker_clients]
        exact ⟨attachedTo_registerWorker.mpr hattached, rfl⟩
    · exact absurd hstep nofun
  superseded k hk := by
    refine ⟨fun steps s' hrun => ?_, fun l s' hl hstep => hk.handler hl hstep⟩
    exact Machine.exec_invariant (C := fun _ _ => True) (M := gateway)
      (I := fun t => t.Superseded k) (fun _ _ _ ht _ hstep => ht.step hstep) hk
      (Machine.along_true s steps) hrun
  live := hlive
  ended id k s' hcurrent hstep := h.ended hlive hcurrent hstep

theorem relays_of_run {steps : List GatewayStep} (hrun : gateway.exec gateway.init steps = some s) :
    s.Relays := by
  have hlive : s.Live := Machine.invariant_of_step (M := gateway) (I := Live)
    (fun _ _ h => absurd h nofun) (fun _ _ _ h hstep => h.step hstep) hrun
  exact (sound_of_run hrun).relays hlive

end GatewayState

def reconnection : List GatewayStep :=
  [.connectWorker ['w'] ['a'], .connectClient ['w'], .workerFrame ['a'] (.text ['x']),
    .connectWorker ['w'] ['b'], .workerFrame ['a'] (.text ['y']),
    .workerFrame ['b'] (.binary [7])]

theorem relays_reconnection : ∃ s, gateway.exec gateway.init reconnection = some s ∧ s.Relays ∧
    (s.clients 1).map Client.enqueued = some [.text ['x'], .binary [7]] :=
  ⟨_, rfl, @GatewayState.relays_of_run _ reconnection rfl, by decide⟩

end Goble.Gateway
