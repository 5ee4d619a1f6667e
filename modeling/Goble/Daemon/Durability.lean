import Goble.Daemon.Liveness

/-!
# What survives a restart

The checkpoint sink is called in one place: a settling drain persists the checkpoint of its
run's ledger. `Restores` compares what a restarted daemon reads back for a session with the
session's current turns; `Durable` asks for it wherever the session is idle (`Idle`: its drains
have returned and none of its runs is running or suspended).

Between a change to a ledger and the next checkpoint of it, some run of that ledger has yet to
persist (`Unpersisted`). Recording, appending and settling happen in such a run. Truncations
and forks need not: `KeepsDurable` asks that one drops turns only while an unpersisted run of
the ledger is there to persist the result, that a fork leaves the turns of its target as they
were, and that a stream that ends without a terminal event belongs to a run that will still
settle. `durable_of_keepsDurable` is the result over whole runs; `not_durable` rewinds a settled
session, whose dropped turn is back after the restart.
-/

namespace Goble

/-- The task has yet to persist its run's ledger. -/
def Drain.unpersisted (dr : Drain) : Bool :=
  match dr.pc with
  | .next | .mirror _ | .emit _ | .settle | .capture | .log _ | .persist => true
  | _ => false

/-- The task has persisted its run's ledger and not yet published the run's status. -/
def Drain.publishing (dr : Drain) : Bool :=
  match dr.pc with
  | .setStatus => true
  | _ => false

/-- The calls of `DaemonPort`, and the steps of the tasks they start. -/
def DaemonOp.isPort : DaemonOp → Bool
  | .restoreCheckpoint _ | .setCheckpointSink _ | .register _ => false
  | _ => true

namespace DaemonState

variable (d : DaemonState)

def restart (registry : HarnessId → Option Harness) (root : Option String) (sid : SessionId) :
    DaemonState :=
  match d.store sid with
  | some cp => (new registry root).restoreCheckpoint cp
  | none => new registry root

def stored (sid : SessionId) : List TurnRecord :=
  match d.store sid with
  | some cp => cp.turns
  | none => []

def Idle (sid : SessionId) : Prop :=
  (∀ t < d.drainCount, (d.drains t).sessionId = sid → (d.drains t).finished = true) ∧
    ∀ r < d.runCount, (d.runs r).sessionId = sid → (d.runs r).status ≠ .running

instance decidableIdle (sid : SessionId) : Decidable (d.Idle sid) :=
  inferInstanceAs (Decidable (_ ∧ _))

def Unpersisted (r : RunRef) : Prop :=
  (∃ t < d.drainCount, (d.drains t).state = r ∧ (d.drains t).unpersisted = true) ∨
    ((d.runs r).status = .running ∧
      ∀ t < d.drainCount, (d.drains t).state = r → (d.drains t).publishing = false)

instance decidableUnpersisted (r : RunRef) : Decidable (d.Unpersisted r) :=
  inferInstanceAs (Decidable (_ ∨ _))

end DaemonState

def Restores (registry : HarnessId → Option Harness) (root : Option String) (d : DaemonState)
    (sid : SessionId) : Prop :=
  ((d.restart registry root sid).ledgerOf sid).turns = (d.ledgerOf sid).turns

/-- Wherever a session is idle, a restart brings back its turns. -/
def Durable (registry : HarnessId → Option Harness) (root : Option String) (d : DaemonState) :
    Prop :=
  ∀ sid, d.Idle sid → Restores registry root d sid

def DaemonState.CutPersisted (d : DaemonState) (sid : SessionId) (n : Nat) : Prop :=
  (d.ledgerOf sid).len ≤ n ∨
    ∃ r < d.runCount, (d.runs r).ledger = d.ledgerRef sid ∧ d.Unpersisted r

instance DaemonState.decidableCutPersisted (d : DaemonState) (sid : SessionId) (n : Nat) :
    Decidable (d.CutPersisted sid n) :=
  inferInstanceAs (Decidable (_ ∨ _))

/-- If the stream of task `t` ends without a terminal event, its run is still running and none
of its drains is past its checkpoint. -/
def DaemonState.SuspendsRunning (d : DaemonState) (t : TaskId) : Prop :=
  (d.drains t).finalStatus = .running →
    (d.runs (d.drains t).state).status = .running ∧
      ∀ u < d.drainCount, (d.drains u).state = (d.drains t).state →
        (d.drains u).publishing = false

instance DaemonState.decidableSuspendsRunning (d : DaemonState) (t : TaskId) :
    Decidable (d.SuspendsRunning t) :=
  inferInstanceAs (Decidable (_ → _))

/-- The step changes a ledger only where a checkpoint of it is still to come. -/
def KeepsDurable (d : DaemonState) (op : DaemonOp) : Prop :=
  match d.truncation op with
  | some (sid, n) => d.CutPersisted sid n
  | none =>
    match op with
    | .fork sid pos newSid =>
      (d.ledgerOf sid).turns.take pos = (d.ledgerOf newSid).turns ∧ d.Idle newSid
    | .drainClose t => d.SuspendsRunning t
    | _ => True

/-- An evaluable check of the condition, for steps other than a fork. -/
def keepsDurable (d : DaemonState) (op : DaemonOp) : Bool :=
  match d.truncation op with
  | some (sid, n) => decide (d.CutPersisted sid n)
  | none =>
    match op with
    | .fork _ _ _ => false
    | .drainClose t => decide (d.SuspendsRunning t)
    | _ => true

theorem KeepsDurable.of_check {d : DaemonState} {op : DaemonOp} (h : keepsDurable d op = true) :
    KeepsDurable d op := by
  unfold keepsDurable at h
  unfold KeepsDurable
  cases hop : d.truncation op with
  | some x => simpa only [hop, decide_eq_true_eq] using h
  | none =>
    simp only [hop] at h ⊢
    cases op with
    | fork => cases h
    | drainClose t => exact of_decide_eq_true h
    | _ => trivial

theorem DaemonState.Unpersisted.effect {d d' : DaemonState} {op : DaemonOp} {r : RunRef}
    (hU : d.Unpersisted r) (hW : WF d) (hr : r < d.runCount) (hC : KeepsDurable d op)
    (heff : d.Effect op d')
    (hpersist : ∀ t, (d.drains t).pc = .persist → (d'.drains t).pc = .setStatus →
      (d.drains t).state ≠ r) : d'.Unpersisted r := by
  -- the runs of the second kind stay of it, as long as their status does
  have hsecond : (d.runs r).status = .running →
      (∀ t < d.drainCount, (d.drains t).state = r → (d.drains t).publishing = false) →
      d'.Unpersisted r := by
    intro hrun hpub
    refine .inr ⟨?_, fun t ht hst => ?_⟩
    -- only a publishing drain writes the status, and the run has none
    · rcases heff.status_cases hr with hsame | ⟨t, hpc, hst, -⟩
      · rw [hsame, hrun]
      · have hlt := (hW.moves hpc (by simp)).1
        have := hpub t hlt hst
        simp [Drain.publishing, hpc] at this
    -- a new drain does not publish, and one that moves on to publish has persisted first
    · rcases heff.drain_cases t with hsame | ⟨-, sid, traceId, q, hspawn, -⟩ | hmove
      · rw [hsame] at hst ⊢
        rcases Nat.lt_or_ge t d.drainCount with hlt | hge
        · exact hpub t hlt hst
        · rw [hW.drains_unallocated t hge]
          rfl
      · rw [hspawn]
        rfl
      · rw [hmove.state] at hst
        have hedge := hmove.edge
        unfold Drain.publishing
        split
        · next hpc' =>
          rw [hpc'] at hedge
          have hpc : (d.drains t).pc = .persist := by
            generalize (d.drains t).pc = pc at hedge ⊢
            cases hedge
            rfl
          exact absurd hst (hpersist t hpc hpc')
        · rfl
  -- the runs of the first kind have a drain that is still to persist
  rcases hU with ⟨t, ht, hst, hun⟩ | ⟨hrun, hpub⟩
  · rcases heff.drain_cases t with hsame | ⟨hnew, -⟩ | hmove
    · exact .inl ⟨t, Nat.lt_of_lt_of_le ht heff.drainCount_le, by rw [hsame, hst], by rwa [hsame]⟩
    · exact absurd hnew (Nat.ne_of_lt ht)
    · by_cases hun' : (d'.drains t).unpersisted = true
      · exact .inl ⟨t, Nat.lt_of_lt_of_le ht heff.drainCount_le, by rw [hmove.state, hst], hun'⟩
      · -- it has just persisted, or its stream has ended without a terminal event
        have hedge := hmove.edge
        have hsusp := hmove.suspended
        have hper := hpersist t
        unfold Drain.unpersisted at hun hun'
        generalize (d.drains t).pc = pc at hedge hsusp hper hun
        generalize (d'.drains t).pc = pc' at hedge hsusp hper hun'
        cases hedge with
        -- the condition on the suspension makes it a run of the second kind
        | suspend =>
          obtain ⟨rfl, hrunning⟩ := hsusp rfl rfl
          obtain ⟨hrun, hpub⟩ : _ ∧ _ := hC hrunning
          rw [hst] at hrun hpub
          exact hsecond hrun hpub
        | persist => exact absurd hst (hper rfl rfl)
        | _ => first | exact absurd rfl hun' | cases hun
  · exact hsecond hrun hpub

/-! ### The invariant -/

structure DurableInv (d : DaemonState) : Prop where
  wf : WF d
  sink : d.checkpointSink = true
  keyed : ∀ sid cp, d.store sid = some cp → cp.sessionId = sid
  current : ∀ t, (d.drains t).finished = false →
    d.ledgers (d.drains t).sessionId = some (d.runs (d.drains t).state).ledger
  entry_current : ∀ sid r, d.sessions sid = some r → d.ledgers sid = some (d.runs r).ledger
  /-- A session with an entry is not idle. -/
  entry_live : ∀ sid r, d.sessions sid = some r → (d.runs r).status = .running ∨
    ∃ t, (d.drains t).state = r ∧ (d.drains t).closing = true
  kept : ∀ sid, d.stored sid = (d.ledgerOf sid).turns ∨
    ∃ r < d.runCount, (d.runs r).ledger = d.ledgerRef sid ∧ d.Unpersisted r

namespace DurableInv

variable {d d' : DaemonState} {op : DaemonOp}

theorem initial (registry : HarnessId → Option Harness) (root : Option String) :
    DurableInv ((DaemonState.new registry root).setCheckpointSink true) where
  wf := { WF.initial registry root with }
  sink := rfl
  keyed := fun _ _ h => by cases h
  current := fun _ h => by cases h
  entry_current := fun _ _ h => by cases h
  entry_live := fun _ _ h => by cases h
  kept := fun _ => .inl rfl

theorem lt_of_unfinished (hW : WF d) {t : TaskId} (ht : (d.drains t).finished = false) :
    t < d.drainCount :=
  hW.lt_drainCount fun h => by simp [Drain.finished, h] at ht

variable {sid : SessionId}

theorem sessions_of_idle (hI : DurableInv d) (hidle : d.Idle sid) :
    d.sessions sid = none := by
  cases hs : d.sessions sid with
  | none => rfl
  | some r =>
    have hr := hI.wf.sessions_lt sid r hs
    have hsid := hI.wf.sessions_sid sid r hs
    rcases hI.entry_live sid r hs with hrun | ⟨t, hst, hclo⟩
    · exact absurd hrun (hidle.2 r hr hsid)
    · have hopen : (d.drains t).finished = false := by
        revert hclo
        cases h : (d.drains t).pc <;> simp [Drain.finished, Drain.closing, h]
      have hlt := lt_of_unfinished hI.wf hopen
      have hdone := hidle.1 t hlt (by rw [hI.wf.drains_sid t hlt, hst, hsid])
      cases hopen.symm.trans hdone

theorem stored_of_idle (hI : DurableInv d) (hidle : d.Idle sid) :
    d.stored sid = (d.ledgerOf sid).turns := by
  rcases hI.kept sid with hkept | ⟨r, hr, hledger, hun⟩
  · exact hkept
  · have hsid : (d.runs r).sessionId = sid := by
      cases hL : d.ledgers sid with
      | some L =>
        rw [← hI.wf.runs_ledger_sid r hr, hledger, DaemonState.ledgerRef, hL, Option.getD_some]
        exact hI.wf.ledgers_sid sid L hL
      | none =>
        rw [DaemonState.ledgerRef, hL, Option.getD_none] at hledger
        exact absurd hledger (Nat.ne_of_lt (hI.wf.runs_ledger_lt r hr))
    rcases hun with ⟨t, ht, hst, hun⟩ | ⟨hrun, -⟩
    · have hdone := hidle.1 t ht (by rw [hI.wf.drains_sid t ht, hst, hsid])
      revert hun hdone
      cases h : (d.drains t).pc <;> simp [Drain.finished, Drain.unpersisted, h]
    · exact absurd hrun (hidle.2 r hr hsid)

/-- **Durability of the invariant**: a restart of an idle session reads its turns back. -/
theorem durable (hI : DurableInv d) (registry : HarnessId → Option Harness)
    (root : Option String) : Durable registry root d := by
  intro sid hidle
  rw [Restores, ← hI.stored_of_idle hidle]
  simp only [DaemonState.restart, DaemonState.stored]
  split
  · next cp hcp =>
    obtain rfl := hI.keyed sid cp hcp
    simp [DaemonState.restoreCheckpoint, DaemonState.ledgerOf, DaemonState.ledgerRef]
  · rfl

/-- Only a fork onto an idle session replaces a ledger. -/
theorem ledgers_kept (hport : op.isPort = true) (hC : KeepsDurable d op) (heff : d.Effect op d')
    (hbusy : ¬ d.Idle sid) :
    d'.ledgers sid = d.ledgers sid := by
  rcases heff.ledgers_cases sid with hkeep | ⟨src, pos, rfl, -⟩ | ⟨cp, rfl, -⟩
  · exact hkeep
  · exact absurd hC.2 hbusy
  · cases hport

theorem entry_current_effect (hI : DurableInv d) (hport : op.isPort = true)
    (hC : KeepsDurable d op) (heff : d.Effect op d') (sid : SessionId) (r : RunRef)
    (hr : d'.sessions sid = some r) : d'.ledgers sid = some (d'.runs r).ledger := by
  rcases heff.sessions_cases hr with
    ⟨hold, -⟩ | ⟨rfl, hL, turn, dirOk, now, harness, rfl, -, rfl, rfl⟩
  -- an old entry: its session is busy, so no call may replace its ledger
  · have hbusy : ¬ d.Idle sid := fun hidle => by
      cases (hI.sessions_of_idle hidle).symm.trans hold
    rw [ledgers_kept hport hC heff hbusy, hI.entry_current sid r hold,
      (heff.runs_fixed (hI.wf.sessions_lt sid r hold)).1]
  · rw [DaemonState.startRun_ledgers, hL, DaemonState.startRun_runs, Function.update_self]
    rfl

theorem current_effect (hI : DurableInv d) (hport : op.isPort = true) (hC : KeepsDurable d op)
    (heff : d.Effect op d') (t : TaskId) (ht : (d'.drains t).finished = false) :
    d'.ledgers (d'.drains t).sessionId = some (d'.runs (d'.drains t).state).ledger := by
  -- a drain that was unfinished before keeps its session busy
  have hold : (d.drains t).finished = false → (d'.drains t).state = (d.drains t).state →
      (d'.drains t).sessionId = (d.drains t).sessionId →
      d'.ledgers (d'.drains t).sessionId = some (d'.runs (d'.drains t).state).ledger := by
    intro hopen hst hsid
    have hlt := lt_of_unfinished hI.wf hopen
    have hbusy : ¬ d.Idle (d.drains t).sessionId := fun hidle => by
      cases hopen.symm.trans (hidle.1 t hlt rfl)
    rw [hst, hsid, ledgers_kept hport hC heff hbusy, hI.current t hopen,
      (heff.runs_fixed (hI.wf.drains_lt t hlt)).1]
  rcases heff.drain_cases t with hsame | ⟨-, sid, traceId, r, hspawn, hr⟩ | hmove
  · exact hold (hsame ▸ ht) (by rw [hsame]) (by rw [hsame])
  · rw [hspawn]
    exact hI.entry_current_effect hport hC heff sid r hr
  · refine hold ?_ hmove.state hmove.sessionId
    have hedge := hmove.edge
    -- no edge leads out of `done`
    unfold Drain.finished
    generalize (d.drains t).pc = pc at hedge ⊢
    generalize (d'.drains t).pc = pc' at hedge
    cases hedge <;> rfl

theorem entry_live_effect (hI : DurableInv d) (heff : d.Effect op d') (sid : SessionId)
    (r : RunRef) (hr : d'.sessions sid = some r) : (d'.runs r).status = .running ∨
      ∃ t, (d'.drains t).state = r ∧ (d'.drains t).closing = true := by
  rcases heff.sessions_cases hr with
    ⟨hold, -⟩ | ⟨rfl, -, turn, dirOk, now, harness, rfl, -, rfl, rfl⟩
  · have hlt := hI.wf.sessions_lt sid r hold
    -- either the status stays, or a drain has just written it and is closing
    rcases heff.status_cases hlt with hsame | ⟨t, hpc, hst, hpc'⟩
    · rcases hI.entry_live sid r hold with hrun | ⟨t, hst, hclo⟩
      · exact .inl (hsame.trans hrun)
      -- the closing drain is still closing, or has made its last move
      · rcases heff.drain_cases t with hdr | ⟨hnew, -⟩ | hmove
        · exact .inr ⟨t, by rw [hdr, hst], by rwa [hdr]⟩
        · rw [hnew, hI.wf.drains_unallocated _ (Nat.le_refl _)] at hclo
          cases hclo
        · by_cases hclo' : (d'.drains t).closing = true
          · exact .inr ⟨t, by rw [hmove.state, hst], hclo'⟩
          · -- its last move: the entry is gone
            have hpc : (d.drains t).pc = .remove := by
              have hedge := hmove.edge
              unfold Drain.closing at hclo hclo'
              generalize (d.drains t).pc = pc at hedge hclo ⊢
              generalize (d'.drains t).pc = pc' at hedge hclo'
              cases hedge <;> first | rfl | exact absurd rfl hclo' | cases hclo
            have hgone := hmove.removed hpc
            have htlt := (hI.wf.moves hpc (by simp)).1
            rw [hI.wf.drains_sid t htlt, hst, hI.wf.sessions_sid sid r hold, hr] at hgone
            cases hgone
    · refine .inr ⟨t, ?_, by simp [Drain.closing, hpc']⟩
      rcases heff.drain_cases t with hdr | ⟨hnew, -⟩ | hmove
      · rw [hdr, hst]
      · exact absurd hnew (Nat.ne_of_lt (hI.wf.moves hpc (by simp)).1)
      · rw [hmove.state, hst]
  -- a run that has just started
  · refine .inl ?_
    rw [DaemonState.startRun_runs, Function.update_self]
    rfl

/-- A session whose ledger has no turns has nothing stored, unless a run is to persist. -/
theorem kept_of_none (hI : DurableInv d) (hL : d.ledgers sid = none) :
    d.stored sid = [] := by
  rcases hI.kept sid with hkept | ⟨r, hr, hledger, -⟩
  · rw [hkept, hI.wf.ledgerOf_of_none hL]
    rfl
  · rw [DaemonState.ledgerRef, hL, Option.getD_none] at hledger
    exact absurd hledger (Nat.ne_of_lt (hI.wf.runs_ledger_lt r hr))

/-- What is kept for a session carries over a step that changes neither its ledger nor what is
stored for it, and persists no run of it. -/
theorem carry (hI : DurableInv d) (hC : KeepsDurable d op) (heff : d.Effect op d')
    (hstore : d'.stored sid = d.stored sid) (hledgers : d'.ledgers sid = d.ledgers sid)
    (hturns : ∀ L, d.ledgers sid = some L →
      (d'.ledgerHeap L).turns = (d.ledgerHeap L).turns)
    (hper : ∀ t, (d.drains t).pc = .persist → (d'.drains t).pc = .setStatus →
      (d.runs (d.drains t).state).ledger ≠ d.ledgerRef sid) :
    d'.stored sid = (d'.ledgerOf sid).turns ∨
      ∃ r < d'.runCount, (d'.runs r).ledger = d'.ledgerRef sid ∧ d'.Unpersisted r := by
  cases hL : d.ledgers sid with
  | none =>
    refine .inl ?_
    rw [hstore, hI.kept_of_none hL, (hI.wf.effect heff).ledgerOf_of_none (hledgers.trans hL)]
    rfl
  | some L =>
    have href : d.ledgerRef sid = L := by simp [DaemonState.ledgerRef, hL]
    have href' : d'.ledgerRef sid = L := by simp [DaemonState.ledgerRef, hledgers, hL]
    -- what was stored is still what the ledger holds, or the run is still to persist
    rcases hI.kept sid with hkept | ⟨r, hr, hledger, hun⟩
    · exact .inl (by rw [hstore, hkept, DaemonState.ledgerOf, DaemonState.ledgerOf, href, href',
        hturns L hL])
    · refine .inr ⟨r, Nat.lt_of_lt_of_le hr heff.runCount_le, ?_, ?_⟩
      · rw [(heff.runs_fixed hr).1, hledger, href, href']
      · exact hun.effect hI.wf hr hC heff fun t hpc hpc' hst =>
          hper t hpc hpc' (by rw [hst, hledger])

theorem kept_of_persist (hI : DurableInv d) {t : TaskId} (hmove : d.Moves op d' t)
    (hpc : (d.drains t).pc = .persist)
    (hledger : (d.runs (d.drains t).state).ledger = d.ledgerRef sid) :
    d'.stored sid = (d'.ledgerOf sid).turns := by
  obtain ⟨hledgers, hheap, hstore⟩ := hmove.persisted hpc
  obtain ⟨now, hstore⟩ := hstore hI.sink
  have hcur := hI.current t (by simp [Drain.finished, hpc])
  have hsid : sid = (d.drains t).sessionId := hI.wf.eq_of_ledgerRef hcur hledger
  have hown := hI.wf.ledgers_sid _ _ hcur
  have href : d'.ledgerRef sid = (d.runs (d.drains t).state).ledger := by
    rw [DaemonState.ledgerRef, hledgers, hsid, hcur, Option.getD_some]
  rw [DaemonState.ledgerOf, href, hheap, DaemonState.stored, hstore, hown, ← hsid,
    Function.update_self]
  rfl

theorem kept_of_unpersisted (hW : WF d) {t : TaskId} (hun : (d.drains t).unpersisted = true)
    (hledger : (d.runs (d.drains t).state).ledger = d.ledgerRef sid) :
    ∃ r < d.runCount, (d.runs r).ledger = d.ledgerRef sid ∧ d.Unpersisted r := by
  have hlt : t < d.drainCount := hW.lt_drainCount fun h => by simp [Drain.unpersisted, h] at hun
  exact ⟨_, hW.drains_lt t hlt, hledger, .inl ⟨t, hlt, rfl, hun⟩⟩

theorem kept_effect (hI : DurableInv d) (hport : op.isPort = true) (hC : KeepsDurable d op)
    (heff : d.Effect op d') (sid : SessionId) :
    d'.stored sid = (d'.ledgerOf sid).turns ∨
      ∃ r < d'.runCount, (d'.runs r).ledger = d'.ledgerRef sid ∧ d'.Unpersisted r := by
  -- either the step persists the session's ledger, or it persists another one or none
  by_cases hper : ∃ t, (d.drains t).pc = .persist ∧ (d'.drains t).pc = .setStatus ∧
      (d.runs (d.drains t).state).ledger = d.ledgerRef sid
  · obtain ⟨t, hpc, hpc', hledger⟩ := hper
    rcases heff.drain_cases t with hsame | ⟨hnew, -⟩ | hmove
    · rw [hsame, hpc] at hpc'
      cases hpc'
    · exact absurd hnew (Nat.ne_of_lt (hI.wf.moves hpc (by simp)).1)
    · exact .inl (hI.kept_of_persist hmove hpc hledger)
  · have hper : ∀ t, (d.drains t).pc = .persist → (d'.drains t).pc = .setStatus →
        (d.runs (d.drains t).state).ledger ≠ d.ledgerRef sid :=
      fun t hpc hpc' hl => hper ⟨t, hpc, hpc', hl⟩
    have hW' := hI.wf.effect heff
    have hcopy := heff
    -- the two steps that rewrite a turn leave a drain of that ledger with a checkpoint to come
    have hrewrite : ∀ t dr st i f, d' = (d.setLedger st.ledger
        ((d.ledgerHeap st.ledger).modifyTurn i f)).setDrain t dr →
        d.runs (d.drains t).state = st → dr.state = (d.drains t).state →
        dr.unpersisted = true →
        d'.stored sid = (d'.ledgerOf sid).turns ∨
          ∃ r < d'.runCount, (d'.runs r).ledger = d'.ledgerRef sid ∧ d'.Unpersisted r := by
      rintro t dr st i f rfl hst hdst hun
      by_cases hl : st.ledger = d.ledgerRef sid
      · refine .inr (kept_of_unpersisted hW' (t := t) (by simpa using hun) (Eq.trans ?_ hl))
        simp [hdst, hst]
      · refine hI.carry hC hcopy rfl rfl (fun L hL => ?_) hper
        have href : d.ledgerRef sid = L := by simp [DaemonState.ledgerRef, hL]
        rw [DaemonState.setDrain_ledgerHeap, DaemonState.setLedger_ledgerHeap,
          Function.update_of_ne fun h => hl (h.symm.trans href.symm)]
    cases heff with
    | @run turn dirOk now harness K hK hacc =>
      by_cases hl : d.ledgerRef turn.sessionId = d.ledgerRef sid
      -- the new drain has everything still to persist
      · refine .inr (kept_of_unpersisted hW' (t := d.drainCount) (by simp [Drain.unpersisted])
          (Eq.trans ?_ hl))
        simp [DaemonState.runState]
      · refine hI.carry hC hcopy rfl rfl (fun L hL => ?_) hper
        have href : d.ledgerRef sid = L := by simp [DaemonState.ledgerRef, hL]
        rw [DaemonState.startRun_ledgerHeap,
          Function.update_of_ne fun h => hl (h.symm.trans href.symm)]
    | @truncate _ s n K sel restores hop hK hrest =>
      have hkeep := hC
      simp only [KeepsDurable, hop] at hkeep
      by_cases hl : K = d.ledgerRef sid
      -- the ledger that is cut is the one of the session
      · obtain rfl : sid = s := hI.wf.eq_of_ledgerRef hK hl
        rcases hkeep with hlen | ⟨r, hr, hledger, hun⟩
        · -- nothing is dropped
          refine hI.carry hC hcopy rfl rfl (fun L hL => ?_) hper
          obtain rfl : K = L := Option.some.inj (hK.symm.trans hL)
          rw [DaemonState.ledgerOf, ← hl] at hlen
          rw [DaemonState.setLedger_ledgerHeap, Function.update_self]
          exact List.take_of_length_le hlen
        · exact .inr ⟨r, hr, hledger, hun.effect hI.wf hr hC hcopy fun t hpc hpc' hst =>
            hper t hpc hpc' (by rw [hst, hledger])⟩
      · refine hI.carry hC hcopy rfl rfl (fun L hL => ?_) hper
        have href : d.ledgerRef sid = L := by simp [DaemonState.ledgerRef, hL]
        rw [DaemonState.setLedger_ledgerHeap,
          Function.update_of_ne fun h => hl (h.symm.trans href.symm)]
    | @mark _ s K sel hop hK =>
      refine hI.carry hC hcopy rfl rfl (fun L hL => ?_) hper
      rw [DaemonState.setLedger_ledgerHeap, Function.update_apply]
      split
      · next h => rw [h]
      · rfl
    | @fork src newSid pos K hK =>
      obtain ⟨hsame, hidle⟩ : (d.ledgerOf src).turns.take pos = (d.ledgerOf newSid).turns ∧
        d.Idle newSid := id hC
      by_cases hs : sid = newSid
      -- the condition allows a fork only onto an idle session with these very turns
      · subst hs
        refine .inl ((hI.stored_of_idle hidle).trans (hsame.symm.trans ?_))
        simp [DaemonState.ledgerOf, DaemonState.ledgerRef, hK]
      · refine hI.carry hC hcopy rfl (Function.update_of_ne hs _ _) (fun L hL => ?_) hper
        rw [DaemonState.insertLedger_ledgerHeap,
          Function.update_of_ne (Nat.ne_of_lt (hI.wf.ledgers_lt sid L hL))]
    | restoreCheckpoint => cases hport
    | @event t ev st pc status error hpc hst hmap =>
      refine hrewrite t _ st _ _ rfl hst rfl ?_
      rcases hmap with ⟨-, rfl, -⟩ | ⟨e, -, rfl⟩ <;> rfl
    | @settle t _ now st hpc hst => exact hrewrite t _ st _ _ rfl hst rfl rfl
    | @persist t _ now cp store hpc hcp hstore =>
      -- the drain works on its session's current ledger, so it stores another session's
      refine hI.carry hC hcopy ?_ rfl (fun _ _ => rfl) hper
      have hcur := hI.current t (by simp [Drain.finished, hpc])
      have hne : sid ≠ cp.sessionId := by
        rintro rfl
        refine hper t hpc (by simp) ?_
        have hown : cp.sessionId = (d.drains t).sessionId := by
          rw [← hI.wf.ledgers_sid _ _ hcur, ← hcp]
          rfl
        rw [DaemonState.ledgerRef, hown, hcur, Option.getD_some]
      have hget : store sid = d.store sid := by
        rcases hstore with ⟨-, rfl⟩ | ⟨-, rfl⟩
        · exact Function.update_of_ne hne _ _
        · rfl
      simp only [DaemonState.stored, DaemonState.setDrain_store, hget]
    | _ => exact hI.carry hC hcopy rfl rfl (fun _ _ => rfl) hper

theorem keyed_effect (hI : DurableInv d) (heff : d.Effect op d') (sid : SessionId)
    (cp : Checkpoint) (hcp : d'.store sid = some cp) : cp.sessionId = sid := by
  cases heff with
  | @persist t _ now cp' store hpc hcp' hstore =>
    have hcp : store sid = some cp := hcp
    rcases hstore with ⟨-, rfl⟩ | ⟨-, rfl⟩
    · rw [Function.update_apply] at hcp
      split at hcp
      · next h => rw [← Option.some.inj hcp, h]
      · exact hI.keyed sid cp hcp
    · exact hI.keyed sid cp hcp
  | _ => exact hI.keyed sid cp hcp

/-- **Invariant preservation.** -/
theorem effect (hI : DurableInv d) (hport : op.isPort = true) (hC : KeepsDurable d op)
    (heff : d.Effect op d') : DurableInv d' where
  wf := hI.wf.effect heff
  sink := by
    have hsink := hI.sink
    cases heff with
    | setCheckpointSink => cases hport
    | _ => exact hsink
  keyed := hI.keyed_effect heff
  current := hI.current_effect hport hC heff
  entry_current := hI.entry_current_effect hport hC heff
  entry_live := hI.entry_live_effect heff
  kept := hI.kept_effect hport hC heff

/-- Allocating the empty ledger of a session that had none changes nothing that is kept. -/
theorem touched {d₁ : DaemonState} (hI : DurableInv d) (ht : d.Touched op d₁) :
    DurableInv d₁ := by
  have hW := hI.wf.touched ht
  have htouch := ht
  obtain rfl | ⟨s, -, hnone, rfl⟩ := ht
  · exact hI
  · have hsome : ∀ sid L, d.ledgers sid = some L →
        (d.insertLedger s (.new s)).ledgers sid = some L := by
      intro sid L hL
      rw [DaemonState.insertLedger_ledgers, Function.update_of_ne]
      · exact hL
      · rintro rfl
        cases hnone.symm.trans hL
    refine ⟨hW, hI.sink, hI.keyed, fun t h => hsome _ _ (hI.current t h),
      fun sid r h => hsome _ _ (hI.entry_current sid r h), hI.entry_live, fun sid => ?_⟩
    rcases hI.kept sid with hkept | ⟨r, hr, hledger, hun⟩
    · exact .inl (hkept.trans (hI.wf.ledgerOf_touched htouch sid).1.symm)
    · refine .inr ⟨r, hr, hledger.trans ?_, hun⟩
      -- the ledger of a run exists
      cases hL : d.ledgers sid with
      | some L => simp only [DaemonState.ledgerRef, hsome sid L hL, hL, Option.getD_some]
      | none =>
        rw [DaemonState.ledgerRef, hL, Option.getD_none] at hledger
        exact absurd hledger (Nat.ne_of_lt (hI.wf.runs_ledger_lt r hr))

end DurableInv

/-- The condition does not depend on whether the ledger a call reads is allocated. -/
theorem KeepsDurable.touched {d d₁ : DaemonState} {op : DaemonOp} (hC : KeepsDurable d op)
    (hW : WF d) (ht : d.Touched op d₁) : KeepsDurable d₁ op := by
  have hturns := fun sid => (hW.ledgerOf_touched ht sid).1
  have htr := hW.truncation_touched ht
  have href : ∀ sid, op.reads = some sid → d₁.ledgerRef sid = d.ledgerRef sid :=
    fun sid => WF.ledgerRef_touched ht
  simp only [KeepsDurable, DaemonState.CutPersisted, htr, LedgerState.len, hturns] at hC ⊢
  cases hop : d.truncation op with
  | some x =>
    obtain ⟨sid, n⟩ := x
    simp only [hop, href sid (DaemonState.reads_of_truncation hop)] at hC ⊢
    obtain rfl | ⟨s, -, -, rfl⟩ := ht <;> exact hC
  | none =>
    simp only [hop] at hC ⊢
    obtain rfl | ⟨s, -, -, rfl⟩ := ht <;> exact hC

/-- **Restart restores the history.** Along every run of a daemon with a sink attached whose
steps change a ledger only where a checkpoint of it is still to come, a restart brings back the
turns of every session that is idle. -/
theorem durable_of_keepsDurable (registry : HarnessId → Option Harness) (root : Option String)
    (ops : List DaemonOp) (d : DaemonState) (hops : ∀ op ∈ ops, op.isPort = true)
    (hC : (daemonMachine registry root).Along KeepsDurable
      ((DaemonState.new registry root).setCheckpointSink true) ops)
    (hrun : (daemonMachine registry root).exec
      ((DaemonState.new registry root).setCheckpointSink true) ops = some d) :
    Durable registry root d := by
  have hI : DurableInv d := by
    refine Machine.exec_invariant (C := fun d op => KeepsDurable d op ∧ op.isPort = true) ?_
      (DurableInv.initial registry root) (hC.and_labels hops) hrun
    rintro d op d' hI ⟨hC, hport⟩ hs
    obtain ⟨d₁, htouch, heff⟩ := DaemonState.step_cases hs
    exact (hI.touched htouch).effect hport (hC.touched hI.wf htouch) heff
  exact hI.durable registry root

/-- A second turn is discarded while it runs; what it persists when it settles no longer holds
it, and the restart brings back the first turn alone. -/
theorem durable_after_discard :
    ∃ d, (daemonMachine mockRegistry none).exec
        ((DaemonState.new mockRegistry none).setCheckpointSink true)
        ([.run (.new ⟨"mock"⟩ ⟨"s1"⟩ "a") true 0] ++ drainToEnd 0 ⟨"s1"⟩ none
          ++ [.run (.new ⟨"mock"⟩ ⟨"s1"⟩ "b") true 1, .discard ⟨"s1"⟩ 1]
          ++ drainToEnd 1 ⟨"s1"⟩ none) = some d ∧
      d.Idle ⟨"s1"⟩ ∧ (d.ledgerOf ⟨"s1"⟩).len = 1 ∧ Durable mockRegistry none d := by
  obtain ⟨d, hrun, hfacts⟩ := Option.map_eq_some_iff.mp (show
    ((daemonMachine mockRegistry none).exec
      ((DaemonState.new mockRegistry none).setCheckpointSink true)
      ([.run (.new ⟨"mock"⟩ ⟨"s1"⟩ "a") true 0] ++ drainToEnd 0 ⟨"s1"⟩ none
        ++ [.run (.new ⟨"mock"⟩ ⟨"s1"⟩ "b") true 1, .discard ⟨"s1"⟩ 1]
        ++ drainToEnd 1 ⟨"s1"⟩ none)).map
        (fun d => (decide (d.Idle ⟨"s1"⟩), (d.ledgerOf ⟨"s1"⟩).len)) = some (true, 1) by
    decide +kernel)
  obtain ⟨hidle, hlen⟩ := Prod.mk.inj hfacts
  refine ⟨d, hrun, of_decide_eq_true hidle, hlen, ?_⟩
  refine durable_of_keepsDurable mockRegistry none _ d (by decide) ?_ hrun
  exact Machine.Along.mono (C := fun d op => keepsDurable d op = true)
    (fun _ _ h => KeepsDurable.of_check h) (by decide +kernel)

/-- Without the condition a dropped turn comes back: a settled session is rewound to its start,
and the checkpoint persisted when the turn settled still holds it. -/
theorem not_durable :
    ¬ ∀ (registry : HarnessId → Option Harness) (root : Option String) (ops : List DaemonOp)
      (d : DaemonState), (∀ op ∈ ops, op.isPort = true) →
      (daemonMachine registry root).exec
        ((DaemonState.new registry root).setCheckpointSink true) ops = some d →
      (∀ sid, d.Idle sid) → ∀ sid, Restores registry root d sid := by
  intro hall
  obtain ⟨d, hrun, hfacts⟩ := Option.map_eq_some_iff.mp (show
    ((daemonMachine mockRegistry none).exec
      ((DaemonState.new mockRegistry none).setCheckpointSink true)
      ([.run (.new ⟨"mock"⟩ ⟨"s1"⟩ "a") true 0] ++ drainToEnd 0 ⟨"s1"⟩ none
        ++ [.rewind ⟨"s1"⟩ 0])).map
        (fun d => (decide ((∀ t < d.drainCount, (d.drains t).finished = true) ∧
            ∀ r < d.runCount, (d.runs r).status ≠ .running),
          (d.ledgerOf ⟨"s1"⟩).len,
          ((d.restart mockRegistry none ⟨"s1"⟩).ledgerOf ⟨"s1"⟩).len)) = some (true, 0, 1) by
    decide +kernel)
  simp only [Prod.mk.injEq, decide_eq_true_eq] at hfacts
  obtain ⟨⟨hdrains, hruns⟩, hlen, hlen'⟩ := hfacts
  have hrest := hall mockRegistry none _ d (by decide) hrun
    (fun _ => ⟨fun t ht _ => hdrains t ht, fun r hr _ => hruns r hr⟩) ⟨"s1"⟩
  have := congrArg List.length hrest
  rw [LedgerState.len] at hlen hlen'
  omega

end Goble
