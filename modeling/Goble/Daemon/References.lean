import Goble.Daemon.Step

/-!
# What the references of the daemon point at

`WF` is what the references of a reachable state point at: ledgers are filed under the
session they carry, a run writes to a ledger of its own session, a drain works for a run of
its own session. Every step keeps it, whatever the call (`WF.step`).
-/

namespace Goble

/-- What the references of a reachable state point at. -/
structure WF (d : DaemonState) : Prop where
  ledgers_lt : ∀ sid L, d.ledgers sid = some L → L < d.ledgerCount
  /-- A ledger is filed under the session it carries. -/
  ledgers_sid : ∀ sid L, d.ledgers sid = some L → (d.ledgerHeap L).sessionId = sid
  heap_unallocated : ∀ L, d.ledgerCount ≤ L → d.ledgerHeap L = .new ⟨""⟩
  runs_ledger_lt : ∀ r, r < d.runCount → (d.runs r).ledger < d.ledgerCount
  /-- A run writes to a ledger of its own session. -/
  runs_ledger_sid : ∀ r, r < d.runCount →
    (d.ledgerHeap (d.runs r).ledger).sessionId = (d.runs r).sessionId
  runs_unallocated : ∀ r, d.runCount ≤ r → d.runs r = .unallocated
  sessions_lt : ∀ sid r, d.sessions sid = some r → r < d.runCount
  sessions_sid : ∀ sid r, d.sessions sid = some r → (d.runs r).sessionId = sid
  drains_lt : ∀ t, t < d.drainCount → (d.drains t).state < d.runCount
  /-- A drain works for a run of its own session. -/
  drains_sid : ∀ t, t < d.drainCount →
    (d.drains t).sessionId = (d.runs (d.drains t).state).sessionId
  drains_unallocated : ∀ t, d.drainCount ≤ t → d.drains t = .unallocated

namespace WF

variable {d : DaemonState}

theorem initial (registry : HarnessId → Option Harness) (root : Option String) :
    WF (DaemonState.new registry root) := by
  constructor <;> simp [DaemonState.new]

theorem lt_drainCount (hW : WF d) {t : TaskId} (h : (d.drains t).pc ≠ .done) :
    t < d.drainCount := by
  by_contra hge
  exact h (by rw [hW.drains_unallocated t (Nat.le_of_not_lt hge)]; rfl)

theorem moves (hW : WF d) {t : TaskId} {pc : DrainPc} (hpc : (d.drains t).pc = pc)
    (hne : pc ≠ .done) : t < d.drainCount ∧ (d.drains t).state < d.runCount := by
  have ht := hW.lt_drainCount (hpc ▸ hne)
  exact ⟨ht, hW.drains_lt t ht⟩

variable {sid : SessionId}

theorem insertLedger (hW : WF d) {l : LedgerState} (hl : l.sessionId = sid) :
    WF (d.insertLedger sid l) where
  ledgers_lt := fun s L h => by
    simp only [DaemonState.insertLedger, Function.update_apply] at h ⊢
    split at h
    · exact Option.some.inj h ▸ Nat.lt_succ_self _
    · exact Nat.lt_succ_of_lt (hW.ledgers_lt s L h)
  ledgers_sid := fun s L h => by
    simp only [DaemonState.insertLedger, Function.update_apply] at h ⊢
    split at h
    -- the fresh ledger itself
    · next hs =>
      rw [if_pos (Option.some.inj h).symm, hl, hs]
    · rw [if_neg (Nat.ne_of_lt (hW.ledgers_lt s L h)), hW.ledgers_sid s L h]
  heap_unallocated := fun L h => by
    simp only [DaemonState.insertLedger, Function.update_apply] at h ⊢
    rw [if_neg (Nat.ne_of_gt h), hW.heap_unallocated L (Nat.le_of_succ_le h)]
  -- a run works on an older ledger
  runs_ledger_lt := fun r h => Nat.lt_succ_of_lt (hW.runs_ledger_lt r h)
  runs_ledger_sid := fun r h => by
    simp only [DaemonState.insertLedger, Function.update_apply]
    rw [if_neg (Nat.ne_of_lt (hW.runs_ledger_lt r h)), hW.runs_ledger_sid r h]
  runs_unallocated := hW.runs_unallocated
  sessions_lt := hW.sessions_lt
  sessions_sid := hW.sessions_sid
  drains_lt := hW.drains_lt
  drains_sid := hW.drains_sid
  drains_unallocated := hW.drains_unallocated

theorem setLedger (hW : WF d) {L : LedgerRef} {l : LedgerState} (hL : L < d.ledgerCount)
    (hl : l.sessionId = (d.ledgerHeap L).sessionId) : WF (d.setLedger L l) := by
  -- what is written back is filed under the same session
  have hsid : ∀ K, ((d.setLedger L l).ledgerHeap K).sessionId = (d.ledgerHeap K).sessionId := by
    intro K
    simp only [DaemonState.setLedger, Function.update_apply]
    split
    · next h => rw [hl, h]
    · rfl
  exact { hW with
    ledgers_sid := fun s K h => (hsid K).trans (hW.ledgers_sid s K h)
    heap_unallocated := fun K h => by
      simp only [DaemonState.setLedger, Function.update_apply]
      rw [if_neg (Nat.ne_of_gt (Nat.lt_of_lt_of_le hL h)), hW.heap_unallocated K h]
    runs_ledger_sid := fun r h => (hsid _).trans (hW.runs_ledger_sid r h) }

theorem setRun (hW : WF d) {r : RunRef} {st : SessionState} (hr : r < d.runCount)
    (hl : st.ledger = (d.runs r).ledger) (hs : st.sessionId = (d.runs r).sessionId) :
    WF (d.setRun r st) := by
  -- what is written back names the same ledger and the same session
  have hledger : ∀ q, ((d.setRun r st).runs q).ledger = (d.runs q).ledger := by
    intro q
    simp only [DaemonState.setRun, Function.update_apply]
    split
    · next h => rw [hl, h]
    · rfl
  have hsid : ∀ q, ((d.setRun r st).runs q).sessionId = (d.runs q).sessionId := by
    intro q
    simp only [DaemonState.setRun, Function.update_apply]
    split
    · next h => rw [hs, h]
    · rfl
  exact { hW with
    runs_ledger_lt := fun q h => by rw [hledger]; exact hW.runs_ledger_lt q h
    runs_ledger_sid := fun q h => by rw [hledger, hsid]; exact hW.runs_ledger_sid q h
    runs_unallocated := fun q h => by
      simp only [DaemonState.setRun, Function.update_apply]
      rw [if_neg (Nat.ne_of_gt (Nat.lt_of_lt_of_le hr h)), hW.runs_unallocated q h]
    sessions_sid := fun s q h => (hsid q).trans (hW.sessions_sid s q h)
    drains_sid := fun t h => (hW.drains_sid t h).trans (hsid _).symm }

theorem setDrain (hW : WF d) {t : TaskId} {dr : Drain} (ht : t < d.drainCount)
    (hst : dr.state = (d.drains t).state) (hs : dr.sessionId = (d.drains t).sessionId) :
    WF (d.setDrain t dr) := by
  have hstate : ∀ u, ((d.setDrain t dr).drains u).state = (d.drains u).state := by
    intro u
    simp only [DaemonState.setDrain, Function.update_apply]
    split
    · next h => rw [hst, h]
    · rfl
  have hsid : ∀ u, ((d.setDrain t dr).drains u).sessionId = (d.drains u).sessionId := by
    intro u
    simp only [DaemonState.setDrain, Function.update_apply]
    split
    · next h => rw [hs, h]
    · rfl
  exact { hW with
    drains_lt := fun u h => by rw [hstate]; exact hW.drains_lt u h
    drains_sid := fun u h => by rw [hstate, hsid]; exact hW.drains_sid u h
    drains_unallocated := fun u h => by
      simp only [DaemonState.setDrain, Function.update_apply]
      rw [if_neg (Nat.ne_of_gt (Nat.lt_of_lt_of_le ht h)), hW.drains_unallocated u h] }

theorem spawnStream (hW : WF d) (sid : SessionId) (traceId : String) {r : RunRef}
    (hr : r < d.runCount) (hs : (d.runs r).sessionId = sid) :
    WF (d.spawnStream sid traceId r) where
  __ := hW
  drains_lt := fun t h => by
    simp only [DaemonState.spawnStream, Function.update_apply] at h ⊢
    split
    · exact hr
    · next ht => exact hW.drains_lt t (Nat.lt_of_le_of_ne (Nat.le_of_lt_succ h) ht)
  drains_sid := fun t h => by
    simp only [DaemonState.spawnStream, Function.update_apply] at h ⊢
    split
    · exact hs.symm
    · next ht => exact hW.drains_sid t (Nat.lt_of_le_of_ne (Nat.le_of_lt_succ h) ht)
  drains_unallocated := fun t h => by
    simp only [DaemonState.spawnStream, Function.update_apply] at h ⊢
    rw [if_neg (Nat.ne_of_gt h), hW.drains_unallocated t (Nat.le_of_succ_le h)]

theorem insertRun (hW : WF d) (st : SessionState) (hl : st.ledger < d.ledgerCount)
    (hs : (d.ledgerHeap st.ledger).sessionId = st.sessionId) : WF (d.insertRun st) := by
  -- the older runs are where they were, and the new one comes after them
  have hold : ∀ q, q < d.runCount → (d.insertRun st).runs q = d.runs q :=
    fun q h => Function.update_of_ne (Nat.ne_of_lt h) _ _
  have hnew : (d.insertRun st).runs d.runCount = st := Function.update_self ..
  exact { hW with
    runs_ledger_lt := fun q h => by
      rcases Nat.lt_succ_iff_lt_or_eq.mp h with h | rfl
      · rw [hold q h]; exact hW.runs_ledger_lt q h
      · rw [hnew]; exact hl
    runs_ledger_sid := fun q h => by
      rcases Nat.lt_succ_iff_lt_or_eq.mp h with h | rfl
      · rw [hold q h]; exact hW.runs_ledger_sid q h
      · rw [hnew]; exact hs
    runs_unallocated := fun q h => by
      rw [← hW.runs_unallocated q (Nat.le_of_succ_le h)]
      exact Function.update_of_ne (Nat.ne_of_gt h) _ _
    sessions_lt := fun s q h => by
      simp only [DaemonState.insertRun_sessions, Function.update_apply] at h
      split at h
      · exact Option.some.inj h ▸ Nat.lt_succ_self _
      · exact Nat.lt_succ_of_lt (hW.sessions_lt s q h)
    sessions_sid := fun s q h => by
      simp only [DaemonState.insertRun_sessions, Function.update_apply] at h
      split at h
      · next hsid => rw [← Option.some.inj h, hnew, hsid]
      · rw [hold q (hW.sessions_lt s q h)]; exact hW.sessions_sid s q h
    drains_lt := fun t h => Nat.lt_succ_of_lt (hW.drains_lt t h)
    -- every drain works for an older run
    drains_sid := fun t h => by
      have hlt : ((d.insertRun st).drains t).state < d.runCount := hW.drains_lt t h
      rw [hold _ hlt]
      exact hW.drains_sid t h }

theorem startRun (hW : WF d) {turn : HarnessTurn} {harness : Harness} {now : Time}
    {L : LedgerRef} (hL : d.ledgers turn.sessionId = some L) :
    WF (d.startRun turn harness now) := by
  have href : (d.runState turn harness now).ledger = L := by
    simp [DaemonState.runState, DaemonState.ledgerRef, hL]
  have hset := hW.setLedger (l := ((d.ledgerHeap L).recordTurn turn now).2)
    (hW.ledgers_lt _ _ hL) rfl
  have hrun := hset.insertRun (d.runState turn harness now)
    (by simpa [href] using hW.ledgers_lt _ _ hL)
    (by rw [href, DaemonState.setLedger_ledgerHeap, Function.update_self]
        exact hW.ledgers_sid _ _ hL)
  simp only [DaemonState.startRun, href]
  exact { hrun.spawnStream turn.sessionId (d.runState turn harness now).traceId
    (Nat.lt_succ_self d.runCount) (by simp [DaemonState.runState]) with }

variable {op : DaemonOp} {d₁ : DaemonState}

/-- Allocating the ledger a call reads. -/
theorem touched (hW : WF d) (h : d.Touched op d₁) :
    WF d₁ := by
  obtain rfl | ⟨sid, -, -, rfl⟩ := h
  · exact hW
  · exact hW.insertLedger rfl

theorem removeSession (hW : WF d) (sid : SessionId) : WF (d.removeSession sid) := by
  have hold : ∀ s r, Function.update d.sessions sid none s = some r → d.sessions s = some r := by
    intro s r h
    rw [Function.update_apply] at h
    split at h
    · cases h
    · exact h
  exact { hW with
    sessions_lt := fun s r h => hW.sessions_lt s r (hold s r h)
    sessions_sid := fun s r h => hW.sessions_sid s r (hold s r h) }

theorem ledgerOf_of_none (hW : WF d) (hL : d.ledgers sid = none) :
    d.ledgerOf sid = .new ⟨""⟩ := by
  rw [DaemonState.ledgerOf, DaemonState.ledgerRef, hL, Option.getD_none,
    hW.heap_unallocated _ (Nat.le_refl _)]

theorem eq_of_ledgerRef (hW : WF d) {s : SessionId} {L : LedgerRef} (hL : d.ledgers sid = some L)
    (hs : L = d.ledgerRef s) : s = sid := by
  cases h : d.ledgers s with
  | some K =>
    obtain rfl : K = L := by simp [hs, DaemonState.ledgerRef, h]
    rw [← hW.ledgers_sid s K h, hW.ledgers_sid sid K hL]
  | none =>
    rw [DaemonState.ledgerRef, h, Option.getD_none] at hs
    exact absurd hs (Nat.ne_of_lt (hW.ledgers_lt sid L hL))

theorem ledgerRef_touched (h : d.Touched op d₁) (hop : op.reads = some sid) :
    d₁.ledgerRef sid = d.ledgerRef sid := by
  obtain rfl | ⟨s, hs, hnone, rfl⟩ := h
  · rfl
  · obtain rfl : s = sid := Option.some.inj (hs.symm.trans hop)
    simp [DaemonState.ledgerRef, hnone]

theorem ledgerOf_touched (hW : WF d) (h : d.Touched op d₁) (sid : SessionId) :
    (d₁.ledgerOf sid).turns = (d.ledgerOf sid).turns ∧
      (d₁.ledgerOf sid).selected = (d.ledgerOf sid).selected := by
  have hW' := hW.touched h
  obtain rfl | ⟨s, -, hnone, rfl⟩ := h
  · exact ⟨rfl, rfl⟩
  · by_cases hs : sid = s
    · subst hs
      rw [hW.ledgerOf_of_none hnone]
      simp [DaemonState.ledgerOf, DaemonState.ledgerRef]
    · have hsame : (d.insertLedger s (.new s)).ledgers sid = d.ledgers sid :=
        Function.update_of_ne hs _ _
      cases hL : d.ledgers sid with
      | none =>
        rw [hW.ledgerOf_of_none hL, hW'.ledgerOf_of_none (hsame.trans hL)]
        exact ⟨rfl, rfl⟩
      | some L =>
        have hne : L ≠ d.ledgerCount := Nat.ne_of_lt (hW.ledgers_lt sid L hL)
        simp [DaemonState.ledgerOf, DaemonState.ledgerRef, hs, hL, hne]

theorem truncation_touched (hW : WF d) (h : d.Touched op d₁) :
    d₁.truncation op = d.truncation op := by
  have hsess : d₁.sessions = d.sessions := by
    obtain rfl | ⟨s, -, -, rfl⟩ := h <;> rfl
  cases op with
  | rewind sid pos =>
    have hturns := (hW.ledgerOf_touched h sid).1
    rw [DaemonState.truncation, DaemonState.truncation, hsess, LedgerState.len, hturns,
      LedgerState.len]
  | apply sid pos =>
    obtain ⟨hturns, hsel⟩ := hW.ledgerOf_touched h sid
    rw [DaemonState.truncation, DaemonState.truncation, hsel, LedgerState.len, hturns,
      LedgerState.len]
  | discard sid pos =>
    have hturns := (hW.ledgerOf_touched h sid).1
    rw [DaemonState.truncation, DaemonState.truncation, LedgerState.len, hturns, LedgerState.len]
  | _ => rfl

theorem effect {d' : DaemonState} (hW : WF d) (h : d.Effect op d') : WF d' := by
  cases h with
  | idle hop => exact hW
  | run hL hacc => exact hW.startRun hL
  | resume hop hr => exact hW.spawnStream _ _ (hW.sessions_lt _ _ hr) (hW.sessions_sid _ _ hr)
  | cancel hr => exact hW.setRun (hW.sessions_lt _ _ hr) (by rfl) (by rfl)
  | @truncate _ _ n L sel restores hop hL hrest =>
    have hset := hW.setLedger (l := (d.ledgerHeap L).cut n sel) (hW.ledgers_lt _ _ hL) rfl
    exact { hset with }
  | mark hop hL => exact hW.setLedger (hW.ledgers_lt _ _ hL) (by rfl)
  | fork hL => exact hW.insertLedger rfl
  | restoreCheckpoint => exact hW.insertLedger rfl
  | setCheckpointSink => exact { hW with }
  | register => exact { hW with }
  -- the drain writes to the ledger of its run, and then moves
  | event hpc hst hmap =>
    obtain ⟨ht, hr⟩ := hW.moves hpc (by simp)
    subst hst
    exact (hW.setLedger (hW.runs_ledger_lt _ hr) (by rfl)).setDrain ht (by rfl) (by rfl)
  | close hpc hend => exact hW.setDrain (hW.moves hpc (by simp)).1 (by rfl) (by rfl)
  | mirror hpc hr =>
    obtain ⟨ht, hlt⟩ := hW.moves hpc (by simp)
    subst hr
    exact (hW.setRun hlt (by rfl) (by rfl)).setDrain ht (by rfl) (by rfl)
  | @emit t _ _ e hpc =>
    have hemit : WF (d.emit (d.drains t).state e) := { hW with }
    exact hemit.setDrain (hW.moves hpc (by simp)).1 (by rfl) (by rfl)
  | settle hpc hst =>
    obtain ⟨ht, hr⟩ := hW.moves hpc (by simp)
    subst hst
    exact (hW.setLedger (hW.runs_ledger_lt _ hr) (by rfl)).setDrain ht (by rfl) (by rfl)
  | capture hpc hsnap => exact hW.setDrain (hW.moves hpc (by simp)).1 (by rfl) (by rfl)
  -- the log, the store and the wire hold no reference
  | @log t _ snapshot _ sid st hpc hst hsid =>
    have hlog :
        WF (d.setLog sid (DaemonState.writeLog (d.snapshotLog sid) st.turnIndex snapshot)) :=
      { hW with }
    exact hlog.setDrain (hW.moves hpc (by simp)).1 (by rfl) (by rfl)
  | @persist t _ _ cp store hpc hcp hstore =>
    have hstored : WF { d with store := store } := { hW with }
    exact hstored.setDrain (hW.moves hpc (by simp)).1 (by rfl) (by rfl)
  | setStatus hpc hr =>
    obtain ⟨ht, hlt⟩ := hW.moves hpc (by simp)
    subst hr
    exact (hW.setRun hlt (by rfl) (by rfl)).setDrain ht (by rfl) (by rfl)
  | setFinished hpc hr =>
    obtain ⟨ht, hlt⟩ := hW.moves hpc (by simp)
    subst hr
    exact (hW.setRun hlt (by rfl) (by rfl)).setDrain ht (by rfl) (by rfl)
  | @traceFinished t _ _ e hpc he =>
    have hemit : WF (d.emit (d.drains t).state e) := { hW with }
    exact hemit.setDrain (hW.moves hpc (by simp)).1 (by rfl) (by rfl)
  | remove hpc hsid =>
    exact (hW.removeSession _).setDrain (hW.moves hpc (by simp)).1 (by rfl) (by rfl)

theorem session_of_ledger {d' : DaemonState} (hW : WF d) {turn : HarnessTurn} {dirOk : Bool}
    {now : Time} (heff : d.Effect (.run turn dirOk now) d') (hacc : d.accepts turn dirOk = true)
    {r : RunRef} (hr : r < d.runCount) (hledger : (d.runs r).ledger = d.ledgerRef turn.sessionId) :
    (d.runs r).sessionId = turn.sessionId := by
  cases heff with
  | idle hop => simp [DaemonState.idles, hacc] at hop
  | @run _ _ _ _ L hL _ =>
    have href : d.ledgerRef turn.sessionId = L := by simp [DaemonState.ledgerRef, hL]
    rw [← hW.runs_ledger_sid r hr, hledger, href, hW.ledgers_sid _ _ hL]
  | resume hop => cases hop
  | truncate hop => cases hop
  | mark hop => cases hop

theorem step {d' : DaemonState} (hW : WF d) (h : d.step op = some d') : WF d' := by
  obtain ⟨d₁, htouch, heff⟩ := DaemonState.step_cases h
  exact (hW.touched htouch).effect heff

end WF

end Goble
