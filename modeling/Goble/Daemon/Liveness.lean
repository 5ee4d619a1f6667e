import Goble.Daemon.References

/-!
# The liveness map

`sessions` is what `cancel`, `resume` and the guard of `rewind` consult. It is keyed by session,
while runs settle one by one: a settling drain removes whatever entry its session has. So the
map is sound, in the sense that every unsettled run's session has an entry (`LivenessSound`),
exactly as long as a session has one run at a time and a run has one drain at a time. That is
the condition `SoleRun`: a session is not run again while it is live (the very check `rewind`
makes), and it is not resumed while one of its drains has not returned.

* `livenessSound_of_soleRun` — the map is sound along every such run;
* `not_livenessSound` — two overlapping runs of one session, of which the first to settle
  removes the entry of the other.
-/

namespace Goble

def Drain.finished (dr : Drain) : Bool :=
  match dr.pc with
  | .done => true
  | _ => false

def Drain.draining (dr : Drain) : Bool :=
  match dr.pc with
  | .next | .mirror _ | .emit _ => true
  | _ => false

/-- The task has seen the end of a settled turn and not yet published the run's status. -/
def Drain.settling (dr : Drain) : Bool :=
  match dr.pc with
  | .settle | .capture | .log _ | .persist | .setStatus => true
  | _ => false

/-- The task has published the run's status and not yet returned. -/
def Drain.closing (dr : Drain) : Bool :=
  match dr.pc with
  | .setFinished | .traceFinished | .remove => true
  | _ => false

/-- A run that has not settled: its status is `"running"` (it is being drained, or suspended
until a resume), or one of its drains is still reading a stream. -/
def Unsettled (d : DaemonState) (r : RunRef) : Prop :=
  (d.runs r).status = .running ∨
    ∃ t, (d.drains t).draining = true ∧ (d.drains t).state = r

def LivenessSound (d : DaemonState) : Prop :=
  ∀ r < d.runCount, Unsettled d r → (d.sessions (d.runs r).sessionId).isSome = true

def SoleRun (d : DaemonState) : DaemonOp → Prop
  | .run turn dirOk _ => d.accepts turn dirOk = true → (d.sessions turn.sessionId).isNone = true
  | .resume sid supported => supported = true →
    ∀ t < d.drainCount, (d.drains t).sessionId = sid → (d.drains t).finished = true
  | .resumeCommand sid supported => supported = true →
    ∀ t < d.drainCount, (d.drains t).sessionId = sid → (d.drains t).finished = true
  | _ => True

instance decidableSoleRun (d : DaemonState) : (op : DaemonOp) → Decidable (SoleRun d op)
  | .run turn dirOk _ => inferInstanceAs (Decidable (d.accepts turn dirOk = true →
      (d.sessions turn.sessionId).isNone = true))
  | .resume sid supported => inferInstanceAs (Decidable (supported = true →
      ∀ t < d.drainCount, (d.drains t).sessionId = sid → (d.drains t).finished = true))
  | .resumeCommand sid supported => inferInstanceAs (Decidable (supported = true →
      ∀ t < d.drainCount, (d.drains t).sessionId = sid → (d.drains t).finished = true))
  | .cancel _ | .rewind .. | .fork .. | .replay .. | .checkpoints .. | .select .. | .apply ..
  | .release .. | .discard .. | .restoreCheckpoint _ | .setCheckpointSink _ | .register _
  | .drainEvent .. | .drainClose _ | .drainAdvance .. => isTrue trivial

theorem SoleRun.touched {d d₁ : DaemonState} {op : DaemonOp} (hC : SoleRun d op)
    (ht : d.Touched op d₁) : SoleRun d₁ op := by
  obtain rfl | ⟨s, -, -, rfl⟩ := ht
  · exact hC
  · cases op <;> exact hC

/-! ### The invariant -/

structure LivenessInv (d : DaemonState) : Prop where
  /-- An unfinished drain works for the live run of its session. -/
  entry : ∀ t, (d.drains t).finished = false →
    d.sessions (d.drains t).sessionId = some (d.drains t).state
  /-- A session has at most one unfinished drain. -/
  sole : ∀ t u, (d.drains t).finished = false → (d.drains u).finished = false →
    (d.drains t).sessionId = (d.drains u).sessionId → t = u
  /-- A run whose status is `"running"` is the live run of its session. -/
  running : ∀ r, (d.runs r).status = .running → d.sessions (d.runs r).sessionId = some r
  /-- What a settling drain publishes is not `"running"`. -/
  final : ∀ t, (d.drains t).settling = true → (d.drains t).finalStatus ≠ .running
  closed : ∀ t, (d.drains t).closing = true → (d.runs (d.drains t).state).status ≠ .running

namespace LivenessInv

variable {d d' : DaemonState} {op : DaemonOp}

theorem initial (registry : HarnessId → Option Harness) (root : Option String) :
    LivenessInv (DaemonState.new registry root) := by
  constructor <;>
    simp [DaemonState.new, SessionState.unallocated, Drain.unallocated, Drain.finished,
      Drain.settling, Drain.closing]

/-- An unfinished drain moves, without another effect on what the invariant reads. -/
theorem setDrain (hI : LivenessInv d) {t : TaskId} {dr : Drain}
    (ht : (d.drains t).finished = false) (hst : dr.state = (d.drains t).state)
    (hs : dr.sessionId = (d.drains t).sessionId)
    (hfinal : dr.settling = true → dr.finalStatus ≠ .running)
    (hclosed : dr.closing = true → (d.runs dr.state).status ≠ .running) :
    LivenessInv (d.setDrain t dr) := by
  -- whoever is unfinished after the step was unfinished before it, for the same run
  have hback : ∀ u, ((d.setDrain t dr).drains u).finished = false →
      (d.drains u).finished = false := by
    intro u hu
    rw [DaemonState.setDrain_drains, Function.update_apply] at hu
    split at hu
    · next h => rwa [h]
    · exact hu
  have hstate : ∀ u, ((d.setDrain t dr).drains u).state = (d.drains u).state := by
    intro u
    rw [DaemonState.setDrain_drains, Function.update_apply]
    split
    · next h => rw [hst, h]
    · rfl
  have hsid : ∀ u, ((d.setDrain t dr).drains u).sessionId = (d.drains u).sessionId := by
    intro u
    rw [DaemonState.setDrain_drains, Function.update_apply]
    split
    · next h => rw [hs, h]
    · rfl
  exact {
    entry := fun u hu => by
      rw [hstate, hsid]
      exact hI.entry u (hback u hu)
    sole := fun u v hu hv heq => by
      rw [hsid, hsid] at heq
      exact hI.sole u v (hback u hu) (hback v hv) heq
    running := hI.running
    final := fun u hu => by
      rw [DaemonState.setDrain_drains, Function.update_apply] at hu ⊢
      split at hu
      · next h => rw [if_pos h]; exact hfinal hu
      · next h => rw [if_neg h]; exact hI.final u hu
    closed := fun u hu => by
      rw [DaemonState.setDrain_drains, Function.update_apply] at hu ⊢
      split at hu
      · next h => rw [if_pos h]; exact hclosed hu
      · next h => rw [if_neg h]; exact hI.closed u hu }

theorem setRun (hI : LivenessInv d) {r : RunRef} {st : SessionState}
    (hs : st.sessionId = (d.runs r).sessionId)
    (hst : st.status = .running → (d.runs r).status = .running) : LivenessInv (d.setRun r st) := by
  have hback : ∀ q, ((d.setRun r st).runs q).status = .running →
      (d.runs q).status = .running := by
    intro q hq
    rw [DaemonState.setRun_runs, Function.update_apply] at hq
    split at hq
    · next h => rw [h]; exact hst hq
    · exact hq
  have hsid : ∀ q, ((d.setRun r st).runs q).sessionId = (d.runs q).sessionId := by
    intro q
    rw [DaemonState.setRun_runs, Function.update_apply]
    split
    · next h => rw [hs, h]
    · rfl
  exact { hI with
    running := fun q hq => by
      rw [hsid]
      exact hI.running q (hback q hq)
    closed := fun t ht hq => hI.closed t ht (hback _ hq) }

theorem spawnStream (hI : LivenessInv d) {sid : SessionId} {r : RunRef} (traceId : String)
    (hr : d.sessions sid = some r)
    (hother : ∀ t, (d.drains t).finished = false → (d.drains t).sessionId ≠ sid) :
    LivenessInv (d.spawnStream sid traceId r) where
  entry := fun t ht => by
    rw [DaemonState.spawnStream_drains, Function.update_apply] at ht ⊢
    split at ht
    · next h => rw [if_pos h]; exact hr
    · next h => rw [if_neg h]; exact hI.entry t ht
  -- the new drain is the only unfinished one of its session
  sole := fun t u ht hu heq => by
    simp only [DaemonState.spawnStream_drains, Function.update_apply] at ht hu heq
    split at ht <;> split at hu
    · next h h' => rw [h, h']
    · next h h' =>
      rw [if_pos h, if_neg h'] at heq
      exact absurd heq.symm (hother u hu)
    · next h h' =>
      rw [if_neg h, if_pos h'] at heq
      exact absurd heq (hother t ht)
    · next h h' =>
      rw [if_neg h, if_neg h'] at heq
      exact hI.sole t u ht hu heq
  running := hI.running
  final := fun t ht => by
    rw [DaemonState.spawnStream_drains, Function.update_apply] at ht ⊢
    split at ht
    · simp [Drain.settling] at ht
    · next h => rw [if_neg h]; exact hI.final t ht
  closed := fun t ht => by
    rw [DaemonState.spawnStream_drains, Function.update_apply] at ht ⊢
    split at ht
    · simp [Drain.closing] at ht
    · next h => rw [if_neg h]; exact hI.closed t ht

theorem insertRun (hI : LivenessInv d) (hW : WF d) {st : SessionState}
    (hnone : d.sessions st.sessionId = none) : LivenessInv (d.insertRun st) := by
  -- no entry is overwritten
  have hkeep : ∀ sid r, d.sessions sid = some r → (d.insertRun st).sessions sid = some r := by
    intro sid r hr
    rw [DaemonState.insertRun_sessions, Function.update_of_ne]
    · exact hr
    · rintro rfl
      rw [hnone] at hr
      cases hr
  exact { hI with
    entry := fun t ht => hkeep _ _ (hI.entry t ht)
    running := fun r hr => by
      rw [DaemonState.insertRun_runs, Function.update_apply] at hr ⊢
      split at hr
      · next h => rw [if_pos h, h, DaemonState.insertRun_sessions, Function.update_self]
      · next h => rw [if_neg h]; exact hkeep _ _ (hI.running r hr)
    -- a closing drain works for an older run
    closed := fun t ht => by
      have hlt : t < d.drainCount := hW.lt_drainCount fun h => by
        simp [Drain.closing, h] at ht
      rw [DaemonState.insertRun_runs, DaemonState.insertRun_drains,
        Function.update_of_ne (Nat.ne_of_lt (hW.drains_lt t hlt))]
      exact hI.closed t ht }

/-- A session's entry goes once none of its drains is unfinished and none of its runs is
running. -/
theorem removeSession (hI : LivenessInv d) (sid : SessionId)
    (hdr : ∀ t, (d.drains t).finished = false → (d.drains t).sessionId ≠ sid)
    (hrun : ∀ r, (d.runs r).status = .running → (d.runs r).sessionId ≠ sid) :
    LivenessInv (d.removeSession sid) :=
  { hI with
    entry := fun t ht => (Function.update_of_ne (hdr t ht) _ _).trans (hI.entry t ht)
    running := fun r hr => (Function.update_of_ne (hrun r hr) _ _).trans (hI.running r hr) }

/-- The last step of a drain: the only unfinished one of its session, whose only running run
has been published as settled. -/
theorem remove (hI : LivenessInv d) {t : TaskId} (hpc : (d.drains t).pc = .remove) :
    LivenessInv ((d.removeSession (d.drains t).sessionId).setDrain t
      { d.drains t with pc := .done }) := by
  have hopen : (d.drains t).finished = false := by simp [Drain.finished, hpc]
  have hmoved : LivenessInv (d.setDrain t { d.drains t with pc := .done }) :=
    hI.setDrain hopen rfl rfl (by simp [Drain.settling]) (by simp [Drain.closing])
  refine hmoved.removeSession (d.drains t).sessionId (fun u hu hsid => ?_)
    (fun r hr hsid => ?_)
  · rw [DaemonState.setDrain_drains, Function.update_apply] at hu hsid
    split at hu
    · simp [Drain.finished] at hu
    · next hne =>
      rw [if_neg hne] at hsid
      exact hne (hI.sole u t hu hopen hsid)
  · have hrun : (d.runs r).status = .running := hr
    have hentry := hI.running r hrun
    rw [show (d.runs r).sessionId = _ from hsid, hI.entry t hopen] at hentry
    rw [← Option.some.inj hentry] at hrun
    exact hI.closed t (by simp [Drain.closing, hpc]) hrun

/-- Allocating a ledger is nothing to the map. -/
theorem touched {d₁ : DaemonState} (hI : LivenessInv d) (ht : d.Touched op d₁) :
    LivenessInv d₁ := by
  obtain rfl | ⟨sid, -, -, rfl⟩ := ht
  · exact hI
  · exact { hI with }

/-- A drain moves on: it publishes nothing, and once it has seen the end of a settled turn it
keeps the status it will publish. -/
theorem advance (hI : LivenessInv d) {t : TaskId} {pc : DrainPc} (pc' : DrainPc)
    (status : RunStatus) (error : Option String) (hpc : (d.drains t).pc = pc) (hne : pc ≠ .done)
    (hfinal : ({ d.drains t with pc := pc' } : Drain).settling = true → status ≠ .running)
    (hclosed : ({ d.drains t with pc := pc' } : Drain).closing = true →
      (d.runs (d.drains t).state).status ≠ .running) :
    LivenessInv (d.setDrain t
      { d.drains t with finalStatus := status, finalError := error, pc := pc' }) := by
  refine hI.setDrain ?_ rfl rfl hfinal hclosed
  subst hpc
  cases h : (d.drains t).pc <;> simp_all [Drain.finished]

/-- **Invariant preservation.** -/
theorem effect (hI : LivenessInv d) (hW : WF d) (hC : SoleRun d op) (heff : d.Effect op d') :
    LivenessInv d' := by
  -- a session that may be resumed has no unfinished drain
  have hresume : ∀ sid, op.resumes = some sid →
      ∀ t, (d.drains t).finished = false → (d.drains t).sessionId ≠ sid := by
    intro sid hop t ht hsid
    have hlt : t < d.drainCount := hW.lt_drainCount fun h => by simp [Drain.finished, h] at ht
    refine absurd ht (Bool.not_eq_false _ ▸ ?_)
    cases op <;> simp only [DaemonOp.resumes, Option.ite_none_right_eq_some, reduceCtorEq,
      Option.some.injEq] at hop
    · exact hC hop.1 t hlt (hsid.trans hop.2.symm)
    · exact hC hop.1 t hlt (hsid.trans hop.2.symm)
  cases heff with
  | idle hop => exact hI
  -- by the condition the session has no entry, so no drain of it is unfinished
  | @run turn dirOk now harness L hL hacc =>
    have hnone : d.sessions turn.sessionId = none := Option.isNone_iff_eq_none.mp (hC hacc)
    have hinsert : LivenessInv (d.insertRun (d.runState turn harness now)) :=
      hI.insertRun hW hnone
    have hrun := hinsert.spawnStream ("trace-" ++ turn.sessionId.val)
      (Function.update_self turn.sessionId _ _) (fun t ht hsid => by
        have hentry := hI.entry t ht
        rw [show (d.drains t).sessionId = _ from hsid, hnone] at hentry
        cases hentry)
    exact { hrun with }
  | resume hop hr => exact hI.spawnStream _ hr (hresume _ hop)
  | cancel hr => exact hI.setRun rfl id
  | truncate hop hL hrest => exact { hI with }
  | mark hop hL => exact { hI with }
  | fork hL => exact { hI with }
  | restoreCheckpoint => exact { hI with }
  | setCheckpointSink => exact { hI with }
  | register => exact { hI with }
  | @event t ev st pc status error hpc hst hmap =>
    have hmoved := hI.advance pc status error hpc (by simp)
      (by rcases hmap with ⟨-, rfl, -⟩ | ⟨e, -, rfl⟩ <;> simp [Drain.settling])
      (by rcases hmap with ⟨-, rfl, -⟩ | ⟨e, -, rfl⟩ <;> simp [Drain.closing])
    exact { hmoved with }
  -- the stream ends: without a terminal event nothing is settled
  | @close t pc hpc hend =>
    refine hI.advance _ _ _ hpc (by simp) (fun hset => ?_) (fun hclo => ?_)
    · rcases hend with ⟨-, rfl⟩ | ⟨hne, -⟩
      · simp [Drain.settling] at hset
      · exact hne
    · rcases hend with ⟨-, rfl⟩ | ⟨-, rfl⟩ <;> simp [Drain.closing] at hclo
  | @mirror t _ _ e r hpc hr =>
    have hrun : LivenessInv (d.setRun r { d.runs r with events := (d.runs r).events ++ [e] }) :=
      hI.setRun rfl id
    exact hrun.advance _ _ _ hpc (by simp) (by simp [Drain.settling]) (by simp [Drain.closing])
  | @emit t _ _ e hpc =>
    have hemit : LivenessInv (d.emit (d.drains t).state e) := { hI with }
    exact hemit.advance _ _ _ hpc (by simp) (by simp [Drain.settling]) (by simp [Drain.closing])
  -- from the settlement to the status the drain carries its final status along
  | @settle t _ now st hpc hst =>
    have hmoved := hI.advance .capture _ (d.drains t).finalError hpc (by simp)
      (fun _ => hI.final t (by simp [Drain.settling, hpc])) (by simp [Drain.closing])
    exact { hmoved with }
  | @capture t _ snapshot _ hpc hsnap =>
    exact hI.advance _ _ _ hpc (by simp) (fun _ => hI.final t (by simp [Drain.settling, hpc]))
      (by simp [Drain.closing])
  | @log t _ snapshot _ sid st hpc hst hsid =>
    have hlog : LivenessInv (d.setLog sid
        (DaemonState.writeLog (d.snapshotLog sid) st.turnIndex snapshot)) := { hI with }
    exact hlog.advance _ _ _ hpc (by simp) (fun _ => hI.final t (by simp [Drain.settling, hpc]))
      (by simp [Drain.closing])
  | @persist t _ _ cp store hpc hcp hstore =>
    have hstored : LivenessInv { d with store := store } := { hI with }
    exact hstored.advance _ _ _ hpc (by simp) (fun _ => hI.final t (by simp [Drain.settling, hpc]))
      (by simp [Drain.closing])
  -- from here on the run is not running: the status written is a final one
  | @setStatus t _ _ r hpc hr =>
    have hfin : (d.drains t).finalStatus ≠ .running :=
      hI.final t (by simp [Drain.settling, hpc])
    have hrun : LivenessInv (d.setRun r { d.runs r with status := (d.drains t).finalStatus }) :=
      hI.setRun rfl fun h => absurd h hfin
    refine hrun.advance _ _ _ hpc (by simp) (by simp [Drain.settling]) (fun _ => ?_)
    subst hr
    simpa using hfin
  | @setFinished t _ now r hpc hr =>
    have hclosed := hI.closed t (by simp [Drain.closing, hpc])
    have hrun : LivenessInv (d.setRun r { d.runs r with finishedAt := some now }) :=
      hI.setRun rfl id
    refine hrun.advance _ _ _ hpc (by simp) (by simp [Drain.settling]) (fun _ => ?_)
    subst hr
    simpa using hclosed
  | @traceFinished t _ _ e hpc he =>
    have hemit : LivenessInv (d.emit (d.drains t).state e) := { hI with }
    exact hemit.advance _ _ _ hpc (by simp) (by simp [Drain.settling])
      (fun _ => hI.closed t (by simp [Drain.closing, hpc]))
  | remove hpc hsid =>
    subst hsid
    exact hI.remove hpc

/-- The invariant gives the map its entries. -/
theorem sound (hI : LivenessInv d) (hW : WF d) : LivenessSound d := by
  rintro r hr (hrun | ⟨t, ht, rfl⟩)
  · rw [hI.running r hrun]
    rfl
  · have hopen : (d.drains t).finished = false := by
      revert ht
      cases h : (d.drains t).pc <;> simp [Drain.finished, Drain.draining, h]
    have hlt : t < d.drainCount := hW.lt_drainCount fun h => by
      simp [Drain.finished, h] at hopen
    rw [← hW.drains_sid t hlt, hI.entry t hopen]
    rfl

end LivenessInv

/-- **Liveness map soundness.** Along every run of the daemon in which a session is run only
while it is not live and resumed only once its drains have returned, the session of every
unsettled run has an entry. -/
theorem livenessSound_of_soleRun (registry : HarnessId → Option Harness)
    (root : Option String) (ops : List DaemonOp) (d : DaemonState)
    (hC : (daemonMachine registry root).Along SoleRun (daemonMachine registry root).init ops)
    (hrun : (daemonMachine registry root).exec (daemonMachine registry root).init ops = some d) :
    LivenessSound d := by
  have hI : WF d ∧ LivenessInv d := by
    refine Machine.invariant (I := fun d => WF d ∧ LivenessInv d)
      ⟨WF.initial registry root, LivenessInv.initial registry root⟩ ?_ hC hrun
    rintro d op d' ⟨hW, hI⟩ hC hstep
    obtain ⟨d₁, htouch, heff⟩ := DaemonState.step_cases hstep
    exact ⟨hW.step hstep, (hI.touched htouch).effect (hW.touched htouch) (hC.touched htouch) heff⟩
  exact hI.2.sound hI.1

/-- A turn that is suspended, resumed and settled, and then a second one. -/
theorem livenessSound_after_resume :
    ∃ d, (daemonMachine mockRegistry none).exec (daemonMachine mockRegistry none).init
        ([.run (.new ⟨"mock"⟩ ⟨"s1"⟩ "a") true 0, .drainClose 0, .resume ⟨"s1"⟩ true]
          ++ drainToEnd 1 ⟨"s1"⟩ none ++ [.run (.new ⟨"mock"⟩ ⟨"s1"⟩ "b") true 1]) = some d ∧
      Unsettled d 1 ∧ LivenessSound d :=
  ⟨_, rfl, .inl rfl, livenessSound_of_soleRun mockRegistry none
    ([.run (.new ⟨"mock"⟩ ⟨"s1"⟩ "a") true 0, .drainClose 0, .resume ⟨"s1"⟩ true]
      ++ drainToEnd 1 ⟨"s1"⟩ none ++ [.run (.new ⟨"mock"⟩ ⟨"s1"⟩ "b") true 1]) _ (by decide) rfl⟩

/-- Without the condition an entry goes missing: two runs of one session overlap, the first
settles, and its drain removes the entry of the second. -/
theorem not_livenessSound :
    ¬ ∀ (registry : HarnessId → Option Harness) (root : Option String) (ops : List DaemonOp)
      (d : DaemonState),
      (daemonMachine registry root).exec (daemonMachine registry root).init ops = some d →
        LivenessSound d := by
  intro hall
  have hsound := hall mockRegistry none
    ([.run (.new ⟨"mock"⟩ ⟨"s1"⟩ "a") true 0, .run (.new ⟨"mock"⟩ ⟨"s1"⟩ "b") true 1]
      ++ drainToEnd 0 ⟨"s1"⟩ none) _ rfl
  exact absurd (hsound 1 (by decide) (.inl rfl)) (by decide)

end Goble
