import Goble.Daemon.References

/-!
# What a session is to the others

The maps of the daemon are shared by all sessions, and so are the tables its references point
into. What it holds for one session is changed only by the calls that name the session and by the
drains of its own runs, whatever other sessions do in between (`held_of_run`): by `WF` a reference
of another session points at something of that session.
-/

namespace Goble

/-- What the daemon holds for one session. -/
structure Held where
  live : Option SessionState
  ledger : Option LedgerState
  snapshots : Option (List (Option HarnessSnapshot))
  checkpoint : Option Checkpoint

namespace DaemonState

variable {d d' : DaemonState} {sid : SessionId} {op : DaemonOp}

def held (d : DaemonState) (sid : SessionId) : Held :=
  ⟨(d.sessions sid).map d.runs, (d.ledgers sid).map d.ledgerHeap, d.snapshots sid, d.store sid⟩

/-- The sessions a call names, or the one a drain works for. -/
def concerned (d : DaemonState) : DaemonOp → List SessionId
  | .run turn _ _ => [turn.sessionId]
  | .resume sid _ | .resumeCommand sid _ | .cancel sid | .rewind sid _ | .replay sid _
  | .checkpoints sid _ | .select sid _ | .apply sid _ | .release sid _ | .discard sid _ => [sid]
  | .fork sid _ newSid => [sid, newSid]
  | .restoreCheckpoint cp => [cp.sessionId]
  | .setCheckpointSink _ | .register _ => []
  | .drainEvent t _ | .drainClose t | .drainAdvance t _ _ => [(d.drains t).sessionId]

theorem mem_concerned (h : op.reads = some sid ∨ op.marks = some sid) : sid ∈ d.concerned op := by
  cases op <;> obtain h | h := h <;> cases h <;> exact List.mem_cons_self

theorem held_eq (hsessions : d'.sessions sid = d.sessions sid)
    (hruns : ∀ r, d.sessions sid = some r → d'.runs r = d.runs r)
    (hledgers : d'.ledgers sid = d.ledgers sid)
    (hheap : ∀ L, d.ledgers sid = some L → d'.ledgerHeap L = d.ledgerHeap L)
    (hsnapshots : d'.snapshots sid = d.snapshots sid) (hstore : d'.store sid = d.store sid) :
    d'.held sid = d.held sid := by
  rw [held, held, hsessions, hledgers, hsnapshots, hstore, Option.map_congr hruns,
    Option.map_congr hheap]

end DaemonState

namespace WF

open DaemonState (held_eq mem_concerned)

variable {d d₁ d' : DaemonState} {sid s : SessionId} {op : DaemonOp}

theorem held_setLedger (hW : WF d) {L : LedgerRef} {l : LedgerState}
    (hL : (d.ledgerHeap L).sessionId ≠ sid) : (d.setLedger L l).held sid = d.held sid := by
  refine held_eq rfl (fun _ _ => rfl) rfl (fun K hK => Function.update_of_ne ?_ _ _) rfl rfl
  rintro rfl
  exact hL (hW.ledgers_sid sid K hK)

theorem held_insertLedger (hW : WF d) {l : LedgerState} (hs : s ≠ sid) :
    (d.insertLedger s l).held sid = d.held sid :=
  held_eq rfl (fun _ _ => rfl) (Function.update_of_ne hs.symm _ _)
    (fun K hK => Function.update_of_ne (Nat.ne_of_lt (hW.ledgers_lt sid K hK)) _ _) rfl rfl

theorem held_setRun (hW : WF d) {r : RunRef} {st : SessionState}
    (hr : (d.runs r).sessionId ≠ sid) : (d.setRun r st).held sid = d.held sid := by
  refine held_eq rfl (fun q hq => Function.update_of_ne ?_ _ _) rfl (fun _ _ => rfl) rfl rfl
  rintro rfl
  exact hr (hW.sessions_sid sid q hq)

/-- A drain that has not returned works for a run, and on a ledger, of its session. -/
theorem drain_sid (hW : WF d) {t : TaskId} {pc : DrainPc} (hpc : (d.drains t).pc = pc)
    (hne : pc ≠ .done) :
    (d.runs (d.drains t).state).sessionId = (d.drains t).sessionId ∧
      (d.ledgerHeap (d.runs (d.drains t).state).ledger).sessionId = (d.drains t).sessionId := by
  obtain ⟨ht, hr⟩ := hW.moves hpc hne
  have hrun := (hW.drains_sid t ht).symm
  exact ⟨hrun, (hW.runs_ledger_sid _ hr).trans hrun⟩

theorem held_touched (hW : WF d) (h : d.Touched op d₁) (hsid : sid ∉ d.concerned op) :
    d₁.held sid = d.held sid := by
  obtain rfl | ⟨s, hs, -, rfl⟩ := h
  · rfl
  · exact hW.held_insertLedger (ne_of_mem_of_not_mem (mem_concerned (.inl hs)) hsid)

/-- **One effect** is kept to the sessions it concerns. -/
theorem held_effect (hW : WF d) (h : d.Effect op d') (hsid : sid ∉ d.concerned op) :
    d'.held sid = d.held sid := by
  have hne : ∀ {s}, s ∈ d.concerned op → s ≠ sid := fun hs => ne_of_mem_of_not_mem hs hsid
  cases h with
  | idle | resume | setCheckpointSink | register | close | emit | capture | traceFinished => rfl
  | @run turn _ _ _ L hL =>
    have hs := hne List.mem_cons_self
    have href : d.ledgerRef turn.sessionId = L := by simp [DaemonState.ledgerRef, hL]
    refine held_eq (Function.update_of_ne hs.symm _ _)
      (fun r hr => Function.update_of_ne (Nat.ne_of_lt (hW.sessions_lt sid r hr)) _ _) rfl
      (fun K hK => Function.update_of_ne ?_ _ _) rfl rfl
    rintro rfl
    exact hs ((hW.ledgers_sid _ _ hL).symm.trans
      (hW.ledgers_sid _ _ (hK.trans (congrArg some href))))
  | cancel hr => exact hW.held_setRun (hW.sessions_sid _ _ hr ▸ hne List.mem_cons_self)
  | @truncate _ _ n L sel _ hop hL =>
    have hs := hne (mem_concerned (.inl (DaemonState.reads_of_truncation hop)))
    exact hW.held_setLedger (l := (d.ledgerHeap L).cut n sel) (hW.ledgers_sid _ _ hL ▸ hs)
  | mark hop hL =>
    exact hW.held_setLedger (hW.ledgers_sid _ _ hL ▸ hne (mem_concerned (.inr hop)))
  | fork => exact hW.held_insertLedger (hne (List.mem_cons_of_mem _ List.mem_cons_self))
  | restoreCheckpoint => exact hW.held_insertLedger (hne List.mem_cons_self)
  | event hpc hst | settle hpc hst =>
    subst hst
    exact hW.held_setLedger ((hW.drain_sid hpc (by simp)).2 ▸ hne List.mem_cons_self)
  | mirror hpc hr | setStatus hpc hr | setFinished hpc hr =>
    subst hr
    exact hW.held_setRun ((hW.drain_sid hpc (by simp)).1 ▸ hne List.mem_cons_self)
  | log hpc hst hs =>
    subst hs
    exact held_eq rfl (fun _ _ => rfl) rfl (fun _ _ => rfl)
      (Function.update_of_ne (hne List.mem_cons_self).symm _ _) rfl
  | persist hpc hcp hstore =>
    refine held_eq rfl (fun _ _ => rfl) rfl (fun _ _ => rfl) rfl ?_
    obtain ⟨-, rfl⟩ | ⟨-, rfl⟩ := hstore
    · -- a checkpoint is filed under the session of its ledger
      subst hcp
      exact Function.update_of_ne
        (((hW.drain_sid hpc (by simp)).2 ▸ hne List.mem_cons_self :) : _ ≠ sid).symm _ _
    · rfl
  | remove hpc hs =>
    subst hs
    exact held_eq (Function.update_of_ne (hne List.mem_cons_self).symm _ _) (fun _ _ => rfl) rfl
      (fun _ _ => rfl) rfl rfl

theorem held_along {registry : HarnessId → Option Harness} {root : Option String} (hW : WF d)
    {ops : List DaemonOp}
    (hothers : (daemonMachine registry root).Along (fun d op => sid ∉ d.concerned op) d ops)
    (hrun : (daemonMachine registry root).exec d ops = some d') : d'.held sid = d.held sid := by
  refine (Machine.exec_invariant (I := fun e => WF e ∧ e.held sid = d.held sid)
    (fun e op e' hI hop hstep => ?_) ⟨hW, rfl⟩ hothers hrun).2
  obtain ⟨e₁, htouch, heff⟩ := DaemonState.step_cases hstep
  have hsame : e₁.concerned op = e.concerned op := by
    obtain rfl | ⟨_, -, -, rfl⟩ := htouch <;> rfl
  refine ⟨hI.1.step hstep, ?_⟩
  rw [(hI.1.touched htouch).held_effect heff (hsame ▸ hop), hI.1.held_touched htouch hop, hI.2]

theorem reached {registry : HarnessId → Option Harness} {root : Option String}
    {ops : List DaemonOp}
    (hd : (daemonMachine registry root).exec (.new registry root) ops = some d) : WF d :=
  Machine.invariant_of_step (M := daemonMachine registry root) (WF.initial registry root)
    (fun _ _ _ hW hs => hW.step hs) hd

end WF

/-- **Sessions keep to themselves.** From any state the daemon reaches, steps that concern other
sessions, in any number and any order, leave what it holds for this one. -/
theorem held_of_run (registry : HarnessId → Option Harness) (root : Option String)
    (ops more : List DaemonOp) (d d' : DaemonState) (sid : SessionId)
    (hd : (daemonMachine registry root).exec (.new registry root) ops = some d)
    (hothers : (daemonMachine registry root).Along (fun d op => sid ∉ d.concerned op) d more)
    (hrun : (daemonMachine registry root).exec d more = some d') : d'.held sid = d.held sid :=
  (WF.reached hd).held_along hothers hrun

theorem held_across_run :
    ∃ d d', (daemonMachine mockRegistry none).exec (.new mockRegistry none)
        [.run (.new ⟨"mock"⟩ ⟨"s1"⟩ "a") true 0] = some d ∧
      (daemonMachine mockRegistry none).exec d
        [.run (.new ⟨"git"⟩ ⟨"s2"⟩ "b") true 1, .drainClose 1] = some d' ∧
      d'.held ⟨"s1"⟩ = d.held ⟨"s1"⟩ :=
  ⟨_, _, rfl, rfl, held_of_run mockRegistry none [.run (.new ⟨"mock"⟩ ⟨"s1"⟩ "a") true 0]
    [.run (.new ⟨"git"⟩ ⟨"s2"⟩ "b") true 1, .drainClose 1] _ _ _ rfl (by decide) rfl⟩

/-! ### Forks -/

namespace DaemonState

/-- The turns a session has on record. -/
def turns (d : DaemonState) (sid : SessionId) : List TurnRecord :=
  (d.held sid).ledger.elim [] LedgerState.turns

theorem replay_eq (d : DaemonState) (sid : SessionId) (pos : Nat) :
    (d.replay sid pos).2 =
      .ok ((((d.turns sid).drop pos).flatMap TurnRecord.events).filterMap mapEvent) := by
  have hdrop : ∀ l : LedgerState, l.replay pos = (l.turns.drop pos).flatMap TurnRecord.events := by
    intro l
    rw [LedgerState.replay]
    obtain h | h := Nat.le_total pos l.turns.length
    · rw [Nat.min_eq_left h]
    · rw [Nat.min_eq_right h, List.drop_length, List.drop_eq_nil_of_le h]
  cases hL : d.ledgers sid with
  | some L => simp [replay, ensureLedger_of_some hL, ledgerRef, turns, held, hL, hdrop]
  | none => simp [replay, ensureLedger_of_none hL, insertLedger, ledgerRef, turns, held, hL, hdrop]

theorem turns_fork (d : DaemonState) (sid newSid : SessionId) (pos : Nat) :
    (d.fork sid pos newSid).1.turns newSid = (d.turns sid).take pos := by
  cases hL : d.ledgers sid with
  | some L => simp [fork, ensureLedger_of_some hL, insertLedger, ledgerRef, turns, held, hL]
  | none => simp [fork, ensureLedger_of_none hL, insertLedger, ledgerRef, turns, held, hL]

end DaemonState

/-- **A fork is a snapshot.** Whatever the session it was taken of does next, and whatever the
others do, the fork replays the turns that were there, up to the position it was taken at. -/
theorem replay_fork (registry : HarnessId → Option Harness) (root : Option String)
    (ops more : List DaemonOp) (d d' : DaemonState) (sid newSid : SessionId) (pos start : Nat)
    (hd : (daemonMachine registry root).exec (.new registry root) ops = some d)
    (hothers : (daemonMachine registry root).Along (fun d op => newSid ∉ d.concerned op)
      (d.fork sid pos newSid).1 more)
    (hrun : (daemonMachine registry root).exec (d.fork sid pos newSid).1 more = some d') :
    (d'.replay newSid start).2 = .ok (((((d.turns sid).take pos).drop start).flatMap
      TurnRecord.events).filterMap mapEvent) := by
  have hstep : d.step (.fork sid pos newSid) = some (d.fork sid pos newSid).1 := rfl
  have hW : WF (d.fork sid pos newSid).1 := (WF.reached hd).step hstep
  have hturns : d'.turns newSid = (d.fork sid pos newSid).1.turns newSid := by
    rw [DaemonState.turns, DaemonState.turns, hW.held_along hothers hrun]
  rw [DaemonState.replay_eq, hturns, DaemonState.turns_fork]

theorem replay_fork_discarded :
    ∃ d d', (daemonMachine mockRegistry none).exec (.new mockRegistry none)
        [.run (.new ⟨"mock"⟩ ⟨"s1"⟩ "a") true 0] = some d ∧
      (daemonMachine mockRegistry none).exec (d.fork ⟨"s1"⟩ 1 ⟨"s2"⟩).1
        [.discard ⟨"s1"⟩ 0] = some d' ∧
      (d'.replay ⟨"s2"⟩ 0).2 = .ok (((((d.turns ⟨"s1"⟩).take 1).drop 0).flatMap
        TurnRecord.events).filterMap mapEvent) :=
  ⟨_, _, rfl, rfl, replay_fork mockRegistry none [.run (.new ⟨"mock"⟩ ⟨"s1"⟩ "a") true 0]
    [.discard ⟨"s1"⟩ 0] _ _ _ _ _ _ rfl (by decide) rfl⟩

end Goble
