import Goble.Daemon.Provenance

/-!
# Event attribution across reversal

Who wrote what. A history variable, `Provenance`, keeps for every turn record of every ledger
the run that recorded it and, event by event, the run whose drain appended it.

* `Attributed` — every event of a record was produced by the run that recorded it;
* `WritesOwn` — a drain that can still append or settle addresses no other run's record.

Both hold along every run of the daemon in which an accepted `run` takes a *fresh position*
(`FreshPosition`): no drain that still addresses the session's ledger is waiting at the
position the new turn is about to occupy (`attributed_of_freshPosition`). `rewind`
guards itself with the liveness check, `apply` and `discard` do not, so such a drain can
exist; `not_attributed` runs one, and `writesOwn_broken` shows that every step that breaks
the condition breaks `WritesOwn`.

The invariant has one more clause than the property: the run a session's map entry names
owns its record too, because `resume` starts the next drain from that entry.
-/

namespace Goble

/-! ### The property and the condition -/

def Drain.addresses (dr : Drain) : Bool :=
  match dr.pc with
  | .next | .mirror _ | .emit _ | .settle => true
  | _ => false

def Owns (p : DaemonState × Provenance) (r : RunRef) : Prop :=
  ∀ m, (p.2 (p.1.runs r).ledger)[(p.1.runs r).turnIndex]? = some m → m.recorder = some r

/-- Every event held in a ledger was produced by the run that recorded its turn. -/
def Attributed (p : DaemonState × Provenance) : Prop :=
  MarksMatch Mark.Matches p

/-- No drain addresses a record that another run recorded. -/
def WritesOwn (p : DaemonState × Provenance) : Prop :=
  ∀ t, (p.1.drains t).addresses = true → Owns p (p.1.drains t).state

def FreshPosition (d : DaemonState) : DaemonOp → Prop
  | .run turn dirOk _ => d.accepts turn dirOk = true →
    ∀ t < d.drainCount, (d.drains t).addresses = true →
      (d.runs (d.drains t).state).ledger = d.ledgerRef turn.sessionId →
        (d.runs (d.drains t).state).turnIndex ≠ (d.ledgerOf turn.sessionId).len
  | _ => True

instance decidableFreshPosition (d : DaemonState) :
    (op : DaemonOp) → Decidable (FreshPosition d op)
  | .run turn dirOk _ => inferInstanceAs (Decidable (d.accepts turn dirOk = true →
      ∀ t < d.drainCount, (d.drains t).addresses = true →
        (d.runs (d.drains t).state).ledger = d.ledgerRef turn.sessionId →
          (d.runs (d.drains t).state).turnIndex ≠ (d.ledgerOf turn.sessionId).len))
  | .resume .. | .resumeCommand .. | .cancel _ | .rewind .. | .fork .. | .replay ..
  | .checkpoints .. | .select .. | .apply .. | .release .. | .discard ..
  | .restoreCheckpoint _ | .setCheckpointSink _ | .register _ | .drainEvent ..
  | .drainClose _ | .drainAdvance .. => isTrue trivial

theorem FreshPosition.touched {d d₁ : DaemonState} {op : DaemonOp} (hC : FreshPosition d op)
    (hW : WF d) (ht : d.Touched op d₁) : FreshPosition d₁ op := by
  cases op with
  | run turn dirOk now =>
    have hturns := (hW.ledgerOf_touched ht turn.sessionId).1
    have href := @WF.ledgerRef_touched _ turn.sessionId _ _ ht rfl
    simp only [FreshPosition, LedgerState.len, hturns, href]
    obtain rfl | ⟨s, -, -, rfl⟩ := ht <;> exact hC
  | _ => trivial

/-- Marks line up with records, and every run that can still write owns what it addresses:
the runs of addressing drains, and the runs a `resume` would continue. -/
structure AttributionInv (p : DaemonState × Provenance) : Prop where
  wf : WF p.1
  attributed : Attributed p
  writesOwn : WritesOwn p
  liveOwn : ∀ sid r, p.1.sessions sid = some r → Owns p r

/-! ### The invariant is kept -/

section Preservation

variable {d d' : DaemonState} {op : DaemonOp} {h : Provenance}

/-- A run keeps its record through every step that does not start another run at its
position. -/
theorem Owns.effect (hW : WF d) (hA : Attributed (d, h)) (heff : d.Effect op d') {r : RunRef}
    (hr : r < d.runCount)
    (hfresh : ∀ turn dirOk now, op = .run turn dirOk now → d.accepts turn dirOk = true →
      (d.runs r).ledger = d.ledgerRef turn.sessionId →
        (d.runs r).turnIndex ≠ (d.ledgerOf turn.sessionId).len)
    (ho : Owns (d, h) r) : Owns (d', Provenance.update d op d' h) r := by
  intro m hm
  obtain ⟨hledger, hindex, -⟩ := heff.runs_fixed hr
  simp only [hledger, hindex] at hm
  rcases Provenance.recorder_of_update heff (hW.runs_ledger_lt r hr) hm with
    ⟨m₀, hm₀, hrec⟩ | ⟨turn, dirOk, now, hop, hacc, hL, hi⟩
  · rw [← hrec]
    exact ho m₀ hm₀
  -- a new record at the run's position is what `hfresh` excludes
  · refine absurd hi (fun hi => hfresh turn dirOk now hop hacc hL ?_)
    rw [hi, MarksMatch.length_eq hA, hL]
    rfl

/-- Attribution is kept by every effect: the one step that adds an event adds it to a record
of its own run. -/
theorem Attributed.effect (hA : Attributed (d, h)) (hO : WritesOwn (d, h))
    (heff : d.Effect op d') : Attributed (d', Provenance.update d op d' h) := by
  refine MarksMatch.effect hA (fun _ _ _ _ => rfl) (fun _ => rfl) (fun _ _ _ _ hm => hm)
    (fun t ev rec m hpc hm hmatch => ?_) heff
  have hown : Owns (d, h) (d.drains t).state := hO t (by simp [Drain.addresses, hpc])
  exact hmatch.produce (hown m hm) ev

/-- A drain that addresses its turn after a step did so before it, or has just been spawned
for the session's live run. -/
theorem DaemonState.Effect.addresses_cases (heff : d.Effect op d') {t : TaskId}
    (ht : (d'.drains t).addresses = true) :
    ((d.drains t).addresses = true ∧ (d'.drains t).state = (d.drains t).state) ∨
      ∃ sid, d'.sessions sid = some (d'.drains t).state := by
  rcases heff.drain_cases t with hsame | ⟨-, sid, traceId, r, hspawn, hr⟩ | hmove
  · exact .inl ⟨hsame ▸ ht, by rw [hsame]⟩
  · exact .inr ⟨sid, by rw [hspawn]; exact hr⟩
  -- no edge leads back into the states that address a turn
  · refine .inl ⟨?_, hmove.state⟩
    have hedge := hmove.edge
    revert ht hedge
    unfold Drain.addresses
    generalize (d.drains t).pc = pc, (d'.drains t).pc = pc'
    rintro ht hedge
    cases hedge <;> first | rfl | exact ht

end Preservation

namespace AttributionInv

variable {d d' d₁ : DaemonState} {op : DaemonOp} {h : Provenance}

theorem initial (registry : HarnessId → Option Harness) (root : Option String) :
    AttributionInv (tracedDaemon registry root).init where
  wf := WF.initial registry root
  attributed := fun _ => .nil
  writesOwn := fun _ _ m hm => by cases hm
  liveOwn := fun _ _ hr => by cases hr

/-- Allocating the ledger a call reads keeps the invariant. -/
theorem touched (hI : AttributionInv (d, h)) (ht : d.Touched op d₁) : AttributionInv (d₁, h) := by
  have hW := hI.wf.touched ht
  have hA := MarksMatch.touched hI.attributed hI.wf ht
  obtain rfl | ⟨sid, -, -, rfl⟩ := ht
  · exact hI
  · exact ⟨hW, hA, hI.writesOwn, hI.liveOwn⟩

theorem owns_startRun (hA : Attributed (d, h)) {turn : HarnessTurn} {dirOk : Bool} {now : Time}
    {harness : Harness} (hacc : d.accepts turn dirOk = true) :
    Owns (d.startRun turn harness now,
      Provenance.update d (.run turn dirOk now) (d.startRun turn harness now) h) d.runCount := by
  intro m hm
  have hrun : (d.startRun turn harness now).runs d.runCount = d.runState turn harness now := by
    simp [DaemonState.startRun]
  rw [Provenance.update_run hacc, hrun] at hm
  have hlen := MarksMatch.length_eq hA (d.ledgerRef turn.sessionId)
  simp only [DaemonState.runState, Function.update_self, ← hlen, List.getElem?_concat_length]
    at hm
  rw [← Option.some.inj hm]

/-- **Invariant preservation.** -/
theorem effect (hI : AttributionInv (d, h)) (hC : FreshPosition d op) (heff : d.Effect op d') :
    AttributionInv (d', Provenance.update d op d' h) := by
  have hW : WF d := hI.wf
  -- the drain a `resume` spawns inherits this for its run
  have hlive : ∀ sid r, d'.sessions sid = some r →
      Owns (d', Provenance.update d op d' h) r := by
    intro sid r hr
    rcases heff.sessions_cases hr with
      ⟨hold, hother⟩ | ⟨rfl, -, turn, dirOk, now, _, rfl, hacc, -, rfl⟩
    · refine (hI.liveOwn sid r hold).effect hW hI.attributed heff (hW.sessions_lt sid r hold) ?_
      -- the other session's ledger is another one: the two carry different session ids
      rintro turn dirOk now rfl hacc hledger
      exact absurd (hW.sessions_sid sid r hold ▸ hW.session_of_ledger heff hacc
        (hW.sessions_lt sid r hold) hledger) (hother turn dirOk now rfl hacc)
    · exact owns_startRun hI.attributed hacc
  refine ⟨hW.effect heff, hI.attributed.effect hI.writesOwn heff, fun t ht => ?_, hlive⟩
  rcases heff.addresses_cases ht with ⟨hold, hstate⟩ | ⟨sid, hsid⟩
  · have hlt : t < d.drainCount := hW.lt_drainCount fun hdone => by
      simp [Drain.addresses, hdone] at hold
    rw [hstate]
    refine (hI.writesOwn t hold).effect hW hI.attributed heff (hW.drains_lt t hlt) ?_
    rintro turn dirOk now rfl hacc hledger
    exact hC hacc t hlt hold hledger
  · exact hlive sid _ hsid

theorem step {registry : HarnessId → Option Harness} {root : Option String}
    {p q : DaemonState × Provenance} (hI : AttributionInv p) (hC : FreshPosition p.1 op)
    (hstep : (tracedDaemon registry root).step p op = some q) : AttributionInv q := by
  obtain ⟨d, h⟩ := p
  obtain ⟨d', h'⟩ := q
  obtain ⟨hs, hh⟩ := Machine.step_withHistory_eq_some.mp hstep
  obtain ⟨d₁, htouch, heff⟩ := DaemonState.step_cases hs
  replace hh : h' = Provenance.update d op d' h := hh
  rw [hh, ← Provenance.update_touched hI.wf htouch]
  exact (hI.touched htouch).effect (hC.touched hI.wf htouch) heff

end AttributionInv

/-- **Event attribution.** Along every run of the daemon in which accepted runs take fresh
positions, every event of every ledger was produced by the run that recorded its turn, and no
drain addresses another run's record. -/
theorem attributed_of_freshPosition (registry : HarnessId → Option Harness)
    (root : Option String) (ops : List DaemonOp) (p : DaemonState × Provenance)
    (hC : (tracedDaemon registry root).Along (fun p op => FreshPosition p.1 op)
      (tracedDaemon registry root).init ops)
    (hrun : (tracedDaemon registry root).exec (tracedDaemon registry root).init ops = some p) :
    Attributed p ∧ WritesOwn p := by
  have hI : AttributionInv p := Machine.invariant (AttributionInv.initial registry root)
    (fun _ _ _ hI hC hs => hI.step hC hs) hC hrun
  exact ⟨hI.attributed, hI.writesOwn⟩

/-- A suspended turn is discarded; the next run takes its position once its drain is gone. -/
theorem attributed_across_discard :
    ∃ p, (tracedDaemon mockRegistry none).exec (tracedDaemon mockRegistry none).init
        [.run (.new ⟨"mock"⟩ ⟨"s1"⟩ "a") true 0, .drainEvent 0 (.askUser ⟨"s1"⟩ "which?" []),
          .drainAdvance 0 none 0, .drainAdvance 0 none 0, .drainClose 0, .discard ⟨"s1"⟩ 0,
          .run (.new ⟨"mock"⟩ ⟨"s1"⟩ "b") true 1, .drainEvent 1 (.done ⟨"s1"⟩)] = some p ∧
      (p.1.ledgerHeap 0).turns.length = 1 ∧ Attributed p ∧ WritesOwn p :=
  ⟨_, rfl, rfl, attributed_of_freshPosition mockRegistry none
    [.run (.new ⟨"mock"⟩ ⟨"s1"⟩ "a") true 0, .drainEvent 0 (.askUser ⟨"s1"⟩ "which?" []),
      .drainAdvance 0 none 0, .drainAdvance 0 none 0, .drainClose 0, .discard ⟨"s1"⟩ 0,
      .run (.new ⟨"mock"⟩ ⟨"s1"⟩ "b") true 1, .drainEvent 1 (.done ⟨"s1"⟩)] _ (by decide) rfl⟩

/-- Without the condition an event lands on another run's turn: the first run's turn is
discarded while its stream is open, the second run takes its position, and the first run's
next event is appended to the second run's record. -/
theorem not_attributed :
    ¬ ∀ (registry : HarnessId → Option Harness) (root : Option String) (ops : List DaemonOp)
      (p : DaemonState × Provenance),
      (tracedDaemon registry root).exec (tracedDaemon registry root).init ops = some p →
        Attributed p ∧ WritesOwn p := by
  intro hall
  obtain ⟨hA, -⟩ := hall mockRegistry none
    [.run (.new ⟨"mock"⟩ ⟨"s1"⟩ "a") true 0, .discard ⟨"s1"⟩ 0,
      .run (.new ⟨"mock"⟩ ⟨"s1"⟩ "b") true 1, .drainEvent 0 (.assistantDelta ⟨"s1"⟩ "hi")] _ rfl
  obtain ⟨hmatch, -⟩ := List.forall₂_cons.mp (hA 0)
  exact absurd hmatch (by decide)

/-- The condition is needed at every step: a run that takes an addressed position leaves a
drain addressing a record that is not its own. -/
theorem writesOwn_broken {registry : HarnessId → Option Harness} {root : Option String}
    {p q : DaemonState × Provenance} {op : DaemonOp} (hW : WF p.1) (hA : Attributed p)
    (hC : ¬ FreshPosition p.1 op) (hstep : (tracedDaemon registry root).step p op = some q) :
    ¬ WritesOwn q := by
  obtain ⟨d, h⟩ := p
  obtain ⟨d', h'⟩ := q
  obtain ⟨hs, hh⟩ := Machine.step_withHistory_eq_some.mp hstep
  cases op with
  | run turn dirOk now =>
    simp only [FreshPosition, not_forall, not_not] at hC
    obtain ⟨hacc, t, ht, hadr, hledger, hindex⟩ := hC
    have hr : (d.drains t).state < d.runCount := hW.drains_lt t ht
    obtain ⟨hdrains, hruns⟩ : d'.drains t = d.drains t ∧
        d'.runs (d.drains t).state = d.runs (d.drains t).state :=
      DaemonState.step_run_frame hs ht hr
    intro hO
    -- the record the new run made stands at the position the old drain addresses
    have hown := hO t (by rwa [hdrains]) ⟨some d.runCount, []⟩ ?_
    · rw [hdrains] at hown
      exact absurd (Option.some.inj hown) (Nat.ne_of_gt hr)
    · replace hh : h' = Provenance.update d (.run turn dirOk now) d' h := hh
      have hlen := MarksMatch.length_eq hA (d.ledgerRef turn.sessionId)
      simp only [hh, Provenance.update_run hacc, hdrains, hruns, hledger, hindex]
      rw [Function.update_self, DaemonState.ledgerOf, ← hlen, List.getElem?_concat_length]
  | _ => exact absurd trivial hC

end Goble
