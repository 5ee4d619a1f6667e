import Goble.Daemon.References

/-!
# The transcript and the wire

A drain appends each harness event to its turn's record and only then mirrors and emits its
wire form, in separate steps. `emitted r` is what the drains of run `r` have put on the wire,
trace-lifecycle events aside, `record r` the turn record the run addresses.

* `WireAgrees` — a run none of whose drains holds an event has emitted exactly the mapped events
  of its record, in order; while a drain holds one, the record is ahead by that event.

Nothing is reversed here (`DaemonOp.reverses`): no rewind, apply, discard or restored checkpoint.
A suspended turn is continued by a second drain, and `resume` does not check that the first one
has returned, so two drains can hold an event of one run at a time and emit them in either
order. `OneHolder` excludes exactly that: a drain takes an event that has a wire form only
while no other drain of its run holds one. Under it both properties hold along every run
(`wireAgrees_of_oneHolder`); `not_wireAgrees` is two resumes whose drains overtake each other.
-/

namespace Goble

/-- The wire event a drain has recorded and not yet emitted. -/
def Drain.held (dr : Drain) : Option DaemonEvent :=
  match dr.pc with
  | .mirror e | .emit e => some e
  | _ => none

/-- The calls that drop recorded turns or replace a ledger from a checkpoint. -/
def DaemonOp.reverses : DaemonOp → Bool
  | .rewind .. | .apply .. | .discard .. | .restoreCheckpoint _ => true
  | _ => false

namespace DaemonState

variable (d : DaemonState)

def emitted (r : RunRef) : List DaemonEvent :=
  d.wire.filterMap fun em => if em.run = r ∧ em.event.isTrace = false then some em.event else none

theorem emitted_of_wire {d d' : DaemonState} {q : RunRef} {e : DaemonEvent}
    (h : d'.wire = d.wire ++ [⟨q, e⟩]) (r : RunRef) :
    d'.emitted r = d.emitted r ++ (if q = r ∧ e.isTrace = false then [e] else []) := by
  unfold emitted
  rw [h, List.filterMap_append, List.filterMap_cons, List.filterMap_nil]
  split
  · next hno =>
    have : ¬ (q = r ∧ e.isTrace = false) := by
      intro hyes
      rw [if_pos hyes] at hno
      cases hno
    rw [if_neg this]
  · next hsome =>
    split at hsome
    · next hyes => rw [if_pos hyes, ← Option.some.inj hsome]
    · cases hsome

def record (r : RunRef) : Option TurnRecord :=
  (d.ledgerHeap (d.runs r).ledger).turns[(d.runs r).turnIndex]?

end DaemonState

/-! ### The properties and the condition -/

structure WireAgrees (d : DaemonState) : Prop where
  drained : ∀ r < d.runCount, (∀ t, (d.drains t).state = r → (d.drains t).held = none) →
    ∃ rec, d.record r = some rec ∧ d.emitted r = rec.events.filterMap mapEvent
  inFlight : ∀ t e, (d.drains t).held = some e →
    ∃ rec, d.record (d.drains t).state = some rec ∧
      d.emitted (d.drains t).state ++ [e] = rec.events.filterMap mapEvent

def RecordedBy (d : DaemonState) (sid : SessionId) (runs : List RunRef) : Prop :=
  runs.length = (d.ledgerOf sid).len ∧ ∀ i r, runs[i]? = some r →
    r < d.runCount ∧ (d.runs r).ledger = d.ledgerRef sid ∧ (d.runs r).turnIndex = i

/-- A replay from the first turn is what the turns' drains emitted, turn by turn, once none of
them holds an event. -/
def ReplayAgrees (d : DaemonState) (sid : SessionId) : Prop :=
  ∃ runs, RecordedBy d sid runs ∧
    ((∀ t, (d.drains t).state ∈ runs → (d.drains t).held = none) →
      (d.replay sid 0).2 = .ok (runs.flatMap d.emitted))

/-- A drain takes an event that has a wire form only while no other drain of its run holds
one. -/
def OneHolder (d : DaemonState) : DaemonOp → Prop
  | .drainEvent t ev => (mapEvent ev).isSome = true →
    ∀ u < d.drainCount, u ≠ t → (d.drains u).state = (d.drains t).state →
      (d.drains u).held.isNone = true
  | _ => True

instance decidableOneHolder (d : DaemonState) : (op : DaemonOp) → Decidable (OneHolder d op)
  | .drainEvent t ev => inferInstanceAs (Decidable ((mapEvent ev).isSome = true →
      ∀ u < d.drainCount, u ≠ t → (d.drains u).state = (d.drains t).state →
        (d.drains u).held.isNone = true))
  | .run .. | .resume .. | .resumeCommand .. | .cancel _ | .rewind .. | .fork .. | .replay ..
  | .checkpoints .. | .select .. | .apply .. | .release .. | .discard ..
  | .restoreCheckpoint _ | .setCheckpointSink _ | .register _ | .drainClose _
  | .drainAdvance .. => isTrue trivial

/-! ### What a step adds to a record and to the wire -/

def DaemonState.appended (d : DaemonState) (op : DaemonOp) (L : LedgerRef) (i : Nat) :
    List HarnessServerEvent :=
  match op with
  | .drainEvent t ev =>
    if (d.runs (d.drains t).state).ledger = L ∧ (d.runs (d.drains t).state).turnIndex = i then [ev]
    else []
  | _ => []

namespace DaemonState.Effect

variable {d d' : DaemonState} {op : DaemonOp}

theorem turns_grow (heff : d.Effect op d') (hop : op.reverses = false) {L : LedgerRef}
    (hL : L < d.ledgerCount) {i : Nat} {rec : TurnRecord}
    (hrec : (d.ledgerHeap L).turns[i]? = some rec) :
    ∃ rec', (d'.ledgerHeap L).turns[i]? = some rec' ∧
      rec'.events = rec.events ++ d.appended op L i := by
  have hsame : (d'.ledgerHeap L).turns[i]? = some rec → d.appended op L i = [] →
      ∃ rec', (d'.ledgerHeap L).turns[i]? = some rec' ∧
        rec'.events = rec.events ++ d.appended op L i := by
    intro h happ
    exact ⟨rec, h, by rw [happ, List.append_nil]⟩
  -- the record at `L` and `i` after the turn at `K` and `j` was rewritten
  have hmodify : ∀ K j f, d'.ledgerHeap =
      Function.update d.ledgerHeap K ((d.ledgerHeap K).modifyTurn j f) →
      (d'.ledgerHeap L).turns[i]? = some (if K = L ∧ j = i then f rec else rec) := by
    intro K j f hd
    rw [hd, Function.update_apply]
    split
    · next hK =>
      subst hK
      simp only [LedgerState.modifyTurn, List.getElem?_modify, hrec, true_and, Option.map_eq_map,
        Option.map_some]
    · next hK =>
      rw [if_neg fun h => hK h.1.symm]
      exact hrec
  cases heff with
  | idle _ => exact hsame hrec (by cases op <;> first | rfl | simp [DaemonState.idles] at *)
  | @run turn dirOk now harness K hK hacc =>
    refine hsame ?_ rfl
    rw [DaemonState.startRun_ledgerHeap, Function.update_apply]
    split
    · next h =>
      have hlt := (List.getElem?_eq_some_iff.mp hrec).1
      rw [LedgerState.recordTurn_turns, ← h, List.getElem?_append_left hlt]
      exact hrec
    · exact hrec
  | resume hr _ => exact hsame hrec (by cases op <;> first | rfl | cases hr)
  | truncate htr _ _ => cases op <;> first | cases htr | cases hop
  | @mark _ _ K sel hm _ =>
    refine hsame ?_ (by cases op <;> first | rfl | cases hm)
    rw [DaemonState.setLedger_ledgerHeap, Function.update_apply]
    split
    · next h => subst h; exact hrec
    · exact hrec
  | fork _ =>
    exact hsame (by rw [DaemonState.insertLedger_ledgerHeap,
      Function.update_of_ne (Nat.ne_of_lt hL)]; exact hrec) rfl
  | restoreCheckpoint => cases hop
  | @event t ev st pc status error hpc hst hmap =>
    have hm := hmodify st.ledger st.turnIndex (.extend [ev]) rfl
    subst hst
    refine ⟨_, hm, ?_⟩
    simp only [DaemonState.appended]
    split <;> simp [TurnRecord.extend]
  | @settle t _ now st hpc hst =>
    have hm := hmodify st.ledger st.turnIndex
      (.settle (DaemonState.turnStatus (d.drains t)) now) rfl
    refine ⟨_, hm, ?_⟩
    split <;> simp [TurnRecord.settle, DaemonState.appended]
  | _ => exact hsame hrec rfl

theorem record_grow (heff : d.Effect op d') (hop : op.reverses = false) (hW : WF d) {r : RunRef}
    (hr : r < d.runCount) {rec : TurnRecord} (hrec : d.record r = some rec) :
    ∃ rec', d'.record r = some rec' ∧
      rec'.events = rec.events ++ d.appended op (d.runs r).ledger (d.runs r).turnIndex := by
  obtain ⟨hledger, hindex, -⟩ := heff.runs_fixed hr
  rw [DaemonState.record, hledger, hindex]
  exact heff.turns_grow hop (hW.runs_ledger_lt r hr) hrec

end DaemonState.Effect

/-! ### The invariant -/

structure WireInv (d : DaemonState) : Prop where
  wf : WF d
  recorded : ∀ r < d.runCount, ∃ rec, d.record r = some rec
  distinct : ∀ q r, q < d.runCount → r < d.runCount → (d.runs q).ledger = (d.runs r).ledger →
    (d.runs q).turnIndex = (d.runs r).turnIndex → q = r
  wire_lt : ∀ em ∈ d.wire, em.run < d.runCount
  sole : ∀ t u, (d.drains t).held ≠ none → (d.drains u).held ≠ none →
    (d.drains t).state = (d.drains u).state → t = u
  /-- What a drain holds came through `mapEvent`. -/
  proper : ∀ t e, (d.drains t).held = some e → e.isTrace = false
  agrees : WireAgrees d

namespace WireInv

variable {d d' : DaemonState} {op : DaemonOp}

theorem initial (registry : HarnessId → Option Harness) (root : Option String) :
    WireInv (DaemonState.new registry root) where
  wf := WF.initial registry root
  recorded := fun r hr => absurd hr (Nat.not_lt_zero r)
  distinct := fun q r hq => absurd hq (Nat.not_lt_zero q)
  wire_lt := fun em hem => by cases hem
  sole := fun t u ht => absurd rfl ht
  proper := fun t e he => by cases he
  agrees := ⟨fun r hr => absurd hr (Nat.not_lt_zero r), fun t e he => by cases he⟩

variable {t : TaskId}

theorem state_lt (hW : WF d) (ht : (d.drains t).held ≠ none) :
    (d.drains t).state < d.runCount :=
  hW.drains_lt t (hW.lt_drainCount fun h => ht (by simp [Drain.held, h]))

variable {dr : Drain}

theorem held_spawn (hW : WF d) (hdr : dr.held = none) (t : TaskId) :
    (Function.update d.drains d.drainCount dr t).held = (d.drains t).held := by
  rw [Function.update_apply]
  split
  · next ht => rw [ht, hdr, hW.drains_unallocated _ (Nat.le_refl _)]; rfl
  · rfl

theorem state_spawn (hW : WF d) (dr : Drain) (ht : (d.drains t).held ≠ none) :
    (Function.update d.drains d.drainCount dr t).state = (d.drains t).state := by
  rw [Function.update_of_ne]
  rintro rfl
  rw [hW.drains_unallocated _ (Nat.le_refl _)] at ht
  exact ht rfl

theorem distinct_of_effect (hI : WireInv d) (heff : d.Effect op d')
    (hcount : d'.runCount = d.runCount) : ∀ q r, q < d'.runCount → r < d'.runCount →
      (d'.runs q).ledger = (d'.runs r).ledger → (d'.runs q).turnIndex = (d'.runs r).turnIndex →
        q = r := by
  intro q r hq hr hl hi
  rw [hcount] at hq hr
  obtain ⟨hql, hqi, -⟩ := heff.runs_fixed hq
  obtain ⟨hrl, hri, -⟩ := heff.runs_fixed hr
  exact hI.distinct q r hq hr (by rw [← hql, hl, hrl]) (by rw [← hqi, hi, hri])

theorem recorded_of_effect (hI : WireInv d) (heff : d.Effect op d') (hop : op.reverses = false)
    (hcount : d'.runCount = d.runCount) : ∀ r < d'.runCount, ∃ rec, d'.record r = some rec := by
  intro r hr
  rw [hcount] at hr
  obtain ⟨rec, hrec⟩ := hI.recorded r hr
  obtain ⟨rec', hrec', -⟩ := heff.record_grow hop hI.wf hr hrec
  exact ⟨rec', hrec'⟩

theorem quiet (hI : WireInv d) (heff : d.Effect op d') (hop : op.reverses = false)
    (hcount : d'.runCount = d.runCount)
    (happ : ∀ L i, (d.appended op L i).filterMap mapEvent = [])
    (hem : ∀ r, d'.emitted r = d.emitted r) (hwire : ∀ em ∈ d'.wire, em.run < d'.runCount)
    (hheld : ∀ t, (d'.drains t).held = (d.drains t).held)
    (hstate : ∀ t, (d.drains t).held ≠ none → (d'.drains t).state = (d.drains t).state) :
    WireInv d' := by
  -- the wire form of a run's record is what it was
  have hrecord : ∀ r < d.runCount, ∀ rec, d.record r = some rec → ∃ rec',
      d'.record r = some rec' ∧ rec'.events.filterMap mapEvent = rec.events.filterMap mapEvent := by
    intro r hr rec hrec
    obtain ⟨rec', hrec', hev⟩ := heff.record_grow hop hI.wf hr hrec
    exact ⟨rec', hrec', by rw [hev, List.filterMap_append, happ, List.append_nil]⟩
  -- what is held, and by which run's drain, is unchanged, so every clause is the old one
  refine ⟨hI.wf.effect heff, hI.recorded_of_effect heff hop hcount,
    hI.distinct_of_effect heff hcount, hwire, fun t u ht hu hst => ?_, fun t e he => ?_, ?_, ?_⟩
  · rw [hheld] at ht hu
    rw [hstate t ht, hstate u hu] at hst
    exact hI.sole t u ht hu hst
  · rw [hheld] at he
    exact hI.proper t e he
  · intro r hr hnone
    rw [hcount] at hr
    obtain ⟨rec, hrec, heq⟩ := hI.agrees.drained r hr fun t ht => by
      by_contra hne
      exact hne ((hheld t).symm.trans (hnone t ((hstate t hne).trans ht)))
    obtain ⟨rec', hrec', hev⟩ := hrecord r hr rec hrec
    exact ⟨rec', hrec', by rw [hem, heq, hev]⟩
  · intro t e he
    rw [hheld] at he
    have hne : (d.drains t).held ≠ none := by simp [he]
    obtain ⟨rec, hrec, heq⟩ := hI.agrees.inFlight t e he
    obtain ⟨rec', hrec', hev⟩ := hrecord _ (state_lt hI.wf hne) rec hrec
    rw [hstate t hne]
    exact ⟨rec', hrec', by rw [hem, heq, hev]⟩

theorem take (hI : WireInv d) {ev : HarnessServerEvent} {e : DaemonEvent}
    (heff : d.Effect (.drainEvent t ev) d') (hcount : d'.runCount = d.runCount)
    (hmap : mapEvent ev = some e) (hwire : d'.wire = d.wire)
    (hdrains : d'.drains = Function.update d.drains t dr) (hst : dr.state = (d.drains t).state)
    (hdr : dr.held = some e) (hlt : (d.drains t).state < d.runCount)
    (hfree : ∀ u, (d.drains u).state = (d.drains t).state → (d.drains u).held = none) :
    WireInv d' := by
  have hem : ∀ r, d'.emitted r = d.emitted r := fun r => by
    rw [DaemonState.emitted, DaemonState.emitted, hwire]
  have hself : d'.drains t = dr := by rw [hdrains, Function.update_self]
  have hother : ∀ u, u ≠ t → d'.drains u = d.drains u := fun u hu => by
    rw [hdrains, Function.update_of_ne hu]
  -- the run's own record grows by `ev`, every other one stays
  have hown : ∀ rec, d.record (d.drains t).state = some rec →
      ∃ rec', d'.record (d.drains t).state = some rec' ∧ rec'.events = rec.events ++ [ev] := by
    intro rec hrec
    obtain ⟨rec', hrec', hev⟩ := heff.record_grow rfl hI.wf hlt hrec
    exact ⟨rec', hrec', by simpa [DaemonState.appended] using hev⟩
  have hothers : ∀ r < d.runCount, r ≠ (d.drains t).state → ∀ rec, d.record r = some rec →
      ∃ rec', d'.record r = some rec' ∧ rec'.events = rec.events := by
    intro r hr hne rec hrec
    obtain ⟨rec', hrec', hev⟩ := heff.record_grow rfl hI.wf hr hrec
    refine ⟨rec', hrec', ?_⟩
    rw [hev, DaemonState.appended, if_neg, List.append_nil]
    exact fun h => hne (hI.distinct r _ hr hlt h.1.symm h.2.symm)
  refine ⟨hI.wf.effect heff, hI.recorded_of_effect heff rfl hcount,
    hI.distinct_of_effect heff hcount, ?_, fun u v hu hv huv => ?_, fun u x hx => ?_, ?_, ?_⟩
  -- `wire_lt`: nothing is emitted yet
  · rw [hwire, hcount]
    exact hI.wire_lt
  -- `sole`: the taker is one of the two holders only if the other was free, which `hfree` says
  · by_cases hut : u = t <;> by_cases hvt : v = t
    · rw [hut, hvt]
    · rw [hut, hself, hst, hother v hvt] at huv
      rw [hother v hvt] at hv
      exact absurd (hfree v huv.symm) hv
    · rw [hvt, hself, hst, hother u hut] at huv
      rw [hother u hut] at hu
      exact absurd (hfree u huv) hu
    · rw [hother u hut] at hu huv
      rw [hother v hvt] at hv huv
      exact hI.sole u v hu hv huv
  · by_cases hut : u = t
    · rw [hut, hself, hdr] at hx
      rw [← Option.some.inj hx]
      exact mapEvent_not_isTrace hmap
    · rw [hother u hut] at hx
      exact hI.proper u x hx
  -- `drained`: the taker's run is no longer drained, every other run is as before
  · intro r hr hnone
    rw [hcount] at hr
    have hne : r ≠ (d.drains t).state := by
      rintro rfl
      have := hnone t (by rw [hself, hst])
      rw [hself, hdr] at this
      cases this
    obtain ⟨rec, hrec, heq⟩ := hI.agrees.drained r hr fun u hu => by
      by_cases hut : u = t
      · exact absurd (hut ▸ hu).symm hne
      · rw [← hother u hut]
        exact hnone u (by rw [hother u hut, hu])
    obtain ⟨rec', hrec', hev⟩ := hothers r hr hne rec hrec
    exact ⟨rec', hrec', by rw [hem, heq, hev]⟩
  -- `inFlight`: the taker's run was drained and is now one event behind its record
  · intro u x hx
    by_cases hut : u = t
    · subst hut
      rw [hself] at hx ⊢
      rw [hdr] at hx
      obtain ⟨rec, hrec, heq⟩ := hI.agrees.drained _ hlt hfree
      obtain ⟨rec', hrec', hev⟩ := hown rec hrec
      refine ⟨rec', by rw [hst, hrec'], ?_⟩
      rw [hst, hem, heq, hev, List.filterMap_append, ← Option.some.inj hx]
      simp [hmap]
    · rw [hother u hut] at hx ⊢
      have hne : (d.drains u).state ≠ (d.drains t).state := fun h => by
        rw [hfree u h] at hx
        cases hx
      obtain ⟨rec, hrec, heq⟩ := hI.agrees.inFlight u x hx
      obtain ⟨rec', hrec', hev⟩ := hothers _ (state_lt hI.wf (by simp [hx])) hne rec hrec
      exact ⟨rec', hrec', by rw [hem, heq, hev]⟩

theorem release (hI : WireInv d) {e : DaemonEvent} (heff : d.Effect op d')
    (hop : op.reverses = false) (hcount : d'.runCount = d.runCount)
    (happ : ∀ L i, d.appended op L i = []) (hheld : (d.drains t).held = some e)
    (hwire : d'.wire = d.wire ++ [⟨(d.drains t).state, e⟩])
    (hdrains : d'.drains = Function.update d.drains t dr) (hdr : dr.held = none) :
    WireInv d' := by
  have hne : (d.drains t).held ≠ none := by simp [hheld]
  have hproper := hI.proper t e hheld
  have hself : d'.drains t = dr := by rw [hdrains, Function.update_self]
  have hother : ∀ u, u ≠ t → d'.drains u = d.drains u := fun u hu => by
    rw [hdrains, Function.update_of_ne hu]
  have hrecord : ∀ r < d.runCount, ∀ rec, d.record r = some rec →
      ∃ rec', d'.record r = some rec' ∧ rec'.events = rec.events := by
    intro r hr rec hrec
    obtain ⟨rec', hrec', hev⟩ := heff.record_grow hop hI.wf hr hrec
    exact ⟨rec', hrec', by rw [hev, happ, List.append_nil]⟩
  have hback : ∀ u, (d'.drains u).held ≠ none → u ≠ t ∧ (d.drains u).held ≠ none := by
    intro u hu
    by_cases hut : u = t
    · rw [hut, hself, hdr] at hu
      exact absurd rfl hu
    · rw [hother u hut] at hu
      exact ⟨hut, hu⟩
  -- no other drain of the run holds an event
  have halone : ∀ u, u ≠ t → (d.drains u).held ≠ none →
      (d.drains u).state ≠ (d.drains t).state :=
    fun u hut hu hst => hut (hI.sole u t hu hne hst)
  refine ⟨hI.wf.effect heff, hI.recorded_of_effect heff hop hcount,
    hI.distinct_of_effect heff hcount, ?_, fun u v hu hv huv => ?_, fun u x hx => ?_, ?_, ?_⟩
  · intro em hem
    rw [hwire, List.mem_append, List.mem_singleton] at hem
    rw [hcount]
    rcases hem with hem | rfl
    · exact hI.wire_lt em hem
    · exact state_lt hI.wf hne
  · obtain ⟨hut, hu⟩ := hback u hu
    obtain ⟨hvt, hv⟩ := hback v hv
    rw [hother u hut, hother v hvt] at huv
    exact hI.sole u v hu hv huv
  · obtain ⟨hut, -⟩ := hback u (by simp [hx])
    rw [hother u hut] at hx
    exact hI.proper u x hx
  -- `drained`: the emitter's run had exactly the emitted event outstanding
  · intro r hr hnone
    rw [hcount] at hr
    rw [DaemonState.emitted_of_wire hwire]
    by_cases hrt : (d.drains t).state = r
    · subst hrt
      obtain ⟨rec, hrec, heq⟩ := hI.agrees.inFlight t e hheld
      obtain ⟨rec', hrec', hev⟩ := hrecord _ hr rec hrec
      exact ⟨rec', hrec', by rw [if_pos ⟨rfl, hproper⟩, heq, hev]⟩
    · obtain ⟨rec, hrec, heq⟩ := hI.agrees.drained r hr fun u hu => by
        by_cases hut : u = t
        · exact absurd (hut ▸ hu) hrt
        · rw [← hother u hut]
          exact hnone u (by rw [hother u hut, hu])
      obtain ⟨rec', hrec', hev⟩ := hrecord r hr rec hrec
      exact ⟨rec', hrec', by rw [if_neg fun h => hrt h.1, List.append_nil, heq, hev]⟩
  -- `inFlight`: another holder serves another run, whose wire did not move
  · intro u x hx
    obtain ⟨hut, hu⟩ := hback u (by simp [hx])
    rw [hother u hut] at hx ⊢
    obtain ⟨rec, hrec, heq⟩ := hI.agrees.inFlight u x hx
    obtain ⟨rec', hrec', hev⟩ := hrecord _ (state_lt hI.wf hu) rec hrec
    refine ⟨rec', hrec', ?_⟩
    rw [DaemonState.emitted_of_wire hwire, if_neg fun h => halone u hut hu h.1.symm,
      List.append_nil, heq, hev]

/-- A run is started: it takes the position after the last, has emitted nothing but its trace
event, and its drain holds nothing. -/
theorem start (hI : WireInv d) {turn : HarnessTurn} {dirOk : Bool} {now : Time}
    {harness : Harness} (heff : d.Effect (.run turn dirOk now) (d.startRun turn harness now)) :
    WireInv (d.startRun turn harness now) := by
  have hsplit : ∀ r, r < (d.startRun turn harness now).runCount →
      r < d.runCount ∨ r = d.runCount := fun r hr => Nat.lt_succ_iff_lt_or_eq.mp hr
  have hruns : ∀ r, r < d.runCount → (d.startRun turn harness now).runs r = d.runs r :=
    fun r hr => by rw [DaemonState.startRun_runs, Function.update_of_ne (Nat.ne_of_lt hr)]
  have hnew : (d.startRun turn harness now).runs d.runCount = d.runState turn harness now := by
    rw [DaemonState.startRun_runs, Function.update_self]
  have hem : ∀ r, (d.startRun turn harness now).emitted r = d.emitted r := fun r => by
    rw [DaemonState.emitted_of_wire (DaemonState.startRun_wire ..),
      if_neg (fun h => absurd h.2 (by simp [DaemonEvent.isTrace])), List.append_nil]
  -- positions of earlier runs on the same ledger are below the new one
  have hbelow : ∀ r < d.runCount, (d.runs r).ledger = d.ledgerRef turn.sessionId →
      (d.runs r).turnIndex < (d.ledgerHeap (d.ledgerRef turn.sessionId)).len := by
    intro r hr hl
    obtain ⟨rec, hrec⟩ := hI.recorded r hr
    rw [DaemonState.record, hl] at hrec
    exact (List.getElem?_eq_some_iff.mp hrec).1
  have hrecord : ∀ r < d.runCount, ∀ rec, d.record r = some rec →
      ∃ rec', (d.startRun turn harness now).record r = some rec' ∧ rec'.events = rec.events := by
    intro r hr rec hrec
    obtain ⟨rec', hrec', hev⟩ := heff.record_grow rfl hI.wf hr hrec
    exact ⟨rec', hrec', hev.trans (List.append_nil _)⟩
  have hrecordNew : ∃ rec, (d.startRun turn harness now).record d.runCount = some rec ∧
      rec.events = [] := by
    have hrec : (d.startRun turn harness now).record d.runCount =
        some ⟨(d.ledgerHeap (d.ledgerRef turn.sessionId)).turns.length, turn, now, none, .running,
          []⟩ := by
      rw [DaemonState.record, hnew, DaemonState.startRun_ledgerHeap, DaemonState.runState,
        Function.update_self, LedgerState.recordTurn_turns]
      exact List.getElem?_concat_length
    exact ⟨_, hrec, rfl⟩
  have hheld : ∀ t, ((d.startRun turn harness now).drains t).held = (d.drains t).held := by
    intro t
    rw [DaemonState.startRun_drains]
    exact held_spawn hI.wf rfl t
  have hstate : ∀ t, (d.drains t).held ≠ none →
      ((d.startRun turn harness now).drains t).state = (d.drains t).state := by
    intro t ht
    rw [DaemonState.startRun_drains]
    exact state_spawn hI.wf _ ht
  refine ⟨hI.wf.effect heff, fun r hr => ?_, fun q r hq hr hl hi => ?_, ?_,
    fun t u ht hu hst => ?_, fun t e he => ?_, ?_, ?_⟩
  · rcases hsplit r hr with hr | rfl
    · obtain ⟨rec, hrec⟩ := hI.recorded r hr
      obtain ⟨rec', hrec', -⟩ := hrecord r hr rec hrec
      exact ⟨rec', hrec'⟩
    · obtain ⟨rec, hrec, -⟩ := hrecordNew
      exact ⟨rec, hrec⟩
  -- `distinct`: the new run's place is past those of every earlier run on the ledger
  · rcases hsplit q hq with hq | rfl <;>
      rcases hsplit r hr with hr | rfl
    · rw [hruns q hq, hruns r hr] at hl hi
      exact hI.distinct q r hq hr hl hi
    · rw [hruns q hq, hnew] at hl hi
      exact absurd hi (Nat.ne_of_lt (hbelow q hq hl))
    · rw [hruns r hr, hnew] at hl hi
      exact absurd hi.symm (Nat.ne_of_lt (hbelow r hr hl.symm))
    · rfl
  · intro em hem
    rw [DaemonState.startRun_wire, List.mem_append, List.mem_singleton] at hem
    rcases hem with hem | rfl
    · exact Nat.lt_succ_of_lt (hI.wire_lt em hem)
    · exact Nat.lt_succ_self _
  · rw [hheld] at ht hu
    rw [hstate t ht, hstate u hu] at hst
    exact hI.sole t u ht hu hst
  · rw [hheld] at he
    exact hI.proper t e he
  -- `drained`: the new run has an empty record and nothing on the wire
  · intro r hr hnone
    rcases hsplit r hr with hr | rfl
    · obtain ⟨rec, hrec, heq⟩ := hI.agrees.drained r hr fun t ht => by
        by_contra hne
        exact hne ((hheld t).symm.trans (hnone t ((hstate t hne).trans ht)))
      obtain ⟨rec', hrec', hev⟩ := hrecord r hr rec hrec
      exact ⟨rec', hrec', by rw [hem, heq, hev]⟩
    · obtain ⟨rec, hrec, hev⟩ := hrecordNew
      refine ⟨rec, hrec, ?_⟩
      rw [hem, hev, List.filterMap_nil]
      refine List.filterMap_eq_nil_iff.mpr fun em hmem => if_neg fun h => ?_
      exact absurd h.1 (Nat.ne_of_lt (hI.wire_lt em hmem))
  · intro t e he
    rw [hheld] at he
    have hne : (d.drains t).held ≠ none := by simp [he]
    obtain ⟨rec, hrec, heq⟩ := hI.agrees.inFlight t e he
    obtain ⟨rec', hrec', hev⟩ := hrecord _ (state_lt hI.wf hne) rec hrec
    rw [hstate t hne]
    exact ⟨rec', hrec', by rw [hem, heq, hev]⟩

theorem move (hI : WireInv d) (heff : d.Effect op d') (hop : op.reverses = false)
    (hcount : d'.runCount = d.runCount) (happ : ∀ L i, (d.appended op L i).filterMap mapEvent = [])
    (hem : ∀ r, d'.emitted r = d.emitted r) (hwire : ∀ em ∈ d'.wire, em.run < d'.runCount)
    (hdrains : d'.drains = Function.update d.drains t dr) (hst : dr.state = (d.drains t).state)
    (hdr : dr.held = (d.drains t).held) : WireInv d' := by
  refine hI.quiet heff hop hcount happ hem hwire (fun u => ?_) (fun u _ => ?_)
  · rw [hdrains, Function.update_apply]
    split
    · next h => rw [hdr, h]
    · rfl
  · rw [hdrains, Function.update_apply]
    split
    · next h => rw [hst, h]
    · rfl

/-- **Invariant preservation.** -/
theorem effect (hI : WireInv d) (hop : op.reverses = false) (hC : OneHolder d op)
    (heff : d.Effect op d') : WireInv d' := by
  have hcopy := heff
  cases heff with
  | idle _ => exact hI
  | run _ _ => exact hI.start hcopy
  | @resume _ sid r hres hr =>
    refine hI.quiet hcopy hop rfl (fun _ _ => by cases op <;> first | rfl | cases hres)
      (fun _ => rfl) hI.wire_lt (fun t => ?_) (fun t ht => ?_)
    · rw [DaemonState.spawnStream_drains]
      exact held_spawn hI.wf rfl t
    · rw [DaemonState.spawnStream_drains]
      exact state_spawn hI.wf _ ht
  | cancel hr =>
    exact hI.quiet hcopy rfl rfl (fun _ _ => rfl) (fun _ => rfl) hI.wire_lt (fun _ => rfl)
      (fun _ _ => rfl)
  | truncate htr _ _ => cases op <;> first | cases htr | cases hop
  | mark hm _ =>
    exact hI.quiet hcopy hop rfl (fun _ _ => by cases op <;> first | rfl | cases hm)
      (fun _ => rfl) hI.wire_lt (fun _ => rfl) (fun _ _ => rfl)
  | fork _ =>
    exact hI.quiet hcopy rfl rfl (fun _ _ => rfl) (fun _ => rfl) hI.wire_lt (fun _ => rfl)
      (fun _ _ => rfl)
  | restoreCheckpoint => cases hop
  | setCheckpointSink =>
    exact hI.quiet hcopy rfl rfl (fun _ _ => rfl) (fun _ => rfl) hI.wire_lt (fun _ => rfl)
      (fun _ _ => rfl)
  | register =>
    exact hI.quiet hcopy rfl rfl (fun _ _ => rfl) (fun _ => rfl) hI.wire_lt (fun _ => rfl)
      (fun _ _ => rfl)
  | @event t ev st pc status error hpc hst hmap =>
    have hlt := (hI.wf.moves hpc (by simp)).2
    have hnone : (d.drains t).held = none := by simp [Drain.held, hpc]
    rcases hmap with ⟨hmap, rfl, -⟩ | ⟨e, hmap, rfl⟩
    · -- the record grows by an event without a wire form
      refine hI.move hcopy rfl rfl (fun L i => ?_) (fun _ => rfl) hI.wire_lt rfl rfl
        (by simp [Drain.held, hpc])
      rw [DaemonState.appended]
      split <;> simp [hmap]
    -- the guard speaks of allocated drains; one that is not allocated holds nothing anyway
    · refine hI.take hcopy rfl hmap rfl rfl rfl rfl hlt fun u hu => ?_
      by_cases hut : u = t
      · rw [hut, hnone]
      · by_cases hdone : (d.drains u).pc = .done
        · simp [Drain.held, hdone]
        · exact Option.isNone_iff_eq_none.mp
            (hC (by simp [hmap]) u (hI.wf.lt_drainCount hdone) hut hu)
  | close hpc hend =>
    refine hI.move hcopy rfl rfl (fun _ _ => rfl) (fun _ => rfl) hI.wire_lt rfl rfl ?_
    rcases hend with ⟨-, rfl⟩ | ⟨-, rfl⟩ <;> simp [Drain.held, hpc]
  | mirror hpc hr =>
    exact hI.move hcopy rfl rfl (fun _ _ => rfl) (fun _ => rfl) hI.wire_lt rfl rfl
      (by simp [Drain.held, hpc])
  | emit hpc =>
    exact hI.release hcopy rfl rfl (fun _ _ => rfl) (by simp [Drain.held, hpc]) rfl rfl rfl
  | settle hpc hst =>
    exact hI.move hcopy rfl rfl (fun _ _ => rfl) (fun _ => rfl) hI.wire_lt rfl rfl
      (by simp [Drain.held, hpc])
  | capture hpc hsnap =>
    exact hI.move hcopy rfl rfl (fun _ _ => rfl) (fun _ => rfl) hI.wire_lt rfl rfl
      (by simp [Drain.held, hpc])
  | log hpc hst hsid =>
    exact hI.move hcopy rfl rfl (fun _ _ => rfl) (fun _ => rfl) hI.wire_lt rfl rfl
      (by simp [Drain.held, hpc])
  | persist hpc hcp hstore =>
    exact hI.move hcopy rfl rfl (fun _ _ => rfl) (fun _ => rfl) hI.wire_lt rfl rfl
      (by simp [Drain.held, hpc])
  | setStatus hpc hr =>
    exact hI.move hcopy rfl rfl (fun _ _ => rfl) (fun _ => rfl) hI.wire_lt rfl rfl
      (by simp [Drain.held, hpc])
  | setFinished hpc hr =>
    exact hI.move hcopy rfl rfl (fun _ _ => rfl) (fun _ => rfl) hI.wire_lt rfl rfl
      (by simp [Drain.held, hpc])
  | @traceFinished t _ _ e hpc he =>
    refine hI.move hcopy rfl rfl (fun _ _ => rfl) (fun r => ?_) (fun em hem => ?_) rfl rfl
      (by simp [Drain.held, hpc])
    · rw [DaemonState.emitted_of_wire (d := d) (q := (d.drains t).state) (e := e) rfl,
        if_neg (fun h => absurd h.2 (by simp [he])), List.append_nil]
    · rcases List.mem_append.mp hem with hem | hem
      · exact hI.wire_lt em hem
      · rw [List.mem_singleton.mp hem]
        exact (hI.wf.moves hpc (by simp)).2
  | remove hpc hsid =>
    exact hI.move hcopy rfl rfl (fun _ _ => rfl) (fun _ => rfl) hI.wire_lt rfl rfl
      (by simp [Drain.held, hpc])

/-- Allocating the ledger a call reads touches no run and no drain. -/
theorem touched {d₁ : DaemonState} (hI : WireInv d) (ht : d.Touched op d₁) : WireInv d₁ := by
  have hW := hI.wf.touched ht
  obtain rfl | ⟨sid, -, -, rfl⟩ := ht
  · exact hI
  · have hrecord : ∀ r < d.runCount, (d.insertLedger sid (.new sid)).record r = d.record r := by
      intro r hr
      simp only [DaemonState.record, DaemonState.insertLedger_ledgerHeap,
        DaemonState.insertLedger_runs]
      rw [Function.update_of_ne (Nat.ne_of_lt (hI.wf.runs_ledger_lt r hr))]
    refine ⟨hW, fun r hr => ?_, hI.distinct, hI.wire_lt, hI.sole, hI.proper, ?_, ?_⟩
    · rw [hrecord r hr]
      exact hI.recorded r hr
    · intro r hr hnone
      rw [hrecord r hr]
      exact hI.agrees.drained r hr hnone
    · intro t e he
      have hlt : (d.drains t).state < d.runCount :=
        state_lt hI.wf fun h => by cases h.symm.trans he
      obtain ⟨rec, hrec, heq⟩ := hI.agrees.inFlight t e he
      exact ⟨rec, (hrecord _ hlt).trans hrec, heq⟩

end WireInv

/-! ### Replay -/

def Covered (d : DaemonState) (sid : SessionId) : Prop :=
  ∀ L, d.ledgers sid = some L → ∀ i < (d.ledgerHeap L).len,
    ∃ r < d.runCount, (d.runs r).ledger = L ∧ (d.runs r).turnIndex = i

def DaemonOp.forksOnto (sid : SessionId) : DaemonOp → Bool
  | .fork _ _ newSid => decide (newSid = sid)
  | _ => false

namespace Covered

variable {d d' : DaemonState} {op : DaemonOp} {sid : SessionId}

/-- Without a truncation the length of an allocated ledger changes only by a run recording
its turn at the end. -/
theorem len_cases (heff : d.Effect op d') (hop : op.reverses = false) {L : LedgerRef}
    (hL : L < d.ledgerCount) :
    (d'.ledgerHeap L).len = (d.ledgerHeap L).len ∨
      ∃ turn harness now, L = d.ledgerRef turn.sessionId ∧ d' = d.startRun turn harness now := by
  have hmodify : ∀ K i f, d'.ledgerHeap =
      Function.update d.ledgerHeap K ((d.ledgerHeap K).modifyTurn i f) →
      (d'.ledgerHeap L).len = (d.ledgerHeap L).len := by
    intro K i f hd
    rw [hd, Function.update_apply]
    split
    · next h => rw [h]; exact List.length_modify ..
    · rfl
  cases heff with
  | @run turn dirOk now harness K hK hacc =>
    by_cases h : L = d.ledgerRef turn.sessionId
    · exact .inr ⟨turn, harness, now, h, rfl⟩
    · exact .inl (by rw [DaemonState.startRun_ledgerHeap, Function.update_of_ne h])
  | truncate htr _ _ => cases op <;> first | cases htr | cases hop
  | mark _ _ =>
    refine .inl ?_
    rw [DaemonState.setLedger_ledgerHeap, Function.update_apply]
    split
    · next h => rw [h]; rfl
    · rfl
  | fork _ =>
    exact .inl (by rw [DaemonState.insertLedger_ledgerHeap,
      Function.update_of_ne (Nat.ne_of_lt hL)])
  | restoreCheckpoint => cases hop
  | event _ _ _ => exact .inl (hmodify _ _ _ rfl)
  | settle _ _ => exact .inl (hmodify _ _ _ rfl)
  | _ => exact .inl rfl

theorem touched {d₁ : DaemonState} (hcov : Covered d sid) (hW : WF d) (ht : d.Touched op d₁) :
    Covered d₁ sid := by
  obtain rfl | ⟨s, -, -, rfl⟩ := ht
  · exact hcov
  · intro L hL i hi
    simp only [DaemonState.insertLedger_ledgers, DaemonState.insertLedger_ledgerHeap,
      Function.update_apply] at hL hi
    split at hL
    · rw [if_pos (Option.some.inj hL).symm] at hi
      exact absurd hi (Nat.not_lt_zero i)
    · rw [if_neg (Nat.ne_of_lt (hW.ledgers_lt sid L hL))] at hi
      exact hcov L hL i hi

theorem effect (hcov : Covered d sid) (hW : WF d) (hop : op.reverses = false)
    (hfork : op.forksOnto sid = false) (heff : d.Effect op d') : Covered d' sid := by
  intro L hL i hi
  have hold : d.ledgers sid = some L := by
    rcases heff.ledgers_cases sid with hkeep | ⟨src, pos, rfl, -⟩ | ⟨cp, rfl, -⟩
    · rw [← hkeep, hL]
    · simp [DaemonOp.forksOnto] at hfork
    · cases hop
  have hmono : ∀ r < d.runCount, (d.runs r).ledger = L → (d.runs r).turnIndex = i →
      ∃ r < d'.runCount, (d'.runs r).ledger = L ∧ (d'.runs r).turnIndex = i := by
    intro r hr hl hidx
    obtain ⟨hledger, hindex, -⟩ := heff.runs_fixed hr
    exact ⟨r, Nat.lt_of_lt_of_le hr heff.runCount_le, by rw [hledger, hl], by rw [hindex, hidx]⟩
  rcases len_cases heff hop (hW.ledgers_lt sid L hold) with hlen | ⟨turn, harness, now, hLr, rfl⟩
  · rw [hlen] at hi
    obtain ⟨r, hr, hl, hidx⟩ := hcov L hold i hi
    exact hmono r hr hl hidx
  · rw [DaemonState.startRun_ledgerHeap, hLr, Function.update_self, LedgerState.len,
      LedgerState.recordTurn_turns, List.length_append, List.length_singleton] at hi
    rcases Nat.lt_succ_iff_lt_or_eq.mp hi with hi | hi
    · obtain ⟨r, hr, hl, hidx⟩ := hcov L hold i (hLr ▸ hi)
      exact hmono r hr hl hidx
    · refine ⟨d.runCount, Nat.lt_succ_self _, ?_, ?_⟩
      · rw [DaemonState.startRun_runs, Function.update_self, hLr]
        rfl
      · rw [DaemonState.startRun_runs, Function.update_self, hi]
        rfl

theorem recordedBy (hcov : Covered d sid) (hW : WF d) : ∃ runs, RecordedBy d sid runs := by
  cases hL : d.ledgers sid with
  | none =>
    exact ⟨[], by rw [hW.ledgerOf_of_none hL]; rfl, fun i r hr => by cases hr⟩
  | some L =>
    have href : d.ledgerRef sid = L := by simp [DaemonState.ledgerRef, hL]
    -- a run for each position, listed by position
    choose f hf using hcov L hL
    refine ⟨(List.range (d.ledgerHeap L).len).attach.map
      fun i => f i.1 (List.mem_range.mp i.2), ?_, fun i r hr => ?_⟩
    · simp [DaemonState.ledgerOf, href]
    · rw [href]
      rw [List.getElem?_map] at hr
      obtain ⟨⟨j, hj⟩, hji, rfl⟩ := Option.map_eq_some_iff.mp hr
      obtain ⟨hlt, hget⟩ := List.getElem?_eq_some_iff.mp hji
      have hij : i = j := by simpa using congrArg Subtype.val hget
      subst hij
      exact hf i (List.mem_range.mp hj)

end Covered

theorem filterMap_replay_zero (l : LedgerState) :
    (l.replay 0).filterMap mapEvent
      = (l.turns.map fun rec => rec.events.filterMap mapEvent).flatten := by
  simp [LedgerState.replay, List.flatMap_def, Function.comp_def]

theorem replay_zero {d : DaemonState} (hW : WF d) {sid : SessionId} :
    (d.replay sid 0).2 = .ok (((d.ledgerOf sid).replay 0).filterMap mapEvent) := by
  cases hL : d.ledgers sid with
  | some L => rw [DaemonState.replay, DaemonState.ensureLedger_of_some hL]; rfl
  | none =>
    rw [hW.ledgerOf_of_none hL, DaemonState.replay, DaemonState.ensureLedger_of_none hL]
    simp [DaemonState.ledgerRef, LedgerState.replay]

theorem WireInv.replayAgrees {d : DaemonState} (hI : WireInv d) {sid : SessionId}
    (hcov : Covered d sid) : ReplayAgrees d sid := by
  obtain ⟨runs, hruns⟩ := hcov.recordedBy hI.wf
  refine ⟨runs, hruns, fun hnone => ?_⟩
  obtain ⟨hlen, hplace⟩ := hruns
  rw [replay_zero hI.wf, filterMap_replay_zero, List.flatMap_def]
  congr 2
  refine List.ext_getElem? fun i => ?_
  rw [List.getElem?_map, List.getElem?_map]
  cases hr : runs[i]? with
  | none =>
    have hge : (d.ledgerOf sid).turns.length ≤ i :=
      Nat.le_trans (Nat.le_of_eq hlen.symm) (List.getElem?_eq_none_iff.mp hr)
    rw [List.getElem?_eq_none_iff.mpr hge]
    rfl
  | some r =>
    obtain ⟨hlt, hledger, hindex⟩ := hplace i r hr
    obtain ⟨rec, hrec, heq⟩ := hI.agrees.drained r hlt fun t ht =>
      hnone t (ht ▸ List.mem_of_getElem? hr)
    rw [DaemonState.record, hledger, hindex] at hrec
    rw [DaemonState.ledgerOf, hrec, Option.map_some, Option.map_some, heq]

theorem OneHolder.touched {d d₁ : DaemonState} {op : DaemonOp} (hC : OneHolder d op)
    (ht : d.Touched op d₁) : OneHolder d₁ op := by
  obtain rfl | ⟨s, -, -, rfl⟩ := ht
  · exact hC
  · cases op <;> exact hC

/-- **Transcript and wire agree.** Along every run of the daemon in which nothing is reversed
and no two drains of a run hold an event at a time, what a run's drains emitted is its record,
mapped, up to the event in flight; and a session that no fork replaced replays what its turns'
drains emitted. -/
theorem wireAgrees_of_oneHolder (registry : HarnessId → Option Harness) (root : Option String)
    (ops : List DaemonOp) (d : DaemonState) (hops : ∀ op ∈ ops, op.reverses = false)
    (hC : (daemonMachine registry root).Along OneHolder (daemonMachine registry root).init ops)
    (hrun : (daemonMachine registry root).exec (daemonMachine registry root).init ops = some d) :
    WireAgrees d ∧ ∀ sid, (∀ op ∈ ops, op.forksOnto sid = false) → ReplayAgrees d sid := by
  have hstep : ∀ d op d', WireInv d → OneHolder d op ∧ op.reverses = false →
      (daemonMachine registry root).step d op = some d' → WireInv d' := by
    rintro d op d' hI ⟨hC, hop⟩ hs
    obtain ⟨d₁, htouch, heff⟩ := DaemonState.step_cases hs
    exact (hI.touched htouch).effect hop (hC.touched htouch) heff
  have hI : WireInv d :=
    Machine.invariant (WireInv.initial registry root) hstep (hC.and_labels hops) hrun
  refine ⟨hI.agrees, fun sid hforks => hI.replayAgrees ?_⟩
  -- coverage is a second invariant: it needs the fork condition, which the first does not
  refine (Machine.invariant (I := fun d => WF d ∧ Covered d sid)
    (C := fun d op => (OneHolder d op ∧ op.reverses = false) ∧ op.forksOnto sid = false)
    ⟨WF.initial registry root, fun L hL => by cases hL⟩ ?_
    ((hC.and_labels hops).and_labels hforks) hrun).2
  rintro d op d' ⟨hW, hcov⟩ ⟨⟨-, hop⟩, hfork⟩ hs
  obtain ⟨d₁, htouch, heff⟩ := DaemonState.step_cases hs
  exact ⟨hW.step hs, (hcov.touched hW htouch).effect (hW.touched htouch) hop hfork heff⟩

/-- Two overlapping turns, of which the first is suspended and resumed. -/
theorem wireAgrees_after_resume :
    ∃ d, (daemonMachine mockRegistry none).exec (daemonMachine mockRegistry none).init
        ([.run (.new ⟨"mock"⟩ ⟨"s1"⟩ "a") true 0, .drainEvent 0 (.askUser ⟨"s1"⟩ "which?" []),
          .drainAdvance 0 none 0, .drainAdvance 0 none 0, .drainClose 0, .resume ⟨"s1"⟩ true,
          .run (.new ⟨"mock"⟩ ⟨"s1"⟩ "b") true 1] ++ drainToEnd 2 ⟨"s1"⟩ none
          ++ drainToEnd 1 ⟨"s1"⟩ none) = some d ∧
      d.wire.length = 7 ∧ WireAgrees d ∧ ReplayAgrees d ⟨"s1"⟩ := by
  obtain ⟨d, hrun, hlen⟩ := Option.map_eq_some_iff.mp (show
    ((daemonMachine mockRegistry none).exec (daemonMachine mockRegistry none).init
      ([.run (.new ⟨"mock"⟩ ⟨"s1"⟩ "a") true 0, .drainEvent 0 (.askUser ⟨"s1"⟩ "which?" []),
        .drainAdvance 0 none 0, .drainAdvance 0 none 0, .drainClose 0, .resume ⟨"s1"⟩ true,
        .run (.new ⟨"mock"⟩ ⟨"s1"⟩ "b") true 1] ++ drainToEnd 2 ⟨"s1"⟩ none
        ++ drainToEnd 1 ⟨"s1"⟩ none)).map (fun d => d.wire.length) = some 7 by decide +kernel)
  obtain ⟨hwire, hreplay⟩ := wireAgrees_of_oneHolder mockRegistry none _ d (by decide)
    (by decide +kernel) hrun
  exact ⟨d, hrun, hlen, hwire, hreplay ⟨"s1"⟩ (by decide)⟩

def DaemonEvent.delta : DaemonEvent → Option String
  | .assistantDelta _ delta => some delta
  | _ => none

/-- Without the condition two drains of one run overtake each other: a suspended run is resumed
twice, each drain records its event, and the one that recorded last emits first. -/
theorem not_wireAgrees :
    ¬ ∀ (registry : HarnessId → Option Harness) (root : Option String) (ops : List DaemonOp)
      (d : DaemonState), (∀ op ∈ ops, op.reverses = false) →
      (daemonMachine registry root).exec (daemonMachine registry root).init ops = some d →
        WireAgrees d := by
  intro hall
  obtain ⟨d, hrun, hd⟩ := Option.map_eq_some_iff.mp (show
    ((daemonMachine mockRegistry none).exec (daemonMachine mockRegistry none).init
      [.run (.new ⟨"mock"⟩ ⟨"s1"⟩ "a") true 0, .drainClose 0, .resume ⟨"s1"⟩ true,
        .resume ⟨"s1"⟩ true, .drainEvent 1 (.assistantDelta ⟨"s1"⟩ "x"),
        .drainEvent 2 (.assistantDelta ⟨"s1"⟩ "y"), .drainAdvance 2 none 0,
        .drainAdvance 2 none 0, .drainAdvance 1 none 0, .drainAdvance 1 none 0]).map (fun d =>
      (decide (∀ t < d.drainCount, (d.drains t).held.isNone = true), d.runCount,
        (d.emitted 0).filterMap DaemonEvent.delta, (d.record 0).toList.flatMap fun rec =>
          (rec.events.filterMap mapEvent).filterMap DaemonEvent.delta))
    = some (true, 1, ["y", "x"], ["x", "y"]) by decide +kernel)
  simp only [Prod.mk.injEq, decide_eq_true_eq] at hd
  obtain ⟨hheld, hcount, hemitted, hrecord⟩ := hd
  have hW : WF d := Machine.invariant_of_step (WF.initial mockRegistry none)
    (fun _ _ _ hW hs => hW.step hs) hrun
  obtain ⟨rec, hrec, heq⟩ := (hall mockRegistry none _ d (by decide) hrun).drained 0 (by omega)
    fun t _ => by
      rcases Nat.lt_or_ge t d.drainCount with ht | ht
      · exact Option.isNone_iff_eq_none.mp (hheld t ht)
      · rw [hW.drains_unallocated t ht]
        rfl
  rw [hrec, Option.toList_some, List.flatMap_singleton, ← heq, hemitted] at hrecord
  exact absurd hrecord (by decide)

end Goble
