import Goble.Daemon.References
import Goble.Lib.Lists

/-!
# Who recorded what

A history variable for the ledgers of the daemon. `Provenance` keeps, for every turn record of
every ledger, the run that recorded it and, event by event, the run whose drain appended it.
A truncation cuts the marks with the records, a fork copies them, and a turn that was restored
from a persisted checkpoint has no run.

* `MarksMatch` — records and marks correspond, position by position, under a relation `R`;
  `MarksMatch.effect` keeps it for every `R` that the elementary changes keep.
-/

namespace Goble

/-- Who recorded a turn, and who produced each of its events. `none` stands for a record that
came from outside, through a persisted checkpoint. -/
structure Mark where
  recorder : Option RunRef
  producers : List (Option RunRef)
deriving DecidableEq, Repr

abbrev Provenance := LedgerRef → List Mark

namespace Mark

def imported (rec : TurnRecord) : Mark :=
  ⟨none, List.replicate rec.events.length none⟩

def produce (r : RunRef) (m : Mark) : Mark :=
  { m with producers := m.producers ++ [some r] }

def Matches (rec : TurnRecord) (m : Mark) : Prop :=
  m.producers = List.replicate rec.events.length m.recorder

instance decidableMatches (rec : TurnRecord) (m : Mark) : Decidable (Matches rec m) :=
  inferInstanceAs (Decidable (m.producers = List.replicate rec.events.length m.recorder))

theorem Matches.produce {rec : TurnRecord} {m : Mark} {r : RunRef} (h : Matches rec m)
    (hr : m.recorder = some r) (ev : HarnessServerEvent) :
    Matches (rec.extend [ev]) (m.produce r) := by
  simp only [Matches, Mark.produce, TurnRecord.extend, List.length_append, List.length_singleton,
    List.replicate_succ', hr]
  rw [show m.producers = _ from h, hr]

end Mark

/-- How a step moves the marks. -/
def Provenance.update (d : DaemonState) (op : DaemonOp) (d' : DaemonState) (h : Provenance) :
    Provenance :=
  match d.truncation op with
  | some (sid, n) => Function.update h (d.ledgerRef sid) ((h (d.ledgerRef sid)).take n)
  | none =>
    match op with
    | .run turn dirOk _ =>
      if d.accepts turn dirOk then
        Function.update h (d.ledgerRef turn.sessionId)
          (h (d.ledgerRef turn.sessionId) ++ [⟨some d.runCount, []⟩])
      else h
    | .fork sid pos newSid =>
      Function.update h (d'.ledgerRef newSid) ((h (d.ledgerRef sid)).take pos)
    | .restoreCheckpoint cp => Function.update h d.ledgerCount (cp.turns.map .imported)
    | .drainEvent t _ =>
      let r := (d.drains t).state
      let L := (d.runs r).ledger
      Function.update h L ((h L).modify (d.runs r).turnIndex (.produce r))
    | _ => h

def tracedDaemon (registry : HarnessId → Option Harness) (root : Option String) :
    Machine (DaemonState × Provenance) DaemonOp :=
  (daemonMachine registry root).withHistory (fun _ => []) Provenance.update

/-! ### How marks move -/

variable {sid : SessionId} {L : LedgerRef} {l : LedgerState}

namespace Provenance

variable {d d' : DaemonState} {op : DaemonOp} {h : Provenance}

/-- Allocating the ledger a call reads changes nothing for the marks. -/
theorem update_touched {d₁ : DaemonState} (hW : WF d) (ht : d.Touched op d₁) :
    update d₁ op d' h = update d op d' h := by
  simp only [update, hW.truncation_touched ht]
  cases htr : d.truncation op with
  | some x =>
    have hop : op.reads = some x.1 := DaemonState.reads_of_truncation htr
    simp only [WF.ledgerRef_touched ht hop]
  | none =>
    -- a call reads the reference of its ledger after it is allocated, or before: the same one
    have href : ∀ sid, op.reads = some sid → d₁.ledgerRef sid = d.ledgerRef sid :=
      fun sid hop => WF.ledgerRef_touched ht hop
    cases op with
    | run turn dirOk now =>
      simp only [href turn.sessionId rfl]
      obtain rfl | ⟨s, -, -, rfl⟩ := ht <;> rfl
    | fork sid pos newSid => simp only [href sid rfl]
    | restoreCheckpoint cp =>
      obtain rfl | ⟨s, hs, -, -⟩ := ht
      · rfl
      · cases hs
    | drainEvent t ev =>
      obtain rfl | ⟨s, hs, -, -⟩ := ht
      · rfl
      · cases hs
    | _ => rfl

theorem update_of_truncation {n : Nat} (htr : d.truncation op = some (sid, n)) :
    update d op d' h = Function.update h (d.ledgerRef sid) ((h (d.ledgerRef sid)).take n) := by
  simp only [update, htr]

theorem update_run {turn : HarnessTurn} {dirOk : Bool} {now : Time}
    (hacc : d.accepts turn dirOk = true) : update d (.run turn dirOk now) d' h =
      Function.update h (d.ledgerRef turn.sessionId)
        (h (d.ledgerRef turn.sessionId) ++ [⟨some d.runCount, []⟩]) :=
  if_pos hacc

theorem update_fork {newSid : SessionId} {pos : Nat} :
    update d (.fork sid pos newSid) (d.insertLedger newSid l) h =
      Function.update h d.ledgerCount ((h (d.ledgerRef sid)).take pos) := by
  have href : (d.insertLedger newSid l).ledgerRef newSid = d.ledgerCount := by
    simp [DaemonState.ledgerRef]
  rw [← href]
  rfl

theorem update_restoreCheckpoint {cp : Checkpoint} : update d (.restoreCheckpoint cp) d' h =
    Function.update h d.ledgerCount (cp.turns.map .imported) := rfl

theorem update_drainEvent {t : TaskId} {ev : HarnessServerEvent} {r : RunRef} {st : SessionState}
    (hr : (d.drains t).state = r) (hst : d.runs r = st) : update d (.drainEvent t ev) d' h =
      Function.update h st.ledger ((h st.ledger).modify st.turnIndex (.produce r)) := by
  subst hr hst
  rfl

theorem update_idle (hop : d.idles op = true) : update d op d' h = h := by
  cases op with
  | run turn dirOk now => exact if_neg (by simpa [DaemonState.idles] using hop)
  | rewind sid pos =>
    simp only [update, Option.isNone_iff_eq_none.mp (show (d.truncation _).isNone = true from hop)]
  | apply sid pos =>
    simp only [update, Option.isNone_iff_eq_none.mp (show (d.truncation _).isNone = true from hop)]
  | discard sid pos =>
    simp only [update, Option.isNone_iff_eq_none.mp (show (d.truncation _).isNone = true from hop)]
  | fork => cases hop
  | restoreCheckpoint => cases hop
  | drainEvent => cases hop
  | _ => rfl

theorem update_resume (hop : op.resumes = some sid) : update d op d' h = h := by
  cases op <;> first | rfl | cases hop

theorem update_mark (hop : op.marks = some sid) : update d op d' h = h := by
  cases op <;> first | rfl | cases hop

/-- At an allocated ledger, the recorder at a position only ever changes by an accepted run
taking the position right after the last. -/
theorem recorder_of_update (heff : d.Effect op d') (hL : L < d.ledgerCount) {i : Nat} {m' : Mark}
    (hm : (update d op d' h L)[i]? = some m') :
    (∃ m, (h L)[i]? = some m ∧ m.recorder = m'.recorder) ∨
      (∃ turn dirOk now, op = .run turn dirOk now ∧ d.accepts turn dirOk = true ∧
        L = d.ledgerRef turn.sessionId ∧ i = (h L).length) := by
  have hsame : (h L)[i]? = some m' → ∃ m, (h L)[i]? = some m ∧ m.recorder = m'.recorder :=
    fun hm => ⟨m', hm, rfl⟩
  cases heff with
  | idle hop => exact .inl (hsame (by rwa [update_idle hop] at hm))
  | @run turn dirOk now _ _ hls hacc =>
    rw [update_run hacc, Function.update_apply] at hm
    split at hm
    -- the run appends to this very ledger: its turn comes right after the last
    · next hLs =>
      subst hLs
      by_cases hlt : i < (h (d.ledgerRef turn.sessionId)).length
      · exact .inl (hsame (by rwa [List.getElem?_append_left hlt] at hm))
      · refine .inr ⟨turn, dirOk, now, rfl, hacc, rfl, ?_⟩
        have hi := (List.getElem?_eq_some_iff.mp hm).1
        rw [List.length_append, List.length_singleton] at hi
        exact Nat.le_antisymm (Nat.le_of_lt_succ hi) (Nat.le_of_not_lt hlt)
    · exact .inl (hsame hm)
  | resume hop hr => exact .inl (hsame (by rwa [update_resume hop] at hm))
  | truncate hop hls hrest =>
    rw [update_of_truncation hop, Function.update_apply] at hm
    split at hm
    · next hLs =>
      rw [List.getElem?_take] at hm
      split at hm
      · exact .inl (hsame (hLs ▸ hm))
      · cases hm
    · exact .inl (hsame hm)
  | mark hop hls => exact .inl (hsame (by rwa [update_mark hop] at hm))
  -- a fork and a restore write a ledger that was not allocated
  | fork hls =>
    refine .inl (hsame ?_)
    rwa [update_fork, Function.update_of_ne (Nat.ne_of_lt hL)] at hm
  | restoreCheckpoint =>
    refine .inl (hsame ?_)
    rwa [update_restoreCheckpoint, Function.update_of_ne (Nat.ne_of_lt hL)] at hm
  -- an event is added to a mark and leaves its recorder
  | event hpc hst hmap =>
    rw [update_drainEvent rfl hst, Function.update_apply] at hm
    split at hm
    · next hLs =>
      rw [List.getElem?_modify, ← hLs] at hm
      obtain ⟨m, hold, rfl⟩ := Option.map_eq_some_iff.mp hm
      refine .inl ⟨m, hold, ?_⟩
      split <;> rfl
    · exact .inl (hsame hm)
  | _ => exact .inl (hsame hm)

/-- At an allocated ledger, a recorder stays at its position through every step that does not
cut it off. -/
theorem recorder_kept (heff : d.Effect op d') (hL : L < d.ledgerCount) {i : Nat} {m : Mark}
    (hm : (h L)[i]? = some m)
    (hcut : ∀ sid n, d.truncation op = some (sid, n) → L = d.ledgerRef sid → i < n) :
    ∃ m', (update d op d' h L)[i]? = some m' ∧ m'.recorder = m.recorder := by
  have hsame : update d op d' h L = h L →
      ∃ m', (update d op d' h L)[i]? = some m' ∧ m'.recorder = m.recorder :=
    fun heq => ⟨m, by rw [heq, hm], rfl⟩
  cases heff with
  | idle hop => exact hsame (by rw [update_idle hop])
  | run hls hacc =>
    rw [update_run hacc, Function.update_apply]
    split
    · next hLs =>
      subst hLs
      -- what is appended comes after `i`
      have hlt := (List.getElem?_eq_some_iff.mp hm).1
      exact ⟨m, by rw [List.getElem?_append_left hlt, hm], rfl⟩
    · exact ⟨m, hm, rfl⟩
  | resume hop hr => exact hsame (by rw [update_resume hop])
  | truncate hop hls hrest =>
    rw [update_of_truncation hop, Function.update_apply]
    split
    · next hLs =>
      subst hLs
      exact ⟨m, by rw [List.getElem?_take_of_lt (hcut _ _ hop rfl), hm], rfl⟩
    · exact ⟨m, hm, rfl⟩
  | mark hop hls => exact hsame (by rw [update_mark hop])
  | fork hls => exact hsame (by rw [update_fork, Function.update_of_ne (Nat.ne_of_lt hL)])
  | restoreCheckpoint =>
    exact hsame (by rw [update_restoreCheckpoint, Function.update_of_ne (Nat.ne_of_lt hL)])
  | event hpc hst hmap =>
    rw [update_drainEvent rfl hst, Function.update_apply]
    split
    · next hLs =>
      rw [List.getElem?_modify, ← hLs, hm]
      refine ⟨_, rfl, ?_⟩
      split <;> rfl
    · exact ⟨m, hm, rfl⟩
  | _ => exact hsame rfl

end Provenance

/-! ### Records and marks -/

def MarksMatch (R : TurnRecord → Mark → Prop) (p : DaemonState × Provenance) : Prop :=
  ∀ L, List.Forall₂ R (p.1.ledgerHeap L).turns (p.2 L)

section MarksMatch

variable {d d' : DaemonState} {op : DaemonOp} {h : Provenance} {R : TurnRecord → Mark → Prop}

theorem MarksMatch.length_eq (hA : MarksMatch R (d, h)) (L : LedgerRef) :
    (h L).length = (d.ledgerHeap L).len :=
  (hA L).length_eq.symm

theorem MarksMatch.unallocated (hA : MarksMatch R (d, h)) (hW : WF d) (hL : d.ledgerCount ≤ L) :
    h L = [] := by
  have hlen := hA.length_eq L
  rw [hW.heap_unallocated L hL] at hlen
  exact List.eq_nil_of_length_eq_zero hlen

theorem MarksMatch.insertLedger (hA : MarksMatch R (d, h)) {ms : List Mark}
    (hms : List.Forall₂ R l.turns ms) :
    MarksMatch R (d.insertLedger sid l, Function.update h d.ledgerCount ms) := by
  intro K
  simp only [DaemonState.insertLedger_ledgerHeap, Function.update_apply]
  split
  · exact hms
  · exact hA K

theorem MarksMatch.setLedger (hA : MarksMatch R (d, h)) {ms : List Mark}
    (hms : List.Forall₂ R l.turns ms) :
    MarksMatch R (d.setLedger L l, Function.update h L ms) := by
  intro K
  simp only [DaemonState.setLedger_ledgerHeap, Function.update_apply]
  split
  · exact hms
  · exact hA K

theorem MarksMatch.setLedger_same (hA : MarksMatch R (d, h)) (hms : List.Forall₂ R l.turns (h L)) :
    MarksMatch R (d.setLedger L l, h) := by
  have hset := hA.setLedger (L := L) hms
  rwa [Function.update_eq_self] at hset

theorem MarksMatch.effect (hA : MarksMatch R (d, h))
    (hnew : ∀ index turn now r, R ⟨index, turn, now, none, .running, []⟩ ⟨some r, []⟩)
    (himported : ∀ rec, R rec (.imported rec))
    (hsettle : ∀ rec m status now, R rec m → R (rec.settle status now) m)
    (hevent : ∀ t ev rec m, (d.drains t).pc = .next →
      (h (d.runs (d.drains t).state).ledger)[(d.runs (d.drains t).state).turnIndex]? = some m →
        R rec m → R (rec.extend [ev]) (m.produce (d.drains t).state))
    (heff : d.Effect op d') : MarksMatch R (d', Provenance.update d op d' h) := by
  cases heff with
  | idle hop => rwa [Provenance.update_idle hop]
  | @run turn dirOk now harness L hL hacc =>
    rw [Provenance.update_run hacc]
    -- one more record and one more mark, with no event yet
    have hrecord : List.Forall₂ R
        ((d.ledgerHeap (d.ledgerRef turn.sessionId)).recordTurn turn now).2.turns
        (h (d.ledgerRef turn.sessionId) ++ [⟨some d.runCount, []⟩]) :=
      List.rel_append (hA _) (.cons (hnew ..) .nil)
    have hset := hA.setLedger (L := d.ledgerRef turn.sessionId) hrecord
    exact hset
  | resume hop hr => rwa [Provenance.update_resume hop]
  | @truncate op sid n L sel restores hop hL hrest =>
    have href : d.ledgerRef sid = L := by simp [DaemonState.ledgerRef, hL]
    rw [Provenance.update_of_truncation hop, href]
    exact hA.setLedger (L := L) (l := (d.ledgerHeap L).cut n sel) (List.forall₂_take n (hA L))
  | mark hop hL =>
    rw [Provenance.update_mark hop]
    exact hA.setLedger_same (hA _)
  -- a copy has the marks of what it is a copy of
  | @fork sid newSid pos L hL =>
    have href : d.ledgerRef sid = L := by simp [DaemonState.ledgerRef, hL]
    rw [Provenance.update_fork, href]
    refine hA.insertLedger ?_
    rw [LedgerState.fork_turns]
    exact List.forall₂_take pos (hA L)
  | restoreCheckpoint =>
    rw [Provenance.update_restoreCheckpoint]
    refine hA.insertLedger ?_
    rw [LedgerState.fromCheckpoint_turns, List.forall₂_map_right_iff]
    exact List.forall₂_same.mpr fun rec _ => himported rec
  | @event t ev st pc status error hpc hst hmap =>
    rw [Provenance.update_drainEvent rfl hst]
    -- the event goes to the record and to the mark at one position
    have hmod : List.Forall₂ R
        ((d.ledgerHeap st.ledger).modifyTurn st.turnIndex (.extend [ev])).turns
        ((h st.ledger).modify st.turnIndex (.produce (d.drains t).state)) := by
      refine forall₂_modify (hA st.ledger) fun rec m _ hm hmatch => ?_
      subst hst
      exact hevent t ev rec m hpc hm hmatch
    exact hA.setLedger hmod
  -- a settlement has no mark
  | @settle t _ now st hpc hst =>
    have hmod : List.Forall₂ R ((d.ledgerHeap st.ledger).modifyTurn st.turnIndex
        (.settle (DaemonState.turnStatus (d.drains t)) now)).turns (h st.ledger) := by
      have hboth := forall₂_modify (hA st.ledger) (i := st.turnIndex)
        (f := .settle (DaemonState.turnStatus (d.drains t)) now) (g := id)
        fun rec m _ _ hmatch => hsettle rec m _ _ hmatch
      rwa [List.modify_id] at hboth
    exact hA.setLedger_same hmod
  | _ => exact hA

/-- Allocating the ledger a call reads keeps records and marks matching. -/
theorem MarksMatch.touched {d₁ : DaemonState} (hA : MarksMatch R (d, h)) (hW : WF d)
    (ht : d.Touched op d₁) : MarksMatch R (d₁, h) := by
  obtain rfl | ⟨sid, -, -, rfl⟩ := ht
  · exact hA
  · have hins : MarksMatch R (d.insertLedger sid (.new sid), _) := hA.insertLedger .nil
    rwa [← hA.unallocated hW (Nat.le_refl _), Function.update_eq_self] at hins

end MarksMatch

end Goble
