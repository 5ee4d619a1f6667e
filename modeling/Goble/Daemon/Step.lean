import Goble.Daemon.State

/-!
# What one step of the daemon can do

The inversion every invariant of the daemon is proved through. A port call first makes sure
the session's ledger exists (`Touched`), and then has one of the effects of `Effect`, each a
single update of the daemon's memory (`DaemonState.step_cases`). The two failure branches the
source ignores (an append and a settlement at a position the ledger does not have) disappear
here: `List.modify` out of range changes nothing either.
-/

namespace Goble

/-! ### The classification of labels -/

/-- The session whose ledger a call reads, creating it if need be. -/
def DaemonOp.reads : DaemonOp → Option SessionId
  | .run turn _ _ => some turn.sessionId
  | .rewind sid _ | .fork sid _ _ | .replay sid _ | .checkpoints sid _ | .select sid _
  | .apply sid _ | .release sid _ | .discard sid _ => some sid
  | _ => none

/-- The session a resuming call addresses, when its harness supports the call. -/
def DaemonOp.resumes : DaemonOp → Option SessionId
  | .resume sid supported => if supported then some sid else none
  | .resumeCommand sid supported => if supported then some sid else none
  | _ => none

/-- The session a call that only moves the settlement marker addresses. -/
def DaemonOp.marks : DaemonOp → Option SessionId
  | .select sid _ => some sid
  | .release sid _ => some sid
  | _ => none

namespace LedgerState

/-- Keep the first `n` turns and set the marker. -/
def cut (s : LedgerState) (n : Nat) (selected : Option Nat) : LedgerState :=
  { s with turns := s.turns.take n, selected := selected }

theorem rewindTo_snd (s : LedgerState) (index : Nat) :
    (s.rewindTo index).2 = s.cut index s.selected := by
  unfold rewindTo cut
  split
  · next h => rw [List.take_of_length_le h]
  · rfl

def modifyTurn (s : LedgerState) (i : Nat) (f : TurnRecord → TurnRecord) : LedgerState :=
  { s with turns := s.turns.modify i f }

theorem modifyTurn_of_length_le {s : LedgerState} {i : Nat} (f : TurnRecord → TurnRecord)
    (h : s.turns.length ≤ i) : s.modifyTurn i f = s := by
  unfold modifyTurn
  rw [List.modify_eq_self h]

end LedgerState

variable {d' : DaemonState} {op : DaemonOp} {sid : SessionId} {r : RunRef}

namespace DaemonState

variable (d : DaemonState)

def ledgerOf (sid : SessionId) : LedgerState :=
  d.ledgerHeap (d.ledgerRef sid)

/-- Whether `run` gets as far as recording its turn. -/
def accepts (turn : HarnessTurn) (dirOk : Bool) : Bool :=
  (d.registry turn.harnessId).isSome && (d.workspaceRoot.isNone || dirOk)

/-- The session a call truncates and the number of turns it keeps; `none` for a call that is
refused or truncates nothing. -/
def truncation : DaemonOp → Option (SessionId × Nat)
  | .rewind sid pos =>
    if (d.sessions sid).isSome then none else some (sid, min pos (d.ledgerOf sid).len)
  | .apply sid pos =>
    if pos < (d.ledgerOf sid).len ∧ (d.ledgerOf sid).selected = some pos then some (sid, pos + 1)
    else none
  | .discard sid pos => if pos < (d.ledgerOf sid).len then some (sid, pos) else none
  | _ => none

theorem reads_of_truncation {d : DaemonState} {n : Nat} (h : d.truncation op = some (sid, n)) :
    op.reads = some sid := by
  unfold truncation at h
  split at h
  · split at h
    · cases h
    · cases h; rfl
  · split at h
    · cases h; rfl
    · cases h
  · split at h
    · cases h; rfl
    · cases h
  · cases h

/-- Whether `op` can leave the daemon as it is: the reads, the calls that are refused, and
those whose refusal depends on what the model does not track further. -/
def idles (op : DaemonOp) : Bool :=
  match op with
  | .run turn dirOk _ => !d.accepts turn dirOk
  | .rewind .. | .apply .. | .discard .. => (d.truncation op).isNone
  | .resume .. | .resumeCommand .. | .cancel _ | .replay .. | .checkpoints .. | .select ..
  | .release .. => true
  | _ => false

/-! ### The effects -/

def Touched (d : DaemonState) (op : DaemonOp) (d₁ : DaemonState) : Prop :=
  d₁ = d ∨ ∃ sid, op.reads = some sid ∧ d.ledgers sid = none ∧
    d₁ = d.insertLedger sid (.new sid)

theorem ensureLedger_of_some {d : DaemonState} {L : LedgerRef} (h : d.ledgers sid = some L) :
    d.ensureLedger sid = d := by
  simp only [ensureLedger, h]

theorem ensureLedger_of_none {d : DaemonState} (h : d.ledgers sid = none) :
    d.ensureLedger sid = d.insertLedger sid (.new sid) := by
  simp only [ensureLedger, h, insertLedger]

theorem touched_ensureLedger (op : DaemonOp) (hop : op.reads = some sid) :
    d.Touched op (d.ensureLedger sid) ∧
      (d.ensureLedger sid).ledgers sid = some ((d.ensureLedger sid).ledgerRef sid) := by
  cases h : d.ledgers sid with
  | some L =>
    rw [ensureLedger_of_some h]
    exact ⟨.inl rfl, by simp [ledgerRef, h]⟩
  | none =>
    rw [ensureLedger_of_none h]
    exact ⟨.inr ⟨sid, hop, h, rfl⟩, by simp [insertLedger, ledgerRef]⟩

/-- The session's live run is not a matter of ledgers. -/
@[simp] theorem ensureLedger_sessions (sid : SessionId) :
    (d.ensureLedger sid).sessions = d.sessions := by
  unfold ensureLedger; split <;> rfl

@[simp] theorem ensureLedger_registry (sid : SessionId) :
    (d.ensureLedger sid).registry = d.registry := by
  unfold ensureLedger; split <;> rfl

@[simp] theorem ensureLedger_workspaceRoot (sid : SessionId) :
    (d.ensureLedger sid).workspaceRoot = d.workspaceRoot := by
  unfold ensureLedger; split <;> rfl

/-- The update a step makes to a daemon in which the ledgers it reads exist. -/
inductive Effect (d : DaemonState) : DaemonOp → DaemonState → Prop
  | idle {op : DaemonOp} (hop : d.idles op = true) : Effect d op d
  | run {turn : HarnessTurn} {dirOk : Bool} {now : Time} {harness : Harness} {L : LedgerRef}
    (hL : d.ledgers turn.sessionId = some L) (hacc : d.accepts turn dirOk = true) :
    Effect d (.run turn dirOk now) (d.startRun turn harness now)
  | resume {op : DaemonOp} {sid : SessionId} {r : RunRef} (hop : op.resumes = some sid)
    (hr : d.sessions sid = some r) : Effect d op (d.spawnStream sid (d.runs r).traceId r)
  | cancel {sid : SessionId} {r : RunRef} (hr : d.sessions sid = some r) :
    Effect d (.cancel sid) (d.setRun r { d.runs r with cancel := true })
  -- `rewind`, `apply` and `discard`; only a rewind hands a snapshot back to a harness
  | truncate {op : DaemonOp} {sid : SessionId} {n : Nat} {L : LedgerRef} {sel : Option Nat}
    {restores : List RestoreCall} (hop : d.truncation op = some (sid, n))
    (hL : d.ledgers sid = some L)
    (hrest : restores = d.restores ∨ (∃ pos, op = .rewind sid pos) ∧
      restores = d.restores ++ (d.rewindRestore sid (d.ledgerHeap L) n).toList) :
    Effect d op (({ d with restores := restores }).setLedger L ((d.ledgerHeap L).cut n sel))
  | mark {op : DaemonOp} {sid : SessionId} {L : LedgerRef} {sel : Option Nat}
    (hop : op.marks = some sid) (hL : d.ledgers sid = some L) :
    Effect d op (d.setLedger L { d.ledgerHeap L with selected := sel })
  | fork {sid newSid : SessionId} {pos : Nat} {L : LedgerRef} (hL : d.ledgers sid = some L) :
    Effect d (.fork sid pos newSid) (d.insertLedger newSid ((d.ledgerHeap L).fork pos newSid))
  | restoreCheckpoint {cp : Checkpoint} :
    Effect d (.restoreCheckpoint cp) (d.insertLedger cp.sessionId (.fromCheckpoint cp))
  | setCheckpointSink {attached : Bool} :
    Effect d (.setCheckpointSink attached) (d.setCheckpointSink attached)
  | register {h : Harness} : Effect d (.register h) (d.register h)
  -- an event without a wire form leaves the drain awaiting the next one
  | event {t : TaskId} {ev : HarnessServerEvent} {st : SessionState} {pc : DrainPc}
    {status : RunStatus} {error : Option String} (hpc : (d.drains t).pc = .next)
    (hst : d.runs (d.drains t).state = st)
    (hmap : (mapEvent ev = none ∧ pc = .next ∧ status = (d.drains t).finalStatus) ∨
      ∃ e, mapEvent ev = some e ∧ pc = .mirror e) :
    Effect d (.drainEvent t ev)
      ((d.setLedger st.ledger ((d.ledgerHeap st.ledger).modifyTurn st.turnIndex
        (.extend [ev]))).setDrain t
          { d.drains t with finalStatus := status, finalError := error, pc := pc })
  -- the stream of a run still `running` has only been suspended
  | close {t : TaskId} {pc : DrainPc} (hpc : (d.drains t).pc = .next)
    (hend : ((d.drains t).finalStatus = .running ∧ pc = .done) ∨
      ((d.drains t).finalStatus ≠ .running ∧ pc = .settle)) :
    Effect d (.drainClose t) (d.setDrain t { d.drains t with pc := pc })
  | mirror {t : TaskId} {answer : Option HarnessSnapshot} {now : Time} {e : DaemonEvent}
    {r : RunRef} (hpc : (d.drains t).pc = .mirror e) (hr : (d.drains t).state = r) :
    Effect d (.drainAdvance t answer now)
      ((d.setRun r { d.runs r with events := (d.runs r).events ++ [e] }).setDrain t
        { d.drains t with pc := .emit e })
  | emit {t : TaskId} {answer : Option HarnessSnapshot} {now : Time} {e : DaemonEvent}
    (hpc : (d.drains t).pc = .emit e) :
    Effect d (.drainAdvance t answer now)
      ((d.emit (d.drains t).state e).setDrain t { d.drains t with pc := .next })
  | settle {t : TaskId} {answer : Option HarnessSnapshot} {now : Time} {st : SessionState}
    (hpc : (d.drains t).pc = .settle) (hst : d.runs (d.drains t).state = st) :
    Effect d (.drainAdvance t answer now)
      ((d.setLedger st.ledger ((d.ledgerHeap st.ledger).modifyTurn st.turnIndex
        (.settle (turnStatus (d.drains t)) now))).setDrain t { d.drains t with pc := .capture })
  -- a harness that is not reversible is not asked for a snapshot
  | capture {t : TaskId} {answer snapshot : Option HarnessSnapshot} {now : Time}
    (hpc : (d.drains t).pc = .capture)
    (hsnap : snapshot =
      if (d.runs (d.drains t).state).harness.reversible then answer else none) :
    Effect d (.drainAdvance t answer now)
      (d.setDrain t { d.drains t with pc := .log snapshot })
  -- indexed by the turn's position, filed under the drain's session id
  | log {t : TaskId} {answer snapshot : Option HarnessSnapshot} {now : Time}
    {sid : SessionId} {st : SessionState} (hpc : (d.drains t).pc = .log snapshot)
    (hst : d.runs (d.drains t).state = st) (hsid : (d.drains t).sessionId = sid) :
    Effect d (.drainAdvance t answer now)
      ((d.setLog sid (writeLog (d.snapshotLog sid) st.turnIndex snapshot)).setDrain t
        { d.drains t with pc := .persist })
  | persist {t : TaskId} {answer : Option HarnessSnapshot} {now : Time} {cp : Checkpoint}
    {store : SessionId → Option Checkpoint} (hpc : (d.drains t).pc = .persist)
    (hcp : (d.ledgerHeap (d.runs (d.drains t).state).ledger).checkpoint now = cp)
    (hstore : (d.checkpointSink = true ∧
        store = Function.update d.store cp.sessionId (some cp)) ∨
      (d.checkpointSink = false ∧ store = d.store)) :
    Effect d (.drainAdvance t answer now)
      (({ d with store := store }).setDrain t { d.drains t with pc := .setStatus })
  | setStatus {t : TaskId} {answer : Option HarnessSnapshot} {now : Time} {r : RunRef}
    (hpc : (d.drains t).pc = .setStatus) (hr : (d.drains t).state = r) :
    Effect d (.drainAdvance t answer now)
      ((d.setRun r { d.runs r with status := (d.drains t).finalStatus }).setDrain t
        { d.drains t with pc := .setFinished })
  | setFinished {t : TaskId} {answer : Option HarnessSnapshot} {now : Time} {r : RunRef}
    (hpc : (d.drains t).pc = .setFinished) (hr : (d.drains t).state = r) :
    Effect d (.drainAdvance t answer now)
      ((d.setRun r { d.runs r with finishedAt := some now }).setDrain t
        { d.drains t with pc := .traceFinished })
  | traceFinished {t : TaskId} {answer : Option HarnessSnapshot} {now : Time}
    {e : DaemonEvent} (hpc : (d.drains t).pc = .traceFinished) (he : e.isTrace = true) :
    Effect d (.drainAdvance t answer now)
      ((d.emit (d.drains t).state e).setDrain t { d.drains t with pc := .remove })
  | remove {t : TaskId} {answer : Option HarnessSnapshot} {now : Time} {sid : SessionId}
    (hpc : (d.drains t).pc = .remove) (hsid : (d.drains t).sessionId = sid) :
    Effect d (.drainAdvance t answer now)
      ((d.removeSession sid).setDrain t { d.drains t with pc := .done })

/-! ### Inversion -/

section Inversion

variable {d}

theorem setLedger_self (L : LedgerRef) : d.setLedger L (d.ledgerHeap L) = d := by
  simp only [setLedger, Function.update_eq_self]

theorem setDrain_self (t : TaskId) : d.setDrain t (d.drains t) = d := by
  simp only [setDrain, Function.update_eq_self]

theorem tryLedger_appendEventsTo (L : LedgerRef) (i : Nat) (events : List HarnessServerEvent) :
    d.tryLedger L ((d.ledgerHeap L).appendEventsTo i events) =
      d.setLedger L ((d.ledgerHeap L).modifyTurn i (.extend events)) := by
  unfold LedgerState.appendEventsTo
  split
  · rfl
  · next hlt =>
    rw [LedgerState.modifyTurn_of_length_le _ (Nat.le_of_not_lt hlt), setLedger_self]
    rfl

/-- A settlement whose failure is ignored rewrites the turn if it is there. -/
theorem tryLedger_settleTurnAt (L : LedgerRef) (i : Nat) (status : TurnStatus) (now : Time) :
    d.tryLedger L ((d.ledgerHeap L).settleTurnAt i status now) =
      d.setLedger L ((d.ledgerHeap L).modifyTurn i (.settle status now)) := by
  unfold LedgerState.settleTurnAt
  split
  · rfl
  · next hlt =>
    rw [LedgerState.modifyTurn_of_length_le _ (Nat.le_of_not_lt hlt), setLedger_self]
    rfl

variable {t : TaskId}

theorem effect_drainEvent (ev : HarnessServerEvent) (hpc : (d.drains t).pc = .next) :
    Effect d (.drainEvent t ev) (d.drainEvent t ev) := by
  simp only [drainEvent, tryLedger_appendEventsTo]
  cases hmap : mapEvent ev with
  -- the drain is written back unchanged, so the two updates are one
  | none =>
    have heff := @Effect.event d t ev _ _ _ (d.drains t).finalError hpc rfl
      (.inl ⟨hmap, rfl, rfl⟩)
    have hsame : { d.drains t with pc := DrainPc.next } = d.drains t := by rw [← hpc]
    rw [hsame] at heff
    have hself := setDrain_self (d := d.setLedger (d.runs (d.drains t).state).ledger
      ((d.ledgerHeap (d.runs (d.drains t).state).ledger).modifyTurn
        (d.runs (d.drains t).state).turnIndex (.extend [ev]))) t
    change DaemonState.setDrain _ t (d.drains t) = _ at hself
    rw [hself] at heff
    exact heff
  | some e => exact .event hpc rfl (.inr ⟨e, hmap, rfl⟩)

theorem effect_drainClose (hpc : (d.drains t).pc = .next) :
    Effect d (.drainClose t) (d.drainClose t) := by
  simp only [drainClose]
  split
  · next h => exact .close hpc (.inl ⟨h, rfl⟩)
  · next h => exact .close hpc (.inr ⟨h, rfl⟩)

theorem effect_drainAdvance {answer : Option HarnessSnapshot} {now : Time}
    (h : d.drainAdvance t answer now = some d') :
    Effect d (.drainAdvance t answer now) d' := by
  simp only [drainAdvance, tryLedger_settleTurnAt] at h
  split at h
  · cases h
  · cases h
  · next e hpc => exact Option.some.inj h ▸ .mirror hpc rfl
  · next e hpc => exact Option.some.inj h ▸ .emit hpc
  · next hpc => exact Option.some.inj h ▸ .settle hpc rfl
  · next hpc => exact Option.some.inj h ▸ .capture hpc rfl
  · next snapshot hpc => exact Option.some.inj h ▸ .log hpc rfl rfl
  · next hpc =>
    obtain rfl := Option.some.inj h
    by_cases hsink : d.checkpointSink = true
    · rw [if_pos hsink]
      exact .persist hpc rfl (.inl ⟨hsink, rfl⟩)
    · rw [if_neg hsink]
      exact .persist hpc rfl (.inr ⟨Bool.eq_false_iff.mpr hsink, rfl⟩)
  · next hpc => exact Option.some.inj h ▸ .setStatus hpc rfl
  · next hpc => exact Option.some.inj h ▸ .setFinished hpc rfl
  · next hpc => exact Option.some.inj h ▸ .traceFinished hpc rfl
  · next hpc => exact Option.some.inj h ▸ .remove hpc rfl

theorem Drain.awaiting_iff {dr : Drain} : dr.awaiting = true ↔ dr.pc = .next := by
  unfold Goble.Drain.awaiting
  cases dr.pc <;> simp

theorem effect_onLedger {α : Type} {f : LedgerState → Except ReplayError (α × LedgerState)}
    (hop : op.reads = some sid) (hok : ∀ d₁ L a l, d₁.ledgers sid = some L → d₁.ledgerRef sid = L →
      f (d₁.ledgerHeap L) = .ok (a, l) → Effect d₁ op (d₁.setLedger L l))
    (herr : ∀ d₁ L e, d₁.ledgerRef sid = L → f (d₁.ledgerHeap L) = .error e →
      Effect d₁ op d₁) :
    ∃ d₁, d.Touched op d₁ ∧ Effect d₁ op (d.onLedger sid f).1 := by
  obtain ⟨htouch, hL⟩ := d.touched_ensureLedger _ hop
  refine ⟨d.ensureLedger sid, htouch, ?_⟩
  simp only [onLedger]
  split
  · next a l h => exact hok _ _ a l hL rfl h
  · next e h => exact herr _ _ e rfl h

/-- The effect of a call that continues a suspended turn: without a live run, or a harness that
supports the call, it is refused. -/
theorem effect_resumeWith {supported : Bool} (refusal : String)
    (hop : op.resumes = if supported then some sid else none) (hidle : d.idles op = true) :
    Effect d op (d.resumeWith sid supported refusal).1 := by
  unfold resumeWith
  split
  · exact .idle hidle
  · next r hr =>
    split
    · next hsup => exact .resume (hop.trans (if_pos hsup)) hr
    · exact .idle hidle

/-- **Inversion of a step**: the ledger the call reads is allocated if need be, and then one
of the effects takes place. -/
theorem step_cases (h : d.step op = some d') :
    ∃ d₁, d.Touched op d₁ ∧ Effect d₁ op d' := by
  cases op with
  -- the refusals come before the ledger is touched
  | run turn dirOk now =>
    obtain rfl := Option.some.inj h
    unfold run
    split
    · next hreg => exact ⟨d, .inl rfl, .idle (by simp [idles, accepts, hreg])⟩
    · next harness hreg =>
      split
      · next hdir =>
        exact ⟨d, .inl rfl, .idle (by
          cases hroot : d.workspaceRoot <;> simp_all [idles, accepts])⟩
      · obtain ⟨htouch, hL⟩ := d.touched_ensureLedger (.run turn dirOk now) rfl
        refine ⟨_, htouch, .run hL ?_⟩
        simp only [accepts, ensureLedger_registry, ensureLedger_workspaceRoot, hreg]
        cases hroot : d.workspaceRoot <;> simp_all
  | resume sid supported =>
    obtain rfl := Option.some.inj h
    exact ⟨d, .inl rfl, effect_resumeWith _ rfl rfl⟩
  | resumeCommand sid supported =>
    obtain rfl := Option.some.inj h
    exact ⟨d, .inl rfl, effect_resumeWith _ rfl rfl⟩
  | cancel sid =>
    obtain rfl := Option.some.inj h
    refine ⟨d, .inl rfl, ?_⟩
    unfold cancel
    split
    · exact .idle rfl
    · next r hr => exact .cancel hr
  -- a live run refuses the rewind before the ledger is touched
  | rewind sid pos =>
    obtain rfl := Option.some.inj h
    unfold rewind
    split
    · next hlive => exact ⟨d, .inl rfl, .idle (by simp [idles, truncation, hlive])⟩
    · next hlive =>
      obtain ⟨htouch, hL⟩ := d.touched_ensureLedger (.rewind sid pos) rfl
      refine ⟨_, htouch, ?_⟩
      simp only [LedgerState.rewindTo_snd]
      refine Effect.truncate ?_ hL (.inr ⟨⟨pos, rfl⟩, rfl⟩)
      rw [truncation, ensureLedger_sessions, if_neg hlive]
      rfl
  | fork sid pos newSid =>
    obtain rfl := Option.some.inj h
    obtain ⟨htouch, hL⟩ := d.touched_ensureLedger (.fork sid pos newSid) rfl
    exact ⟨_, htouch, .fork hL⟩
  | replay sid pos =>
    obtain rfl := Option.some.inj h
    exact ⟨_, (d.touched_ensureLedger _ rfl).1, .idle rfl⟩
  | checkpoints sid now =>
    obtain rfl := Option.some.inj h
    exact ⟨_, (d.touched_ensureLedger _ rfl).1, .idle rfl⟩
  | select sid pos =>
    obtain rfl := Option.some.inj h
    refine effect_onLedger rfl (fun d₁ L _ l hL _ hf => ?_) (fun d₁ L e _ _ => .idle rfl)
    cases hsel : (d₁.ledgerHeap L).select pos with
    | error e => rw [hsel] at hf; cases hf
    | ok l' =>
      rw [hsel] at hf
      obtain ⟨-, rfl⟩ := Prod.mk.inj (Except.ok.inj hf)
      obtain ⟨-, rfl⟩ := LedgerState.select_eq_ok hsel
      exact .mark rfl hL
  | apply sid pos =>
    obtain rfl := Option.some.inj h
    refine effect_onLedger rfl (fun d₁ L _ l hL hr hf => ?_) (fun d₁ L e hr hf => ?_)
    · obtain ⟨hlt, hsel, -, rfl⟩ := LedgerState.apply_eq_ok hf
      have htr : d₁.truncation (.apply sid pos) = some (sid, pos + 1) := by
        simp only [truncation, ledgerOf, hr]
        exact if_pos ⟨hlt, hsel⟩
      exact .truncate htr hL (.inl rfl)
    -- an error of the ledger means that no truncation was due
    · refine .idle (Option.isNone_iff_eq_none.mpr ?_)
      simp only [truncation, ledgerOf, hr]
      refine if_neg ?_
      rintro ⟨hlt, hsel⟩
      replace hlt : pos < (d₁.ledgerHeap L).turns.length := hlt
      rw [LedgerState.apply, if_neg (Nat.not_le.mpr hlt), if_neg (not_not.mpr hsel)] at hf
      cases hf
  | release sid pos =>
    obtain rfl := Option.some.inj h
    refine effect_onLedger rfl (fun d₁ L _ l hL _ hf => ?_) (fun d₁ L e _ _ => .idle rfl)
    obtain ⟨-, ⟨-, -, rfl⟩ | ⟨-, -, rfl⟩⟩ := LedgerState.release_eq_ok hf
    · exact .mark rfl hL
    · exact .mark rfl hL
  | discard sid pos =>
    obtain rfl := Option.some.inj h
    refine effect_onLedger rfl (fun d₁ L _ l hL hr hf => ?_) (fun d₁ L e hr hf => ?_)
    · obtain ⟨hlt, -, rfl⟩ := LedgerState.discard_eq_ok hf
      have htr : d₁.truncation (.discard sid pos) = some (sid, pos) := by
        simp only [truncation, ledgerOf, hr]
        exact if_pos hlt
      exact .truncate htr hL (.inl rfl)
    · refine .idle (Option.isNone_iff_eq_none.mpr ?_)
      simp only [truncation, ledgerOf, hr]
      refine if_neg fun hlt => ?_
      replace hlt : pos < (d₁.ledgerHeap L).turns.length := hlt
      rw [LedgerState.discard, if_neg (Nat.not_le.mpr hlt)] at hf
      cases hf
  | restoreCheckpoint cp => exact ⟨d, .inl rfl, Option.some.inj h ▸ .restoreCheckpoint⟩
  | setCheckpointSink attached => exact ⟨d, .inl rfl, Option.some.inj h ▸ .setCheckpointSink⟩
  | register hs => exact ⟨d, .inl rfl, Option.some.inj h ▸ .register⟩
  | drainEvent t ev =>
    simp only [step] at h
    split at h
    · next hpc =>
      exact ⟨d, .inl rfl, Option.some.inj h ▸ effect_drainEvent ev (Drain.awaiting_iff.mp hpc)⟩
    · cases h
  | drainClose t =>
    simp only [step] at h
    split at h
    · next hpc =>
      exact ⟨d, .inl rfl, Option.some.inj h ▸ effect_drainClose (Drain.awaiting_iff.mp hpc)⟩
    · cases h
  | drainAdvance t answer now => exact ⟨d, .inl rfl, effect_drainAdvance h⟩

theorem step_run_frame {turn : HarnessTurn} {dirOk : Bool} {now : Time}
    (h : d.step (.run turn dirOk now) = some d') (ht : t < d.drainCount) (hr : r < d.runCount) :
    d'.drains t = d.drains t ∧ d'.runs r = d.runs r := by
  obtain ⟨d₁, htouch, heff⟩ := step_cases h
  have hsame : d₁.drains = d.drains ∧ d₁.drainCount = d.drainCount ∧ d₁.runs = d.runs ∧
      d₁.runCount = d.runCount := by
    obtain rfl | ⟨sid, -, -, rfl⟩ := htouch <;> exact ⟨rfl, rfl, rfl, rfl⟩
  obtain ⟨hd, hdc, hrs, hrc⟩ := hsame
  cases heff with
  | idle _ => exact ⟨by rw [hd], by rw [hrs]⟩
  | run _ _ =>
    rw [startRun_drains, startRun_runs, hd, hdc, hrs, hrc,
      Function.update_of_ne (Nat.ne_of_lt ht), Function.update_of_ne (Nat.ne_of_lt hr)]
    exact ⟨rfl, rfl⟩
  | resume hop => cases hop
  | truncate hop => cases hop
  | mark hop => cases hop

end Inversion

end DaemonState

theorem DaemonState.Effect.runs_fixed {d : DaemonState} (h : d.Effect op d') (hr : r < d.runCount) :
    (d'.runs r).ledger = (d.runs r).ledger ∧ (d'.runs r).turnIndex = (d.runs r).turnIndex ∧
      (d'.runs r).sessionId = (d.runs r).sessionId := by
  -- every write to a run that exists keeps these three fields
  have hset : ∀ q st, st.ledger = (d.runs q).ledger → st.turnIndex = (d.runs q).turnIndex →
      st.sessionId = (d.runs q).sessionId →
      (Function.update d.runs q st r).ledger = (d.runs r).ledger ∧
        (Function.update d.runs q st r).turnIndex = (d.runs r).turnIndex ∧
        (Function.update d.runs q st r).sessionId = (d.runs r).sessionId := by
    intro q st hl hi hs
    rw [Function.update_apply]
    split
    · next hq => exact hq ▸ ⟨hl, hi, hs⟩
    · exact ⟨rfl, rfl, rfl⟩
  cases h with
  | run hL hacc => simp [Function.update_of_ne (Nat.ne_of_lt hr)]
  | cancel _ => exact hset _ _ rfl rfl rfl
  | mirror _ _ => exact hset _ _ rfl rfl rfl
  | setStatus _ _ => exact hset _ _ rfl rfl rfl
  | setFinished _ _ => exact hset _ _ rfl rfl rfl
  | _ => exact ⟨rfl, rfl, rfl⟩

theorem DaemonState.Effect.runCount_le {d : DaemonState} (h : d.Effect op d') :
    d.runCount ≤ d'.runCount := by
  cases h with
  | run _ _ => exact Nat.le_succ _
  | _ => exact Nat.le_refl _

/-- The moves of a drain task. -/
inductive DrainPc.Edge : DrainPc → DrainPc → Prop
  | skip : Edge .next .next
  | event (e : DaemonEvent) : Edge .next (.mirror e)
  | suspend : Edge .next .done
  | close : Edge .next .settle
  | mirror (e : DaemonEvent) : Edge (.mirror e) (.emit e)
  | emit (e : DaemonEvent) : Edge (.emit e) .next
  | settle : Edge .settle .capture
  | capture (x : Option HarnessSnapshot) : Edge .capture (.log x)
  | log (x : Option HarnessSnapshot) : Edge (.log x) .persist
  | persist : Edge .persist .setStatus
  | setStatus : Edge .setStatus .setFinished
  | setFinished : Edge .setFinished .traceFinished
  | traceFinished : Edge .traceFinished .remove
  | remove : Edge .remove .done

namespace DaemonState

def Spawns (d d' : DaemonState) (t : TaskId) : Prop :=
  t = d.drainCount ∧ ∃ sid traceId r,
    d'.drains t = ⟨sid, traceId, r, .running, none, .next⟩ ∧ d'.sessions sid = some r

def Persists (d d' : DaemonState) (L : LedgerRef) : Prop :=
  d'.ledgers = d.ledgers ∧ d'.ledgerHeap = d.ledgerHeap ∧ (d.checkpointSink = true →
    ∃ now, d'.store = Function.update d.store (d.ledgerHeap L).sessionId
      (some ((d.ledgerHeap L).checkpoint now)))

/-- The step is a move of task `t`: what it works for stays, and its program counter follows
an edge. -/
structure Moves (d : DaemonState) (op : DaemonOp) (d' : DaemonState) (t : TaskId) : Prop where
  state : (d'.drains t).state = (d.drains t).state
  sessionId : (d'.drains t).sessionId = (d.drains t).sessionId
  edge : DrainPc.Edge (d.drains t).pc (d'.drains t).pc
  label : (d.drains t).pc = .next ∨ ∃ answer now, op = .drainAdvance t answer now
  suspended : (d.drains t).pc = .next → (d'.drains t).pc = .done →
    op = .drainClose t ∧ (d.drains t).finalStatus = .running
  removed : (d.drains t).pc = .remove → d'.sessions (d.drains t).sessionId = none
  persisted : (d.drains t).pc = .persist → d.Persists d' (d.runs (d.drains t).state).ledger

theorem Effect.drain_cases {d : DaemonState} (h : d.Effect op d') (t : TaskId) :
    d'.drains t = d.drains t ∨ Spawns d d' t ∨ Moves d op d' t := by
  -- a fresh task is put at the end of the table
  have hspawn : ∀ sid traceId r, d'.sessions sid = some r →
      d'.drains = Function.update d.drains d.drainCount ⟨sid, traceId, r, .running, none, .next⟩ →
      d'.drains t = d.drains t ∨ Spawns d d' t ∨ Moves d op d' t := by
    intro sid traceId r hr hd
    by_cases ht : t = d.drainCount
    · exact .inr (.inl ⟨ht, sid, traceId, r, by rw [hd, ht, Function.update_self], hr⟩)
    · exact .inl (by rw [hd, Function.update_of_ne ht])
  -- a move rewrites the task's own entry
  have hmove : ∀ u dr, d'.drains = Function.update d.drains u dr →
      dr.state = (d.drains u).state → dr.sessionId = (d.drains u).sessionId →
      DrainPc.Edge (d.drains u).pc dr.pc →
      ((d.drains u).pc = .next ∨ ∃ answer now, op = .drainAdvance u answer now) →
      ((d.drains u).pc = .next → dr.pc = .done →
        op = .drainClose u ∧ (d.drains u).finalStatus = .running) →
      ((d.drains u).pc = .remove → d'.sessions (d.drains u).sessionId = none) →
      ((d.drains u).pc = .persist → d.Persists d' (d.runs (d.drains u).state).ledger) →
      d'.drains t = d.drains t ∨ Spawns d d' t ∨ Moves d op d' t := by
    intro u dr hd hst hs hedge hop hsusp hrem hper
    by_cases ht : t = u
    · subst ht
      have hdr : d'.drains t = dr := by rw [hd, Function.update_self]
      exact .inr (.inr ⟨by rw [hdr, hst], by rw [hdr, hs], by rwa [hdr], hop, by rwa [hdr], hrem,
        hper⟩)
    · exact .inl (by rw [hd, Function.update_of_ne ht])
  -- a move out of `next` is made by the stream, neither a removal nor a write to the store
  have hstream : ∀ u dr, d'.drains = Function.update d.drains u dr →
      dr.state = (d.drains u).state → dr.sessionId = (d.drains u).sessionId →
      DrainPc.Edge (d.drains u).pc dr.pc → (d.drains u).pc = .next →
      (dr.pc = .done → op = .drainClose u ∧ (d.drains u).finalStatus = .running) →
      d'.drains t = d.drains t ∨ Spawns d d' t ∨ Moves d op d' t :=
    fun u dr hd hst hs hedge hpc hsusp =>
      hmove u dr hd hst hs hedge (.inl hpc) (fun _ => hsusp) (fun h => by cases hpc.symm.trans h)
        fun h => by cases hpc.symm.trans h
  -- a task that moves on its own is not awaiting its stream
  have hadvance : ∀ u dr answer now, op = .drainAdvance u answer now →
      d'.drains = Function.update d.drains u dr →
      dr.state = (d.drains u).state → dr.sessionId = (d.drains u).sessionId →
      DrainPc.Edge (d.drains u).pc dr.pc →
      ((d.drains u).pc ≠ .next ∧ (d.drains u).pc ≠ .remove ∧ (d.drains u).pc ≠ .persist) →
      d'.drains t = d.drains t ∨ Spawns d d' t ∨ Moves d op d' t :=
    fun u dr answer now hop hd hst hs hedge hne =>
      hmove u dr hd hst hs hedge (.inr ⟨answer, now, hop⟩) (fun h => absurd h hne.1)
        (fun h => absurd h hne.2.1) fun h => absurd h hne.2.2
  cases h with
  | run _ _ => exact hspawn _ _ _ (Function.update_self ..) rfl
  | resume _ hr => exact hspawn _ _ _ hr rfl
  | event hpc _ hmap =>
    rcases hmap with ⟨-, rfl, -⟩ | ⟨e, -, rfl⟩
    · exact hstream _ _ rfl rfl rfl (hpc ▸ .skip) hpc fun h => by cases h
    · exact hstream _ _ rfl rfl rfl (hpc ▸ .event e) hpc fun h => by cases h
  | close hpc hend =>
    rcases hend with ⟨hrun, rfl⟩ | ⟨-, rfl⟩
    · exact hstream _ _ rfl rfl rfl (hpc ▸ .suspend) hpc fun _ => ⟨rfl, hrun⟩
    · exact hstream _ _ rfl rfl rfl (hpc ▸ .close) hpc fun h => by cases h
  | mirror hpc _ => exact hadvance _ _ _ _ rfl rfl rfl rfl (hpc ▸ .mirror _) (by simp [hpc])
  | emit hpc => exact hadvance _ _ _ _ rfl rfl rfl rfl (hpc ▸ .emit _) (by simp [hpc])
  | settle hpc _ => exact hadvance _ _ _ _ rfl rfl rfl rfl (hpc ▸ .settle) (by simp [hpc])
  | capture hpc _ => exact hadvance _ _ _ _ rfl rfl rfl rfl (hpc ▸ .capture _) (by simp [hpc])
  | log hpc _ _ => exact hadvance _ _ _ _ rfl rfl rfl rfl (hpc ▸ .log _) (by simp [hpc])
  | @persist _ _ now cp store hpc hcp hstore =>
    refine hmove _ _ rfl rfl rfl (hpc ▸ .persist) (.inr ⟨_, _, rfl⟩)
      (fun h => by cases hpc.symm.trans h) (fun h => by cases hpc.symm.trans h)
      fun _ => ⟨rfl, rfl, fun hsink => ⟨now, ?_⟩⟩
    rcases hstore with ⟨-, hstore⟩ | ⟨hoff, -⟩
    · subst hcp
      exact hstore
    · cases hoff.symm.trans hsink
  | setStatus hpc _ => exact hadvance _ _ _ _ rfl rfl rfl rfl (hpc ▸ .setStatus) (by simp [hpc])
  | setFinished hpc _ => exact hadvance _ _ _ _ rfl rfl rfl rfl (hpc ▸ .setFinished) (by simp [hpc])
  | traceFinished hpc _ =>
    exact hadvance _ _ _ _ rfl rfl rfl rfl (hpc ▸ .traceFinished) (by simp [hpc])
  | remove hpc hsid =>
    exact hmove _ _ rfl rfl rfl (hpc ▸ .remove) (.inr ⟨_, _, rfl⟩)
      (fun h => by cases hpc.symm.trans h) (fun _ => hsid ▸ Function.update_self ..)
      fun h => by cases hpc.symm.trans h
  | _ => exact .inl rfl

end DaemonState

theorem DaemonState.Effect.status_cases {d : DaemonState} (h : d.Effect op d')
    (hr : r < d.runCount) :
    (d'.runs r).status = (d.runs r).status ∨
      ∃ t, (d.drains t).pc = .setStatus ∧ (d.drains t).state = r ∧
        (d'.drains t).pc = .setFinished := by
  -- a write to a run that keeps its status
  have hset : ∀ q st, st.status = (d.runs q).status →
      (Function.update d.runs q st r).status = (d.runs r).status := by
    intro q st hst
    rw [Function.update_apply]
    split
    · next hq => exact hq ▸ hst
    · rfl
  cases h with
  | run _ _ => exact .inl (by simp [Function.update_of_ne (Nat.ne_of_lt hr)])
  | cancel _ => exact .inl (hset _ _ rfl)
  | mirror _ _ => exact .inl (hset _ _ rfl)
  | @setStatus t _ _ q hpc hq =>
    by_cases hrq : q = r
    · exact .inr ⟨t, hpc, hq.trans hrq, by simp⟩
    · exact .inl (by simp [Function.update_of_ne (Ne.symm hrq)])
  | setFinished _ _ => exact .inl (hset _ _ rfl)
  | _ => exact .inl rfl

/-- Tasks are never forgotten. -/
theorem DaemonState.Effect.drainCount_le {d : DaemonState} (h : d.Effect op d') :
    d.drainCount ≤ d'.drainCount := by
  cases h with
  | run _ _ => exact Nat.le_succ _
  | resume _ _ => exact Nat.le_succ _
  | _ => exact Nat.le_refl _

/-- The live runs after a step were live before it, except for the one a `run` starts. -/
theorem DaemonState.Effect.sessions_cases {d : DaemonState} (h : d.Effect op d')
    (hr : d'.sessions sid = some r) :
    (d.sessions sid = some r ∧
        ∀ turn dirOk now, op = .run turn dirOk now → d.accepts turn dirOk = true →
          sid ≠ turn.sessionId) ∨
      (r = d.runCount ∧ d.ledgers sid = some (d.ledgerRef sid) ∧
        ∃ turn dirOk now harness, op = .run turn dirOk now ∧ d.accepts turn dirOk = true ∧
          sid = turn.sessionId ∧ d' = d.startRun turn harness now) := by
  cases h with
  | idle hop =>
    refine .inl ⟨hr, ?_⟩
    rintro turn dirOk now rfl hacc
    simp [DaemonState.idles, hacc] at hop
  | @run turn dirOk now harness L hL hacc =>
    simp only [DaemonState.startRun_sessions, Function.update_apply] at hr
    split at hr
    · next hs =>
      exact .inr ⟨(Option.some.inj hr).symm, by simp [DaemonState.ledgerRef, hs, hL], turn, dirOk,
        now, harness, rfl, hacc, hs, rfl⟩
    · next hs =>
      refine .inl ⟨hr, ?_⟩
      rintro turn' _ _ hop -
      cases hop
      exact hs
  | resume hop _ =>
    refine .inl ⟨hr, ?_⟩
    rintro turn dirOk now rfl
    cases hop
  | truncate hop _ _ =>
    refine .inl ⟨hr, ?_⟩
    rintro turn dirOk now rfl
    cases hop
  | mark hop _ =>
    refine .inl ⟨hr, ?_⟩
    rintro turn dirOk now rfl
    cases hop
  | remove _ _ =>
    simp only [DaemonState.setDrain_sessions, DaemonState.removeSession_sessions,
      Function.update_apply] at hr
    split at hr
    · cases hr
    · exact .inl ⟨hr, fun _ _ _ hop => by cases hop⟩
  | _ => exact .inl ⟨hr, fun _ _ _ hop => by cases hop⟩

theorem DaemonState.Effect.ledgers_cases {d : DaemonState} (h : d.Effect op d') (sid : SessionId) :
    d'.ledgers sid = d.ledgers sid ∨
      (∃ src pos, op = .fork src pos sid ∧
        d' = d.insertLedger sid ((d.ledgerHeap (d.ledgerRef src)).fork pos sid)) ∨
      (∃ cp, op = .restoreCheckpoint cp ∧ cp.sessionId = sid) := by
  cases h with
  | @fork src newSid pos K hK =>
    by_cases hs : newSid = sid
    · subst hs
      have href : d.ledgerRef src = K := by simp [DaemonState.ledgerRef, hK]
      exact .inr (.inl ⟨src, pos, rfl, by rw [href]⟩)
    · exact .inl (Function.update_of_ne (Ne.symm hs) _ _)
  | @restoreCheckpoint cp =>
    by_cases hs : cp.sessionId = sid
    · exact .inr (.inr ⟨cp, rfl, hs⟩)
    · exact .inl (Function.update_of_ne (Ne.symm hs) _ _)
  | _ => exact .inl rfl

end Goble
