import Goble.Daemon.Provenance

/-!
# The snapshot log

The snapshot log of a session is a second list, indexed like the turns of its ledger and
written by settling drains only. Nothing cuts it when the ledger is cut or replaced.

The history variable adds to `Provenance` the snapshots every run captured when it settled.
`SnapshotAligned` says that a logged snapshot stands at a position of the session's current
ledger and was captured by the run that recorded the turn there; `RestoresLastKept`, what that
is for: a rewind hands a harness the snapshot of the last turn it keeps.

`keepsSnapshots` is the condition, step by step:

* a truncation drops no position that has a logged snapshot;
* a fork onto a session keeps the turns that have one, and a restored checkpoint replaces
  a ledger only if none does;
* a drain logs a snapshot only while its run's record still stands at its position.

`snapshotAligned_of_keepsSnapshots` is the result over whole runs, `not_snapshotAligned` a
rewind that leaves a snapshot behind for the turn that is recorded next.
-/

namespace Goble

structure SnapshotHistory where
  marks : Provenance
  captured : List (RunRef × HarnessSnapshot)

def Drain.pending (dr : Drain) : Option HarnessSnapshot :=
  match dr.pc with
  | .log snapshot => snapshot
  | _ => none

/-- Whether the drain is about to ask its harness for a snapshot. -/
def Drain.capturing (dr : Drain) : Bool :=
  match dr.pc with
  | .capture => true
  | _ => false

variable {i : Nat}

namespace SnapshotHistory

def recorderAt (h : SnapshotHistory) (L : LedgerRef) (i : Nat) : Option (Option RunRef) :=
  (h.marks L)[i]?.map (·.recorder)

def update (d : DaemonState) (op : DaemonOp) (d' : DaemonState) (h : SnapshotHistory) :
    SnapshotHistory where
  marks := Provenance.update d op d' h.marks
  captured :=
    match op with
    | .drainAdvance t _ _ =>
      if (d.drains t).capturing then
        h.captured ++ ((d'.drains t).pending.map fun x => ((d.drains t).state, x)).toList
      else h.captured
    | _ => h.captured

theorem recorderAt_update {d d' : DaemonState} {op : DaemonOp} {h : SnapshotHistory}
    {L : LedgerRef} : (update d op d' h).recorderAt L i =
      (Provenance.update d op d' h.marks L)[i]?.map (·.recorder) := rfl

end SnapshotHistory

def snapshotDaemon (registry : HarnessId → Option Harness) (root : Option String) :
    Machine (DaemonState × SnapshotHistory) DaemonOp :=
  (daemonMachine registry root).withHistory ⟨fun _ => [], []⟩ SnapshotHistory.update

/-! ### The property and the condition -/

def CapturedAt (h : SnapshotHistory) (L : LedgerRef) (i : Nat) (x : HarnessSnapshot) : Prop :=
  ∃ r, h.recorderAt L i = some (some r) ∧ (r, x) ∈ h.captured

/-- A logged snapshot stands at a position of the session's current ledger and was captured
when the turn there settled. -/
def SnapshotAligned (p : DaemonState × SnapshotHistory) : Prop :=
  ∀ sid i x, (p.1.snapshotLog sid)[i]? = some (some x) →
    i < (p.1.ledgerOf sid).len ∧ CapturedAt p.2 (p.1.ledgerRef sid) i x

/-- Whatever a rewind to `pos` turns hands a harness was captured when the last turn it keeps
settled. -/
def RestoresLastKept (p : DaemonState × SnapshotHistory) : Prop :=
  ∀ sid pos, ∃ calls, (p.1.rewind sid pos).1.restores = p.1.restores ++ calls ∧
    ∀ call ∈ calls, call.session = sid ∧
      CapturedAt p.2 (p.1.ledgerRef sid) (min pos (p.1.ledgerOf sid).len - 1) call.snapshot

def keepsSnapshots (p : DaemonState × SnapshotHistory) (op : DaemonOp) : Bool :=
  match p.1.truncation op with
  -- a truncation drops turns but not the log, so nothing may be logged above the cut
  | some (sid, n) => ((p.1.snapshotLog sid).drop n).all (·.isNone)
  | none =>
    match op with
    -- a fork onto a session replaces its ledger under the log it has
    | .fork sid pos newSid =>
      (List.range (p.1.snapshotLog newSid).length).all fun i =>
        ((p.1.snapshotLog newSid)[i]?.join).isNone ||
          (decide (i < pos) && decide (p.2.recorderAt (p.1.ledgerRef sid) i
            = p.2.recorderAt (p.1.ledgerRef newSid) i))
    | .restoreCheckpoint cp => (p.1.snapshotLog cp.sessionId).all (·.isNone)
    -- a drain writes at its run's position whatever turn stands there by now
    | .drainAdvance t _ _ =>
      (p.1.drains t).pending.isNone ||
        decide (p.2.recorderAt (p.1.ledgerRef (p.1.drains t).sessionId)
          (p.1.runs (p.1.drains t).state).turnIndex = some (some (p.1.drains t).state))
    | _ => true

variable {x : HarnessSnapshot}

theorem getElem?_writeLog {log : List (Option HarnessSnapshot)} {index : Nat}
    {snapshot : Option HarnessSnapshot}
    (h : (DaemonState.writeLog log index snapshot)[i]? = some (some x)) :
    log[i]? = some (some x) ∨ (i = index ∧ snapshot = some x) := by
  unfold DaemonState.writeLog at h
  rw [List.getElem?_set] at h
  split at h
  -- the position written
  · next hi =>
    split at h
    · exact .inr ⟨hi.symm, Option.some.inj h⟩
    · cases h
  -- elsewhere: the old log, or the padding up to the position, which logs nothing
  · rw [List.getElem?_append] at h
    split at h
    · exact .inl h
    · rw [List.getElem?_replicate] at h
      split at h <;> cases h

theorem not_logged_of_drop {log : List (Option HarnessSnapshot)} {n : Nat}
    (hall : (log.drop n).all (·.isNone) = true) (hi : n ≤ i) :
    log[i]? ≠ some (some x) := by
  intro hx
  have hmem : some x ∈ log.drop n := by
    refine List.mem_iff_getElem?.mpr ⟨i - n, ?_⟩
    rw [List.getElem?_drop, Nat.add_sub_cancel' hi]
    exact hx
  exact absurd (List.all_eq_true.mp hall _ hmem) (by simp)

variable {sid : SessionId}

/-- Where a logged snapshot comes from: it was in the log, or a drain has just written the one
it held. -/
theorem DaemonState.Effect.snapshotLog_cases {d d' : DaemonState} {op : DaemonOp}
    (heff : d.Effect op d') (hx : (d'.snapshotLog sid)[i]? = some (some x)) :
    (d.snapshotLog sid)[i]? = some (some x) ∨
      ∃ t answer now, op = .drainAdvance t answer now ∧ (d.drains t).pending = some x ∧
        (d.drains t).sessionId = sid ∧ i = (d.runs (d.drains t).state).turnIndex ∧
        d'.ledgerRef sid = d.ledgerRef sid := by
  cases heff with
  | @log t answer snapshot now sid' st hpc hst hsid =>
    simp only [DaemonState.snapshotLog, DaemonState.setDrain_snapshots,
      DaemonState.setLog_snapshots, Function.update_apply] at hx
    split at hx
    · next hs =>
      rcases getElem?_writeLog hx with hold | ⟨hi, hsnap⟩
      · exact .inl (hs ▸ hold)
      · exact .inr ⟨t, answer, now, rfl, by simp [Drain.pending, hpc, hsnap], hsid.trans hs.symm,
          by rw [hi, hst], rfl⟩
    · exact .inl hx
  | _ => exact .inl hx

/-! ### The invariant -/

structure SnapshotInv (p : DaemonState × SnapshotHistory) : Prop where
  wf : WF p.1
  positions : MarksMatch (fun _ _ => True) (p.1, p.2.marks)
  aligned : SnapshotAligned p
  pending : ∀ t x, (p.1.drains t).pending = some x → ((p.1.drains t).state, x) ∈ p.2.captured

namespace SnapshotInv

variable {d d' d₁ : DaemonState} {op : DaemonOp} {h : SnapshotHistory}

theorem initial (registry : HarnessId → Option Harness) (root : Option String) :
    SnapshotInv (snapshotDaemon registry root).init where
  wf := WF.initial registry root
  positions := fun _ => .nil
  aligned := fun _ _ _ hx => by cases hx
  pending := fun _ _ hx => by cases hx

theorem lt_len (hpos : MarksMatch (fun _ _ => True) (d, h.marks)) {r : Option RunRef}
    (hr : h.recorderAt (d.ledgerRef sid) i = some r) :
    i < (d.ledgerOf sid).len := by
  obtain ⟨m, hm, -⟩ := Option.map_eq_some_iff.mp hr
  rw [DaemonState.ledgerOf, ← hpos.length_eq]
  exact (List.getElem?_eq_some_iff.mp hm).1

theorem marks_touched (hI : SnapshotInv (d, h)) (ht : d.Touched op d₁) (sid : SessionId) :
    h.marks (d₁.ledgerRef sid) = h.marks (d.ledgerRef sid) := by
  obtain rfl | ⟨s, -, hnone, rfl⟩ := ht
  · rfl
  · have hempty : ∀ L, d.ledgerCount ≤ L → h.marks L = [] :=
      fun L hL => hI.positions.unallocated hI.wf hL
    simp only [DaemonState.ledgerRef, DaemonState.insertLedger_ledgers,
      DaemonState.insertLedger_ledgerCount, Function.update_apply]
    split
    -- the new empty ledger stands where `ledgerRef` pointed before
    · next hs => rw [hs, hnone]; rfl
    · cases d.ledgers sid with
      | some L => rfl
      | none => exact (hempty _ (Nat.le_succ _)).trans (hempty _ (Nat.le_refl _)).symm

theorem touched (hI : SnapshotInv (d, h)) (ht : d.Touched op d₁) : SnapshotInv (d₁, h) := by
  have hW := hI.wf.touched ht
  have hpos := hI.positions.touched hI.wf ht
  refine ⟨hW, hpos, fun sid i x hx => ?_, ?_⟩
  · have hlog : d₁.snapshotLog sid = d.snapshotLog sid := by
      obtain rfl | ⟨s, -, -, rfl⟩ := ht <;> rfl
    obtain ⟨-, r, hr, hcap⟩ := hI.aligned sid i x (hlog ▸ hx)
    have hrec : h.recorderAt (d₁.ledgerRef sid) i = some (some r) := by
      rw [← hr, SnapshotHistory.recorderAt, SnapshotHistory.recorderAt, hI.marks_touched ht]
    exact ⟨lt_len hpos hrec, r, hrec, hcap⟩
  · obtain rfl | ⟨s, -, -, rfl⟩ := ht <;> exact hI.pending

/-- The condition does not depend on whether the ledger a call reads is allocated. -/
theorem keeps_touched (hI : SnapshotInv (d, h)) (ht : d.Touched op d₁) :
    keepsSnapshots (d₁, h) op = keepsSnapshots (d, h) op := by
  have hrec : ∀ sid i, h.recorderAt (d₁.ledgerRef sid) i = h.recorderAt (d.ledgerRef sid) i :=
    fun sid i => by
      rw [SnapshotHistory.recorderAt, SnapshotHistory.recorderAt, hI.marks_touched ht]
  simp only [keepsSnapshots, hI.wf.truncation_touched ht, hrec]
  obtain rfl | ⟨s, -, -, rfl⟩ := ht <;> rfl

theorem captured_mono {x : RunRef × HarnessSnapshot} (hx : x ∈ h.captured) :
    x ∈ (SnapshotHistory.update d op d' h).captured := by
  simp only [SnapshotHistory.update]
  split
  · split
    · exact List.mem_append_left _ hx
    · exact hx
  · exact hx

theorem captured_of_moves {t : TaskId} (hmove : d.Moves op d' t)
    (hx : (d'.drains t).pending = some x) :
    ((d.drains t).state, x) ∈ (SnapshotHistory.update d op d' h).captured := by
  obtain ⟨y, hpc'⟩ : ∃ y, (d'.drains t).pc = .log y := by
    unfold Drain.pending at hx
    split at hx
    · next y hpc' => exact ⟨y, hpc'⟩
    · cases hx
  -- the only edge into `log` comes from `capture`
  have hpc : (d.drains t).pc = .capture := by
    have hedge := hmove.edge
    rw [hpc'] at hedge
    generalize (d.drains t).pc = pc at hedge ⊢
    cases hedge
    rfl
  obtain hnext | ⟨answer, now, rfl⟩ := hmove.label
  · rw [hpc] at hnext
    cases hnext
  · simp [SnapshotHistory.update, Drain.capturing, hpc, hx]

theorem recorderAt_kept (hI : SnapshotInv (d, h)) (hC : keepsSnapshots (d, h) op = true)
    (heff : d.Effect op d') {r : RunRef} (hx : (d.snapshotLog sid)[i]? = some (some x))
    (hr : h.recorderAt (d.ledgerRef sid) i = some (some r)) :
    (SnapshotHistory.update d op d' h).recorderAt (d'.ledgerRef sid) i = some (some r) := by
  obtain ⟨m, hm, hmr⟩ := Option.map_eq_some_iff.mp hr
  -- the ledger exists, since it has a record
  obtain ⟨L, hL⟩ : ∃ L, d.ledgers sid = some L := by
    cases hs : d.ledgers sid with
    | some L => exact ⟨L, rfl⟩
    | none =>
      rw [DaemonState.ledgerRef, hs, Option.getD_none,
        hI.positions.unallocated hI.wf (Nat.le_refl _)] at hm
      cases hm
  have href : d.ledgerRef sid = L := by simp [DaemonState.ledgerRef, hL]
  rcases heff.ledgers_cases sid with hkeep | ⟨src, pos, rfl, rfl⟩ | ⟨cp, rfl, rfl⟩
  -- the ledger is kept: the position is below every cut
  · have href' : d'.ledgerRef sid = L := by simp [DaemonState.ledgerRef, hkeep, hL]
    have hcut : ∀ s n, d.truncation op = some (s, n) → L = d.ledgerRef s → i < n := by
      intro s n htr hLs
      obtain rfl := hI.wf.eq_of_ledgerRef hL hLs
      simp only [keepsSnapshots, htr] at hC
      by_contra hge
      exact not_logged_of_drop hC (Nat.le_of_not_lt hge) hx
    rw [href] at hm
    obtain ⟨m', hm', hrec⟩ :=
      Provenance.recorder_kept heff (hI.wf.ledgers_lt sid L hL) hm hcut
    rw [href', SnapshotHistory.recorderAt_update, hm', Option.map_some, hrec, hmr]
  -- a fork onto the session: the condition compares the recorders position by position
  · have hlt : i < (d.snapshotLog sid).length := (List.getElem?_eq_some_iff.mp hx).1
    have hi := List.all_eq_true.mp hC i (List.mem_range.mpr hlt)
    simp only [hx, Option.join_some, Option.isNone_some, Bool.false_or, Bool.and_eq_true,
      decide_eq_true_eq] at hi
    obtain ⟨hpos, hsame⟩ := hi
    have hnew : (d.insertLedger sid ((d.ledgerHeap (d.ledgerRef src)).fork pos sid)).ledgerRef sid
        = d.ledgerCount := by simp [DaemonState.ledgerRef]
    rw [hnew, SnapshotHistory.recorderAt_update, Provenance.update_fork, Function.update_self,
      List.getElem?_take_of_lt hpos]
    exact hsame.trans hr
  -- a restored checkpoint: nothing was logged
  · exact absurd hx (not_logged_of_drop (n := 0) hC (Nat.zero_le i))

/-- **Invariant preservation.** -/
theorem effect (hI : SnapshotInv (d, h)) (hC : keepsSnapshots (d, h) op = true)
    (heff : d.Effect op d') : SnapshotInv (d', SnapshotHistory.update d op d' h) := by
  have hpos : MarksMatch (fun _ _ => True) (d', Provenance.update d op d' h.marks) :=
    hI.positions.effect (fun _ _ _ _ => trivial) (fun _ => trivial) (fun _ _ _ _ _ => trivial)
      (fun _ _ _ _ _ _ _ => trivial) heff
  refine ⟨hI.wf.effect heff, hpos, fun sid i x hx => ?_, fun t x hx => ?_⟩
  · rcases heff.snapshotLog_cases hx with hold | ⟨t, answer, now, rfl, hpend, hsid, rfl, href⟩
    · obtain ⟨-, r, hr, hcap⟩ := hI.aligned sid i x hold
      have hrec := hI.recorderAt_kept hC heff hold hr
      exact ⟨lt_len hpos hrec, r, hrec, captured_mono hcap⟩
    · -- the drain's own record stands at the position it writes
      have hown : h.recorderAt (d.ledgerRef (d.drains t).sessionId)
          (d.runs (d.drains t).state).turnIndex = some (some (d.drains t).state) := by
        simpa [keepsSnapshots, DaemonState.truncation, hpend] using hC
      rw [hsid, ← href] at hown
      exact ⟨lt_len hpos hown, _, hown, captured_mono (hI.pending t x hpend)⟩
  · rcases heff.drain_cases t with hsame | ⟨-, sid, traceId, r, hspawn, -⟩ | hmove
    · simp only [hsame] at hx ⊢
      exact captured_mono (hI.pending t x hx)
    · simp only [hspawn] at hx
      cases hx
    · simp only [hmove.state]
      exact captured_of_moves hmove hx

theorem step {registry : HarnessId → Option Harness} {root : Option String}
    {p q : DaemonState × SnapshotHistory} (hI : SnapshotInv p)
    (hC : keepsSnapshots p op = true)
    (hstep : (snapshotDaemon registry root).step p op = some q) : SnapshotInv q := by
  obtain ⟨d, h⟩ := p
  obtain ⟨d', h'⟩ := q
  obtain ⟨hs, hh⟩ := Machine.step_withHistory_eq_some.mp hstep
  obtain ⟨d₁, htouch, heff⟩ := DaemonState.step_cases hs
  replace hh : h' = SnapshotHistory.update d op d' h := hh
  -- the history reads the drains and the marks, neither of which an empty ledger changes
  have hsame : SnapshotHistory.update d₁ op d' h = SnapshotHistory.update d op d' h := by
    have hdrains : d₁.drains = d.drains := by
      obtain rfl | ⟨s, -, -, rfl⟩ := htouch <;> rfl
    simp only [SnapshotHistory.update, Provenance.update_touched hI.wf htouch, hdrains]
  rw [hh, ← hsame]
  exact (hI.touched htouch).effect (hI.keeps_touched htouch ▸ hC) heff

end SnapshotInv

/-- What a rewind hands a harness is the snapshot logged for the last turn it keeps. -/
theorem rewindRestore_eq_some {d : DaemonState} {l : LedgerState} {pos : Nat} {call : RestoreCall}
    (h : d.rewindRestore sid l pos = some call) :
    call.session = sid ∧ pos < l.len ∧
      (d.snapshotLog sid)[pos - 1]? = some (some call.snapshot) := by
  unfold DaemonState.rewindRestore at h
  split at h
  · next hpos =>
    simp only [Option.bind_eq_bind, Option.bind_eq_some_iff] at h
    obtain ⟨x, hx, kept, -, harness, -, hcall⟩ := h
    split at hcall
    · obtain rfl := Option.some.inj hcall
      exact ⟨rfl, hpos.2, Option.join_eq_some_iff.mp hx⟩
    · cases hcall
  · cases h

theorem SnapshotAligned.restoresLastKept {p : DaemonState × SnapshotHistory}
    (hA : SnapshotAligned p) : RestoresLastKept p := by
  obtain ⟨d, h⟩ := p
  intro sid pos
  simp only [DaemonState.rewind]
  split
  · exact ⟨[], by simp, by simp⟩
  · cases hL : d.ledgers sid with
    | none =>
      -- an empty ledger: nothing is kept, and nothing restored
      refine ⟨[], ?_, by simp⟩
      simp [DaemonState.ensureLedger_of_none hL, DaemonState.ledgerRef, LedgerState.len,
        DaemonState.rewindRestore]
    | some L =>
      rw [DaemonState.ensureLedger_of_some hL]
      refine ⟨_, rfl, fun call hcall => ?_⟩
      obtain ⟨hsess, -, hlog⟩ := rewindRestore_eq_some (Option.mem_toList.mp hcall)
      exact ⟨hsess, (hA sid _ _ hlog).2⟩

/-- **Snapshot log alignment.** Along every run of the daemon whose steps leave the logged
snapshots with their turns, every logged snapshot stands at a position of the session's
current ledger and was captured when the turn there settled, and a rewind restores the
snapshot of the last kept turn or none. -/
theorem snapshotAligned_of_keepsSnapshots (registry : HarnessId → Option Harness)
    (root : Option String) (ops : List DaemonOp) (p : DaemonState × SnapshotHistory)
    (hC : (snapshotDaemon registry root).Along (fun p op => keepsSnapshots p op = true)
      (snapshotDaemon registry root).init ops)
    (hrun : (snapshotDaemon registry root).exec (snapshotDaemon registry root).init ops = some p) :
    SnapshotAligned p ∧ RestoresLastKept p := by
  have hI : SnapshotInv p := Machine.invariant (SnapshotInv.initial registry root)
    (fun _ _ _ hI hC hs => hI.step hC hs) hC hrun
  exact ⟨hI.aligned, hI.aligned.restoresLastKept⟩

/-- Two turns, of which only the first has a snapshot; the rewind that drops the second
restores it. -/
theorem snapshotAligned_after_rewind :
    ∃ p, (snapshotDaemon mockRegistry none).exec (snapshotDaemon mockRegistry none).init
        ([.run (.new ⟨"git"⟩ ⟨"s1"⟩ "a") true 0] ++ drainToEnd 0 ⟨"s1"⟩ (some ⟨"tree", .null⟩)
          ++ [.run (.new ⟨"mock"⟩ ⟨"s1"⟩ "b") true 1] ++ drainToEnd 1 ⟨"s1"⟩ none
          ++ [.rewind ⟨"s1"⟩ 1]) = some p ∧
      p.1.restores.length = 1 ∧ SnapshotAligned p ∧ RestoresLastKept p := by
  obtain ⟨p, hrun, hlen⟩ := Option.map_eq_some_iff.mp (show
    ((snapshotDaemon mockRegistry none).exec (snapshotDaemon mockRegistry none).init
      ([.run (.new ⟨"git"⟩ ⟨"s1"⟩ "a") true 0] ++ drainToEnd 0 ⟨"s1"⟩ (some ⟨"tree", .null⟩)
        ++ [.run (.new ⟨"mock"⟩ ⟨"s1"⟩ "b") true 1] ++ drainToEnd 1 ⟨"s1"⟩ none
        ++ [.rewind ⟨"s1"⟩ 1])).map (fun p => p.1.restores.length) = some 1 by decide +kernel)
  exact ⟨p, hrun, hlen,
    snapshotAligned_of_keepsSnapshots mockRegistry none _ p (by decide +kernel) hrun⟩

/-- Without the condition a snapshot outlives its turn: the turn is rewound, its snapshot stays
in the log. -/
theorem not_snapshotAligned :
    ¬ ∀ (registry : HarnessId → Option Harness) (root : Option String) (ops : List DaemonOp)
      (p : DaemonState × SnapshotHistory),
      (snapshotDaemon registry root).exec (snapshotDaemon registry root).init ops = some p →
        SnapshotAligned p ∧ RestoresLastKept p := by
  intro hall
  obtain ⟨p, hrun, hlog⟩ := Option.map_eq_some_iff.mp (show
    ((snapshotDaemon mockRegistry none).exec (snapshotDaemon mockRegistry none).init
      ([.run (.new ⟨"git"⟩ ⟨"s1"⟩ "a") true 0] ++ drainToEnd 0 ⟨"s1"⟩ (some ⟨"tree", .null⟩)
        ++ [.rewind ⟨"s1"⟩ 0])).map (fun p =>
          ((p.1.snapshotLog ⟨"s1"⟩)[0]?.join.isSome, (p.1.ledgerOf ⟨"s1"⟩).len))
      = some (true, 0) by decide +kernel)
  obtain ⟨hsome, hlen⟩ := Prod.mk.inj hlog
  obtain ⟨x, hx⟩ := Option.isSome_iff_exists.mp hsome
  obtain ⟨hlt, -⟩ := (hall mockRegistry none _ p hrun).1 ⟨"s1"⟩ 0 x (Option.join_eq_some_iff.mp hx)
  rw [hlen] at hlt
  exact absurd hlt (Nat.not_lt_zero 0)

end Goble
