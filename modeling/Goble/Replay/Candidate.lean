import Goble.Lib.Machine
import Goble.Replay.Ledger

/-!
# The settlement candidate of a ledger

`select` marks a turn by position, and `apply` later commits whatever stands at that
position. This file asks when the two name the same record, over every sequence of ledger
operations.

A record has no identity in the source, only a position, and positions freed by a truncation
are handed out again by `recordTurn`. Identity is therefore a history variable
(`Identity`): each record gets a number when it is recorded (or brought in by `restore`),
the numbers move with the records, and `candidate` remembers the number that stood at the
selected position when `select` ran. `CandidateSound` then says that the marker is in range
and still names that record.

`apply`, `discard` and `restore` reset the marker together with the turns. `rewindTo` does
not, so a rewind below the marker leaves it dangling, and the next `recordTurn` puts another
record under it (`rewindTo_dangles`, `not_candidateSound`). The marker stays sound along every run
whose rewinds keep the candidate (`candidateSound_of_keepsCandidate`).
-/

namespace Goble

inductive LedgerOp where
  | recordTurn (turn : HarnessTurn) (now : Time)
  | appendEvents (events : List HarnessServerEvent)
  | appendEventsTo (index : Nat) (events : List HarnessServerEvent)
  | settleTurn (status : TurnStatus) (now : Time)
  | settleTurnAt (index : Nat) (status : TurnStatus) (now : Time)
  | select (pos : Nat)
  | apply (pos : Nat)
  | release (pos : Nat)
  | discard (pos : Nat)
  | rewindTo (index : Nat)
  | revertTo (index : Nat)
  | restore (cp : Checkpoint)

namespace LedgerState

/-- The state a fallible call leaves behind: the old one when it failed. -/
def keep {ε α : Type} (s : α) : Except ε α → α
  | .ok s' => s'
  | .error _ => s

def exec (s : LedgerState) : LedgerOp → LedgerState
  | .recordTurn turn now => (s.recordTurn turn now).2
  | .appendEvents events => keep s (s.appendEvents events)
  | .appendEventsTo index events => keep s (s.appendEventsTo index events)
  | .settleTurn status now => keep s (s.settleTurn status now)
  | .settleTurnAt index status now => keep s (s.settleTurnAt index status now)
  | .select pos => keep s (s.select pos)
  | .apply pos => keep s ((s.apply pos).map Prod.snd)
  | .release pos => keep s ((s.release pos).map Prod.snd)
  | .discard pos => keep s ((s.discard pos).map Prod.snd)
  | .rewindTo index => (s.rewindTo index).2
  | .revertTo index => (s.revertTo index).2
  | .restore cp => s.restore cp

theorem exec_select (s : LedgerState) (pos : Nat) : s.exec (.select pos) =
    if pos < s.turns.length then { s with selected := some pos } else s := by
  simp only [exec, select]
  by_cases hlt : pos < s.turns.length
  · rw [if_neg (Nat.not_le_of_lt hlt), if_pos hlt]; rfl
  · rw [if_pos (Nat.le_of_not_lt hlt), if_neg hlt]; rfl

theorem exec_apply (s : LedgerState) (pos : Nat) : s.exec (.apply pos) =
    if pos < s.turns.length ∧ s.selected = some pos then
      { s with turns := s.turns.take (pos + 1), selected := none }
    else s := by
  simp only [exec, apply]
  by_cases hlt : pos < s.turns.length
  · by_cases hsel : s.selected = some pos
    · rw [if_neg (Nat.not_le_of_lt hlt), if_neg (not_not.mpr hsel), if_pos ⟨hlt, hsel⟩]; rfl
    · rw [if_neg (Nat.not_le_of_lt hlt), if_pos hsel, if_neg (fun h => hsel h.2)]; rfl
  · rw [if_pos (Nat.le_of_not_lt hlt), if_neg (fun h => hlt h.1)]; rfl

theorem exec_release (s : LedgerState) (pos : Nat) : s.exec (.release pos) =
    if pos < s.turns.length ∧ s.selected = some pos then { s with selected := none } else s := by
  simp only [exec, release]
  by_cases hlt : pos < s.turns.length
  · by_cases hsel : s.selected = some pos
    · rw [if_neg (Nat.not_le_of_lt hlt), if_pos hsel, if_pos ⟨hlt, hsel⟩]; rfl
    · rw [if_neg (Nat.not_le_of_lt hlt), if_neg hsel, if_neg (fun h => hsel h.2)]; rfl
  · rw [if_pos (Nat.le_of_not_lt hlt), if_neg (fun h => hlt h.1)]; rfl

theorem exec_discard (s : LedgerState) (pos : Nat) : s.exec (.discard pos) =
    if pos < s.turns.length then { s with turns := s.turns.take pos, selected := none }
    else s := by
  simp only [exec, discard]
  by_cases hlt : pos < s.turns.length
  · rw [if_neg (Nat.not_le_of_lt hlt), if_pos hlt]; rfl
  · rw [if_pos (Nat.le_of_not_lt hlt), if_neg hlt]; rfl

end LedgerState

def ledgerMachine (sessionId : SessionId) : Machine LedgerState LedgerOp where
  init := .new sessionId
  step s op := some (s.exec op)

/-! ### Record identity -/

/-- The identities of a ledger's records: `ids[i]` is the record now at position `i`, `next`
the first identity never handed out, `candidate` the record that stood at the selected
position when the selection was made. -/
structure Identity where
  ids : List Nat
  next : Nat
  candidate : Option Nat
deriving DecidableEq

/-- No record yet. -/
def Identity.none : Identity := ⟨[], 0, .none⟩

def Identity.update (s : LedgerState) (op : LedgerOp) (_ : LedgerState) (h : Identity) :
    Identity :=
  match op with
  | .recordTurn _ _ => { h with ids := h.ids ++ [h.next], next := h.next + 1 }
  | .select pos => if pos < s.turns.length then { h with candidate := h.ids[pos]? } else h
  | .apply pos =>
    if pos < s.turns.length ∧ s.selected = some pos then
      { h with ids := h.ids.take (pos + 1), candidate := .none }
    else h
  | .release pos =>
    if pos < s.turns.length ∧ s.selected = some pos then { h with candidate := .none } else h
  | .discard pos =>
    if pos < s.turns.length then { h with ids := h.ids.take pos, candidate := .none } else h
  | .rewindTo index => { h with ids := h.ids.take index }
  | .revertTo index => { h with ids := h.ids.take index }
  | .restore cp =>
    -- the restored records are none of the ledger's own
    ⟨List.range' h.next cp.turns.length, h.next + cp.turns.length, .none⟩
  | _ => h

def tracedLedger (sessionId : SessionId) : Machine (LedgerState × Identity) LedgerOp :=
  (ledgerMachine sessionId).withHistory .none Identity.update

/-- The marker is sound: it is in range, and the record it names is the one that was
selected. -/
def CandidateSound (p : LedgerState × Identity) : Prop :=
  ∀ k, p.1.selected = some k →
    k < p.1.turns.length ∧ p.2.candidate ≠ none ∧ p.2.ids[k]? = p.2.candidate

/-- Settlement commits the selected record: whenever `apply` would succeed, the record it
keeps at `pos` is the one that stood there when it was selected. -/
def CommitsSelected (p : LedgerState × Identity) : Prop :=
  ∀ pos removed s', p.1.apply pos = .ok (removed, s') →
    p.2.candidate ≠ none ∧
      (Identity.update p.1 (.apply pos) s' p.2).ids[pos]? = p.2.candidate

def KeepsCandidate (s : LedgerState) : LedgerOp → Prop
  | .rewindTo index => s.turns.length ≤ index ∨ ∀ k, s.selected = some k → k < index
  | .revertTo index => s.turns.length ≤ index ∨ ∀ k, s.selected = some k → k < index
  | _ => True

instance decidableKeepsCandidate (s : LedgerState) :
    (op : LedgerOp) → Decidable (KeepsCandidate s op)
  | .rewindTo index => inferInstanceAs
      (Decidable (s.turns.length ≤ index ∨ ∀ k, s.selected = some k → k < index))
  | .revertTo index => inferInstanceAs
      (Decidable (s.turns.length ≤ index ∨ ∀ k, s.selected = some k → k < index))
  | .recordTurn .. | .appendEvents _ | .appendEventsTo .. | .settleTurn ..
  | .settleTurnAt .. | .select _ | .apply _ | .release _ | .discard _ | .restore _ =>
    isTrue trivial

/-! ### The invariant -/

/-- Identities line up with positions, and the marker is sound. -/
structure CandidateInv (p : LedgerState × Identity) : Prop where
  length_eq : p.2.ids.length = p.1.turns.length
  sound : CandidateSound p

theorem CandidateInv.initial (sid : SessionId) : CandidateInv (tracedLedger sid).init where
  length_eq := rfl
  sound := fun _ h => absurd h (by simp [tracedLedger, Machine.withHistory, ledgerMachine])

variable {s : LedgerState} {h : Identity}

/-- A call that moves no record and no marker keeps the invariant. -/
theorem CandidateInv.of_same {s' : LedgerState} (hI : CandidateInv (s, h))
    (hlen : s'.turns.length = s.turns.length) (hsel : s'.selected = s.selected) :
    CandidateInv (s', h) where
  length_eq := hI.length_eq.trans hlen.symm
  sound := fun k hk => by
    obtain ⟨hlt, hne, hid⟩ := hI.sound k (hsel ▸ hk)
    exact ⟨hlen ▸ hlt, hne, hid⟩

/-- A call that clears the marker only has to keep the identities lined up. -/
theorem CandidateInv.of_cleared (hlen : h.ids.length = s.turns.length) (hsel : s.selected = none) :
    CandidateInv (s, h) where
  length_eq := hlen
  sound := fun k hk => absurd hk (by rw [hsel]; simp)

/-- A fallible call that only rewrites records in place keeps the invariant. -/
theorem CandidateInv.of_keep (hI : CandidateInv (s, h)) {r : Except ReplayError LedgerState}
    (hr : ∀ s', r = .ok s' → s'.turns.length = s.turns.length ∧ s'.selected = s.selected) :
    CandidateInv (LedgerState.keep s r, h) := by
  cases r with
  | error e => exact hI
  | ok s' => exact hI.of_same (hr s' rfl).1 (hr s' rfl).2

theorem CandidateInv.of_rewindTo (hI : CandidateInv (s, h)) {index : Nat}
    (hC : s.turns.length ≤ index ∨ ∀ k, s.selected = some k → k < index) :
    CandidateInv ((s.rewindTo index).2, { h with ids := h.ids.take index }) where
  length_eq := by
    have hlen : h.ids.length = s.turns.length := hI.length_eq
    simp [hlen]
  sound := fun k hk => by
    rw [LedgerState.rewindTo_selected] at hk
    obtain ⟨hlt, hne, hid⟩ := hI.sound k hk
    have hki : k < index := by
      rcases hC with hle | hkeep
      · exact Nat.lt_of_lt_of_le hlt hle
      · exact hkeep k hk
    refine ⟨?_, hne, ?_⟩
    · have : k < s.turns.length := hlt
      rw [LedgerState.rewindTo_turns, List.length_take]
      omega
    · rw [← hid]
      exact List.getElem?_take_of_lt hki

theorem CandidateInv.step {sid : SessionId} {p q : LedgerState × Identity} {op : LedgerOp}
    (hI : CandidateInv p) (hC : KeepsCandidate p.1 op)
    (hstep : (tracedLedger sid).step p op = some q) : CandidateInv q := by
  obtain ⟨s, h⟩ := p
  obtain ⟨s', h'⟩ := q
  obtain ⟨hs', hh'⟩ := Machine.step_withHistory_eq_some.mp hstep
  obtain rfl : s.exec op = s' := Option.some.inj hs'
  replace hh' : h' = Identity.update s op (s.exec op) h := hh'
  subst hh'
  have hlen : h.ids.length = s.turns.length := hI.length_eq
  cases op with
  | recordTurn turn now =>
    refine ⟨by simp [LedgerState.exec, Identity.update, hlen], fun k hk => ?_⟩
    obtain ⟨hlt, hne, hid⟩ := hI.sound k hk
    refine ⟨?_, hne, ?_⟩
    · have : k < s.turns.length := hlt
      simp only [LedgerState.exec, LedgerState.recordTurn_turns, List.length_append,
        List.length_singleton]
      omega
    · change (h.ids ++ [h.next])[k]? = h.candidate
      rw [List.getElem?_append_left (hlen ▸ hlt)]
      exact hid
  | appendEvents events =>
    refine hI.of_keep fun s' hs => ?_
    unfold LedgerState.appendEvents at hs
    split at hs
    · cases hs
    · obtain rfl := Except.ok.inj hs
      exact ⟨List.length_modify .., rfl⟩
  | appendEventsTo index events =>
    refine hI.of_keep fun s' hs => ?_
    obtain ⟨-, rfl⟩ := LedgerState.appendEventsTo_eq_ok hs
    exact ⟨List.length_modify .., rfl⟩
  | settleTurn status now =>
    refine hI.of_keep fun s' hs => ?_
    unfold LedgerState.settleTurn at hs
    split at hs
    · cases hs
    · obtain rfl := Except.ok.inj hs
      exact ⟨List.length_modify .., rfl⟩
  | settleTurnAt index status now =>
    refine hI.of_keep fun s' hs => ?_
    obtain ⟨-, rfl⟩ := LedgerState.settleTurnAt_eq_ok hs
    exact ⟨List.length_modify .., rfl⟩
  | select pos =>
    by_cases hlt : pos < s.turns.length
    · simp only [LedgerState.exec_select, Identity.update, if_pos hlt]
      refine ⟨hlen, fun k hk => ?_⟩
      obtain rfl : pos = k := Option.some.inj hk
      refine ⟨hlt, ?_, rfl⟩
      change h.ids[pos]? ≠ none
      rw [List.getElem?_eq_getElem (hlen ▸ hlt)]
      simp
    · simpa only [LedgerState.exec_select, Identity.update, if_neg hlt] using hI
  | apply pos =>
    by_cases hok : pos < s.turns.length ∧ s.selected = some pos
    · simp only [LedgerState.exec_apply, Identity.update, if_pos hok]
      exact .of_cleared (by simp [hlen]) rfl
    · simpa only [LedgerState.exec_apply, Identity.update, if_neg hok] using hI
  | release pos =>
    by_cases hok : pos < s.turns.length ∧ s.selected = some pos
    · simp only [LedgerState.exec_release, Identity.update, if_pos hok]
      exact .of_cleared hlen rfl
    · simpa only [LedgerState.exec_release, Identity.update, if_neg hok] using hI
  | discard pos =>
    by_cases hlt : pos < s.turns.length
    · simp only [LedgerState.exec_discard, Identity.update, if_pos hlt]
      exact .of_cleared (by simp [hlen]) rfl
    · simpa only [LedgerState.exec_discard, Identity.update, if_neg hlt] using hI
  | rewindTo index => exact hI.of_rewindTo hC
  | revertTo index => exact hI.of_rewindTo hC
  | restore cp => exact .of_cleared (by simp [Identity.update, LedgerState.exec,
      LedgerState.restore]) rfl

theorem CandidateSound.commitsSelected {p : LedgerState × Identity} (h : CandidateSound p) :
    CommitsSelected p := by
  intro pos removed s' happly
  obtain ⟨hlt, hsel, -, -⟩ := LedgerState.apply_eq_ok happly
  obtain ⟨-, hne, hid⟩ := h pos hsel
  refine ⟨hne, ?_⟩
  simp only [Identity.update, if_pos (And.intro hlt hsel)]
  rw [← hid]
  exact List.getElem?_take_of_lt (Nat.lt_succ_self pos)

/-- **Settlement commits the selected turn**, along every run whose rewinds keep the
candidate: the marker is in range and names the record that was selected, and a successful
`apply` keeps that record. -/
theorem candidateSound_of_keepsCandidate (sid : SessionId) (ops : List LedgerOp)
    (p : LedgerState × Identity)
    (hC : (tracedLedger sid).Along (fun p op => KeepsCandidate p.1 op) (tracedLedger sid).init ops)
    (hrun : (tracedLedger sid).exec (tracedLedger sid).init ops = some p) :
    CandidateSound p ∧ CommitsSelected p := by
  have hI : CandidateInv p := Machine.invariant (CandidateInv.initial sid)
    (fun _ _ _ hI hC hs => hI.step hC hs) hC hrun
  exact ⟨hI.sound, hI.sound.commitsSelected⟩

/-- A rewind above the candidate: two turns, the first selected, the second rewound. -/
theorem candidateSound_after_rewind_above :
    ∃ p, (tracedLedger ⟨"s1"⟩).exec (tracedLedger ⟨"s1"⟩).init
        [.recordTurn (.new ⟨"mock"⟩ ⟨"s1"⟩ "a") 0, .recordTurn (.new ⟨"mock"⟩ ⟨"s1"⟩ "b") 1,
          .select 0, .rewindTo 1] = some p ∧
      p.1.selected = some 0 ∧ CandidateSound p ∧ CommitsSelected p :=
  ⟨_, rfl, rfl, candidateSound_of_keepsCandidate ⟨"s1"⟩
    [.recordTurn (.new ⟨"mock"⟩ ⟨"s1"⟩ "a") 0, .recordTurn (.new ⟨"mock"⟩ ⟨"s1"⟩ "b") 1,
      .select 0, .rewindTo 1] _ (by decide) rfl⟩

/-- Without the condition the marker re-targets another turn: turn 1 is selected, a rewind to
one turn drops it, the next turn takes position 1, and `apply 1` commits that one. -/
theorem not_candidateSound :
    ¬ ∀ (sid : SessionId) (ops : List LedgerOp) (p : LedgerState × Identity),
      (tracedLedger sid).exec (tracedLedger sid).init ops = some p →
        CandidateSound p ∧ CommitsSelected p := by
  intro hall
  obtain ⟨-, hcommit⟩ := hall ⟨"s1"⟩
    [.recordTurn (.new ⟨"mock"⟩ ⟨"s1"⟩ "a") 0, .recordTurn (.new ⟨"mock"⟩ ⟨"s1"⟩ "b") 1,
      .select 1, .rewindTo 1, .recordTurn (.new ⟨"mock"⟩ ⟨"s1"⟩ "c") 2] _ rfl
  obtain ⟨-, hid⟩ := hcommit 1 0 _ rfl
  exact absurd hid (by decide)

/-- The condition is needed at every step: a rewind that drops the candidate leaves the
marker out of range at once. -/
theorem rewindTo_dangles {index : Nat} (hC : ¬ KeepsCandidate s (.rewindTo index)) :
    ¬ CandidateSound (s.exec (.rewindTo index),
      Identity.update s (.rewindTo index) (s.exec (.rewindTo index)) h) := by
  intro hs
  simp only [KeepsCandidate, not_or, not_forall, Nat.not_le, Nat.not_lt] at hC
  obtain ⟨hlt, k, hk, hik⟩ := hC
  obtain ⟨hklt, -, -⟩ := hs k (by simpa [LedgerState.exec] using hk)
  simp only [LedgerState.exec, LedgerState.rewindTo_turns, List.length_take] at hklt
  omega

end Goble
