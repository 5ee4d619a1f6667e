import Goble.Daemon.Step

/-!
# The two ways a turn is run

A chat turn is drained by the task of `spawn_stream`, a workflow step by
`run_turn_blocking_with_output` (`state/core.rs`), which reads the same events in one call. Both
let the last terminal event win, but they start from different states: the task's turn is
`running` until a terminal event comes, the step has succeeded already.

What either makes of a stream is a function of its last terminal event, its verdict
(`foldl_observe`, `verdict_exec`). So the two agree on a stream just when it has one
(`seamsAgree_iff`), and a turn that is suspended on a question is a step that succeeded
(`not_seamsAgree_askUser`).
-/

namespace Goble

inductive StepOutcome where
  | succeeded
  | failed (message : String)
deriving DecidableEq, Repr

namespace HarnessServerEvent

/-- The events that settle a turn. -/
def isTerminal : HarnessServerEvent → Bool
  | .done _ | .error _ _ => true
  | _ => false

/-- The last terminal event so far, as the status it settles a turn to. -/
def verdictAfter (verdict : Option TurnStatus) : HarnessServerEvent → Option TurnStatus
  | .done _ => some .success
  | .error _ message => some (.failed message)
  | _ => verdict

theorem verdictAfter_of_not_isTerminal {ev : HarnessServerEvent} (h : ev.isTerminal = false)
    (verdict : Option TurnStatus) : verdictAfter verdict ev = verdict := by
  cases ev with
  | done | error => cases h
  | _ => rfl

end HarnessServerEvent

open HarnessServerEvent

namespace DaemonState

/-! ### The blocking seam -/

/-- One event, through the loop of `run_turn_blocking_with_output`: the outcome and the assistant
text. -/
def observe (acc : StepOutcome × String) : HarnessServerEvent → StepOutcome × String
  | .assistantDelta _ delta => (acc.1, acc.2 ++ delta)
  | .done _ => (.succeeded, acc.2)
  | .error _ message => (.failed message, acc.2)
  | _ => acc

def runTurnBlockingWithOutput (d : DaemonState) (turn : HarnessTurn)
    (events : List HarnessServerEvent) : StepOutcome × String :=
  match d.registry turn.harnessId with
  | none => (.failed ("no harness resolved for " ++ turn.harnessId.val), "")
  | some _ => events.foldl observe (.succeeded, "")

def outcomeOf : Option TurnStatus → StepOutcome
  | some (.failed message) => .failed message
  | _ => .succeeded

theorem fst_observe (acc : StepOutcome × String) (ev : HarnessServerEvent)
    {verdict : Option TurnStatus} (h : acc.1 = outcomeOf verdict) :
    (observe acc ev).1 = outcomeOf (verdictAfter verdict ev) := by
  cases ev with
  | done | error => rfl
  | _ => exact h

theorem foldl_observe (events : List HarnessServerEvent) (acc : StepOutcome × String)
    {verdict : Option TurnStatus} (h : acc.1 = outcomeOf verdict) :
    (events.foldl observe acc).1 = outcomeOf (events.foldl verdictAfter verdict) := by
  induction events generalizing acc verdict with
  | nil => exact h
  | cons ev events ih => exact ih _ (fst_observe acc ev h)

/-! ### The drain task -/

def verdict (dr : Drain) : Option TurnStatus :=
  if dr.finalStatus = .running then none else some (turnStatus dr)

def received (t : TaskId) : DaemonOp → List HarnessServerEvent
  | .drainEvent u ev => if u = t then [ev] else []
  | _ => []

theorem verdict_of_mapEvent {dr : Drain} {ev : HarnessServerEvent} {e : DaemonEvent} {pc : DrainPc}
    (h : mapEvent ev = some e) :
    verdict { dr with
      finalStatus := finalStatusAfter dr e
      finalError := finalErrorAfter dr e
      pc } = verdictAfter (verdict dr) ev := by
  cases ev with
  | ready | toolList | checkpoint => cases h
  | _ =>
    obtain rfl := Option.some.inj h
    rfl

theorem not_isTerminal_of_mapEvent {ev : HarnessServerEvent} (h : mapEvent ev = none) :
    ev.isTerminal = false := by
  cases ev with
  | ready | toolList | checkpoint => rfl
  | _ => cases h

theorem drains_tryLedger (d : DaemonState) (r : LedgerRef)
    (result : Except ReplayError LedgerState) : (d.tryLedger r result).drains = d.drains := by
  unfold tryLedger
  split <;> rfl

theorem verdict_drainEvent (d : DaemonState) (t u : TaskId) (ev : HarnessServerEvent) :
    verdict ((d.drainEvent u ev).drains t) =
      (received t (.drainEvent u ev)).foldl verdictAfter (verdict (d.drains t)) := by
  simp only [drainEvent, received]
  by_cases hut : u = t
  · subst hut
    rw [if_pos rfl, List.foldl_cons, List.foldl_nil]
    split
    · next hmap =>
      rw [drains_tryLedger, verdictAfter_of_not_isTerminal (not_isTerminal_of_mapEvent hmap)]
    · next e hmap =>
      rw [setDrain_drains, Function.update_self]
      exact verdict_of_mapEvent hmap
  · rw [if_neg hut, List.foldl_nil]
    split
    · rw [drains_tryLedger]
    · rw [setDrain_drains, Function.update_of_ne (Ne.symm hut), drains_tryLedger]

/-- Nothing else does. -/
theorem Effect.verdict_eq {d d' : DaemonState} {op : DaemonOp} (h : d.Effect op d')
    (hop : ∀ u ev, op ≠ .drainEvent u ev) {t : TaskId} (ht : t < d.drainCount) :
    verdict (d'.drains t) = verdict (d.drains t) := by
  -- a task rewrites its own entry, and keeps the final variables
  have hmove : ∀ u dr, dr.finalStatus = (d.drains u).finalStatus →
      dr.finalError = (d.drains u).finalError →
      verdict (Function.update d.drains u dr t) = verdict (d.drains t) := by
    intro u dr hstatus herror
    by_cases hut : t = u
    · subst hut
      rw [Function.update_self]
      simp only [verdict, turnStatus, hstatus, herror]
    · rw [Function.update_of_ne hut]
  cases h with
  | run => rw [startRun_drains, Function.update_of_ne (Nat.ne_of_lt ht)]
  | resume => rw [spawnStream_drains, Function.update_of_ne (Nat.ne_of_lt ht)]
  | event => exact absurd rfl (hop _ _)
  | close | mirror | emit | settle | capture | log | persist | setStatus | setFinished
  | traceFinished | remove => exact hmove _ _ rfl rfl
  | _ => rfl

theorem verdict_step {d d' : DaemonState} {op : DaemonOp} (h : d.step op = some d') {t : TaskId}
    (ht : t < d.drainCount) :
    verdict (d'.drains t) = (received t op).foldl verdictAfter (verdict (d.drains t)) ∧
      t < d'.drainCount := by
  obtain ⟨d₁, htouched, heffect⟩ := step_cases h
  -- a ledger that is allocated on the way is no task
  have hd₁ : d₁.drains = d.drains ∧ d₁.drainCount = d.drainCount := by
    obtain rfl | ⟨sid, -, -, rfl⟩ := htouched
    · exact ⟨rfl, rfl⟩
    · exact ⟨rfl, rfl⟩
  have ht₁ : t < d₁.drainCount := hd₁.2 ▸ ht
  refine ⟨?_, Nat.lt_of_lt_of_le ht₁ heffect.drainCount_le⟩
  by_cases hop : ∃ u ev, op = .drainEvent u ev
  · obtain ⟨u, ev, rfl⟩ := hop
    simp only [step] at h
    split at h
    · obtain rfl := Option.some.inj h
      exact verdict_drainEvent d t u ev
    · cases h
  · have hne : ∀ u ev, op ≠ .drainEvent u ev := fun u ev heq => hop ⟨u, ev, heq⟩
    have hnone : received t op = [] := by
      cases op with
      | drainEvent u ev => exact absurd rfl (hne u ev)
      | _ => rfl
    rw [hnone, heffect.verdict_eq hne ht₁, hd₁.1]
    rfl

theorem verdict_exec {registry : HarnessId → Option Harness} {root : Option String}
    {d d' : DaemonState} {ops : List DaemonOp} {t : TaskId} (ht : t < d.drainCount)
    (hrun : (daemonMachine registry root).exec d ops = some d') :
    verdict (d'.drains t) =
      (ops.flatMap (received t)).foldl verdictAfter (verdict (d.drains t)) := by
  induction ops generalizing d with
  | nil =>
    obtain rfl := Option.some.inj hrun
    rfl
  | cons op ops ih =>
    obtain ⟨d₁, hstep, hrest⟩ := Machine.exec_cons_eq_some.mp hrun
    obtain ⟨hverdict, ht₁⟩ := verdict_step hstep ht
    rw [ih ht₁ hrest, hverdict, List.flatMap_cons, List.foldl_append]

/-! ### Agreement -/

def settlement (d : DaemonState) (t : TaskId) : Option TurnStatus :=
  match (d.drains t).pc with
  | .settle => some (turnStatus (d.drains t))
  | _ => none

theorem settlement_drainClose {d d' : DaemonState} {t : TaskId}
    (h : d.step (.drainClose t) = some d') : d'.settlement t = verdict (d.drains t) := by
  simp only [step] at h
  split at h
  · obtain rfl := Option.some.inj h
    simp only [settlement, drainClose, setDrain_drains, Function.update_self, verdict]
    by_cases hrunning : (d.drains t).finalStatus = .running
    · rw [if_pos hrunning, if_pos hrunning]
    · rw [if_neg hrunning, if_neg hrunning]
      rfl
  · cases h

def SeamsAgree (outcome : StepOutcome) (settled : Option TurnStatus) : Prop :=
  (outcome = .succeeded ↔ settled = some .success) ∧
    ∀ message, outcome = .failed message ↔ settled = some (.failed message)

inductive IsVerdict : Option TurnStatus → Prop
  | unsettled : IsVerdict none
  | success : IsVerdict (some .success)
  | failed (message : String) : IsVerdict (some (.failed message))

theorem IsVerdict.foldl {verdict : Option TurnStatus} (h : IsVerdict verdict)
    (events : List HarnessServerEvent) : IsVerdict (events.foldl verdictAfter verdict) := by
  induction events generalizing verdict with
  | nil => exact h
  | cons ev events ih =>
    refine ih ?_
    cases ev with
    | done => exact .success
    | error _ message => exact .failed message
    | _ => exact h

theorem foldl_verdictAfter_eq_none {events : List HarnessServerEvent}
    {verdict : Option TurnStatus} :
    events.foldl verdictAfter verdict = none ↔
      verdict = none ∧ ∀ ev ∈ events, ev.isTerminal = false := by
  induction events generalizing verdict with
  | nil => simp
  | cons ev events ih =>
    rw [List.foldl_cons, ih, List.forall_mem_cons, ← and_assoc]
    refine and_congr_left fun _ => ?_
    cases ev with
    | done | error => simp [verdictAfter, isTerminal]
    | _ => simp [verdictAfter, isTerminal]

/-- A step without a verdict has succeeded, and a turn without one has not. -/
theorem seamsAgree_outcomeOf {verdict : Option TurnStatus} (h : IsVerdict verdict) :
    SeamsAgree (outcomeOf verdict) verdict ↔ verdict ≠ none := by
  cases h with
  | unsettled => simp [SeamsAgree, outcomeOf]
  | success => simp [SeamsAgree, outcomeOf]
  | failed message => simp [SeamsAgree, outcomeOf]

/-- **The two seams.** A task is spawned, receives some events while anything else happens, and its
stream ends; a step whose harness yields the same events has the outcome the turn settles to just
when one of the events is terminal. -/
theorem seamsAgree_iff {registry : HarnessId → Option Harness} {root : Option String}
    {d₀ d d' : DaemonState} {ops : List DaemonOp} {t : TaskId} {stream : List HarnessServerEvent}
    (ht : t < d₀.drainCount) (hspawned : (d₀.drains t).finalStatus = .running)
    (hrun : (daemonMachine registry root).exec d₀ ops = some d)
    (hstream : ops.flatMap (received t) = stream) (hclose : d.step (.drainClose t) = some d')
    (e : DaemonState) {turn : HarnessTurn} {harness : Harness}
    (hharness : e.registry turn.harnessId = some harness) :
    SeamsAgree (e.runTurnBlockingWithOutput turn stream).1 (d'.settlement t) ↔
      ∃ ev ∈ stream, ev.isTerminal = true := by
  have hfresh : verdict (d₀.drains t) = none := if_pos hspawned
  have hsettled : d'.settlement t = stream.foldl verdictAfter none := by
    rw [settlement_drainClose hclose, verdict_exec ht hrun, hfresh, hstream]
  have houtcome : (e.runTurnBlockingWithOutput turn stream).1 = outcomeOf (d'.settlement t) := by
    rw [runTurnBlockingWithOutput, hharness, hsettled]
    exact foldl_observe _ _ rfl
  rw [houtcome, hsettled, seamsAgree_outcomeOf (IsVerdict.unsettled.foldl _), ne_eq,
    foldl_verdictAfter_eq_none]
  simp

def passes (t : TaskId) (ev : HarnessServerEvent) : List DaemonOp :=
  [.drainEvent t ev, .drainAdvance t none 0, .drainAdvance t none 0]

def spawned : DaemonState := (DaemonState.new mockRegistry none).spawnStream ⟨"s"⟩ "trace-s" 0

theorem registry_spawned : spawned.registry ⟨"mock"⟩ = some ⟨⟨"mock"⟩, false⟩ := by decide

theorem seamsAgree_error :
    ∃ d d', (daemonMachine mockRegistry none).exec spawned
        (passes 0 (.done ⟨"s"⟩) ++ passes 0 (.error ⟨"s"⟩ "boom")) = some d ∧
      d.step (.drainClose 0) = some d' ∧
      (SeamsAgree (spawned.runTurnBlockingWithOutput (.new ⟨"mock"⟩ ⟨"s"⟩ "x")
          [.done ⟨"s"⟩, .error ⟨"s"⟩ "boom"]).1 (d'.settlement 0) ↔
        ∃ ev ∈ [HarnessServerEvent.done ⟨"s"⟩, .error ⟨"s"⟩ "boom"], ev.isTerminal = true) := by
  refine ⟨_, _, rfl, rfl, ?_⟩
  exact @seamsAgree_iff mockRegistry none spawned _ _
    (passes 0 (.done ⟨"s"⟩) ++ passes 0 (.error ⟨"s"⟩ "boom")) 0 _ Nat.zero_lt_one rfl rfl rfl rfl
    spawned (.new ⟨"mock"⟩ ⟨"s"⟩ "x") _ registry_spawned

/-- A turn that is suspended on a question. -/
theorem not_seamsAgree_askUser :
    ∃ d d', (daemonMachine mockRegistry none).exec spawned
        (passes 0 (.askUser ⟨"s"⟩ "Which one?" [])) = some d ∧
      d.step (.drainClose 0) = some d' ∧ d'.settlement 0 = none ∧
      (spawned.runTurnBlockingWithOutput (.new ⟨"mock"⟩ ⟨"s"⟩ "x")
        [.askUser ⟨"s"⟩ "Which one?" []]).1 = .succeeded ∧
      ¬ SeamsAgree (spawned.runTurnBlockingWithOutput (.new ⟨"mock"⟩ ⟨"s"⟩ "x")
        [.askUser ⟨"s"⟩ "Which one?" []]).1 (d'.settlement 0) := by
  have hstep : (spawned.runTurnBlockingWithOutput (.new ⟨"mock"⟩ ⟨"s"⟩ "x")
      [.askUser ⟨"s"⟩ "Which one?" []]).1 = .succeeded := by
    rw [runTurnBlockingWithOutput, show (HarnessTurn.new _ _ _).harnessId = ⟨"mock"⟩ from rfl,
      registry_spawned]
    rfl
  refine ⟨_, _, rfl, rfl, rfl, hstep, fun hagree => ?_⟩
  cases hagree.1.mp hstep

end DaemonState

end Goble
