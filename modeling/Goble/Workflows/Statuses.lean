import Goble.Lib.Lists
import Goble.Workflows.Script

/-!
# Statuses of a settled script

`Agrees` compares what a settled run says of itself with what it says of its phases, and both with
its incidents: the agent calls that failed, the calls that found the budget exhausted, and the
error the script ended with, each at the phase that was open then.

Incidents of the first two kinds go through `fail_here`, which marks the phase that is open and
opens one if there is none. The error a script ends with only goes to `failure`. So the statuses
agree unless such an error comes while a phase is open in which nothing has failed
(`agrees_iff_marked`); a script that opens a phase and throws is `not_agrees`.
-/

namespace Goble.Workflows

variable {Value : Type}

/-! ### Incidents -/

def RunState.incident (s : RunState Value) (now : DateTime) (opts : AgentOpts)
    (outcome : AgentOutcome) : List Nat :=
  if s.spent ≥ s.budget ∨ outcome.success = false then
    (s.callAgent now opts outcome).1.open.toList
  else []

def RunState.incidents (now : DateTime) : RunState Value → List (AgentOpts × AgentOutcome) → List Nat
  | _, [] => []
  | s, (opts, outcome) :: calls =>
    s.incident now opts outcome ++ incidents now (s.callAgent now opts outcome).1 calls

def Evaluation.incidents (state : RunState Value) : HostCall Value → List Nat
  | .agent opts outcome now => state.incident now opts outcome
  | .parallel calls now => state.incidents now calls
  | .phase .. | .log _ | .complete _ => []

def tracedScript (Value : Type) (startedAt : DateTime) (budget : Nat) :
    Machine (Evaluation Value × List Nat) (HostCall Value) :=
  (scriptMachine Value startedAt budget).withHistory [] fun e call _ incidents =>
    incidents ++ Evaluation.incidents e.state call

/-- The run fails with the error the script ends with. When no phase was ever opened, the one that
`settle` makes stands for the whole run. -/
def Evaluation.lastIncident (e : Evaluation Value) (ending : Ending) : List Nat :=
  if e.terminated = false ∧ ending.isSome = true then [e.state.open.getD 0] else []

/-- The statuses of a settled run agree with each other and with its incidents. -/
structure Agrees (run : ScriptRun Value) (incidents : List Nat) : Prop where
  status : run.status.isFailed = true ↔ ∃ phase ∈ run.phases, phase.status.isFailed = true
  phases : ∀ i phase, run.phases[i]? = some phase →
    (phase.status.isFailed = true ↔ i ∈ incidents)
  finished : ∀ phase ∈ run.phases, phase.finishedAt.isSome = true

/-- If the script ends with an error while a phase is open, something has failed in that phase. -/
def Marked (p : Evaluation Value × List Nat) (ending : Ending) : Prop :=
  p.1.terminated = false → ending.isSome = true → ∀ i, p.1.state.open = some i → i ∈ p.2

/-! ### The phases while the script runs -/

structure PhasesOk (phases : List PhaseState) (current : Option Nat) (incidents : List Nat) :
    Prop where
  last : ∀ i, current = some i → i + 1 = phases.length
  finished : ∀ i phase, phases[i]? = some phase → current ≠ some i →
    phase.finishedAt.isSome = true
  settled : ∀ phase ∈ phases, phase.status ≠ .skipped
  marked : ∀ i phase, phases[i]? = some phase → (phase.status.isFailed = true ↔ i ∈ incidents)
  lt : ∀ i ∈ incidents, i < phases.length

namespace PhasesOk

variable {phases : List PhaseState} {current : Option Nat} {incidents : List Nat}

theorem nil : PhasesOk [] none [] where
  last _ h := by cases h
  finished _ _ h := by cases h
  settled _ h := by cases h
  marked _ _ h := by cases h
  lt _ h := by cases h

theorem close (h : PhasesOk phases (some i) incidents) (now : DateTime) :
    PhasesOk (phases.modify i fun phase => { phase with finishedAt := some now }) none
      incidents where
  last _ hnone := by cases hnone
  finished j phase hphase _ := by
    rw [List.getElem?_modify] at hphase
    obtain ⟨old, hold, rfl⟩ := Option.map_eq_some_iff.mp hphase
    by_cases hij : i = j
    · rw [if_pos hij]
      rfl
    · rw [if_neg hij]
      exact h.finished j old hold fun heq => hij (Option.some.inj heq)
  settled phase hmem := by
    obtain ⟨j, hphase⟩ := List.mem_iff_getElem?.mp hmem
    rw [List.getElem?_modify] at hphase
    obtain ⟨old, hold, rfl⟩ := Option.map_eq_some_iff.mp hphase
    have hsettled := h.settled old (List.mem_of_getElem? hold)
    split <;> exact hsettled
  marked j phase hphase := by
    rw [List.getElem?_modify] at hphase
    obtain ⟨old, hold, rfl⟩ := Option.map_eq_some_iff.mp hphase
    rw [← h.marked j old hold]
    split <;> rfl
  lt j hj := by
    rw [List.length_modify]
    exact h.lt j hj

theorem push (h : PhasesOk phases none incidents) (title : List Char) (now : DateTime) :
    PhasesOk (phases ++ [⟨title, now, none, .succeeded⟩]) (some phases.length) incidents where
  last i hi := by
    rw [← Option.some.inj hi, List.length_append, List.length_singleton]
  finished i phase hphase hne := by
    rcases getElem?_concat_eq_some.mp hphase with hold | ⟨rfl, -⟩
    · exact h.finished i phase hold (by simp)
    · exact absurd rfl hne
  settled phase hmem := by
    rcases List.mem_append.mp hmem with hold | hnew
    · exact h.settled phase hold
    · rw [List.mem_singleton.mp hnew]
      simp
  marked i phase hphase := by
    rcases getElem?_concat_eq_some.mp hphase with hold | ⟨rfl, rfl⟩
    · exact h.marked i phase hold
    · -- the new phase has had no incident: those there were are at earlier phases
      constructor
      · intro hfailed
        cases hfailed
      · intro hmem
        exact absurd (h.lt _ hmem) (Nat.lt_irrefl _)
  lt i hi := by
    rw [List.length_append]
    exact Nat.lt_add_right _ (h.lt i hi)

theorem fail (h : PhasesOk phases (some i) incidents) (message : List Char) :
    PhasesOk (phases.modify i fun phase =>
        if phase.status = .succeeded then { phase with status := .failed message } else phase)
      (some i) (incidents ++ [i]) where
  last j hj := by
    rw [List.length_modify]
    exact h.last j hj
  finished j phase hphase hne := by
    rw [List.getElem?_modify] at hphase
    obtain ⟨old, hold, rfl⟩ := Option.map_eq_some_iff.mp hphase
    rw [if_neg fun hij => hne (congrArg some hij)]
    exact h.finished j old hold hne
  settled phase hmem := by
    obtain ⟨j, hphase⟩ := List.mem_iff_getElem?.mp hmem
    rw [List.getElem?_modify] at hphase
    obtain ⟨old, hold, rfl⟩ := Option.map_eq_some_iff.mp hphase
    have hsettled := h.settled old (List.mem_of_getElem? hold)
    split
    · split
      · simp
      · exact hsettled
    · exact hsettled
  marked j phase hphase := by
    rw [List.getElem?_modify] at hphase
    obtain ⟨old, hold, rfl⟩ := Option.map_eq_some_iff.mp hphase
    have hmarked := h.marked j old hold
    rw [List.mem_append, List.mem_singleton]
    by_cases hij : i = j
    · -- the phase is marked now, if it was not before
      have hfailed : (if old.status = .succeeded then { old with status := .failed message }
          else old).status.isFailed = true := by
        have hsettled := h.settled old (List.mem_of_getElem? hold)
        cases hstatus : old.status with
        | skipped => exact absurd hstatus hsettled
        | succeeded => rfl
        | failed message => simp [hstatus, StepStatus.isFailed]
      rw [if_pos hij]
      exact ⟨fun _ => .inr hij.symm, fun _ => hfailed⟩
    · rw [if_neg hij, hmarked]
      exact ⟨.inl, fun hmem => hmem.resolve_right (Ne.symm hij)⟩
  lt j hj := by
    rw [List.length_modify]
    rcases List.mem_append.mp hj with hj | hj
    · exact h.lt j hj
    · rw [List.mem_singleton.mp hj, ← h.last i rfl]
      exact Nat.lt_succ_self i

end PhasesOk

/-! ### The run -/

structure Consistent (s : RunState Value) (incidents : List Nat) : Prop where
  ok : PhasesOk s.phases s.open incidents
  unopened : s.open = none → s.phases = []
  failed : s.failure.isSome = true ∨ (∃ call ∈ s.calls, call.success = false) ↔ incidents ≠ []

namespace Consistent

variable {s : RunState Value} {incidents : List Nat}

theorem initial (startedAt : DateTime) (budget : Nat) :
    Consistent (.new startedAt budget : RunState Value) [] where
  ok := .nil
  unopened _ := rfl
  failed := by simp [RunState.new]

theorem phaseStatus (h : Consistent s incidents) (now : DateTime) (title : List Char) :
    Consistent (s.phaseStatus now title) incidents ∧
      (s.phaseStatus now title).open.isSome = true := by
  unfold RunState.phaseStatus
  split
  · next hopen =>
    have hok := h.ok
    rw [hopen] at hok
    exact ⟨⟨hok.push title now, fun hnone => (by cases hnone), h.failed⟩, rfl⟩
  · next index hopen =>
    split
    · exact ⟨h, by rw [hopen]; rfl⟩
    · have hok := h.ok
      rw [hopen] at hok
      have hclosed : s.closePhase now none = { s with
          «open» := none
          phases := s.phases.modify index fun phase =>
            { phase with finishedAt := some now } } := by
        simp only [RunState.closePhase, hopen, Option.getD_none]
      rw [hclosed]
      exact ⟨⟨(hok.close now).push title now, fun hnone => (by cases hnone), h.failed⟩, rfl⟩

theorem failHere (h : PhasesOk s.phases s.open incidents)
    (hfailed : s.failure.isSome = true ∨ ∃ call ∈ s.calls, call.success = false)
    (now : DateTime) (message : List Char) :
    Consistent (s.failHere now message)
      (incidents ++ (s.failHere now message).open.toList) := by
  unfold RunState.failHere
  cases hopen : s.open with
  | some i =>
    rw [hopen] at h
    simp only [hopen]
    exact ⟨h.fail message, fun hnone => (by cases hnone), by simpa using hfailed⟩
  | none =>
    rw [hopen] at h
    have hpush : s.phaseStatus now "Run".toList = s.pushPhase now "Run".toList := by
      simp only [RunState.phaseStatus, hopen]
    simp only [hpush, RunState.pushPhase]
    exact ⟨(h.push _ now).fail message, fun hnone => (by cases hnone), by simpa using hfailed⟩

theorem admitAgent (h : Consistent s incidents) (now : DateTime) (opts : AgentOpts) :
    Consistent (s.admitAgent now opts) incidents := by
  have hspent : Consistent { s with spent := s.spent + 1 } incidents :=
    ⟨h.ok, h.unopened, h.failed⟩
  unfold RunState.admitAgent
  cases opts.phase with
  | some phase => exact (hspent.phaseStatus now phase).1
  | none => exact hspent

theorem callAgent (h : Consistent s incidents) (now : DateTime) (opts : AgentOpts)
    (outcome : AgentOutcome) :
    Consistent (s.callAgent now opts outcome).1
      (incidents ++ s.incident now opts outcome) := by
  rw [RunState.incident]
  by_cases hspent : s.spent ≥ s.budget
  · rw [if_pos (.inl hspent), RunState.callAgent, if_pos hspent]
    exact failHere (s := { s with failure := some (RunState.exhausted s.budget) }) h.ok
      (.inl rfl) now _
  · have hadmitted := h.admitAgent now opts
    rw [RunState.callAgent, if_neg hspent]
    cases hsuccess : outcome.success with
    | true =>
      rw [if_neg (by simp [hspent]), List.append_nil]
      refine ⟨hadmitted.ok, hadmitted.unopened, ?_⟩
      rw [← hadmitted.failed]
      simp [RunState.recordCall, hsuccess, or_and_right, exists_or]
    | false =>
      rw [if_pos (.inr rfl)]
      refine failHere (s := (s.admitAgent now opts).recordCall opts outcome) hadmitted.ok
        (.inr ?_) now _
      exact ⟨_, List.mem_append_right _ (List.mem_singleton_self _), hsuccess⟩

theorem callAgents (h : Consistent s incidents) (now : DateTime)
    (calls : List (AgentOpts × AgentOutcome)) :
    Consistent (calls.foldl (fun s (opts, outcome) => (s.callAgent now opts outcome).1) s)
      (incidents ++ s.incidents now calls) := by
  induction calls generalizing s incidents with
  | nil =>
    rw [RunState.incidents, List.append_nil]
    exact h
  | cons call calls ih =>
    rw [RunState.incidents, ← List.append_assoc]
    exact ih (h.callAgent now call.1 call.2)

/-- **Invariant preservation.** -/
theorem apply (h : Consistent s incidents) (call : HostCall Value) :
    Consistent (Evaluation.apply s call).state
      (incidents ++ Evaluation.incidents s call) := by
  cases call with
  | phase title now =>
    rw [Evaluation.incidents, List.append_nil]
    exact (h.phaseStatus now title).1
  | agent opts outcome now => exact h.callAgent now opts outcome
  | parallel calls now => exact h.callAgents now calls
  | log line =>
    rw [Evaluation.incidents, List.append_nil]
    exact ⟨h.ok, h.unopened, h.failed⟩
  | complete value =>
    rw [Evaluation.incidents, List.append_nil]
    exact ⟨h.ok, h.unopened, h.failed⟩

end Consistent

/-- Whatever a script calls, the phases are marked as its incidents are. -/
theorem consistent_of_exec {startedAt : DateTime} {budget : Nat} {calls : List (HostCall Value)}
    {p : Evaluation Value × List Nat}
    (hrun : (tracedScript Value startedAt budget).exec (tracedScript Value startedAt budget).init
      calls = some p) : Consistent p.1.state p.2 := by
  refine Machine.invariant_of_step (I := fun p => Consistent p.1.state p.2)
    (Consistent.initial startedAt budget) ?_ hrun
  rintro ⟨e, incidents⟩ call ⟨e', incidents'⟩ h hstep
  obtain ⟨hstep, hincidents⟩ := Machine.step_withHistory_eq_some.mp hstep
  change (if e.terminated then none else some (Evaluation.apply e.state call)) = some e' at hstep
  split at hstep
  · cases hstep
  · obtain rfl := Option.some.inj hstep
    change incidents' = incidents ++ Evaluation.incidents e.state call at hincidents
    rw [hincidents]
    exact h.apply call

/-! ### Settling -/

theorem PhasesOk.closePhase {s : RunState Value} {incidents : List Nat}
    (h : PhasesOk s.phases s.open incidents) (now : DateTime) :
    PhasesOk (s.closePhase now none).phases none incidents ∧
      (s.closePhase now none).phases.length = s.phases.length := by
  unfold RunState.closePhase
  cases hopen : s.open with
  | none =>
    rw [hopen] at h
    exact ⟨h, rfl⟩
  | some i =>
    rw [hopen] at h
    exact ⟨h.close now, List.length_modify ..⟩

theorem closePhase_closePhase (s : RunState Value) (now : DateTime) :
    (s.closePhase now none).closePhase now none = s.closePhase now none := by
  have hclosed : (s.closePhase now none).open = none := by
    unfold RunState.closePhase
    cases hopen : s.open with
    | none => exact hopen
    | some i => rfl
  rw [RunState.closePhase.eq_def (s.closePhase now none), hclosed]

theorem closePhase_frame (s : RunState Value) (now : DateTime) :
    (s.closePhase now none).failure = s.failure ∧ (s.closePhase now none).calls = s.calls := by
  unfold RunState.closePhase
  cases s.open with
  | none => exact ⟨rfl, rfl⟩
  | some i => exact ⟨rfl, rfl⟩

theorem settle_isFailed (s : RunState Value) (now : DateTime) (meta' : Meta) :
    ((s.closePhase now none).settle now meta' now).status.isFailed = true ↔
      s.failure.isSome = true ∨ ∃ call ∈ s.calls, call.success = false := by
  obtain ⟨hfailure, hcalls⟩ := closePhase_frame s now
  simp only [RunState.settle, closePhase_closePhase, hfailure, hcalls]
  cases s.failure with
  | some failure => simp [RunStatus.isFailed]
  | none =>
    cases hfind : s.calls.find? (!·.success) with
    | some first =>
      have hfirst : first.success = false := by simpa using List.find?_some hfind
      simp only [RunStatus.isFailed, true_iff]
      exact .inr ⟨first, List.mem_of_find?_eq_some hfind, hfirst⟩
    | none =>
      simp only [RunStatus.isFailed, Bool.false_eq_true, Option.isSome_none, false_or, false_iff]
      rintro ⟨call, hmem, hcall⟩
      have hsuccess := List.find?_eq_none.mp hfind call hmem
      rw [hcall] at hsuccess
      exact hsuccess rfl

theorem settle_phases {s : RunState Value} (hphases : s.phases ≠ []) {incidents : List Nat}
    (h : PhasesOk s.phases s.open incidents) (now : DateTime) (meta' : Meta) :
    ((s.closePhase now none).settle now meta' now).phases = (s.closePhase now none).phases := by
  have hne : (s.closePhase now none).phases ≠ [] := fun hnil => by
    have hlen := (h.closePhase now).2
    rw [hnil] at hlen
    exact hphases (List.eq_nil_of_length_eq_zero hlen.symm)
  simp only [RunState.settle, closePhase_closePhase, if_neg hne]

theorem settle_unopened {s : RunState Value} (hphases : s.phases = []) (hopen : s.open = none)
    (now : DateTime) (meta' : Meta) :
    ∃ phase, ((s.closePhase now none).settle now meta' now).phases = [phase] ∧
      phase.status.isFailed =
        ((s.closePhase now none).settle now meta' now).status.isFailed ∧
      phase.finishedAt.isSome = true := by
  have hclosed : s.closePhase now none = s := by simp only [RunState.closePhase, hopen]
  simp only [RunState.settle, hclosed, hphases, if_true]
  refine ⟨_, rfl, ?_, rfl⟩
  cases s.failure with
  | some failure => rfl
  | none =>
    cases s.calls.find? (!·.success) with
    | some first => rfl
    | none => rfl

theorem PhasesOk.agrees {s : RunState Value} {incidents : List Nat}
    (h : PhasesOk s.phases s.open incidents) (hphases : s.phases ≠ [])
    (hfailed : s.failure.isSome = true ∨ (∃ call ∈ s.calls, call.success = false) ↔
      incidents ≠ []) (now : DateTime) (meta' : Meta) :
    Agrees ((s.closePhase now none).settle now meta' now) incidents := by
  obtain ⟨hclosed, -⟩ := h.closePhase now
  have hsame := settle_phases hphases h now meta'
  refine ⟨?_, ?_, ?_⟩
  · rw [settle_isFailed, hfailed, hsame]
    constructor
    · intro hne
      obtain ⟨i, hi⟩ := List.exists_mem_of_ne_nil _ hne
      obtain ⟨phase, hphase⟩ : ∃ phase, (s.closePhase now none).phases[i]? = some phase :=
        ⟨_, List.getElem?_eq_getElem (hclosed.lt i hi)⟩
      exact ⟨phase, List.mem_of_getElem? hphase, (hclosed.marked i phase hphase).mpr hi⟩
    · rintro ⟨phase, hmem, hphase⟩
      obtain ⟨i, hi⟩ := List.mem_iff_getElem?.mp hmem
      exact List.ne_nil_of_mem ((hclosed.marked i phase hi).mp hphase)
  · rw [hsame]
    exact hclosed.marked
  · rw [hsame]
    intro phase hmem
    obtain ⟨i, hi⟩ := List.mem_iff_getElem?.mp hmem
    exact hclosed.finished i phase hi (by simp)

theorem agrees_unopened {s : RunState Value} (hphases : s.phases = []) (hopen : s.open = none)
    (now : DateTime) (meta' : Meta) (incidents : List Nat)
    (hfailed : s.failure.isSome = true ∨ (∃ call ∈ s.calls, call.success = false) ↔
      0 ∈ incidents) :
    Agrees ((s.closePhase now none).settle now meta' now) incidents := by
  obtain ⟨phase, hsettled, hstatus, hfinished⟩ := settle_unopened hphases hopen now meta'
  have hrun := settle_isFailed s now meta'
  refine ⟨?_, fun i other hother => ?_, ?_⟩
  · rw [hsettled, ← hstatus]
    simp
  · rw [hsettled] at hother
    obtain ⟨hlt, hother⟩ := List.getElem?_eq_some_iff.mp hother
    obtain rfl : i = 0 := Nat.lt_one_iff.mp hlt
    rw [← hother, ← hfailed, ← hrun, ← hstatus]
    rfl
  · rw [hsettled]
    simpa using hfinished

/-- **Statuses agree, unless an error goes unmarked.** For every sequence of host calls and every
ending, the statuses of the settled run agree with each other and with its incidents if and only
if the script does not end with an error in a phase in which nothing has failed. -/
theorem agrees_iff_marked (startedAt : DateTime) (budget : Nat) (calls : List (HostCall Value))
    (p : Evaluation Value × List Nat) (ending : Ending) (meta' : Meta) (now : DateTime)
    (hrun : (tracedScript Value startedAt budget).exec (tracedScript Value startedAt budget).init
      calls = some p) :
    Agrees (finish p.1 ending meta' now) (p.2 ++ p.1.lastIncident ending) ↔ Marked p ending := by
  obtain ⟨⟨state, terminated⟩, incidents⟩ := p
  have h : Consistent state incidents := consistent_of_exec hrun
  have hunopened : state.open = none → incidents = [] := fun hopen => by
    refine List.eq_nil_iff_forall_not_mem.mpr fun i hi => ?_
    have hlt := h.ok.lt i hi
    rw [h.unopened hopen] at hlt
    exact absurd hlt (Nat.not_lt_zero i)
  by_cases herror : terminated = false ∧ ending.isSome = true
  · -- the script ends with an error
    obtain ⟨rfl, hending⟩ := herror
    obtain ⟨error, rfl⟩ := Option.isSome_iff_exists.mp hending
    simp only [finish, Evaluation.lastIncident, Option.isSome_some, and_self, if_true, Marked,
      true_implies]
    rcases Option.eq_none_or_eq_some state.open with hopen | ⟨i, hopen⟩
    · refine iff_of_true ?_ (fun i hi => by simp [hopen] at hi)
      rw [hunopened hopen]
      have hunopened' := agrees_unopened
        (s := { state with failure := some (state.failure.getD error) })
        (h.unopened hopen) hopen now meta' ([] ++ [0]) (by simp)
      simpa only [hopen, Option.getD_none] using hunopened'
    · have hne : state.phases ≠ [] := fun hnil => by
        have hlast := h.ok.last i hopen
        rw [hnil] at hlast
        cases hlast
      have hgetD : state.open.getD 0 = i := by rw [hopen, Option.getD_some]
      rw [hgetD]
      constructor
      · -- the open phase has the error for an incident, so it must have been marked before
        intro hagrees j hj
        obtain rfl := Option.some.inj (hopen.symm.trans hj)
        obtain ⟨hclosed, hlen⟩ := h.ok.closePhase now
        have hlt : i < (state.closePhase now none).phases.length := by
          rw [hlen, ← h.ok.last i hopen]
          exact Nat.lt_succ_self i
        obtain ⟨phase, hphase⟩ : ∃ phase, (state.closePhase now none).phases[i]? = some phase :=
          ⟨_, List.getElem?_eq_getElem hlt⟩
        have hsame := settle_phases
          (s := { state with failure := some (state.failure.getD error) }) hne h.ok now meta'
        have hfailed := hagrees.phases i phase (by
          rw [hsame, ← hphase]
          simp only [RunState.closePhase, hopen])
        exact (hclosed.marked i phase hphase).mp
          (hfailed.mpr (List.mem_append_right _ (List.mem_singleton_self i)))
      · intro hmarked
        have hi : i ∈ incidents := hmarked i hopen
        have hsame : ∀ j, j ∈ incidents ++ [i] ↔ j ∈ incidents := by
          intro j
          rw [List.mem_append, List.mem_singleton]
          exact ⟨fun hj => hj.elim id fun hij => hij ▸ hi, .inl⟩
        have hagrees := PhasesOk.agrees
          (s := { state with failure := some (state.failure.getD error) }) h.ok hne
          (by simp [List.ne_nil_of_mem hi]) now meta'
        exact ⟨hagrees.status, fun j phase hphase => (hagrees.phases j phase hphase).trans
          (hsame j).symm, hagrees.finished⟩
  · -- it ends normally, or with `complete`
    have hfinish : finish ⟨state, terminated⟩ ending meta' now =
        (state.closePhase now none).settle now meta' now := by
      unfold finish
      split
      · rename_i hterminated
        exact absurd ⟨hterminated, rfl⟩ herror
      · rfl
    rw [hfinish, Evaluation.lastIncident, if_neg herror, List.append_nil]
    refine iff_of_true ?_ (fun hterminated hending => absurd ⟨hterminated, hending⟩ herror)
    cases hopen : state.open with
    | none =>
      refine agrees_unopened (h.unopened hopen) hopen now meta' _ ?_
      rw [h.failed, hunopened hopen]
      simp
    | some i =>
      refine h.ok.agrees (fun hnil => ?_) h.failed now meta'
      have hlast := h.ok.last i hopen
      rw [hnil] at hlast
      cases hlast

def failingCalls : List (HostCall Unit) :=
  [.phase "Check".toList 1,
    .agent ⟨"run the tests".toList, none, none, none⟩
      ⟨"child".toList, false, "boom".toList, 7, 12⟩ 2]

theorem agrees_after_failed_agent :
    ∃ p, (tracedScript Unit 0 1).exec (tracedScript Unit 0 1).init failingCalls = some p ∧
      Agrees (finish p.1 (some "stopped".toList) ⟨"release".toList, []⟩ 3)
        (p.2 ++ p.1.lastIncident (some "stopped".toList)) := by
  refine ⟨_, rfl, (agrees_iff_marked 0 1 failingCalls _ (some "stopped".toList) _ 3 rfl).mpr ?_⟩
  rintro - - i hi
  obtain rfl := Option.some.inj hi
  decide

/-- A script opens a phase and throws: the run has failed, and no phase of it has. -/
theorem not_agrees :
    ¬ ∀ (startedAt : DateTime) (budget : Nat) (calls : List (HostCall Unit))
      (p : Evaluation Unit × List Nat) (ending : Ending) (meta' : Meta) (now : DateTime),
      (tracedScript Unit startedAt budget).exec (tracedScript Unit startedAt budget).init calls =
        some p →
      Agrees (finish p.1 ending meta' now) (p.2 ++ p.1.lastIncident ending) := by
  intro hall
  have hagrees := hall 0 128 [.phase "Check".toList 1] _ (some "stopped".toList)
    ⟨"release".toList, []⟩ 2 rfl
  obtain ⟨phase, hmem, hfailed⟩ := hagrees.status.mp rfl
  obtain rfl := List.mem_singleton.mp hmem
  cases hfailed

end Goble.Workflows
