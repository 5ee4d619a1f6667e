import Goble.Workflows.Statuses

/-!
# The agent budget

Here a script is what it does next, given what the host functions have answered so far, and the
host answers a call from all the calls it has had. What a script makes of an error is its own
affair: it goes on with it, or ends. `evaluate` runs a script against a host, and its calls are a
run of `scriptMachine` (`exec_calls`).

The budget is checked and charged in `call_agent` alone, so it is enough to know what one call does
(`Charged.callAgent`). In every session of a run the host has had the first `budget` of the calls
that were requested, and each is recorded; a call beyond them leaves a failure, which stays
(`budget_exact`).
-/

namespace Goble.Workflows

variable {Value : Type}

/-- What a script does next. Only `complete` and an error that it does not catch end it early. -/
inductive Script (Value : Type) where
  | done (ending : Ending)
  | complete (value : Option Value)
  | phase (title : List Char) (next : Script Value)
  | log (line : List Char) (next : Script Value)
  /-- `budget()`: the total, and what is spent. -/
  | budget (next : Nat → Nat → Script Value)
  | agent (opts : AgentOpts) (next : Except (List Char) AgentOutcome → Script Value)
  /-- A failed call yields `()`. -/
  | parallel (calls : List AgentOpts) (next : List (Option AgentOutcome) → Script Value)

/-- What the host answers after the calls it has had, and the clock. -/
structure Host where
  agent : List AgentOpts → AgentOpts → AgentOutcome
  now : Nat → DateTime

structure Session (Value : Type) where
  state : RunState Value
  /-- The agent calls that the script has requested. -/
  requested : List AgentOpts
  asked : List AgentOpts
  ticks : Nat

namespace Session

def start (startedAt : DateTime) (budget : Nat) : Session Value :=
  ⟨.new startedAt budget, [], [], 0⟩

variable (host : Host)

def tick (s : Session Value) : DateTime × Session Value :=
  (host.now s.ticks, { s with ticks := s.ticks + 1 })

def callAgent (now : DateTime) (s : Session Value) (opts : AgentOpts) :
    Except (List Char) AgentOutcome × Session Value :=
  let s := { s with requested := s.requested ++ [opts] }
  if s.state.spent ≥ s.state.budget then
    let message := RunState.exhausted s.state.budget
    (.error message, { s with
      state := { s.state with failure := some message }.failHere now message })
  else
    let admitted := s.state.admitAgent now opts
    let outcome := host.agent s.asked opts
    let recorded := admitted.recordCall opts outcome
    (.ok outcome, { s with
      asked := s.asked ++ [opts]
      state := if outcome.success then recorded
        else recorded.failHere now ("agent call failed: ".toList ++ RunState.labelOf opts) })

/-- `parallel`: one sequential pass, results in input order, with the session after each call. -/
def callAgents (now : DateTime) : Session Value → List AgentOpts →
    List (Option AgentOutcome) × List (Session Value)
  | _, [] => ([], [])
  | s, opts :: calls =>
    let (answer, s) := s.callAgent host now opts
    let (answers, sessions) := callAgents now s calls
    (answer.toOption :: answers, s :: sessions)

end Session

namespace Script

open Session

variable (host : Host)

structure Result (Value : Type) where
  session : Session Value
  terminated : Bool
  ending : Ending
  /-- The sessions that were passed through. -/
  sessions : List (Session Value)

def evaluate : Script Value → Session Value → Result Value
  | .done ending, s => ⟨s, false, ending, [s]⟩
  | .complete value, s =>
    let s := { s with state := { s.state with completed := value } }
    ⟨s, true, none, [s]⟩
  | .phase title next, s =>
    let (now, t) := s.tick host
    let result := evaluate next { t with state := t.state.phaseStatus now title }
    { result with sessions := s :: result.sessions }
  | .log line next, s =>
    let result := evaluate next { s with state := { s.state with log := s.state.log ++ [line] } }
    { result with sessions := s :: result.sessions }
  | .budget next, s => evaluate (next s.state.budget s.state.spent) s
  | .agent opts next, s =>
    let (now, t) := s.tick host
    let (answer, t) := t.callAgent host now opts
    let result := evaluate (next answer) t
    { result with sessions := s :: result.sessions }
  | .parallel calls next, s =>
    let (now, t) := s.tick host
    let (answers, sessions) := t.callAgents host now calls
    let result := evaluate (next answers) (sessions.getLast?.getD t)
    { result with sessions := s :: sessions ++ result.sessions }

/-- `ScriptEngine::run`: the evaluation, and the run that it settles to. -/
def run (script : Script Value) (startedAt : DateTime) (budget : Nat) (meta' : Meta)
    (finishedAt : DateTime) : Result Value × ScriptRun Value :=
  let result := script.evaluate host (.start startedAt budget)
  (result, finish ⟨result.session.state, result.terminated⟩ result.ending meta' finishedAt)

end Script

/-! ### A run of the machine -/

section Machine

variable (host : Host)

def Session.answered (now : DateTime) : Session Value → List AgentOpts →
    List (AgentOpts × AgentOutcome)
  | _, [] => []
  | s, opts :: calls =>
    (opts, host.agent s.asked opts) :: answered now (s.callAgent host now opts).2 calls

def Script.calls : Script Value → Session Value → List (HostCall Value)
  | .done _, _ => []
  | .complete value, _ => [.complete value]
  | .phase title next, s =>
    let (now, t) := s.tick host
    .phase title now :: calls next { t with state := t.state.phaseStatus now title }
  | .log line next, s =>
    .log line :: calls next { s with state := { s.state with log := s.state.log ++ [line] } }
  | .budget next, s => calls (next s.state.budget s.state.spent) s
  | .agent opts next, s =>
    let (now, t) := s.tick host
    let (answer, t') := t.callAgent host now opts
    .agent opts (host.agent t.asked opts) now :: calls (next answer) t'
  | .parallel agents next, s =>
    let (now, t) := s.tick host
    let (answers, sessions) := t.callAgents host now agents
    .parallel (t.answered host now agents) now ::
      calls (next answers) (sessions.getLast?.getD t)

theorem Session.callAgent_state (s : Session Value) (now : DateTime) (opts : AgentOpts) :
    (s.callAgent host now opts).2.state =
        (s.state.callAgent now opts (host.agent s.asked opts)).1 ∧
      (s.callAgent host now opts).1 =
        (s.state.callAgent now opts (host.agent s.asked opts)).2 := by
  rw [Session.callAgent, RunState.callAgent]
  split
  · exact ⟨rfl, rfl⟩
  · exact ⟨rfl, rfl⟩

theorem Session.callAgents_state (s : Session Value) (now : DateTime) (agents : List AgentOpts) :
    (((s.callAgents host now agents).2.getLast?.getD s).state) =
      (s.answered host now agents).foldl
        (fun state (opts, outcome) => (state.callAgent now opts outcome).1) s.state := by
  induction agents generalizing s with
  | nil => rfl
  | cons opts agents ih =>
    have hrest := ih (s.callAgent host now opts).2
    rw [(s.callAgent_state host now opts).1] at hrest
    rw [Session.answered, List.foldl_cons]
    refine Eq.trans ?_ hrest
    rw [Session.callAgents, List.getLast?_cons, Option.getD_some]

theorem Script.exec_calls (script : Script Value) (s : Session Value) (startedAt : DateTime)
    (budget : Nat) :
    (scriptMachine Value startedAt budget).exec ⟨s.state, false⟩ (script.calls host s) =
      some ⟨(script.evaluate host s).session.state, (script.evaluate host s).terminated⟩ := by
  induction script generalizing s with
  | done ending => rfl
  | complete value => rfl
  | phase title next ih =>
    exact ih { (s.tick host).2 with state := s.state.phaseStatus (s.tick host).1 title }
  | log line next ih => exact ih { s with state := { s.state with log := s.state.log ++ [line] } }
  | budget next ih => exact ih _ _ s
  | agent opts next ih =>
    have hrest := ih ((s.tick host).2.callAgent host (s.tick host).1 opts).1
      ((s.tick host).2.callAgent host (s.tick host).1 opts).2
    rw [((s.tick host).2.callAgent_state host (s.tick host).1 opts).1] at hrest
    exact hrest
  | parallel agents next ih =>
    have hstate := (s.tick host).2.callAgents_state host (s.tick host).1 agents
    have hrest := ih ((s.tick host).2.callAgents host (s.tick host).1 agents).1
      (((s.tick host).2.callAgents host (s.tick host).1 agents).2.getLast?.getD (s.tick host).2)
    rw [hstate] at hrest
    exact hrest

end Machine

/-! ### What is charged -/

def recordOf (opts : AgentOpts) (outcome : AgentOutcome) : AgentCall :=
  ⟨RunState.labelOf opts, opts.phase, opts.prompt, outcome.success, outcome.output,
    outcome.tokensUsed, outcome.durationMs⟩

def records (host : Host) : List AgentOpts → List AgentOpts → List AgentCall
  | _, [] => []
  | before, opts :: asked =>
    recordOf opts (host.agent before opts) :: records host (before ++ [opts]) asked

theorem records_concat (host : Host) (before asked : List AgentOpts) (opts : AgentOpts) :
    records host before (asked ++ [opts]) =
      records host before asked ++ [recordOf opts (host.agent (before ++ asked) opts)] := by
  induction asked generalizing before with
  | nil => rw [List.append_nil]; rfl
  | cons first asked ih =>
    rw [List.cons_append, records, ih, List.append_assoc]
    rfl

/-- What the phases of a run have no part in. -/
def SameAccount (s t : RunState Value) : Prop :=
  t.budget = s.budget ∧ t.spent = s.spent ∧ t.calls = s.calls ∧ t.failure = s.failure

theorem sameAccount_phaseStatus (s : RunState Value) (now : DateTime) (title : List Char) :
    SameAccount s (s.phaseStatus now title) := by
  rw [RunState.phaseStatus]
  split
  · exact ⟨rfl, rfl, rfl, rfl⟩
  · split
    · exact ⟨rfl, rfl, rfl, rfl⟩
    · rw [RunState.closePhase]
      split
      · exact ⟨rfl, rfl, rfl, rfl⟩
      · exact ⟨rfl, rfl, rfl, rfl⟩

theorem sameAccount_failHere (s : RunState Value) (now : DateTime) (message : List Char) :
    SameAccount s (s.failHere now message) := by
  unfold RunState.failHere
  cases hopen : s.open with
  | some index =>
    simp only [hopen]
    exact ⟨rfl, rfl, rfl, rfl⟩
  | none =>
    have hphase := sameAccount_phaseStatus s now "Run".toList
    simp only
    split
    · exact hphase
    · exact hphase

structure Charged (host : Host) (budget : Nat) (s : Session Value) : Prop where
  total : s.state.budget = budget
  spent : s.state.spent = s.asked.length
  asked : s.asked = s.requested.take budget
  calls : s.state.calls = records host [] s.asked
  failure : budget < s.requested.length → s.state.failure.isSome = true

namespace Charged

variable {host : Host} {budget : Nat} {s : Session Value}

theorem start (host : Host) (startedAt : DateTime) (budget : Nat) :
    Charged host budget (.start startedAt budget : Session Value) where
  total := rfl
  spent := rfl
  asked := List.take_nil.symm
  calls := rfl
  failure h := absurd h (Nat.not_lt_zero _)

theorem of_same (h : Charged host budget s) {t : Session Value}
    (hrequested : t.requested = s.requested) (hasked : t.asked = s.asked)
    (hsame : SameAccount s.state t.state) : Charged host budget t where
  total := hsame.1.trans h.total
  spent := by rw [hsame.2.1, hasked, h.spent]
  asked := by rw [hasked, hrequested, h.asked]
  calls := by rw [hsame.2.2.1, hasked, h.calls]
  failure hlt := by
    rw [hsame.2.2.2]
    exact h.failure (hrequested ▸ hlt)

theorem spent_le (h : Charged host budget s) : s.state.spent ≤ budget := by
  rw [h.spent, h.asked]
  exact List.length_take_le _ _

theorem length_asked (h : Charged host budget s) :
    s.asked.length = min s.requested.length budget := by
  rw [h.asked, List.length_take, Nat.min_comm]

theorem callAgent (h : Charged host budget s) (now : DateTime) (opts : AgentOpts) :
    Charged host budget (s.callAgent host now opts).2 := by
  have hlength := h.length_asked
  rw [Session.callAgent]
  split
  · next hspent =>
    -- the budget is used up, and the call is not made
    have hspent : s.state.spent ≥ s.state.budget := hspent
    rw [h.spent, h.total] at hspent
    let failed : RunState Value :=
      { s.state with failure := some (RunState.exhausted s.state.budget) }
    obtain ⟨hbudget, hsame, hcalls, hfailure⟩ :=
      sameAccount_failHere failed now (RunState.exhausted s.state.budget)
    refine ⟨hbudget.trans h.total, hsame.trans h.spent, ?_, hcalls.trans h.calls, fun _ => ?_⟩
    · rw [List.take_append_of_le_length (by omega)]
      exact h.asked
    · rw [hfailure]
      rfl
  · next hspent =>
    have hspent : ¬ s.state.spent ≥ s.state.budget := hspent
    rw [h.spent, h.total] at hspent
    -- nothing has been refused so far
    have hall : s.asked = s.requested := by
      rw [h.asked]
      exact List.take_of_length_le (by omega)
    let charged : RunState Value := { s.state with spent := s.state.spent + 1 }
    have hadmitted : SameAccount charged (s.state.admitAgent now opts) := by
      rw [RunState.admitAgent]
      split
      · exact sameAccount_phaseStatus charged now _
      · exact ⟨rfl, rfl, rfl, rfl⟩
    have hrecorded : Charged host budget
        { s with
          requested := s.requested ++ [opts]
          asked := s.asked ++ [opts]
          state := (s.state.admitAgent now opts).recordCall opts (host.agent s.asked opts) } := by
      refine ⟨hadmitted.1.trans h.total, ?_, ?_, ?_, fun hlt => ?_⟩
      · rw [List.length_append, ← h.spent]
        exact hadmitted.2.1
      · rw [hall, List.take_of_length_le]
        rw [List.length_append, List.length_singleton]
        omega
      · rw [records_concat, ← h.calls]
        exact congrArg (· ++ [_]) hadmitted.2.2.1
      · rw [List.length_append, List.length_singleton] at hlt
        omega
    simp only
    split
    · exact hrecorded
    · exact hrecorded.of_same rfl rfl (sameAccount_failHere _ _ _)

theorem callAgents (h : Charged host budget s) (now : DateTime) (agents : List AgentOpts) :
    ∀ t ∈ (s.callAgents host now agents).2, Charged host budget t := by
  induction agents generalizing s with
  | nil => exact fun t ht => by cases ht
  | cons opts agents ih =>
    have hfirst := h.callAgent now opts
    intro t ht
    obtain rfl | ht := List.mem_cons.mp ht
    · exact hfirst
    · exact ih hfirst t ht

/-- **A whole run**: the account is right in every session, the last one included. -/
theorem evaluate (h : Charged host budget s) (script : Script Value) :
    (∀ t ∈ (script.evaluate host s).sessions, Charged host budget t) ∧
      Charged host budget (script.evaluate host s).session := by
  -- the sessions of a script are the one it starts in and those of what it does next
  induction script generalizing s with
  | done ending => exact ⟨fun t ht => List.mem_singleton.mp ht ▸ h, h⟩
  | complete value =>
    have hdone := h.of_same rfl rfl (t := { s with state := { s.state with completed := value } })
      ⟨rfl, rfl, rfl, rfl⟩
    exact ⟨fun t ht => List.mem_singleton.mp ht ▸ hdone, hdone⟩
  | phase title next ih =>
    have hphase := h.of_same rfl rfl
      (t := { (s.tick host).2 with state := s.state.phaseStatus (s.tick host).1 title })
      (sameAccount_phaseStatus s.state (s.tick host).1 title)
    obtain ⟨hall, hlast⟩ := ih hphase
    exact ⟨List.forall_mem_cons.mpr ⟨h, hall⟩, hlast⟩
  | log line next ih =>
    have hlog := h.of_same rfl rfl
      (t := { s with state := { s.state with log := s.state.log ++ [line] } })
      ⟨rfl, rfl, rfl, rfl⟩
    obtain ⟨hall, hlast⟩ := ih hlog
    exact ⟨List.forall_mem_cons.mpr ⟨h, hall⟩, hlast⟩
  | budget next ih => exact ih _ _ h
  | agent opts next ih =>
    have hticked : Charged host budget (s.tick host).2 :=
      h.of_same rfl rfl ⟨rfl, rfl, rfl, rfl⟩
    obtain ⟨hall, hlast⟩ := ih _ (hticked.callAgent (s.tick host).1 opts)
    exact ⟨List.forall_mem_cons.mpr ⟨h, hall⟩, hlast⟩
  | parallel agents next ih =>
    have hticked : Charged host budget (s.tick host).2 :=
      h.of_same rfl rfl ⟨rfl, rfl, rfl, rfl⟩
    have hcalls := hticked.callAgents (s.tick host).1 agents
    have hafter : Charged host budget
        (((s.tick host).2.callAgents host (s.tick host).1 agents).2.getLast?.getD
          (s.tick host).2) := by
      cases hlast : ((s.tick host).2.callAgents host (s.tick host).1 agents).2.getLast? with
      | none => exact hticked
      | some t => exact hcalls t (List.mem_of_getLast? hlast)
    obtain ⟨hall, hlast⟩ := ih _ hafter
    refine ⟨List.forall_mem_cons.mpr ⟨h, fun t ht => ?_⟩, hlast⟩
    obtain ht | ht := List.mem_append.mp ht
    · exact hcalls t ht
    · exact hall t ht

end Charged

theorem finish_account (e : Evaluation Value) (ending : Ending) (meta' : Meta) (now : DateTime) :
    (finish e ending meta' now).calls = e.state.calls ∧
      (e.state.failure.isSome = true → (finish e ending meta' now).status.isFailed = true) := by
  have hsettle : ∀ state : RunState Value,
      ((state.closePhase now none).settle now meta' now).calls = state.calls := by
    intro state
    rw [RunState.settle, closePhase_closePhase]
    exact (closePhase_frame state now).2
  obtain ⟨state, terminated⟩ := e
  have hsame : state.failure.isSome = true →
      ((state.closePhase now none).settle now meta' now).status.isFailed = true :=
    fun hfailure => (settle_isFailed state now meta').mpr (.inl hfailure)
  cases terminated with
  | true => exact ⟨hsettle state, hsame⟩
  | false =>
    cases ending with
    | none => exact ⟨hsettle state, hsame⟩
    | some error => exact ⟨hsettle _, fun _ => (settle_isFailed _ now meta').mpr (.inl rfl)⟩

/-- **The agent budget is exact.** Whatever a script does and whatever the host answers, the host
has had the first `budget` of the calls that the script requested, in their order; each of them is
recorded once, in that order; what is spent is the number of calls the host has had, in every
session of the run, and never more than the budget; and a script that requests more fails. -/
theorem budget_exact (host : Host) (script : Script Value) (startedAt : DateTime) (budget : Nat)
    (meta' : Meta) (finishedAt : DateTime) :
    let (result, run) := script.run host startedAt budget meta' finishedAt
    result.session.asked = result.session.requested.take budget ∧
    result.session.asked.length = min result.session.requested.length budget ∧
    run.calls = records host [] result.session.asked ∧
    (∀ s ∈ result.sessions, s.state.spent ≤ budget ∧ s.state.spent = s.asked.length) ∧
    (budget < result.session.requested.length → run.status.isFailed = true) := by
  obtain ⟨hall, hlast⟩ :=
    (Charged.start host startedAt budget : Charged host budget (Session.start _ _)).evaluate script
  let result := script.evaluate host (.start startedAt budget)
  obtain ⟨hcalls, hfailed⟩ := finish_account ⟨result.session.state, result.terminated⟩
    result.ending meta' finishedAt
  refine ⟨hlast.asked, hlast.length_asked, hcalls.trans hlast.calls, fun s hs => ?_, fun hlt => ?_⟩
  · exact ⟨(hall s hs).spent_le, (hall s hs).spent⟩
  · exact hfailed (hlast.failure hlt)

end Goble.Workflows
