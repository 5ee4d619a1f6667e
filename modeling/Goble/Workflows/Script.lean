import Goble.Lib.Machine
import Goble.Lib.Text
import Goble.Workflows.Engine

/-!
# Script bodies

A workflow with a Rhai body is run by `ScriptEngine::run`: the script calls host functions, which
write to a `RunState`, and when the evaluation is over `settle` makes a `ScriptRun` of it.

The evaluation itself is not modelled: a script is any list of host calls and the way it ends,
normally or with an error. `complete` is an error of its own kind that the script cannot catch, so
nothing is called after it. An error of `agent` can be caught, and `parallel` swallows it, so a
script may go on after its budget is exhausted.
-/

namespace Goble.Workflows

/-- What a script declares about itself; the phases it draws are not read here. -/
structure Meta where
  name : List Char
  description : List Char
deriving DecidableEq, Repr

structure AgentOpts where
  prompt : List Char
  label : Option (List Char)
  phase : Option (List Char)
  agentType : Option (List Char)
deriving DecidableEq, Repr

structure AgentOutcome where
  agentId : List Char
  success : Bool
  output : List Char
  tokensUsed : Nat
  durationMs : Nat
deriving DecidableEq, Repr

structure AgentCall where
  label : List Char
  phase : Option (List Char)
  prompt : List Char
  success : Bool
  output : List Char
  tokensUsed : Nat
  durationMs : Nat
deriving DecidableEq, Repr

structure PhaseState where
  title : List Char
  startedAt : DateTime
  finishedAt : Option DateTime
  status : StepStatus
deriving DecidableEq, Repr

structure RunState (Value : Type) where
  startedAt : DateTime
  budget : Nat
  spent : Nat
  log : List (List Char)
  calls : List AgentCall
  phases : List PhaseState
  /-- The phase that is open. -/
  «open» : Option Nat
  completed : Option Value
  failure : Option (List Char)
deriving DecidableEq, Repr

/-- The settled result of a script body. A `PhaseRun` has the fields of a `PhaseState`. -/
structure ScriptRun (Value : Type) where
  «meta» : Meta
  status : RunStatus
  phases : List PhaseState
  output : Option Value
  log : List (List Char)
  calls : List AgentCall
  startedAt : DateTime
  finishedAt : DateTime
deriving DecidableEq, Repr

namespace RunState

variable {Value : Type}

def new (startedAt : DateTime) (budget : Nat) : RunState Value :=
  ⟨startedAt, budget, 0, [], [], [], none, none, none⟩

variable (s : RunState Value) (now : DateTime)

def closePhase (status : Option StepStatus) : RunState Value :=
  match s.open with
  | none => s
  | some index =>
    { s with
      «open» := none
      phases := s.phases.modify index fun phase =>
        { phase with status := status.getD phase.status, finishedAt := some now } }

def pushPhase (title : List Char) : RunState Value :=
  { s with
    phases := s.phases ++ [⟨title, now, none, .succeeded⟩]
    «open» := some s.phases.length }

def phaseStatus (title : List Char) : RunState Value :=
  match s.open with
  | none => s.pushPhase now title
  | some index =>
    if s.phases[index]?.map PhaseState.title = some title then s
    else (s.closePhase now none).pushPhase now title

def failHere (message : List Char) : RunState Value :=
  let s := match s.open with
    | some _ => s
    | none => s.phaseStatus now "Run".toList
  match s.open with
  | none => s
  | some index =>
    { s with
      phases := s.phases.modify index fun phase =>
        if phase.status = .succeeded then { phase with status := .failed message } else phase }

/-- What a run of `budget` agent calls says when another one is asked for. -/
def exhausted (budget : Nat) : List Char :=
  "workflow budget exhausted: ".toList ++ Nat.toDigits 10 budget ++ " agent calls allowed".toList

/-- The call is taken from the budget, and its phase is opened if it names one. -/
def admitAgent (opts : AgentOpts) : RunState Value :=
  let s := { s with spent := s.spent + 1 }
  match opts.phase with
  | some phase => s.phaseStatus now phase
  | none => s

/-- A call is known by its label, or else by the first line of its prompt. -/
def labelOf (opts : AgentOpts) : List Char :=
  opts.label.getD ((Text.lines opts.prompt).head?.getD [])

def recordCall (opts : AgentOpts) (outcome : AgentOutcome) : RunState Value :=
  { s with
    calls := s.calls ++ [⟨labelOf opts, opts.phase, opts.prompt, outcome.success, outcome.output,
      outcome.tokensUsed, outcome.durationMs⟩] }

def callAgent (opts : AgentOpts) (outcome : AgentOutcome) :
    RunState Value × Except (List Char) AgentOutcome :=
  if s.spent ≥ s.budget then
    let message := exhausted s.budget
    ({ s with failure := some message }.failHere now message, .error message)
  else
    let s := (s.admitAgent now opts).recordCall opts outcome
    (if outcome.success then s
      else s.failHere now ("agent call failed: ".toList ++ labelOf opts), .ok outcome)

def settle (meta' : Meta) (finishedAt : DateTime) : ScriptRun Value :=
  let s := s.closePhase now none
  let status := match s.failure with
    | some failure => .failed failure
    | none =>
      match s.calls.find? (!·.success) with
      | some first => .failed (first.label ++ ": agent call failed".toList)
      | none => RunStatus.succeeded
  let phases :=
    if s.phases = [] then
      [⟨if Text.trim meta'.name = [] then "Run".toList else meta'.name, s.startedAt,
        some finishedAt,
        match status with
        | .succeeded | .running => .succeeded
        | .failed message => .failed message⟩]
    else s.phases
  ⟨meta', status, phases, s.completed, s.log, s.calls, s.startedAt, finishedAt⟩

end RunState

/-! ### Scripts -/

/-- A call of a host function, with what the host answers and the time it happens at. `budget` and
`json_encode` only read. -/
inductive HostCall (Value : Type) where
  | phase (title : List Char) (now : DateTime)
  | agent (opts : AgentOpts) (outcome : AgentOutcome) (now : DateTime)
  | parallel (calls : List (AgentOpts × AgentOutcome)) (now : DateTime)
  | log (line : List Char)
  /-- `none` when the value is not one of JSON. -/
  | complete (value : Option Value)
deriving DecidableEq, Repr

structure Evaluation (Value : Type) where
  state : RunState Value
  terminated : Bool
deriving DecidableEq, Repr

namespace Evaluation

variable {Value : Type}

def apply (state : RunState Value) : HostCall Value → Evaluation Value
  | .phase title now => ⟨state.phaseStatus now title, false⟩
  | .agent opts outcome now => ⟨(state.callAgent now opts outcome).1, false⟩
  | .parallel calls now =>
    ⟨calls.foldl (fun state (opts, outcome) => (state.callAgent now opts outcome).1) state, false⟩
  | .log line => ⟨{ state with log := state.log ++ [line] }, false⟩
  | .complete value => ⟨{ state with completed := value }, true⟩

end Evaluation

def scriptMachine (Value : Type) (startedAt : DateTime) (budget : Nat) :
    Machine (Evaluation Value) (HostCall Value) where
  init := ⟨.new startedAt budget, false⟩
  step e call := if e.terminated then none else some (Evaluation.apply e.state call)

/-- How the evaluation ends when no `complete` has ended it: normally, or with an error. -/
abbrev Ending := Option (List Char)

/-- `ScriptEngine::run`, from where the evaluation is over. -/
def finish {Value : Type} (e : Evaluation Value) (ending : Ending) (meta' : Meta)
    (now : DateTime) : ScriptRun Value :=
  let state := match e.terminated, ending with
    | false, some error => { e.state with failure := some (e.state.failure.getD error) }
    | _, _ => e.state
  (state.closePhase now none).settle now meta' now

end Goble.Workflows
