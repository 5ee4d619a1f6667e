import Mathlib.Data.List.Basic

/-!
# The step engine

`WorkflowEngine::run` runs the steps of a workflow in their order and stops at the first one that
fails. What it settles is the status of the run and that of each step (`settles_of_run`). A script body settles the same two statuses in its
own way (`Goble.Workflows.Script`).
-/

namespace Goble.Workflows

/-- A point in time, in nanoseconds. -/
abbrev DateTime := Int

structure Step where
  id : List Char
  name : List Char
deriving DecidableEq, Repr

structure Workflow where
  id : List Char
  steps : List Step
deriving DecidableEq, Repr

inductive StepOutcome where
  | succeeded
  | failed (message : List Char)
deriving DecidableEq, Repr

inductive StepStatus where
  /-- Not yet run: a later step when an earlier one failed. -/
  | skipped
  | succeeded
  | failed (message : List Char)
deriving DecidableEq, Repr

def StepStatus.isFailed : StepStatus → Bool
  | failed _ => true
  | _ => false

inductive RunStatus where
  | running
  | succeeded
  | failed (message : List Char)
deriving DecidableEq, Repr

def RunStatus.isFailed : RunStatus → Bool
  | failed _ => true
  | _ => false

structure StepExecution where
  index : Nat
  stepId : List Char
  name : List Char
  status : StepStatus
  startedAt : DateTime
  finishedAt : Option DateTime
deriving DecidableEq, Repr

structure WorkflowRun (Value : Type) where
  workflowId : List Char
  status : RunStatus
  steps : List StepExecution
  startedAt : DateTime
  finishedAt : Option DateTime
  output : Option Value
  log : List (List Char)
deriving DecidableEq, Repr

/-- What the engine asks of its surroundings: how a step settles, and the time before and after. -/
structure Executor where
  run : Step → StepOutcome
  startedAt : Nat → DateTime
  finishedAt : Nat → DateTime

def skipped (at' : DateTime) (steps : List Step) (index : Nat) : List StepExecution :=
  steps.mapIdx fun i step => ⟨index + i, step.id, step.name, .skipped, at', some at'⟩

def runSteps (executor : Executor) : Nat → List Step → List StepExecution × RunStatus
  | _, [] => ([], .running)
  | index, step :: steps =>
    let entry (status : StepStatus) : StepExecution :=
      ⟨index, step.id, step.name, status, executor.startedAt index,
        some (executor.finishedAt index)⟩
    match executor.run step with
    | .succeeded =>
      let (entries, status) := runSteps executor (index + 1) steps
      (entry .succeeded :: entries, status)
    | .failed message =>
      (entry (.failed message) :: skipped (executor.finishedAt index) steps (index + 1),
        .failed message)

def run {Value : Type} (executor : Executor) (workflow : Workflow) (startedAt now : DateTime) :
    WorkflowRun Value :=
  let (steps, status) := runSteps executor 0 workflow.steps
  let finishedAt := steps.getLast?.bind (·.finishedAt)
  { workflowId := workflow.id
    status := if status = .running then .succeeded else status
    steps
    startedAt
    finishedAt := if status = .running then some now else finishedAt
    output := none
    log := [] }

/-- The steps are run up to the first that fails. Its message is that of the run, and the steps
after it are skipped. -/
def Settles (executor : Executor) (steps : List Step) (statuses : List StepStatus)
    (status : RunStatus) : Prop :=
  ((∀ step ∈ steps, executor.run step = .succeeded) ∧ status = .succeeded ∧
    statuses = steps.map fun _ => .succeeded) ∨
  ∃ before step after message, steps = before ++ step :: after ∧
    (∀ earlier ∈ before, executor.run earlier = .succeeded) ∧
    executor.run step = .failed message ∧ status = .failed message ∧
    statuses = before.map (fun _ => .succeeded) ++ .failed message :: after.map fun _ => .skipped

theorem map_skipped {α : Type} (f : StepExecution → α) (at' : DateTime) (steps : List Step)
    (index : Nat) : (skipped at' steps index).map f =
      steps.mapIdx fun i step => f ⟨index + i, step.id, step.name, .skipped, at', some at'⟩ := by
  simp only [skipped, List.mapIdx_eq_zipIdx_map, List.map_map, Function.comp_def]

theorem runSteps_settles (executor : Executor) (index : Nat) (steps : List Step) :
    Settles executor steps ((runSteps executor index steps).1.map (·.status))
      (if (runSteps executor index steps).2 = .running then .succeeded
        else (runSteps executor index steps).2) := by
  induction steps generalizing index with
  | nil => exact .inl ⟨fun _ h => absurd h List.not_mem_nil, rfl, rfl⟩
  | cons step steps ih =>
    rw [runSteps]
    cases hrun : executor.run step with
    | succeeded =>
      obtain ⟨hall, hstatus, hstatuses⟩ | ⟨before, s, after, message, hsplit, hall, hs, hstatus,
        hstatuses⟩ := ih (index + 1)
      · exact .inl ⟨List.forall_mem_cons.mpr ⟨hrun, hall⟩, hstatus, congrArg _ hstatuses⟩
      · exact .inr ⟨step :: before, s, after, message, congrArg _ hsplit,
          List.forall_mem_cons.mpr ⟨hrun, hall⟩, hs, hstatus, congrArg _ hstatuses⟩
    | failed message =>
      refine .inr ⟨[], step, steps, message, rfl, fun _ h => absurd h List.not_mem_nil, hrun,
        rfl, congrArg (List.cons _) ?_⟩
      rw [map_skipped, List.mapIdx_eq_iff]
      exact fun i => List.getElem?_map

theorem runSteps_steps (executor : Executor) (index : Nat) (steps : List Step) :
    (runSteps executor index steps).1.map (fun entry => (entry.index, entry.stepId, entry.name)) =
      steps.mapIdx fun i step => (index + i, step.id, step.name) := by
  induction steps generalizing index with
  | nil => rfl
  | cons step steps ih =>
    rw [runSteps, List.mapIdx_cons]
    cases executor.run step with
    | succeeded =>
      refine congrArg (List.cons _) ((ih (index + 1)).trans ?_)
      simp only [Nat.add_assoc, Nat.add_comm 1]
    | failed message =>
      refine congrArg (List.cons _) ?_
      rw [map_skipped]
      simp only [Nat.add_assoc, Nat.add_comm 1]

theorem runSteps_finished (executor : Executor) (index : Nat) (steps : List Step) :
    ∀ entry ∈ (runSteps executor index steps).1, entry.finishedAt.isSome = true := by
  induction steps generalizing index with
  | nil => simp [runSteps]
  | cons step steps ih =>
    rw [runSteps]
    cases executor.run step with
    | succeeded => simpa using ih (index + 1)
    | failed message =>
      intro entry hentry
      obtain rfl | hentry := List.mem_cons.mp hentry
      · rfl
      · obtain ⟨i, hi, rfl⟩ := List.mem_mapIdx.mp hentry
        rfl

/-- **The log of a run** has one finished entry for each step, in their order, and says what became
of it. -/
theorem settles_of_run {Value : Type} (executor : Executor) (workflow : Workflow)
    (startedAt now : DateTime) :
    let settled : WorkflowRun Value := run executor workflow startedAt now
    Settles executor workflow.steps (settled.steps.map (·.status)) settled.status ∧
      settled.steps.map (fun entry => (entry.index, entry.stepId, entry.name)) =
        workflow.steps.mapIdx (fun i step => (i, step.id, step.name)) ∧
      ∀ entry ∈ settled.steps, entry.finishedAt.isSome = true := by
  refine ⟨runSteps_settles executor 0 workflow.steps, ?_,
    runSteps_finished executor 0 workflow.steps⟩
  have hsteps := runSteps_steps executor 0 workflow.steps
  simp only [Nat.zero_add] at hsteps
  exact hsteps

end Goble.Workflows
