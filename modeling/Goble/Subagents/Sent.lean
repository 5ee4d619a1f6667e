import Goble.Subagents.Cancelling
import Mathlib.Algebra.Ring.Nat

/-!
# What a spawner is told of its child

The task of a child works on a copy of its record. It publishes the copy, and sends it to the
spawner that waits; the registry takes a publication only while its own record is live, so that a
kill the user saw is not overwritten. A kill writes the registry's record and then fires the
child's stop bit, whose reason is stored after it. The task reads the bit between its actions.

* `sent_iff_relayed` — along every run, what the spawner is sent has the status that the registry
  holds just when each step is `Relayed`, and is the record that the registry holds just when the
  copy has also the kill's time.
-/

namespace Goble.Subagents

/-! ### The copy -/

structure SubAgentBudget where
  maxTurns : Nat
  maxToolCalls : Nat
  maxTokens : Nat
deriving DecidableEq, Repr

/-- Why a child ended on budget: the text of the exhaustion. -/
def SubAgentBudget.exhaustion (budget : SubAgentBudget) (turns toolCalls tokens : Nat) :
    Option String :=
  if turns ≥ budget.maxTurns then
    some ("sub-agent budget exhausted: " ++ toString budget.maxTurns ++ " turns (max_turns)")
  else if toolCalls ≥ budget.maxToolCalls then
    some ("sub-agent budget exhausted: " ++ toString budget.maxToolCalls ++
      " tool calls (max_tool_calls)")
  else if tokens ≥ budget.maxTokens then
    some ("sub-agent budget exhausted: " ++ toString budget.maxTokens ++ " tokens (max_tokens)")
  else none

namespace SubAgentRecord

def isTerminal (record : SubAgentRecord) : Bool := record.status.isTerminal

def new (spec : SubAgentSpec) (now : Int) : SubAgentRecord := ⟨spec, .initializing, now, none⟩

def beginRunning (record : SubAgentRecord) : SubAgentRecord :=
  if record.status = .initializing then { record with status := .running 0 0 0 "" } else record

def setActivity (record : SubAgentRecord) (activity : String) : SubAgentRecord :=
  match record.status with
  | .running turns toolCalls tokens _ =>
    { record with status := .running turns toolCalls tokens activity }
  | _ => record

def fail (record : SubAgentRecord) (error : String) (now : Int) : SubAgentRecord :=
  if record.isTerminal then record
  else { record with status := .failed error, finishedAt := some now }

def complete (record : SubAgentRecord) (output : String) (now : Int) : SubAgentRecord :=
  if record.isTerminal then record
  else
    { record with
      status := .completed output (now - record.startedAt).toNat record.status.counts.1
        record.status.counts.2.1 record.status.counts.2.2
      finishedAt := some now }

/-- Charge turns, tool calls and tokens, counted in `u32`, `u32` and `u64`. A record that reaches
its budget has failed by then, which the flag says. -/
def charge (record : SubAgentRecord) (budget : SubAgentBudget) (turns toolCalls tokens : Nat)
    (now : Int) : SubAgentRecord × Bool :=
  if record.isTerminal then (record, false)
  else
    -- A first charge starts the record. The counters wrap as the source's fields do.
    let charged := match record.beginRunning.status with
      | .running t c k activity =>
        { record with
          status := .running ((t + turns) % 2 ^ 32) ((c + toolCalls) % 2 ^ 32)
            ((k + tokens) % 2 ^ 64) activity }
      | _ => record.beginRunning
    match budget.exhaustion charged.status.counts.1 charged.status.counts.2.1
        charged.status.counts.2.2 with
    | some exhaustion => (charged.fail exhaustion now, true)
    | none => (charged, false)

def Same (record record' : SubAgentRecord) : Prop :=
  record'.spec = record.spec ∧ record'.startedAt = record.startedAt

theorem Same.eq {record record' : SubAgentRecord} (h : record.Same record')
    (hstatus : record.status = record'.status)
    (hfinished : record.finishedAt = record'.finishedAt) : record = record' := by
  cases record
  cases record'
  obtain ⟨rfl, rfl⟩ := h
  rw [mk.injEq]
  exact ⟨rfl, hstatus, rfl, hfinished⟩

section Facts

variable {record : SubAgentRecord}

theorem same_fail (error : String) (now : Int) : record.Same (record.fail error now) := by
  unfold fail
  split <;> exact ⟨rfl, rfl⟩

theorem same_complete (output : String) (now : Int) :
    record.Same (record.complete output now) := by
  unfold complete
  split <;> exact ⟨rfl, rfl⟩

theorem same_cancel (reason : String) (now : Int) : record.Same (record.cancel reason now) := by
  unfold cancel
  split <;> exact ⟨rfl, rfl⟩

@[simp] theorem fail_isTerminal (error : String) (now : Int) :
    (record.fail error now).isTerminal = true := by
  unfold fail
  split
  · next h => exact h
  · rfl

@[simp] theorem complete_isTerminal (output : String) (now : Int) :
    (record.complete output now).isTerminal = true := by
  unfold complete
  split
  · next h => exact h
  · rfl

@[simp] theorem cancel_isTerminal (reason : String) (now : Int) :
    (record.cancel reason now).isTerminal = true := by
  unfold cancel
  split
  · next h => exact h
  · rfl

theorem fail_of_terminal (h : record.isTerminal = true) (error : String) (now : Int) :
    record.fail error now = record := if_pos h

theorem fail_of_live (h : record.isTerminal = false) (error : String) (now : Int) :
    record.fail error now = { record with status := .failed error, finishedAt := some now } :=
  if_neg (by simp [h])

theorem complete_of_live (h : record.isTerminal = false) (output : String) (now : Int) :
    record.complete output now =
      { record with
        status := .completed output (now - record.startedAt).toNat record.status.counts.1
          record.status.counts.2.1 record.status.counts.2.2
        finishedAt := some now } :=
  if_neg (by simp [h])

theorem cancel_of_live (h : record.isTerminal = false) (reason : String) (now : Int) :
    record.cancel reason now =
      { record with status := .cancelled reason, finishedAt := some now } :=
  if_neg (by simp [show record.status.isTerminal = false from h])

theorem charge_of_live (h : record.isTerminal = false) (budget : SubAgentBudget)
    (turns toolCalls tokens : Nat) (now : Int) :
    (∃ t c k activity, record.charge budget turns toolCalls tokens now =
        ({ record with status := .running t c k activity }, false)) ∨
      ∃ exhaustion, record.charge budget turns toolCalls tokens now =
        ({ record with status := .failed exhaustion, finishedAt := some now }, true) := by
  obtain ⟨spec, status, startedAt, finishedAt⟩ := record
  unfold charge
  rw [if_neg (by simp [h])]
  cases status with
  | initializing =>
    simp only [beginRunning, if_pos]
    split
    · next exhaustion _ => exact .inr ⟨exhaustion, rfl⟩
    · exact .inl ⟨_, _, _, _, rfl⟩
  | running t c k activity =>
    simp only [beginRunning, reduceCtorEq, if_false]
    split
    · next exhaustion _ => exact .inr ⟨exhaustion, rfl⟩
    · exact .inl ⟨_, _, _, _, rfl⟩
  | completed => cases h
  | failed => cases h
  | cancelled => cases h

end Facts

end SubAgentRecord

/-! ### The task of a child -/

/-- A tool call of a reply, with its arguments as JSON text. -/
structure ChildCall where
  name : String
  arguments : String
deriving DecidableEq, Repr

structure CompletionResponse where
  content : String
  toolCalls : List ChildCall
  usage : Option UsageBuckets
deriving DecidableEq, Repr

/-- About four characters a token. -/
def estimateTokens (response : CompletionResponse) : Nat :=
  (response.content.length + (response.toolCalls.map fun call =>
    call.name.length + call.arguments.length).sum + 3) / 4

/-- The tokens a reply is charged: the provider's count, if there is one. -/
def CompletionResponse.charge (response : CompletionResponse) : Nat :=
  match response.usage with
  | some usage => usage.output
  | none => estimateTokens response

/-- What a stop check lets the loop go on to. -/
inductive NextAction where
  | turn
  | reply (response : CompletionResponse)
  | call (call : ChildCall) (rest : List ChildCall)
deriving DecidableEq, Repr

def NextAction.cost : NextAction → Nat × Nat × Nat
  | turn => (1, 0, 0)
  | reply response => (0, 0, response.charge)
  | call .. => (0, 1, 0)

/-- What the loop does when it has published its record. -/
inductive Onwards where
  | model
  | tool (rest : List ChildCall)
  | leave
deriving DecidableEq, Repr

inductive ChildPoint where
  | prompt
  /-- The stop check reads the child's own bit, then its reason or the parent's bit. -/
  | checking (next : NextAction)
  | readingReason
  | readingParent (next : NextAction)
  | charging (next : NextAction)
  | publishing (next : Onwards)
  | model
  /-- The reply's row is written. -/
  | recording (response : CompletionResponse)
  /-- A tool runs, its row is written. -/
  | running (rest : List ChildCall)
  /-- The states of the calls are written. -/
  | marking (rest : List ChildCall)
  /-- The task publishes what the loop has reached, then sends it. -/
  | finishing
  | sending
  | gone
deriving DecidableEq, Repr

namespace ChildPoint

/-- The loop is over, or about to be left: the copy has ended. -/
def isLate : ChildPoint → Bool
  | publishing .leave | finishing | sending | gone => true
  | _ => false

/-- What follows a publication. -/
def onwards : Onwards → ChildPoint
  | .model => model
  | .tool rest => running rest
  | .leave => finishing

def nextCall : List ChildCall → ChildPoint
  | [] => checking .turn
  | call :: rest => checking (.call call rest)

def errorText : ChildPoint → Option String
  | prompt => some "failed to record the child prompt: "
  | model => some "sub-agent model call failed: "
  | recording _ => some "failed to record the child reply: "
  | running _ => some "failed to record the child tool result: "
  | marking _ => some "failed to record the child tool status: "
  | _ => none

/-- Still in the loop, where an unwinding is caught. -/
def inTurn : ChildPoint → Bool
  | finishing | sending | gone => false
  | _ => true

end ChildPoint

/-- What the world answers an action of the task. -/
inductive ChildAnswer where
  | ok
  | replies (response : CompletionResponse)
  | errs (error : String)
  | panics (message : String)
deriving DecidableEq, Repr

/-- What the kill under way has still to do to the stop bit, with the registry locked. -/
inductive Firing where
  | bit (reason : String)
  | reason (reason : String)
deriving DecidableEq, Repr

/-- One child and the harness around it. -/
structure SpawnState where
  registry : Registry
  /-- The bit of the parent, which its host can set too. -/
  parentCancel : Bool
  /-- The child's stop bit, as its task reads it. -/
  cancel : ChildCancel
  firing : Option Firing
  budget : SubAgentBudget
  /-- The copy that the task owns. -/
  record : SubAgentRecord
  point : ChildPoint
  /-- What the spawner has been sent. -/
  sent : Option SubAgentRecord

namespace SpawnState

def id (s : SpawnState) : String := s.record.spec.id

def entry (s : SpawnState) : Option ChildEntry := s.registry.find s.id

/-- The stop check has a reason to stop. -/
def stopped (s : SpawnState) (reason : String) (now : Int) : SpawnState :=
  { s with record := s.record.cancel reason now, point := .publishing .leave }

/-- The loop returns on an error. -/
def failed (s : SpawnState) (error : String) (now : Int) : SpawnState :=
  { s with record := s.record.fail error now, point := .finishing }

/-- Charge what the loop goes on to; the loop ends when that exhausts the budget. -/
def charged (s : SpawnState) (now : Int) (next : NextAction) : SpawnState :=
  let charge := s.record.charge s.budget next.cost.1 next.cost.2.1 next.cost.2.2 now
  if charge.2 then { s with record := charge.1, point := .publishing .leave }
  else
    match next with
    | .turn => { s with record := charge.1, point := .publishing .model }
    | .reply response => { s with record := charge.1, point := .recording response }
    | .call call rest =>
      { s with
        record := charge.1.setActivity ("running " ++ call.name)
        point := .publishing (.tool rest) }

def published (s : SpawnState) (now : Int) (next : ChildPoint) : Option SpawnState :=
  -- `publish` waits for the lock that the kill holds.
  if s.firing.isSome then none
  else some { s with registry := (s.registry.publish s.record now).1, point := next }

/-- An action of the task that succeeds. -/
def goes (s : SpawnState) (now : Int) : Option SpawnState :=
  match s.point with
  | .prompt => some { s with point := .checking .turn }
  -- `stop_reason`: the own bit first, and its reason in a read of its own.
  | .checking next =>
    if s.cancel.own then some { s with point := .readingReason }
    else some { s with point := .readingParent next }
  | .readingReason => some (s.stopped (s.cancel.reason.getD parentCancelReason) now)
  | .readingParent next =>
    if s.parentCancel then some (s.stopped parentCancelReason now)
    else some { s with point := .charging next }
  | .charging next => some (s.charged now next)
  | .publishing next => s.published now (.onwards next)
  | .model => none
  | .recording response =>
    if response.toolCalls.isEmpty then
      some { s with record := s.record.complete response.content now, point := .finishing }
    else some { s with point := .nextCall response.toolCalls }
  | .running rest => some { s with point := .marking rest }
  | .marking rest => some { s with point := .nextCall rest }
  -- `run_child_task` publishes once more, then sends what it has.
  | .finishing => s.published now .sending
  | .sending => some { s with sent := some s.record, point := .gone }
  | .gone => none

/-- An action of the task. A loop that unwinds leaves its copy failed, if it had not ended. -/
def childStep (s : SpawnState) (now : Int) : ChildAnswer → Option SpawnState
  | .ok => s.goes now
  | .replies response =>
    if s.point = .model then some { s with point := .checking (.reply response) } else none
  | .errs error => s.point.errorText.map fun text => s.failed (text ++ error) now
  -- `catch_unwind` is around the loop only.
  | .panics message =>
    if s.point.inTurn then
      some (s.failed ("sub-agent " ++ s.id ++ " panicked: " ++ message) now)
    else none

end SpawnState

/-! ### The harness around it -/

def RegistryCall.killOf (registry : Registry) (c : String) :
    RegistryCall → Option (String × Int)
  | .cancel id reason now =>
    if c ∈ (registry.cancel id reason now).2.map (·.spec.id) then some (reason, now) else none
  | .cancelAll reason now =>
    if c ∈ (registry.cancelAll reason now).2.map (·.spec.id) then some (reason, now) else none
  | _ => none

def RegistryCall.publishes (c : String) : RegistryCall → Bool
  | .publish record _ => record.spec.id == c
  | _ => false

inductive SpawnStep where
  | other (call : RegistryCall)
  | fires
  | parent (value : Bool)
  | child (now : Int) (answer : ChildAnswer)
deriving DecidableEq, Repr

/-- A step. A kill of the child keeps the registry locked until it has fired the bit; only the
child's task publishes its record. -/
def SpawnStep.apply (s : SpawnState) : SpawnStep → Option SpawnState
  | .other call =>
    if s.firing.isSome || call.publishes s.id then none
    else
      some { s with
        registry := (call.apply s.registry).1
        firing := (call.killOf s.registry s.id).map fun kill => .bit kill.1 }
  | .fires =>
    match s.firing with
    | some (.bit reason) =>
      -- The bit is set already: the reason it was set with stays.
      if s.cancel.own then some { s with firing := none }
      else some { s with cancel := ⟨true, s.cancel.reason⟩, firing := some (.reason reason) }
    | some (.reason reason) =>
      some { s with cancel := ⟨s.cancel.own, some reason⟩, firing := none }
    | none => none
  | .parent value => some { s with parentCancel := value }
  | .child now answer => s.childStep now answer

/-- A child about to be spawned. Ids are drawn at random, so no other child has its id. -/
structure Spawn where
  registry : Registry
  parentCancel : Bool
  budget : SubAgentBudget
  spec : SubAgentSpec
  now : Int
  fresh : registry.find spec.id = none

namespace Spawn

def record (spawn : Spawn) : SubAgentRecord :=
  (SubAgentRecord.new spawn.spec spawn.now).beginRunning

def start (spawn : Spawn) : SpawnState :=
  ⟨(spawn.registry.register spawn.record .new).1, spawn.parentCancel, .new, none, spawn.budget,
    spawn.record, .prompt, none⟩

def machine (spawn : Spawn) : Machine SpawnState SpawnStep := ⟨spawn.start, SpawnStep.apply⟩

end Spawn

/-- Why a foreground spawn fails. -/
inductive SpawnError where
  | reported (text : String)
  | notTerminal (status : SubAgentStatus)
deriving DecidableEq, Repr

/-- What `spawn_subagent` returns for the record it has received. -/
def SubAgentStatus.answer : SubAgentStatus → Except SpawnError String
  | .completed output .. => .ok output
  | .failed error => .error (.reported error)
  | .cancelled reason => .error (.reported reason)
  | status => .error (.notTerminal status)

/-- An answer is the child's output when the record has completed, and the reason otherwise. -/
def Reports (answer : Except SpawnError String) (status : SubAgentStatus) : Prop :=
  (∀ output, answer = .ok output ↔
    ∃ durationMs turns toolCalls tokens,
      status = .completed output durationMs turns toolCalls tokens) ∧
    ∀ text, answer = .error (.reported text) ↔ status = .failed text ∨ status = .cancelled text

theorem SubAgentStatus.answer_reports (status : SubAgentStatus) :
    Reports status.answer status := by
  cases status <;> simp [Reports, answer]

/-! ### What a kill must meet -/

def SubAgentRecord.endsAs (timed : Bool) (record : SubAgentRecord) (status : SubAgentStatus)
    (finishedAt : Option Int) : Bool :=
  record.status == status && (!timed || record.finishedAt == finishedAt)

namespace SpawnState

/-- What a stop check that is about to stop the loop gives as the reason. -/
def stopReason (s : SpawnState) : ChildAnswer → Option String
  | .ok =>
    match s.point with
    | .readingReason => some (s.cancel.reason.getD parentCancelReason)
    | .readingParent _ => if s.parentCancel then some parentCancelReason else none
    | _ => none
  | _ => none

def endsCopy (s : SpawnState) (now : Int) (answer : ChildAnswer) : Bool :=
  !s.record.isTerminal && (s.childStep now answer).any (·.record.isTerminal)

end SpawnState

/-- The condition on a step. A kill of the child finds its copy live, or ended with the reason of
the kill; and once the registry's record has ended, the copy ends at a stop check that gives the
reason of that end. With times, the two ends have one time as well. -/
def Relayed (timed : Bool) (s : SpawnState) : SpawnStep → Bool
  | .other call =>
    (call.killOf s.registry s.id).all fun kill =>
      !s.record.isTerminal || s.record.endsAs timed (.cancelled kill.1) (some kill.2)
  | .child now answer =>
    s.entry.all fun entry =>
      !entry.isTerminal || !s.endsCopy now answer ||
        (s.stopReason answer).any fun reason =>
          entry.record.endsAs timed (.cancelled reason) (some now)
  | .fires => true
  | .parent _ => true

/-! ### What the steps keep -/

variable {entry : ChildEntry}

theorem RegistryCall.find_apply {registry : Registry} {c : String}
    (hfind : registry.find c = some entry) {call : RegistryCall}
    (hpublishes : call.publishes c = false) :
    (call.killOf registry c = none ∧ (call.apply registry).1.find c = some entry) ∨
      ∃ reason now, call.killOf registry c = some (reason, now) ∧ entry.isTerminal = false ∧
        (call.apply registry).1.find c = some (entry.kill reason now) := by
  -- Both calls that kill do so by `Kills`, which says what becomes of this child.
  have hkills : ∀ {reason : String} {now : Int} {registry' : Registry}
      {ended : List SubAgentRecord}, Registry.Kills reason now registry registry' ended →
      (c ∉ ended.map (·.spec.id) ∧ registry'.find c = some entry) ∨
        (c ∈ ended.map (·.spec.id) ∧ entry.isTerminal = false ∧
          registry'.find c = some (entry.kill reason now)) := by
    intro reason now registry' ended h
    obtain ⟨hsame, hnot⟩ | ⟨entry', hfind', hlive, hkilled, hmem⟩ := h.find_cases c
    · exact .inl ⟨hnot, hsame.trans hfind⟩
    · obtain rfl := Option.some.inj (hfind'.symm.trans hfind)
      exact .inr ⟨hmem, hlive, hkilled⟩
  cases call with
  | register record handle =>
    refine .inl ⟨rfl, ?_⟩
    change (registry.register record handle).1.find c = some entry
    unfold Registry.register
    split
    · next hnone =>
      -- The child is registered, so the id is another one.
      have hne : c ≠ record.spec.id := by
        rintro rfl
        exact absurd (hnone.symm.trans hfind) (by simp)
      exact ((registry.find_push ⟨record, handle, .new⟩ hnone c).trans (if_neg hne)).trans hfind
    · exact hfind
  | publish record now =>
    have hne : record.spec.id ≠ c := by simpa [publishes] using hpublishes
    refine .inl ⟨rfl, ?_⟩
    change (registry.publish record now).1.find c = some entry
    unfold Registry.publish
    split
    · exact hfind
    · split
      · exact hfind
      · rw [Registry.find_update, if_neg hne.symm, hfind]
  | cancel id reason now =>
    obtain ⟨hnot, hsame⟩ | ⟨hmem, hlive, hkilled⟩ :=
      hkills (registry.walk_cancel id reason now).kills
    · exact .inl ⟨if_neg hnot, hsame⟩
    · exact .inr ⟨reason, now, if_pos hmem, hlive, hkilled⟩
  | cancelAll reason now =>
    obtain ⟨hnot, hsame⟩ | ⟨hmem, hlive, hkilled⟩ :=
      hkills (registry.kills_cancelAll reason now).1
    · exact .inl ⟨if_neg hnot, hsame⟩
    · exact .inr ⟨reason, now, if_pos hmem, hlive, hkilled⟩

/-- What a publication does to the child: nothing once its record has ended. -/
theorem Registry.find_publish {registry : Registry} {record : SubAgentRecord}
    (hfind : registry.find record.spec.id = some entry) (now : Int) :
    (registry.publish record now).1.find record.spec.id =
      some (if entry.isTerminal then entry else { entry with record }) := by
  unfold publish
  rw [hfind]
  simp only
  split
  · exact hfind
  · have hwritten : entry.writeRecord record = { entry with record } :=
      if_pos (mem_of_find hfind).2
    rw [find_update, if_pos rfl, hfind, Option.map_some, hwritten]

variable {l : SpawnStep}

namespace SpawnState

/-- The copy has ended when the task is late, and is sent at its last action. -/
structure OnTrack (s : SpawnState) : Prop where
  late : s.record.isTerminal = s.point.isLate
  sent : s.sent = if s.point = .gone then some s.record else none

/-- What an action of the task does to the copy. -/
structure Moves (s s' : SpawnState) (now : Int) (answer : ChildAnswer) : Prop where
  registry : s'.registry = s.registry
  same : s.record.Same s'.record
  kept : s.record.isTerminal = true → s'.record = s.record
  /-- The copy ends at a stop check, or in another way than cancelled. -/
  ends : s.record.isTerminal = false → s'.record.isTerminal = true →
    (∃ reason, s.stopReason answer = some reason ∧
      s'.record.status = .cancelled reason ∧ s'.record.finishedAt = some now) ∨
    (s.stopReason answer = none ∧ ∀ reason, s'.record.status ≠ .cancelled reason)
  onTrack : s'.OnTrack
  unsent : s'.point ≠ .sending ∧ s'.point ≠ .gone

variable {s s' : SpawnState} {now : Int} {answer : ChildAnswer}

theorem OnTrack.unsent (h : s.OnTrack) (hpoint : s.point ≠ .gone) : s.sent = none :=
  h.sent.trans (if_neg hpoint)

theorem OnTrack.live (h : s.OnTrack) (hlate : s.point.isLate = false) :
    s.record.isTerminal = false := h.late.trans hlate

theorem OnTrack.moves_live (h : s.OnTrack) (hlate : s.point.isLate = false)
    {record : SubAgentRecord} (hsame : s.record.Same record) (hlive : record.isTerminal = false)
    {point : ChildPoint} (hpoint : point.isLate = false) :
    Moves s { s with record, point } now answer := by
  have hnot : ∀ {p : ChildPoint}, p.isLate = false → p ≠ .gone ∧ p ≠ .sending := by
    rintro p hp
    constructor <;> rintro rfl <;> cases hp
  refine ⟨rfl, hsame, fun hterminal => ?_, fun _ hterminal => ?_, ⟨?_, ?_⟩, (hnot hpoint).symm⟩
  · exact absurd ((h.live hlate).symm.trans hterminal) (by simp)
  · exact absurd (hlive.symm.trans hterminal) (by simp)
  · exact hlive.trans hpoint.symm
  · rw [if_neg (hnot hpoint).1]
    exact h.unsent (hnot hlate).1

/-- An action that leaves the copy alone. -/
theorem OnTrack.moves_on (h : s.OnTrack) (hlate : s.point.isLate = false) {point : ChildPoint}
    (hpoint : point.isLate = false) : Moves s { s with point } now answer :=
  h.moves_live hlate ⟨rfl, rfl⟩ (h.live hlate) hpoint

theorem OnTrack.moves_end (h : s.OnTrack) (hgone : s.point ≠ .gone) {record : SubAgentRecord}
    {point : ChildPoint} (hpoint : point = .publishing .leave ∨ point = .finishing)
    (hsame : s.record.Same record) (hterminal : record.isTerminal = true)
    (hkept : s.record.isTerminal = true → record = s.record)
    (hends : s.record.isTerminal = false →
      (∃ reason, s.stopReason answer = some reason ∧
        record.status = .cancelled reason ∧ record.finishedAt = some now) ∨
      (s.stopReason answer = none ∧ ∀ reason, record.status ≠ .cancelled reason)) :
    Moves s { s with record, point } now answer := by
  refine ⟨rfl, hsame, hkept, fun hlive _ => hends hlive, ⟨?_, ?_⟩, ?_⟩
  · rcases hpoint with rfl | rfl <;> exact hterminal
  · rcases hpoint with rfl | rfl <;> exact h.unsent hgone
  · rcases hpoint with rfl | rfl <;> exact ⟨by simp, by simp⟩

theorem OnTrack.moves_failed (h : s.OnTrack) (hgone : s.point ≠ .gone) (error : String)
    (hstop : s.stopReason answer = none) : Moves s (s.failed error now) now answer := by
  refine h.moves_end hgone (.inr rfl) (SubAgentRecord.same_fail error now)
    (SubAgentRecord.fail_isTerminal error now)
    (fun hterminal => SubAgentRecord.fail_of_terminal hterminal error now) fun hlive => ?_
  refine .inr ⟨hstop, fun reason => ?_⟩
  rw [SubAgentRecord.fail_of_live hlive]
  simp

theorem OnTrack.moves_stopped (h : s.OnTrack) (hlate : s.point.isLate = false) {reason : String}
    (hstop : s.stopReason answer = some reason) :
    Moves s (s.stopped reason now) now answer := by
  have hlive := h.live hlate
  refine h.moves_end (fun he => ?_) (.inl rfl) (SubAgentRecord.same_cancel reason now)
    (SubAgentRecord.cancel_isTerminal reason now) (fun hterminal => ?_) fun _ => ?_
  · rw [he] at hlate
    cases hlate
  · exact absurd (hlive.symm.trans hterminal) (by simp)
  · rw [SubAgentRecord.cancel_of_live hlive]
    exact .inl ⟨reason, hstop, rfl, rfl⟩

theorem OnTrack.moves_charged (h : s.OnTrack) {next : NextAction}
    (hpoint : s.point = .charging next) : Moves s (s.charged now next) now .ok := by
  have hlate : s.point.isLate = false := by
    rw [hpoint]
    rfl
  have hlive := h.live hlate
  have hstop : s.stopReason .ok = none := by
    simp [stopReason, hpoint]
  unfold charged
  -- Charged and still live, or failed with the exhaustion.
  obtain ⟨t, c, k, activity, hcharge⟩ | ⟨exhaustion, hcharge⟩ :=
    SubAgentRecord.charge_of_live hlive s.budget next.cost.1 next.cost.2.1 next.cost.2.2 now
  · simp only [hcharge, Bool.false_eq_true, if_false]
    cases next with
    | turn | reply | call =>
      refine h.moves_live hlate ?_ ?_ ?_
      · exact ⟨rfl, rfl⟩
      · rfl
      · rfl
  · simp only [hcharge, if_true]
    refine h.moves_end (by simp [hpoint]) (.inl rfl) ⟨rfl, rfl⟩ rfl (fun hterminal => ?_)
      fun _ => .inr ⟨hstop, by simp⟩
    exact absurd (hlive.symm.trans hterminal) (by simp)

theorem nextCall_isLate (rest : List ChildCall) : (ChildPoint.nextCall rest).isLate = false := by
  cases rest <;> rfl

/-- What an action of the task can be: one on the copy, a publication, or the send. -/
theorem OnTrack.childStep_cases (h : s.OnTrack) (hstep : s.childStep now answer = some s') :
    Moves s s' now answer ∨
      (s'.OnTrack ∧ s'.registry = (s.registry.publish s.record now).1 ∧ s'.record = s.record ∧
        s'.point ≠ .gone) ∨
      (s.point = .sending ∧ s' = { s with sent := some s.record, point := .gone }) := by
  -- A publication leaves the copy and only moves the task on.
  have hpublished : ∀ {next : ChildPoint}, s.published now next = some s' → s.point ≠ .gone →
      next.isLate = s.point.isLate → next ≠ .gone →
        s'.OnTrack ∧ s'.registry = (s.registry.publish s.record now).1 ∧ s'.record = s.record ∧
          s'.point ≠ .gone := by
    intro next hpublish hgone hlate hnext
    unfold published at hpublish
    split at hpublish
    · cases hpublish
    · obtain rfl := Option.some.inj hpublish
      exact ⟨⟨h.late.trans hlate.symm, (h.unsent hgone).trans (if_neg hnext).symm⟩, rfl, rfl,
        hnext⟩
  cases answer with
  | ok =>
    change s.goes now = some s' at hstep
    unfold goes at hstep
    cases hpoint : s.point with
    | prompt =>
      simp only [hpoint] at hstep
      obtain rfl := Option.some.inj hstep
      exact .inl (h.moves_on (by rw [hpoint]; rfl) rfl)
    | checking next =>
      simp only [hpoint] at hstep
      refine .inl ?_
      by_cases hown : s.cancel.own = true
      · rw [if_pos hown] at hstep
        obtain rfl := Option.some.inj hstep
        exact h.moves_on (by rw [hpoint]; rfl) rfl
      · rw [if_neg hown] at hstep
        obtain rfl := Option.some.inj hstep
        exact h.moves_on (by rw [hpoint]; rfl) rfl
    | readingReason =>
      simp only [hpoint] at hstep
      obtain rfl := Option.some.inj hstep
      exact .inl (h.moves_stopped (by rw [hpoint]; rfl) (by simp [stopReason, hpoint]))
    | readingParent next =>
      simp only [hpoint] at hstep
      refine .inl ?_
      by_cases hparent : s.parentCancel = true
      · rw [if_pos hparent] at hstep
        obtain rfl := Option.some.inj hstep
        exact h.moves_stopped (by rw [hpoint]; rfl) (by simp [stopReason, hpoint, hparent])
      · rw [if_neg hparent] at hstep
        obtain rfl := Option.some.inj hstep
        exact h.moves_on (by rw [hpoint]; rfl) rfl
    | charging next =>
      simp only [hpoint] at hstep
      obtain rfl := Option.some.inj hstep
      exact .inl (h.moves_charged hpoint)
    | publishing next =>
      simp only [hpoint] at hstep
      refine .inr (.inl (hpublished hstep (by simp [hpoint]) ?_ ?_))
      · rw [hpoint]
        cases next <;> rfl
      · cases next <;> simp [ChildPoint.onwards]
    | model =>
      simp only [hpoint] at hstep
      cases hstep
    | recording response =>
      simp only [hpoint] at hstep
      refine .inl ?_
      by_cases hcalls : response.toolCalls.isEmpty = true
      · rw [if_pos hcalls] at hstep
        obtain rfl := Option.some.inj hstep
        have hlive := h.live (by rw [hpoint]; rfl)
        -- A reply without calls completes the copy.
        refine h.moves_end (by simp [hpoint]) (.inr rfl) (SubAgentRecord.same_complete _ _)
          (SubAgentRecord.complete_isTerminal _ _) (fun hterminal => ?_) fun _ => .inr ⟨?_, ?_⟩
        · exact absurd (hlive.symm.trans hterminal) (by simp)
        · simp [stopReason, hpoint]
        · simp [SubAgentRecord.complete_of_live hlive]
      · rw [if_neg hcalls] at hstep
        obtain rfl := Option.some.inj hstep
        exact h.moves_on (by rw [hpoint]; rfl) (nextCall_isLate _)
    | running rest =>
      simp only [hpoint] at hstep
      obtain rfl := Option.some.inj hstep
      exact .inl (h.moves_on (by rw [hpoint]; rfl) rfl)
    | marking rest =>
      simp only [hpoint] at hstep
      obtain rfl := Option.some.inj hstep
      exact .inl (h.moves_on (by rw [hpoint]; rfl) (nextCall_isLate _))
    | finishing =>
      simp only [hpoint] at hstep
      exact .inr (.inl (hpublished hstep (by simp [hpoint]) (by rw [hpoint]; rfl) (by simp)))
    | sending =>
      simp only [hpoint] at hstep
      exact .inr (.inr ⟨rfl, (Option.some.inj hstep).symm⟩)
    | gone =>
      simp only [hpoint] at hstep
      cases hstep
  | replies response =>
    simp only [childStep, Option.ite_none_right_eq_some, Option.some.injEq] at hstep
    obtain ⟨hpoint, rfl⟩ := hstep
    exact .inl (h.moves_on (by rw [hpoint]; rfl) rfl)
  | errs error =>
    obtain ⟨text, htext, rfl⟩ := Option.map_eq_some_iff.mp hstep
    refine .inl (h.moves_failed (fun hgone => ?_) _ rfl)
    rw [hgone] at htext
    cases htext
  | panics message =>
    simp only [childStep, Option.ite_none_right_eq_some, Option.some.injEq] at hstep
    obtain ⟨hturn, rfl⟩ := hstep
    refine .inl (h.moves_failed (fun hgone => ?_) _ rfl)
    rw [hgone] at hturn
    cases hturn

structure Holds (s : SpawnState) (entry : ChildEntry) : Prop where
  found : s.entry = some entry
  same : entry.record.Same s.record
  killed : entry.isTerminal = true → s.record.isTerminal = false →
    ∃ reason, entry.record.status = .cancelled reason
  ended : s.point = .sending ∨ s.point = .gone → entry.isTerminal = true

inductive Effect (s s' : SpawnState) (l : SpawnStep) (entry entry' : ChildEntry) : Prop
  | none (hentry : entry'.record = entry.record) (hcopy : s'.record = s.record)
    (hrelayed : ∀ timed, Relayed timed s l = true)
  | kill {reason : String} {now : Int} (hlive : entry.isTerminal = false)
    (hentry : entry'.record =
      { entry.record with status := .cancelled reason, finishedAt := some now })
    (hcopy : s'.record = s.record)
    (hrelayed : ∀ timed, Relayed timed s l =
      (!s.record.isTerminal || s.record.endsAs timed (.cancelled reason) (some now)))
  | move {now : Int} {answer : ChildAnswer} (hentry : entry' = entry)
    (hmoves : Moves s s' now answer)
    (hrelayed : ∀ timed, Relayed timed s l =
      (!entry.isTerminal || !(!s.record.isTerminal && s'.record.isTerminal) ||
        (s.stopReason answer).any fun reason =>
          entry.record.endsAs timed (.cancelled reason) (some now)))
  | publish (hlive : entry.isTerminal = false) (hentry : entry'.record = s.record)
    (hcopy : s'.record = s.record) (hrelayed : ∀ timed, Relayed timed s l = true)

theorem OnTrack.effect (h : s.OnTrack) (hholds : s.Holds entry) (hstep : l.apply s = some s') :
    s'.OnTrack ∧ ∃ entry', s'.Holds entry' ∧ Effect s s' l entry entry' := by
  obtain ⟨hfound, hsame, hkilled, hended⟩ := hholds
  cases l with
  | other call =>
    simp only [SpawnStep.apply, Option.ite_none_left_eq_some, Bool.not_eq_true,
      Bool.or_eq_false_iff, Option.some.injEq] at hstep
    obtain ⟨⟨-, hpublishes⟩, rfl⟩ := hstep
    refine ⟨⟨h.late, h.sent⟩, ?_⟩
    -- The call kills this child, or leaves its entry.
    obtain ⟨hnone, hfind⟩ | ⟨reason, now, hkill, hlive, hfind⟩ :=
      RegistryCall.find_apply hfound hpublishes
    · refine ⟨entry, ⟨hfind, hsame, hkilled, hended⟩, .none rfl rfl fun timed => ?_⟩
      simp [Relayed, hnone]
    · have hended : (entry.kill reason now).record =
          { entry.record with status := .cancelled reason, finishedAt := some now } :=
        SubAgentRecord.cancel_of_live hlive reason now
      refine ⟨entry.kill reason now, ⟨hfind, ?_, fun _ _ => ⟨reason, ?_⟩, fun _ => ?_⟩,
        .kill hlive hended rfl fun timed => ?_⟩
      · rw [hended]
        exact hsame
      · rw [hended]
      · exact entry.kill_isTerminal reason now
      · simp [Relayed, hkill]
  | fires =>
    -- Only the stop bit changes, which no record depends on.
    have hkept : s'.OnTrack ∧ s'.Holds entry ∧ s'.record = s.record := by
      simp only [SpawnStep.apply] at hstep
      split at hstep
      · split at hstep
        · obtain rfl := Option.some.inj hstep
          exact ⟨⟨h.late, h.sent⟩, ⟨hfound, hsame, hkilled, hended⟩, rfl⟩
        · obtain rfl := Option.some.inj hstep
          exact ⟨⟨h.late, h.sent⟩, ⟨hfound, hsame, hkilled, hended⟩, rfl⟩
      · obtain rfl := Option.some.inj hstep
        exact ⟨⟨h.late, h.sent⟩, ⟨hfound, hsame, hkilled, hended⟩, rfl⟩
      · cases hstep
    exact ⟨hkept.1, entry, hkept.2.1, .none rfl hkept.2.2 fun _ => rfl⟩
  | parent value =>
    obtain rfl := Option.some.inj hstep
    exact ⟨⟨h.late, h.sent⟩, entry, ⟨hfound, hsame, hkilled, hended⟩,
      .none rfl rfl fun _ => rfl⟩
  | child now answer =>
    change s.childStep now answer = some s' at hstep
    have hrelayed : ∀ timed, Relayed timed s (.child now answer) =
        (!entry.isTerminal || !(!s.record.isTerminal && s'.record.isTerminal) ||
          (s.stopReason answer).any fun reason =>
            entry.record.endsAs timed (.cancelled reason) (some now)) := by
      intro timed
      simp [Relayed, hfound, endsCopy, hstep]
    obtain hmoves | ⟨htrack, hregistry, hcopy, hgone⟩ | ⟨hsending, rfl⟩ :=
      h.childStep_cases hstep
    · refine ⟨hmoves.onTrack, entry, ⟨?_, ?_, ?_, ?_⟩, .move rfl hmoves hrelayed⟩
      · rw [SpawnState.entry, SpawnState.id, hmoves.registry, hmoves.same.1]
        exact hfound
      · exact ⟨hmoves.same.1.trans hsame.1, hmoves.same.2.trans hsame.2⟩
      · intro hterminal hlive'
        refine hkilled hterminal (Bool.eq_false_iff.mpr fun hended => ?_)
        rw [hmoves.kept hended, hended] at hlive'
        cases hlive'
      · rintro (hpoint | hpoint)
        · exact absurd hpoint hmoves.unsent.1
        · exact absurd hpoint hmoves.unsent.2
    · have hpublish : (s.registry.publish s.record now).1.find s.record.spec.id = _ :=
        Registry.find_publish hfound now
      have hrelayed' : ∀ timed, Relayed timed s (.child now answer) = true := by
        intro timed
        rw [hrelayed timed, hcopy]
        simp
      have hfind' : s'.entry =
          some (if entry.isTerminal then entry else { entry with record := s.record }) := by
        rw [SpawnState.entry, SpawnState.id, hregistry, hcopy]
        exact hpublish
      -- An entry that has ended is not overwritten.
      by_cases hterminal : entry.isTerminal = true
      · rw [if_pos hterminal] at hfind'
        exact ⟨htrack, entry, ⟨hfind', hcopy ▸ hsame, hcopy ▸ hkilled, fun _ => hterminal⟩,
          .none rfl hcopy hrelayed'⟩
      · rw [if_neg hterminal] at hfind'
        refine ⟨htrack, { entry with record := s.record }, ⟨hfind', ?_, ?_, ?_⟩,
          .publish (Bool.eq_false_iff.mpr hterminal) rfl hcopy hrelayed'⟩
        · rw [hcopy]
          exact ⟨rfl, rfl⟩
        · intro hended hlive'
          rw [hcopy] at hlive'
          exact absurd (hlive'.symm.trans hended) (by simp)
        · intro hpoint
          obtain hpoint := hpoint.resolve_right hgone
          have hlate := htrack.late
          rw [hcopy, hpoint] at hlate
          exact hlate
    · refine ⟨⟨?_, rfl⟩, entry, ⟨hfound, hsame, hkilled, fun _ => hended (.inl hsending)⟩,
        .none rfl rfl fun timed => ?_⟩
      · have hlate := h.late
        rw [hsending] at hlate
        exact hlate
      · rw [hrelayed timed]
        simp

/-- What the registry and the copy say agrees, once both have ended. -/
def agrees (timed : Bool) (s : SpawnState) : Bool :=
  s.entry.all fun entry => !entry.isTerminal || !s.record.isTerminal ||
    entry.record.endsAs timed s.record.status s.record.finishedAt

theorem Effect.spec {entry' : ChildEntry} (h : Effect s s' l entry entry') :
    s'.record.spec = s.record.spec := by
  cases h with
  | none _ hcopy | kill _ _ hcopy | publish _ _ hcopy => rw [hcopy]
  | move _ hmoves => exact hmoves.same.1

theorem agrees_of_found {timed : Bool} (hfound : s.entry = some entry) :
    s.agrees timed = (!entry.isTerminal || !s.record.isTerminal ||
      entry.record.endsAs timed s.record.status s.record.finishedAt) := by
  rw [agrees, hfound, Option.all_some]

/-- **What one step does to the agreement.** It is lost at a step that is not relayed, and only
there; what is lost stays lost. -/
theorem Effect.agrees {entry' : ChildEntry} (hholds : s.Holds entry) (hholds' : s'.Holds entry')
    (heffect : Effect s s' l entry entry') (timed : Bool) :
    s'.agrees timed = (s.agrees timed && Relayed timed s l) := by
  rw [agrees_of_found hholds.found, agrees_of_found hholds'.found]
  cases heffect with
  | none hentry hcopy hrelayed =>
    rw [hrelayed timed, Bool.and_true, ChildEntry.isTerminal, ChildEntry.isTerminal, hentry, hcopy]
  | @kill reason now hlive hentry hcopy hrelayed =>
    have hended : entry'.isTerminal = true := by
      rw [ChildEntry.isTerminal, hentry]
      rfl
    rw [hrelayed timed, hlive, hended, hcopy, hentry]
    have hcomm : SubAgentRecord.endsAs timed
        { entry.record with status := .cancelled reason, finishedAt := some now }
          s.record.status s.record.finishedAt =
        s.record.endsAs timed (.cancelled reason) (some now) := by
      simp only [SubAgentRecord.endsAs, Bool.beq_comm]
    rw [hcomm]
    simp
  | publish hlive hentry hcopy hrelayed =>
    -- A publication makes the two the same record.
    rw [hrelayed timed, hlive, hentry, hcopy]
    simp [SubAgentRecord.endsAs]
  | @move now answer hentry hmoves hrelayed =>
    subst hentry
    rw [hrelayed timed]
    cases hentry : entry'.isTerminal with
    | false => simp
    | true =>
      -- Once both have ended, no action of the task changes either.
      cases hcopy : s.record.isTerminal with
      | true =>
        rw [hmoves.kept hcopy, hcopy]
        simp
      | false =>
        cases hcopy' : s'.record.isTerminal with
        | false => simp
        | true =>
          -- The copy ends after the entry: at a stop check, or not as cancelled at all.
          obtain ⟨reason, hstop, hstatus, hfinished⟩ | ⟨hstop, hnot⟩ := hmoves.ends hcopy hcopy'
          · simp [hstop, hstatus, hfinished]
          · obtain ⟨reason, hcancelled⟩ := hholds.killed hentry hcopy
            have hne : ¬ entry'.record.status = s'.record.status := by
              rw [hcancelled]
              exact fun he => hnot reason he.symm
            simp [hstop, SubAgentRecord.endsAs, hne]

end SpawnState

/-! ### What the spawner is sent -/

namespace Spawn

variable (spawn : Spawn)

theorem onTrack_start : spawn.start.OnTrack := ⟨rfl, rfl⟩

theorem holds_start : ∃ entry, spawn.start.Holds entry ∧ entry.isTerminal = false := by
  refine ⟨⟨spawn.record, .new, .new⟩, ⟨?_, ⟨rfl, rfl⟩, fun h => ?_, fun h => ?_⟩, rfl⟩
  · have hregister : spawn.start.registry =
        spawn.registry.push ⟨spawn.record, .new, .new⟩ spawn.fresh :=
      congrArg Prod.fst (dif_pos spawn.fresh)
    rw [SpawnState.entry, hregister]
    exact (spawn.registry.find_push ⟨spawn.record, .new, .new⟩ spawn.fresh _).trans (if_pos rfl)
  · cases h
  · rcases h with h | h <;> cases h

end Spawn

/-- What every step keeps. -/
def Spawn.Kept (spawn : Spawn) (s : SpawnState) : Prop :=
  s.OnTrack ∧ s.record.spec = spawn.spec ∧ ∃ entry, s.Holds entry

theorem Spawn.Kept.step {spawn : Spawn} {s s' : SpawnState} (h : spawn.Kept s)
    (hstep : spawn.machine.step s l = some s') (timed : Bool) :
    spawn.Kept s' ∧ s'.agrees timed = (s.agrees timed && Relayed timed s l) := by
  obtain ⟨htrack, hspec, entry, hholds⟩ := h
  obtain ⟨htrack', entry', hholds', heffect⟩ := htrack.effect hholds hstep
  exact ⟨⟨htrack', heffect.spec.trans hspec, entry', hholds'⟩,
    heffect.agrees hholds hholds' timed⟩

theorem agrees_iff_along {spawn : Spawn} {run : List SpawnStep} {s : SpawnState}
    (hrun : spawn.machine.exec spawn.machine.init run = some s) (timed : Bool) :
    spawn.Kept s ∧ (s.agrees timed = true ↔
      spawn.machine.Along (fun s l => Relayed timed s l = true) spawn.machine.init run) := by
  obtain ⟨entry, hholds, hlive⟩ := spawn.holds_start
  have hstart : spawn.start.agrees timed = true := by
    rw [SpawnState.agrees_of_found hholds.found, hlive]
    rfl
  -- Agreement is the invariant, and its loss the trap.
  obtain ⟨halong, hkept, hagrees⟩ | ⟨hnot, hkept, hagrees⟩ :=
    Machine.exec_along_or_trap (C := fun s l => Relayed timed s l = true)
      (I := fun s => spawn.Kept s ∧ s.agrees timed = true)
      (T := fun s => spawn.Kept s ∧ s.agrees timed = false)
      (fun s l s' ⟨hkept, hagrees⟩ hrelayed hs => by
        obtain ⟨hkept', hagrees'⟩ := hkept.step hs timed
        exact ⟨hkept', by rw [hagrees', hagrees, hrelayed]; rfl⟩)
      (fun s l s' ⟨hkept, hagrees⟩ hrelayed hs => by
        obtain ⟨hkept', hagrees'⟩ := hkept.step hs timed
        exact ⟨hkept', by rw [hagrees', hagrees, Bool.eq_false_iff.mpr hrelayed]; rfl⟩)
      (fun s l s' ⟨hkept, hagrees⟩ hs => by
        obtain ⟨hkept', hagrees'⟩ := hkept.step hs timed
        exact ⟨hkept', by rw [hagrees', hagrees]; rfl⟩)
      ⟨⟨spawn.onTrack_start, rfl, entry, hholds⟩, hstart⟩ hrun
  · exact ⟨hkept, fun _ => halong, fun _ => hagrees⟩
  · exact ⟨hkept, fun h => absurd (h.symm.trans hagrees) (by simp), fun h => absurd h hnot⟩

/-- **What the spawner is sent.** It has the status that the registry holds just when every kill of
the child is relayed to its copy, and then the spawner returns the output when the registry says
that the child has completed, and the reason otherwise; it is the record that the registry holds
just when the times are relayed as well. -/
theorem sent_iff_relayed {spawn : Spawn} {run : List SpawnStep} {s : SpawnState}
    {record : SubAgentRecord} (hrun : spawn.machine.exec spawn.machine.init run = some s)
    (hsent : s.sent = some record) :
    ∃ entry, s.registry.find spawn.spec.id = some entry ∧ entry.isTerminal = true ∧
      (entry.record = record ↔
        spawn.machine.Along (fun s l => Relayed true s l = true) spawn.machine.init run) ∧
      (entry.record.status = record.status ↔
        spawn.machine.Along (fun s l => Relayed false s l = true) spawn.machine.init run) ∧
      (spawn.machine.Along (fun s l => Relayed false s l = true) spawn.machine.init run →
        Reports record.status.answer entry.record.status) := by
  obtain ⟨⟨htrack, hspec, entry, hholds⟩, htimed⟩ := agrees_iff_along hrun true
  have huntimed := (agrees_iff_along hrun false).2
  -- what has been sent is the copy
  have hgone : s.point = .gone := by
    by_contra hne
    exact absurd ((htrack.unsent hne).symm.trans hsent) (by simp)
  obtain rfl : s.record = record := by
    have hcopy := htrack.sent
    rw [if_pos hgone] at hcopy
    exact Option.some.inj (hcopy.symm.trans hsent)
  have hended : s.record.isTerminal = true := by
    rw [htrack.late, hgone]
    rfl
  have hterminal := hholds.ended (.inr hgone)
  have hagrees : ∀ timed, s.agrees timed =
      entry.record.endsAs timed s.record.status s.record.finishedAt := by
    intro timed
    rw [SpawnState.agrees_of_found hholds.found, hterminal, hended]
    rfl
  rw [hagrees] at htimed huntimed
  have hstatus : entry.record.status = s.record.status ↔
      spawn.machine.Along (fun s l => Relayed false s l = true) spawn.machine.init run := by
    rw [← huntimed]
    simp [SubAgentRecord.endsAs]
  refine ⟨entry, ?_, hterminal, ?_, hstatus, fun halong => ?_⟩
  · rw [← hspec]
    exact hholds.found
  · rw [← htimed]
    simp only [SubAgentRecord.endsAs, Bool.and_eq_true, beq_iff_eq, Bool.not_true,
      Bool.false_or]
    exact ⟨fun he => ⟨by rw [he], by rw [he]⟩, fun ⟨hstatus, hfinished⟩ =>
      hholds.same.eq hstatus hfinished⟩
  · rw [hstatus.mpr halong]
    exact s.record.status.answer_reports

/-- A child of an empty registry. -/
def loneSpawn : Spawn :=
  ⟨.empty, false, ⟨8, 16, 100000⟩, ⟨"agent-1", "chat", "call", "review it", "general", false⟩, 0,
    rfl⟩

/-- The loop as far as the call of the model. -/
def firstTurn : List SpawnStep :=
  [.child 1 .ok, .child 1 .ok, .child 1 .ok, .child 1 .ok, .child 1 .ok]

/-- The user kills the child. -/
def overlayKill : List SpawnStep :=
  [.other (.cancel "agent-1" "killed from the overlay" 2), .fires, .fires]

def noticedRun : List SpawnStep :=
  firstTurn ++ overlayKill ++ [.child 3 (.replies ⟨"done", [], none⟩), .child 3 .ok, .child 3 .ok,
    .child 3 .ok, .child 3 .ok, .child 3 .ok]

/-- The spawner is told the reason of the kill. -/
theorem sent_iff_relayed_noticed :
    ∃ s record entry, loneSpawn.machine.exec loneSpawn.machine.init noticedRun = some s ∧
      s.sent = some record ∧ s.registry.find "agent-1" = some entry ∧
      entry.record.status = .cancelled "killed from the overlay" ∧
      Reports record.status.answer entry.record.status := by
  obtain ⟨s, hrun, hs⟩ := Option.map_eq_some_iff.mp (show
    (loneSpawn.machine.exec loneSpawn.machine.init noticedRun).map (fun s =>
      s.sent.map (·.status)) = some (some (.cancelled "killed from the overlay")) by
        decide +kernel)
  obtain ⟨record, hsent, hstatus⟩ := Option.map_eq_some_iff.mp hs
  obtain ⟨entry, hfind, -, -, hsame, hreports⟩ := sent_iff_relayed hrun hsent
  have halong : loneSpawn.machine.Along (fun s l => Relayed false s l = true)
      loneSpawn.machine.init noticedRun := by decide +kernel
  exact ⟨s, record, entry, hrun, hsent, hfind, (hsame.mpr halong).trans hstatus, hreports halong⟩

/-- The model replies, and the user kills the child when its loop has ended and before its task
publishes that. -/
def unnoticedRun : List SpawnStep :=
  firstTurn ++ [.child 2 (.replies ⟨"done", [], none⟩), .child 2 .ok, .child 2 .ok, .child 2 .ok,
    .child 2 .ok] ++ overlayKill ++ [.child 3 .ok, .child 3 .ok]

/-- The spawner returns the output of a child that the registry says was cancelled. -/
theorem not_reports_unnoticed :
    ∃ s record entry, loneSpawn.machine.exec loneSpawn.machine.init unnoticedRun = some s ∧
      s.sent = some record ∧ s.registry.find "agent-1" = some entry ∧
      record.status.answer = .ok "done" ∧
      entry.record.status = .cancelled "killed from the overlay" ∧
      entry.record ≠ record ∧ ¬ Reports record.status.answer entry.record.status := by
  obtain ⟨s, hrun, hs⟩ := Option.map_eq_some_iff.mp (show
    (loneSpawn.machine.exec loneSpawn.machine.init unnoticedRun).map (fun s =>
      (s.sent.map fun record => record.status.answer,
        (s.registry.find "agent-1").map (·.record.status))) =
      some (some (.ok "done"), some (.cancelled "killed from the overlay")) by decide +kernel)
  obtain ⟨hanswer, hstatus⟩ := Prod.mk.inj hs
  obtain ⟨record, hsent, hanswer⟩ := Option.map_eq_some_iff.mp hanswer
  obtain ⟨entry, hfind, hstatus⟩ := Option.map_eq_some_iff.mp hstatus
  refine ⟨s, record, entry, hrun, hsent, hfind, hanswer, hstatus, fun hsame => ?_,
    fun hreports => ?_⟩
  · rw [← hsame, hstatus] at hanswer
    cases hanswer
  · obtain ⟨_, _, _, _, hcompleted⟩ := (hreports.1 "done").mp hanswer
    rw [hstatus] at hcompleted
    cases hcompleted

end Goble.Subagents
