import Goble.Mission.Runs

/-!
# The parts of a turn

Between the loading of a mission and its settlement a turn plans and executes. `Closed` says of a
property of programs that it holds of the steps that are taken there and is kept by sequencing;
such a property holds of each part, and of the whole (`Closed.plan`, `Closed.executionLoop`).

The steps are `Ordinary` ones: they neither touch the missions nor decide a command, and none says
`Done`. Those of executing are fewer (`Executing`): no reasoning step is taken there and nothing is
asked. Planning changes nothing of the mission but its steps, and never decides that the mission is
done.
-/

namespace Goble.Mission

def HarnessEvent.endsTurn : HarnessEvent → Bool
  | .done | .error _ | .askUser .. | .commandProposed .. => true
  | _ => false

/-- An event of the middle of a turn. -/
def HarnessEvent.Ordinary : HarnessEvent → Prop
  | .done | .missionUpdated .. => False
  | _ => True

/-- A statement of the middle of a turn: messages, steps, and proposals that are pending. -/
def StoreCall.Ordinary : StoreCall → Prop
  | .insertChatMessage .. | .touchChat | .appendChatMessageContent .. | .setChatMessageToolCalls ..
  | .setChatMessageReasoning .. | .listChatMessages | .listChatMessageReasoning
  | .insertReasoningStep .. | .insertPendingAsk _ => True
  | .insertPendingCommand row => row.pending
  | _ => False

def HarnessEvent.Executes : HarnessEvent → Prop
  | .done | .missionUpdated .. | .askUser .. => False
  | _ => True

/-- A statement of the execution phase: messages, and proposals that are pending. -/
def StoreCall.Executes : StoreCall → Prop
  | .insertReasoningStep .. | .insertPendingAsk _ => False
  | call => call.Ordinary

theorem HarnessEvent.Executes.ordinary {event : HarnessEvent} (h : event.Executes) :
    event.Ordinary := by
  cases event with
  | askUser question quickReplies => exact h.elim
  | _ => exact h

variable {c : StoreCall}

theorem StoreCall.Executes.ordinary (h : c.Executes) : c.Ordinary := by
  cases c with
  | insertReasoningStep missionId step => exact h.elim
  | insertPendingAsk row => exact h.elim
  | _ => exact h

def CheckPoint.Inner (point : CheckPoint) : Prop := point = .executionStream ∨ point = .toolCall

instance : DecidablePred CheckPoint.Inner := fun point =>
  inferInstanceAs (Decidable (point = .executionStream ∨ point = .toolCall))

/-- A property of programs that the steps of planning and executing have. -/
structure Closed (K : {α : Type} → Turn α → Prop) : Prop where
  pure : ∀ {α : Type} (a : α), K (pure a)
  bind : ∀ {α β : Type} {p : Turn α} {f : α → Turn β}, K p → (∀ a, K (f a)) → K (p >>= f)
  yield : ∀ {event : HarnessEvent}, event.endsTurn = false → event.Ordinary → K (Turn.yield event)
  /-- An event that is the last of the turn. -/
  ends : ∀ {α : Type} {event : HarnessEvent}, event.endsTurn → event.Ordinary →
    K (Turn.yield event >>= fun _ => (.leave : Turn α))
  uuid : K Turn.uuid
  store : ∀ {c : StoreCall}, c.Ordinary → K (Turn.store c)
  completeStream : ∀ request, K (Turn.completeStream request)
  executeToolCall : ∀ call, K (Turn.executeToolCall call)
  check : ∀ {point : CheckPoint}, ¬ point.Inner → K (Turn.returnIfCancelled point)
  /-- A check that breaks a loop only. -/
  innerCheck : ∀ {α : Type} {point : CheckPoint} {after p : Turn α}, point.Inner → K after → K p →
    ∀ message, K (Turn.cancelled point >>= fun seen =>
      if seen then Turn.yield (.error message) >>= fun _ => after else p)

/-- A property of programs that the steps of executing have. -/
structure Executing (K : {α : Type} → Turn α → Prop) : Prop where
  pure : ∀ {α : Type} (a : α), K (pure a)
  bind : ∀ {α β : Type} {p : Turn α} {f : α → Turn β}, K p → (∀ a, K (f a)) → K (p >>= f)
  yield : ∀ {event : HarnessEvent}, event.endsTurn = false → event.Executes →
    K (Turn.yield event)
  /-- An event that is the last of the turn. -/
  ends : ∀ {α : Type} {event : HarnessEvent}, event.endsTurn → event.Executes →
    K (Turn.yield event >>= fun _ => (.leave : Turn α))
  uuid : K Turn.uuid
  store : ∀ {c : StoreCall}, c.Executes → K (Turn.store c)
  completeStream : ∀ request, K (Turn.completeStream request)
  executeToolCall : ∀ call, K (Turn.executeToolCall call)
  check : ∀ {point : CheckPoint}, ¬ point.Inner → K (Turn.returnIfCancelled point)
  /-- A check that breaks a loop only. -/
  innerCheck : ∀ {α : Type} {point : CheckPoint} {after p : Turn α}, point.Inner → K after → K p →
    ∀ message, K (Turn.cancelled point >>= fun seen =>
      if seen then Turn.yield (.error message) >>= fun _ => after else p)

namespace Executing

variable {K : {α : Type} → Turn α → Prop} (hK : Executing K) {α : Type}

theorem branch {c : Prop} [Decidable c] {p q : Turn α} (hp : K p) (hq : K q) :
    K (if c then p else q) := by
  split
  · exact hp
  · exact hq

include hK

theorem fail (message : List Char) : K (Turn.fail message : Turn α) := hK.ends rfl trivial

theorem storeOrFail (h : c.Executes) : K (Turn.storeOrFail c) := by
  refine hK.bind (hK.store h) fun answer => ?_
  cases answer with
  | ok result => exact hK.pure result
  | error message => exact hK.fail message

theorem insertChatMessage (id : Nat) (role : RowRole) (content : List Char)
    (toolCalls : Option (List ChatToolCall)) :
    K (Turn.insertChatMessage id role content toolCalls) :=
  hK.bind (hK.storeOrFail trivial) fun _ => hK.storeOrFail trivial

theorem buildHistory : K Mission.buildHistory := by
  refine hK.bind (hK.store trivial) fun rows => ?_
  cases rows with
  | error message => exact hK.pure []
  | ok rows => exact hK.bind (hK.store trivial) fun _ => hK.pure _

theorem reasoningStream (stream : List CompletionStreamEvent) (content : List Char)
    (calls : List LlmToolCall) : K (Mission.reasoningStream stream content calls) := by
  induction stream generalizing content calls with
  | nil => exact hK.pure _
  | cons event rest ih =>
    refine hK.bind (hK.check (by rintro (h | h) <;> cases h)) fun _ => ?_
    cases event with
    | assistantDelta delta => exact hK.bind (hK.yield rfl trivial) fun _ => ih _ _
    | reasoningDelta delta => exact ih _ _
    | toolCalls calls => exact ih _ _
    | usage usage => exact hK.bind (hK.yield rfl trivial) fun _ => ih _ _
    | done => exact hK.pure _
    | error message => exact hK.fail message

theorem push (reply : Reply) (delta : List Char) : K (reply.push delta) := by
  rw [Reply.push]
  split
  · exact hK.bind (hK.storeOrFail trivial) fun _ => hK.pure _
  · refine hK.bind hK.uuid fun id => ?_
    exact hK.bind (hK.insertChatMessage _ _ _ _) fun _ => hK.pure _

theorem executionStream (stream : List CompletionStreamEvent) (reply : Reply) :
    K (Mission.executionStream stream reply) := by
  induction stream generalizing reply with
  | nil => exact hK.pure _
  | cons event rest ih =>
    refine hK.innerCheck (.inl rfl) (hK.pure reply) ?_ _
    cases event with
    | assistantDelta delta =>
      refine hK.bind (hK.push reply delta) fun reply => ?_
      exact hK.bind (hK.yield rfl trivial) fun _ => ih reply
    | reasoningDelta delta => exact ih _
    | toolCalls calls => exact ih _
    | usage usage => exact hK.bind (hK.yield rfl trivial) fun _ => ih reply
    | done => exact hK.pure _
    | error message => exact hK.fail message

theorem storeReasoning (reply : Reply) : K (Mission.storeReasoning reply) := by
  rw [Mission.storeReasoning]
  split
  · exact branch (hK.pure ()) (hK.storeOrFail trivial)
  · exact hK.pure ()

theorem attachToolCalls (reply : Reply) : K (Mission.attachToolCalls reply) := by
  rw [Mission.attachToolCalls]
  split
  · exact hK.bind (hK.storeOrFail trivial) fun _ => hK.pure _
  · refine hK.bind hK.uuid fun id => ?_
    exact hK.bind (hK.insertChatMessage _ _ _ _) fun _ => hK.pure _

theorem proposeCommand (cfg : Settings) (messageId : Nat) (records : List ChatToolCall)
    (index : Nat) (call : LlmToolCall) :
    K (Mission.proposeCommand cfg messageId records index call) := by
  refine hK.bind (hK.storeOrFail trivial) fun _ => ?_
  refine hK.bind (hK.storeOrFail (rfl : true = true)) fun _ => ?_
  exact hK.ends rfl trivial

theorem recordResult (messageId : Nat) (records : List ChatToolCall) (callId body : List Char) :
    K (Mission.recordResult messageId records callId body) := by
  refine hK.bind hK.uuid fun id => ?_
  exact hK.bind (hK.insertChatMessage _ _ _ _) fun _ => hK.storeOrFail trivial

theorem runToolCall (messageId : Nat) (records : List ChatToolCall) (index : Nat)
    (call : LlmToolCall) : K (Mission.runToolCall messageId records index call) := by
  refine hK.bind (hK.executeToolCall call) fun answer => ?_
  cases answer with
  | ok outcome =>
    refine hK.bind (hK.recordResult _ _ _ _) fun _ => ?_
    exact hK.bind (hK.yield rfl trivial) fun _ => hK.pure _
  | error message =>
    refine hK.bind (hK.recordResult _ _ _ _) fun _ => ?_
    exact hK.bind (hK.yield rfl trivial) fun _ => hK.pure _

theorem toolLoop (cfg : Settings) (messageId : Nat) (records : List ChatToolCall) (index : Nat)
    (calls : List LlmToolCall) : K (Mission.toolLoop cfg messageId records index calls) := by
  induction calls generalizing records index with
  | nil => exact hK.pure ()
  | cons call rest ih =>
    refine hK.innerCheck (.inr rfl) (hK.pure ()) ?_ _
    refine hK.bind (hK.storeOrFail trivial) fun _ => ?_
    refine hK.bind (hK.yield rfl trivial) fun _ => ?_
    refine branch (hK.proposeCommand _ _ _ _ _) ?_
    exact hK.bind (hK.runToolCall _ _ _ _) fun records => ih records (index + 1)

theorem completeReply (mission : MissionState) : K (Mission.completeReply mission) := by
  refine hK.bind hK.buildHistory fun history => ?_
  refine hK.bind (hK.completeStream _) fun answer => ?_
  cases answer with
  | error message => exact hK.fail message
  | ok stream =>
    refine hK.bind (hK.executionStream stream _) fun reply => ?_
    exact hK.bind (hK.storeReasoning reply) fun _ => hK.pure reply

theorem runBatch (cfg : Settings) (reply : Reply) : K (Mission.runBatch cfg reply) := by
  refine hK.bind (hK.attachToolCalls reply) fun messageId => ?_
  refine hK.bind (hK.storeReasoning _) fun _ => ?_
  exact hK.toolLoop cfg messageId _ 0 reply.toolCalls

theorem executionLoop (cfg : Settings) (mission : MissionState) (left : Nat)
    (prevToolCalls : List LlmToolCall) :
    K (Mission.executionLoop cfg mission left prevToolCalls) := by
  have hcheck : K (Turn.returnIfCancelled .execution) :=
    hK.check (by rintro (h | h) <;> cases h)
  induction left generalizing prevToolCalls with
  | zero => exact hK.bind hcheck fun _ => hK.fail _
  | succ left ih =>
    refine hK.bind hcheck fun _ => ?_
    refine hK.bind (hK.completeReply mission) fun reply => ?_
    refine branch (hK.pure ()) ?_
    exact hK.bind (hK.runBatch cfg reply) fun _ => ih _

end Executing

/-! ### Planning -/

namespace Closed

variable {K : {α : Type} → Turn α → Prop} (hK : Closed K) {α : Type}

include hK

theorem executing : Executing K where
  pure := hK.pure
  bind := hK.bind
  yield hends h := hK.yield hends h.ordinary
  ends hends h := hK.ends hends h.ordinary
  uuid := hK.uuid
  store h := hK.store h.ordinary
  completeStream := hK.completeStream
  executeToolCall := hK.executeToolCall
  check := hK.check
  innerCheck := hK.innerCheck

theorem storeOrFail (h : c.Ordinary) : K (Turn.storeOrFail c) := by
  refine hK.bind (hK.store h) fun answer => ?_
  cases answer with
  | ok result => exact hK.pure result
  | error message => exact hK.executing.fail message

/-- Either the turn is suspended with `AskUser`, or it goes on. -/
theorem askUser (cfg : Settings) (missionId : Nat) (question : List Char)
    (quickReplies : List (List Char)) :
    K (Mission.askUser cfg missionId question quickReplies) := by
  refine hK.bind hK.uuid fun askId => Executing.branch ?_ ?_
  · exact hK.bind hK.uuid fun id => hK.executing.insertChatMessage _ _ _ _
  · exact hK.bind (hK.storeOrFail trivial) fun _ => hK.ends rfl trivial

theorem followDecision (cfg : Settings) (missionId : Nat) (step : ReasoningStep) :
    K (Mission.followDecision cfg missionId step) := by
  refine Executing.branch ?_ (hK.pure ())
  split
  · exact hK.askUser cfg missionId _ _
  · exact hK.pure ()

theorem reasoningStep (index : Nat) (mission : MissionState) (mode : ThinkingMode) :
    K (Mission.reasoningStep index mission mode) := by
  refine hK.bind (hK.check (by rintro (h | h) <;> cases h)) fun _ => ?_
  refine hK.bind hK.executing.buildHistory fun history => ?_
  refine hK.bind (hK.yield rfl trivial) fun _ => ?_
  refine hK.bind (hK.completeStream _) fun answer => ?_
  cases answer with
  | error message => exact hK.executing.fail message
  | ok stream =>
    refine hK.bind (hK.executing.reasoningStream stream [] []) fun _ => ?_
    refine hK.bind (hK.storeOrFail trivial) fun _ => ?_
    exact hK.bind (hK.yield rfl trivial) fun _ => hK.pure _

theorem reasoningLoop (cfg : Settings) (left : Nat) (mission : MissionState)
    (mode : ThinkingMode) : K (Mission.reasoningLoop cfg left mission mode) := by
  induction left generalizing mission mode with
  | zero => exact hK.pure _
  | succ left ih =>
    refine hK.bind (hK.reasoningStep _ mission mode) fun step => ?_
    refine Executing.branch (hK.pure _) ?_
    exact hK.bind (hK.followDecision _ _ _) fun _ => ih _ _

theorem plan (cfg : Settings) (mission : MissionState) : K (Mission.plan cfg mission) :=
  Executing.branch (hK.reasoningLoop cfg _ mission _) (hK.pure _)

theorem executionLoop (cfg : Settings) (mission : MissionState) (left : Nat)
    (prevToolCalls : List LlmToolCall) :
    K (Mission.executionLoop cfg mission left prevToolCalls) :=
  hK.executing.executionLoop cfg mission left prevToolCalls

end Closed

/-! ### What a turn uses -/

section Uses

variable {allowed : Op → Prop} (herror : ∀ message, allowed (.yield (.error message))) {α : Type}

include herror

theorem uses_fail (message : List Char) : (Turn.fail message : Turn α).Uses allowed :=
  Prog.uses_bind (Prog.uses_ofOp (herror message)) fun _ => trivial

theorem uses_storeOrFail (h : allowed (.store c)) :
    (Turn.storeOrFail c).Uses allowed := by
  refine Prog.uses_bind (Prog.uses_ofOp h) fun answer => ?_
  cases answer with
  | ok result => exact Prog.uses_pure result
  | error message => exact uses_fail herror message

theorem uses_returnIfCancelled {point : CheckPoint} (h : allowed (.cancelled point)) :
    (Turn.returnIfCancelled point).Uses allowed :=
  Prog.uses_bind (Prog.uses_ofOp h) fun _ => Prog.uses_ite (uses_fail herror _) (Prog.uses_pure ())

theorem uses_innerCheck {point : CheckPoint} {after p : Turn α} (h : allowed (.cancelled point))
    (hafter : after.Uses allowed) (hp : p.Uses allowed) (message : List Char) :
    (Turn.cancelled point >>= fun seen =>
      if seen then Turn.yield (.error message) >>= fun _ => after else p).Uses allowed := by
  refine Prog.uses_bind (Prog.uses_ofOp h) fun seen => Prog.uses_ite ?_ hp
  exact Prog.uses_bind (Prog.uses_ofOp (herror message)) fun _ => hafter

end Uses

def Op.Ordinary : Op → Prop
  | .yield event => event.Ordinary
  | .store call => call.Ordinary
  | .runLine _ => False
  | _ => True

theorem closed_ordinary : Closed fun {α} (p : Turn α) => p.Uses Op.Ordinary where
  pure a := Prog.uses_pure a
  bind hp hf := Prog.uses_bind hp hf
  yield _ h := Prog.uses_ofOp h
  ends _ h := Prog.uses_bind (Prog.uses_ofOp h) fun _ => trivial
  uuid := Prog.uses_ofOp trivial
  store h := Prog.uses_ofOp h
  completeStream _ := Prog.uses_ofOp trivial
  executeToolCall _ := Prog.uses_ofOp trivial
  check _ := uses_returnIfCancelled (fun _ => trivial) trivial
  innerCheck _ hafter hp := uses_innerCheck (fun _ => trivial) trivial hafter hp

/-! ### What comes before a mission -/

def Op.Records : Op → Prop
  | .yield (.error _) | .uuid | .store (.insertChatMessage ..) | .store .touchChat
  | .store .listChatMessages | .store (.setChatMessageToolCalls ..) | .store .listMissions
  | .store (.setCredential ..) => True
  | _ => False

theorem records_insertChatMessage (id : Nat) (role : RowRole) (content : List Char)
    (toolCalls : Option (List ChatToolCall)) :
    (Turn.insertChatMessage id role content toolCalls).Uses Op.Records :=
  Prog.uses_bind (uses_storeOrFail (fun _ => trivial) trivial) fun _ =>
    uses_storeOrFail (fun _ => trivial) trivial

theorem records_storeCredential (credential : Option (List Char × List Char)) :
    (storeCredential credential).Uses Op.Records := by
  cases credential with
  | none => exact Prog.uses_pure _
  | some credential =>
    refine Prog.uses_bind ?_ fun name => ?_
    · exact Prog.uses_ite (Prog.uses_bind (Prog.uses_ofOp trivial) fun _ => Prog.uses_pure _)
        (Prog.uses_pure _)
    · exact Prog.uses_bind (uses_storeOrFail (fun _ => trivial) trivial) fun _ => Prog.uses_pure _

theorem records_openGoal : openGoal.Uses Op.Records := by
  refine Prog.uses_bind (Prog.uses_ofOp trivial) fun answer => ?_
  cases answer with
  | ok missions => exact Prog.uses_pure _
  | error message => exact Prog.uses_pure _

theorem records_recordCommandOutcome (messageId : Option Nat) (callId : List Char)
    (status : ToolCallStatus) (body : List Char) :
    (recordCommandOutcome messageId callId status body).Uses Op.Records := by
  refine Prog.uses_bind (Prog.uses_ofOp trivial) fun id => ?_
  refine Prog.uses_bind (records_insertChatMessage _ _ _ _) fun _ => ?_
  cases messageId with
  | none => exact Prog.uses_pure ()
  | some messageId =>
    refine Prog.uses_bind (uses_storeOrFail (fun _ => trivial) trivial) fun rows => ?_
    split
    · exact Prog.uses_pure ()
    · split
      · exact Prog.uses_pure ()
      · exact uses_storeOrFail (fun _ => trivial) trivial

def Op.LooksUp : Op → Prop
  | .store (.getCredential _) => True
  | _ => False

theorem looksUp_expandCredentialRefs (fuel : Nat) (text : List Char) :
    (expandCredentialRefs fuel text).Uses Op.LooksUp := by
  induction fuel generalizing text with
  | zero => exact Prog.uses_pure _
  | succ fuel ih =>
    unfold expandCredentialRefs
    split
    · exact Prog.uses_pure _
    · split
      · exact Prog.uses_pure _
      · refine Prog.uses_bind (Prog.uses_ofOp trivial) fun answer => ?_
        match answer with
        | .error message => exact Prog.uses_pure _
        | .ok none => exact Prog.uses_pure _
        | .ok (some value) =>
          refine Prog.uses_bind (ih _) fun expanded => ?_
          cases expanded with
          | error message => exact Prog.uses_pure _
          | ok expanded => exact Prog.uses_pure _

/-! ### What planning returns -/

theorem parseReasoningToolCalls_ne_done (calls : List LlmToolCall) (mode : ThinkingMode) :
    (parseReasoningToolCalls calls mode).1 ≠ .done := by
  rw [parseReasoningToolCalls]
  generalize hstart : (ReasoningDecision.continue, mode) = start
  have hne : start.1 ≠ .done := by
    rw [← hstart]
    exact nofun
  clear hstart
  induction calls generalizing start with
  | nil => exact hne
  | cons call calls ih =>
    refine ih _ ?_
    -- Each call sets one of the other three decisions, or leaves the one before.
    dsimp only
    split_ifs
    · exact hne
    all_goals first | exact hne | exact nofun

theorem returns_reasoningStep (index : Nat) (mission : MissionState) (mode : ThinkingMode) :
    (reasoningStep index mission mode).Returns fun step => step.decision ≠ .done := by
  refine Prog.returns_bind (Prog.returns_true _) fun _ _ => ?_
  refine Prog.returns_bind (Prog.returns_true _) fun history _ => ?_
  refine Prog.returns_bind (Prog.returns_true _) fun _ _ => ?_
  refine Prog.returns_bind (Prog.returns_true _) fun answer _ => ?_
  cases answer with
  | error message => exact fun _ => trivial
  | ok stream =>
    refine Prog.returns_bind (Prog.returns_true _) fun ⟨content, calls⟩ _ => ?_
    refine Prog.returns_bind (Prog.returns_true _) fun _ _ => ?_
    refine Prog.returns_bind (Prog.returns_true _) fun _ _ => ?_
    exact parseReasoningToolCalls_ne_done calls mode

def Planned (mission : MissionState) (result : MissionState × ReasoningDecision) : Prop :=
  result.2 ≠ .done ∧ result.1.id = mission.id ∧ result.1.goal = mission.goal

theorem returns_reasoningLoop (cfg : Settings) (left : Nat) (mission : MissionState)
    (mode : ThinkingMode) :
    (reasoningLoop cfg left mission mode).Returns (Planned mission) := by
  induction left generalizing mission mode with
  | zero => exact ⟨nofun, rfl, rfl⟩
  | succ left ih =>
    refine Prog.returns_bind (returns_reasoningStep _ mission mode) fun step hstep => ?_
    refine Prog.returns_ite (fun _ => ⟨hstep, rfl, rfl⟩) fun _ => ?_
    refine Prog.returns_bind (Prog.returns_true _) fun _ _ => ?_
    exact ih { mission with reasoningSteps := mission.reasoningSteps ++ [step] } step.mode

theorem returns_plan (cfg : Settings) (mission : MissionState) :
    (plan cfg mission).Returns (Planned mission) :=
  Prog.returns_ite (fun _ => returns_reasoningLoop cfg _ mission _) fun _ => ⟨nofun, rfl, rfl⟩

end Goble.Mission
