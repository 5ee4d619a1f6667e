import Goble.Lib.Effects
import Goble.Mission.Store

/-!
# One turn of the harness

`reasoning::mission` and `reasoning::resume`: a turn streams what the model answers, runs the tools
it calls and yields events as it goes. It is a program (`Goble.Prog`) over the operations `Op`; the
comments of the source on *why* are not repeated here.

A store call may fail, and then mostly ends the turn with an `Error`. The flag of `cancel` is read
at five points (`CheckPoint`). Three of them return from the turn; the two of the execution phase
that sit in an inner loop only leave that loop.

The prompts and the tool definitions that go into a request are texts made of the mission's goal
and steps; the request has these instead.
-/

namespace Goble.Mission

inductive CheckPoint
  | reasoning
  /-- At an event of the planning reply. -/
  | reasoningStream
  | execution
  /-- At an event of the reply that is executed. -/
  | executionStream
  | toolCall
deriving DecidableEq

/-- What a completion is asked from: the list that `build_history` made, and what the prompts are
made of. -/
structure CompletionRequest where
  history : List Message
  goal : List Char
  reasoningSteps : List ReasoningStep
  /-- The thinking mode of a planning request, `none` for one that executes. -/
  planning : Option ThinkingMode

inductive Op
  | yield (event : HarnessEvent)
  | cancelled (point : CheckPoint)
  | store (call : StoreCall)
  | uuid
  | completeStream (request : CompletionRequest)
  | executeToolCall (call : LlmToolCall)
  /-- `CommandRunner::run_line`. -/
  | runLine (line : List Char)

/-- Errors are the text they are reported with. A stream is the list of its events. -/
@[reducible] def Op.Answer : Op → Type
  | yield _ => Unit
  | cancelled _ => Bool
  | store call => Except (List Char) call.Result
  | uuid => Nat
  | completeStream _ => Except (List Char) (List CompletionStreamEvent)
  | executeToolCall _ => Except (List Char) ToolOutcome
  | runLine _ => Except (List Char) (List Char)

/-- A stream of events that is being made. -/
abbrev Turn := Prog Op Op.Answer

namespace Turn

def yield (event : HarnessEvent) : Turn Unit := Prog.ofOp (Op.yield event)

def cancelled (point : CheckPoint) : Turn Bool := Prog.ofOp (Op.cancelled point)

def uuid : Turn Nat := Prog.ofOp Op.uuid

def store (call : StoreCall) : Turn (Except (List Char) call.Result) := Prog.ofOp (Op.store call)

def completeStream (request : CompletionRequest) :
    Turn (Except (List Char) (List CompletionStreamEvent)) := Prog.ofOp (Op.completeStream request)

def executeToolCall (call : LlmToolCall) : Turn (Except (List Char) ToolOutcome) :=
  Prog.ofOp (Op.executeToolCall call)

def runLine (line : List Char) : Turn (Except (List Char) (List Char)) :=
  Prog.ofOp (Op.runLine line)

/-- `yield HarnessEvent::Error(message); return;` -/
def fail {α : Type} (message : List Char) : Turn α := do
  yield (.error message)
  .leave

def returnIfCancelled (point : CheckPoint) : Turn Unit := do
  if ← cancelled point then fail "cancelled".toList else pure ()

def storeOrFail (call : StoreCall) : Turn call.Result := do
  match ← store call with
  | .ok result => pure result
  | .error message => fail message

def insertChatMessage (id : Nat) (role : RowRole) (content : List Char)
    (toolCalls : Option (List ChatToolCall)) : Turn Unit := do
  storeOrFail (.insertChatMessage id role content toolCalls)
  storeOrFail .touchChat

end Turn

open Turn

/-! ### The model's side of a turn -/

def historyOf (rows : List ChatRow) (reasoning : List (Nat × List Char)) : List Message :=
  let records := rows.flatMap fun row => row.toolCalls.getD []
  -- A tool row is the call id, a line break and the body.
  let answered := (rows.filter fun row => row.role = .tool).filterMap fun row =>
    (Text.cutAt ['\n'] row.content).map Prod.fst
  let paired := ((rows.filter fun row => row.role = .assistant ∨ row.role = .toolCalls).flatMap
    fun row => row.toolCalls.getD []).map ChatToolCall.id |>.filter (· ∈ answered)
  rows.filterMap fun row =>
    let thought := reasoning.lookup row.id
    match row.role with
    | .tool =>
      match Text.cutAt ['\n'] row.content with
      | some (id, body) =>
        -- The map of the statuses keeps the last record of an id.
        if id ∈ paired then
          some ⟨.tool, body, none, some id,
            (records.reverse.find? fun record => record.id = id).map ChatToolCall.status, thought⟩
        else none
      | none => none
    | .user => some ⟨.user, row.content, none, none, none, thought⟩
    | .system => some ⟨.system, row.content, none, none, none, thought⟩
    | .assistant | .toolCalls =>
      match row.toolCalls.map fun records =>
        (records.map ChatToolCall.toCall).filter fun call => call.id ∈ paired with
      | some [] =>
        if row.content.isEmpty then none
        else some ⟨.assistant, row.content, none, none, none, thought⟩
      | calls => some ⟨.assistant, row.content, calls, none, none, thought⟩

def buildHistory : Turn (List Message) := do
  match ← store .listChatMessages with
  | .error _ => pure []
  | .ok rows =>
    let reasoning ← store .listChatMessageReasoning
    pure (historyOf rows (match reasoning with | .ok found => found | .error _ => []))

/-- `parse_reasoning_tool_calls`, the focus notes left out: nothing reads them. -/
def parseReasoningToolCalls (calls : List LlmToolCall) (mode : ThinkingMode) :
    ReasoningDecision × ThinkingMode :=
  calls.foldl (fun (decision, mode) call =>
    if call.name = "set_thinking_mode".toList then
      (decision, (((call.arguments.get "mode").asStr).bind ThinkingMode.parse).getD mode)
    else if call.name = "continue_thinking".toList then (.continue, mode)
    else if call.name = "execute".toList then (.execute, mode)
    else if call.name = "ask_user".toList then (.askUser, mode)
    else if call.name = "create_mission".toList ∨ call.name = "update_mission".toList then
      (.continue, mode)
    else (decision, mode)) (.continue, mode)

def extractAskUser (calls : List LlmToolCall) : Option (List Char × List (List Char)) :=
  match calls.find? fun call => call.name = "ask_user".toList with
  | none => none
  | some call =>
    ((call.arguments.get "question").asStr).map fun question =>
      (question, (call.arguments.get "quick_replies").texts)

/-- The words of a goal that is planned before it is executed. -/
def triggers : List (List Char) :=
  ["agent", "workflow", "mcp", "deploy", "schedule", "cron", "worker", "orchestr", "automate",
    "build a", "create a", "mission", "plan", "multiple steps", "complex"].map String.toList

/-! ### Command lines -/

/-- The characters a shell would interpret, white space apart. -/
def shellCharacters : List Char :=
  ['\x27', '\x22', '\x5c', '$', '\x60', ';', '&', '|', '<', '>', '(', ')', '*', '?', '[', ']',
    '\x7b', '\x7d', '!', '~', '#']

def quoteArg (arg : List Char) : List Char :=
  if arg.isEmpty || arg.any fun c => Text.isWhitespace c || shellCharacters.contains c then
    '\x27' :: arg.flatMap (fun c => if c = '\x27' then ['\x27', '\x5c', '\x27', '\x27'] else [c]) ++
      ['\x27']
  else arg

def shellLine (command : List Char) (args : List (List Char)) : Option (List Char) :=
  let command := Text.trim command
  if command.isEmpty then none
  else some (command ++ args.flatMap fun arg => ' ' :: quoteArg arg)

def commandTool : List Char := "run_command".toList

def commandCandidates (call : LlmToolCall) : List (List Char) :=
  let command := (call.arguments.get "command").asStr.getD []
  (shellLine command (call.arguments.get "args").texts).toList

/-! ### The mission -/

structure Settings where
  toLowercase : List Char → List Char
  workspaceDir : List Char
  reasoningEnabled : Bool
  autoApprove : Bool

def isOrchestrationGoal (cfg : Settings) (goal : List Char) : Bool :=
  triggers.any fun trigger => (Text.cutAt trigger (cfg.toLowercase goal)).isSome

def openMission (missions : List MissionRow) : Option MissionRow :=
  missions.find? fun row => row.status ≠ .done

def loadOrCreateMission (goal : List Char) : Turn MissionState := do
  match openMission (← storeOrFail .listMissions) with
  | some row =>
    let steps ← storeOrFail (.listReasoningSteps row.id)
    let pending ← storeOrFail .getPendingAsk
    pure ⟨row.id, row.goal, row.status, row.plan, row.workflowId, steps,
      pending.map fun ask => ⟨ask.id, ask.question, ask.quickReplies.splitOn '\n'⟩⟩
  | none =>
    let id ← uuid
    storeOrFail (.insertMission ⟨id, goal, .clarifying, none, none⟩)
    pure ⟨id, goal, .clarifying, none, none, [], none⟩

def persistMission (mission : MissionState) : Turn Unit :=
  storeOrFail (.insertMission
    ⟨mission.id, mission.goal, mission.status, mission.plan, mission.workflowId⟩)

def persistToolCallRecords (messageId : Nat) (records : List ChatToolCall) : Turn Unit :=
  storeOrFail (.setChatMessageToolCalls messageId records)

/-- The planning reply: its text and its calls. -/
def reasoningStream : List CompletionStreamEvent → List Char → List LlmToolCall →
    Turn (List Char × List LlmToolCall)
  | [], content, calls => pure (content, calls)
  | event :: rest, content, calls => do
    returnIfCancelled .reasoningStream
    match event with
    | .assistantDelta delta =>
      yield (.reasoningDelta delta)
      reasoningStream rest (content ++ delta) calls
    | .reasoningDelta _ => reasoningStream rest content calls
    | .toolCalls calls => reasoningStream rest content calls
    | .usage usage =>
      yield (.tokenUsage usage)
      reasoningStream rest content calls
    | .done => pure (content, calls)
    | .error message => fail message

def maxReasoningSteps : Nat := 6

def askUser (cfg : Settings) (missionId : Nat) (question : List Char)
    (quickReplies : List (List Char)) : Turn Unit := do
  let askId ← uuid
  if cfg.autoApprove then
    insertChatMessage (← uuid) .user
      ("(auto-approved; no answer to: ".toList ++ question ++ [')']) none
  else
    storeOrFail (.insertPendingAsk
      ⟨askId, missionId, question, ['\n'].intercalate quickReplies, true⟩)
    yield (.askUser question quickReplies)
    .leave

def followDecision (cfg : Settings) (missionId : Nat) (step : ReasoningStep) : Turn Unit :=
  if step.decision = .askUser then
    match extractAskUser step.toolCalls with
    | some (question, quickReplies) => askUser cfg missionId question quickReplies
    | none => pure ()
  else pure ()

def reasoningStep (index : Nat) (mission : MissionState) (mode : ThinkingMode) :
    Turn ReasoningStep := do
  returnIfCancelled .reasoning
  let history ← buildHistory
  yield (.reasoningStarted index mode.asStr)
  match ← completeStream ⟨history, mission.goal, mission.reasoningSteps, some mode⟩ with
  | .error message => fail message
  | .ok events =>
    let (content, calls) ← reasoningStream events [] []
    let (decision, mode) := parseReasoningToolCalls calls mode
    let step : ReasoningStep := ⟨index, mode, content, decision, calls⟩
    storeOrFail (.insertReasoningStep mission.id step)
    yield (.reasoningDone index mode.asStr content decision)
    pure step

def reasoningLoop (cfg : Settings) : (left : Nat) → MissionState → ThinkingMode →
    Turn (MissionState × ReasoningDecision)
  | 0, mission, _ => pure (mission, .execute)
  | left + 1, mission, mode => do
    let step ← reasoningStep (maxReasoningSteps - (left + 1)) mission mode
    let mission := { mission with reasoningSteps := mission.reasoningSteps ++ [step] }
    if step.decision = .execute ∨ step.decision = .done then pure (mission, step.decision)
    else
      followDecision cfg mission.id step
      reasoningLoop cfg left mission step.mode

/-! ### Execution -/

/-- The reply as far as it has streamed. -/
structure Reply where
  content : List Char
  reasoning : List Char
  toolCalls : List LlmToolCall
  /-- The row it is written to, once there is one. -/
  messageId : Option Nat

def Reply.push (reply : Reply) (delta : List Char) : Turn Reply := do
  match reply.messageId with
  | some id =>
    storeOrFail (.appendChatMessageContent id delta)
    pure { reply with content := reply.content ++ delta }
  | none =>
    let id ← uuid
    insertChatMessage id .assistant delta none
    pure { reply with content := reply.content ++ delta, messageId := some id }

/-- The reply that is executed. A cancellation only ends the reading of it. -/
def executionStream : List CompletionStreamEvent → Reply → Turn Reply
  | [], reply => pure reply
  | event :: rest, reply => do
    if ← cancelled .executionStream then
      yield (.error "cancelled".toList)
      pure reply
    else match event with
      | .assistantDelta delta =>
        let reply ← reply.push delta
        yield (.assistantDelta delta)
        executionStream rest reply
      | .reasoningDelta delta =>
        executionStream rest { reply with reasoning := reply.reasoning ++ delta }
      | .toolCalls calls => executionStream rest { reply with toolCalls := calls }
      | .usage usage =>
        yield (.tokenUsage usage)
        executionStream rest reply
      | .done => pure reply
      | .error message => fail message

/-- The chain of thought is stored beside the row, if there is one. -/
def storeReasoning (reply : Reply) : Turn Unit :=
  match reply.messageId with
  | some id =>
    if reply.reasoning.isEmpty then pure ()
    else storeOrFail (.setChatMessageReasoning id reply.reasoning)
  | none => pure ()

/-- The calls go to the row of the reply, or to one of their own. -/
def attachToolCalls (reply : Reply) : Turn Nat := do
  let records := reply.toolCalls.map ChatToolCall.planned
  match reply.messageId with
  | some id =>
    storeOrFail (.setChatMessageToolCalls id records)
    pure id
  | none =>
    let id ← uuid
    insertChatMessage id .assistant [] (some records)
    pure id

def toolRow (callId body : List Char) : List Char := callId ++ '\n' :: body

/-- A command waits for the user's decision; the calls after it are dropped. -/
def proposeCommand (cfg : Settings) (messageId : Nat) (records : List ChatToolCall) (index : Nat)
    (call : LlmToolCall) : Turn Unit := do
  persistToolCallRecords messageId (records.take (index + 1))
  storeOrFail (.insertPendingCommand
    ⟨call.id, some messageId, commandCandidates call, cfg.workspaceDir, true⟩)
  yield (.commandProposed call.id (commandCandidates call) cfg.workspaceDir)
  .leave

def recordResult (messageId : Nat) (records : List ChatToolCall) (callId body : List Char) :
    Turn Unit := do
  insertChatMessage (← uuid) .tool (toolRow callId body) none
  persistToolCallRecords messageId records

def runToolCall (messageId : Nat) (records : List ChatToolCall) (index : Nat)
    (call : LlmToolCall) : Turn (List ChatToolCall) := do
  match ← executeToolCall call with
  | .ok outcome =>
    let records := records.modify index fun record =>
      { record with status := .finished, result := some outcome.output, diff := outcome.diff }
    recordResult messageId records call.id outcome.output
    yield (.toolCallFinished call.id outcome.output)
    pure records
  | .error message =>
    let records := records.modify index fun record =>
      { record with status := .error, result := some message }
    recordResult messageId records call.id message
    yield (.toolCallError call.id message)
    pure records

/-- The calls of a batch from `index` on. A cancellation only ends the batch. -/
def toolLoop (cfg : Settings) (messageId : Nat) : List ChatToolCall → Nat → List LlmToolCall →
    Turn Unit
  | _, _, [] => pure ()
  | records, index, call :: rest => do
    if ← cancelled .toolCall then
      yield (.error "cancelled".toList)
      pure ()
    else
      let records := records.modify index fun record => { record with status := .running }
      persistToolCallRecords messageId records
      yield (.toolCallStarted call.id call.name call.arguments)
      if !cfg.autoApprove && call.name = commandTool then
        proposeCommand cfg messageId records index call
      else
        let records ← runToolCall messageId records index call
        toolLoop cfg messageId records (index + 1) rest

def maxExecutionSteps : Nat := 8

def completeReply (mission : MissionState) : Turn Reply := do
  let history ← buildHistory
  match ← completeStream ⟨history, mission.goal, mission.reasoningSteps, none⟩ with
  | .error message => fail message
  | .ok events =>
    let reply ← executionStream events ⟨[], [], [], none⟩
    storeReasoning reply
    pure reply

def runBatch (cfg : Settings) (reply : Reply) : Turn Unit := do
  let messageId ← attachToolCalls reply
  storeReasoning { reply with messageId := some messageId }
  toolLoop cfg messageId (reply.toolCalls.map ChatToolCall.planned) 0 reply.toolCalls

def Reply.isLast (reply : Reply) (prevToolCalls : List LlmToolCall) : Bool :=
  reply.toolCalls.isEmpty || reply.content.isEmpty && reply.toolCalls == prevToolCalls

def executionLoop (cfg : Settings) (mission : MissionState) : (left : Nat) →
    (prevToolCalls : List LlmToolCall) → Turn Unit
  | 0, _ => do
    returnIfCancelled .execution
    fail "too many execution iterations".toList
  | left + 1, prevToolCalls => do
    returnIfCancelled .execution
    let reply ← completeReply mission
    if reply.isLast prevToolCalls then pure ()
    else
      runBatch cfg reply
      executionLoop cfg mission left
        (if reply.content.isEmpty then reply.toolCalls else prevToolCalls)

def MissionState.mode (mission : MissionState) : ThinkingMode :=
  (mission.reasoningSteps.getLast?.map ReasoningStep.mode).getD .direct

/-- Whether the turn plans before it executes. -/
def MissionState.plans (cfg : Settings) (mission : MissionState) : Bool :=
  cfg.reasoningEnabled && (isOrchestrationGoal cfg mission.goal ||
    !mission.reasoningSteps.isEmpty || mission.pendingAsk.isSome)

def plan (cfg : Settings) (mission : MissionState) : Turn (MissionState × ReasoningDecision) :=
  if mission.plans cfg then reasoningLoop cfg maxReasoningSteps mission mission.mode
  else pure (mission, .execute)

def settle (mission : MissionState) : Turn Unit := do
  let mission := { mission with status := .done }
  persistMission mission
  yield (.missionUpdated mission.id mission.status)
  yield .done

def runMission (cfg : Settings) (prompt : List Char) : Turn Unit := do
  let mission ← loadOrCreateMission prompt
  yield (.missionUpdated mission.id mission.status)
  let (mission, decision) ← plan cfg mission
  if decision = .done then yield .done
  else
    executionLoop cfg mission maxExecutionSteps []
    settle mission

def runMissionTurn (cfg : Settings) (prompt : List Char) : Turn Unit := do
  insertChatMessage (← uuid) .user prompt none
  runMission cfg prompt

/-! ### Resuming -/

/-- The text that tells the model the name. -/
def credentialNote (name : List Char) : List Char :=
  "\nCredential stored as ".toList ++ name ++
    ". Reference it in run_command as \x7b\x7bcredential:".toList ++ name ++ "\x7d\x7d.".toList

def credentialName (name : List Char) : Turn (List Char) :=
  if (Text.trim name).isEmpty then do
    let id ← uuid
    pure ("cred_".toList ++ Nat.toDigits 16 id)
  else pure name

/-- A credential given with the answer is stored; the text it adds to the answer. -/
def storeCredential : Option (List Char × List Char) → Turn (List Char)
  | none => pure []
  | some (name, value) => do
    let name ← credentialName name
    storeOrFail (.setCredential name value)
    pure (credentialNote name)

def answerAsk (cfg : Settings) (ask : AskRow) (response : List Char)
    (credential : Option (List Char × List Char)) : Turn Unit := do
  storeOrFail (.resolvePendingAsk ask.id)
  let note ← storeCredential credential
  insertChatMessage (← uuid) .user
    ("Answer to question '".toList ++ ask.question ++ "': ".toList ++ response ++ note) none
  runMissionTurn { cfg with reasoningEnabled := true } response

/-- A turn that was suspended on a question goes on with the answer. -/
def resumeMissionTurn (cfg : Settings) (response : List Char)
    (credential : Option (List Char × List Char)) : Turn Unit := do
  match ← store .getPendingAsk with
  | .ok (some ask) => answerAsk cfg ask response credential
  | _ => fail "no pending ask for chat".toList

/-- `record_command_outcome`: the row that answers the call, and the record of the call. An error
ends the turn. -/
def recordCommandOutcome (messageId : Option Nat) (callId : List Char) (status : ToolCallStatus)
    (body : List Char) : Turn Unit := do
  insertChatMessage (← uuid) .tool (toolRow callId body) none
  match messageId with
  | none => pure ()
  | some messageId =>
    let rows ← storeOrFail .listChatMessages
    match (rows.find? fun row => row.id = messageId).bind ChatRow.toolCalls with
    | none => pure ()
    | some records =>
      match records.findIdx? fun record => record.id = callId with
      | none => pure ()
      | some index =>
        persistToolCallRecords messageId (records.modify index fun record =>
          { record with status := status, result := some body })

/-- `{{credential:<name>}}` is replaced by the stored value. The text is read once from left to
right; `fuel` is the length of what is left. -/
def expandCredentialRefs : (fuel : Nat) → List Char → Turn (Except (List Char) (List Char))
  | 0, text => pure (.ok text)
  | fuel + 1, text =>
    match Text.cutAt "\x7b\x7bcredential:".toList text with
    | none => pure (.ok text)
    | some (before, tail) =>
      match Text.cutAt "\x7d\x7d".toList tail with
      | none => pure (.ok text)
      | some (name, rest) => do
        match ← store (.getCredential (Text.trim name)) with
        | .error message => pure (.error message)
        | .ok none =>
          pure (.error ("unknown credential `".toList ++ Text.trim name ++
            "`; use the `credentials` tool to list stored credentials".toList))
        | .ok (some value) => do
          match ← expandCredentialRefs fuel rest with
          | .error message => pure (.error message)
          | .ok expanded => pure (.ok (before ++ value ++ expanded))

def runApprovedCommand (line : List Char) : Turn (Except (List Char) (List Char)) := do
  match ← expandCredentialRefs line.length line with
  | .error message => pure (.error message)
  | .ok line => runLine line

/-- The decision carried out: the output of the command, or why there is none. -/
def carryOut : CommandDecision → Turn (Except (List Char) (List Char))
  | .reject reason =>
    pure (.error (if (Text.trim reason).isEmpty then "rejected by user".toList
      else "rejected by user: ".toList ++ reason))
  | .approve text | .edit text => runApprovedCommand text

def decideCommand (pending : CommandRow) (decision : CommandDecision) : Turn Unit := do
  match ← carryOut decision with
  | .ok value =>
    recordCommandOutcome pending.messageId pending.callId .finished value
    yield (.toolCallFinished pending.callId value)
  | .error message =>
    recordCommandOutcome pending.messageId pending.callId .error message
    yield (.toolCallError pending.callId message)

/-- The goal of the mission that the suspended turn left behind, empty if there is none. -/
def openGoal : Turn (List Char) := do
  match ← store .listMissions with
  | .ok missions => pure (((openMission missions).map MissionRow.goal).getD [])
  | .error _ => pure []

def answerCommand (cfg : Settings) (pending : CommandRow) (decision : CommandDecision) :
    Turn Unit := do
  storeOrFail (.resolvePendingCommand pending.callId)
  decideCommand pending decision
  let goal ← openGoal
  runMission cfg goal

/-- A turn that was suspended on a command goes on with the user's decision. -/
def resumeCommandTurn (cfg : Settings) (decision : CommandDecision) : Turn Unit := do
  match ← store .getPendingCommand with
  | .ok (some pending) => answerCommand cfg pending decision
  | _ => fail "no pending command for chat".toList

end Goble.Mission
