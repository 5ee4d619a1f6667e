import Goble.Harness.Protocol
import Goble.Lib.Text

/-!
# The data of a harness turn

Calls and replies of the model (`llm::types`), the records and events of the harness
(`harness::types`) and the state of a mission (`reasoning::types`). Text is a list of characters;
ids that the harness draws (`Uuid::new_v4`) are numbers, ids that the model gives are text.

A `serde_json::Value` is `Goble.Value`; the readers below are the ones the harness applies to the
arguments of a call.
-/

namespace Goble

namespace Value

def get (value : Value) (key : String) : Value :=
  match value with
  | .object fields => (fields.lookup key).getD .null
  | _ => .null

def asStr : Value → Option (List Char)
  | .string s => some s.toList
  | _ => none

def asArray : Value → Option (List Value)
  | .array xs => some xs
  | _ => none

def texts (value : Value) : List (List Char) := (value.asArray.getD []).filterMap asStr

end Value

namespace Mission

/-- A call as the model makes it. -/
structure LlmToolCall where
  id : List Char
  name : List Char
  arguments : Value
deriving BEq

inductive ToolCallStatus
  | pending | running | finished | error
deriving DecidableEq

structure ChatToolCall where
  id : List Char
  name : List Char
  arguments : Value
  status : ToolCallStatus
  result : Option (List Char)
  diff : Option (List Char)

def ChatToolCall.planned (call : LlmToolCall) : ChatToolCall :=
  ⟨call.id, call.name, call.arguments, .pending, none, none⟩

/-- A record read back as a call: the other fields are not those of a call. -/
def ChatToolCall.toCall (record : ChatToolCall) : LlmToolCall :=
  ⟨record.id, record.name, record.arguments⟩

structure ToolOutcome where
  output : List Char
  diff : Option (List Char)

structure TokenUsage where
  input : Nat
  cached : Option Nat
  output : Nat
deriving DecidableEq

inductive CompletionStreamEvent
  | assistantDelta (delta : List Char)
  | reasoningDelta (delta : List Char)
  | toolCalls (calls : List LlmToolCall)
  | usage (usage : TokenUsage)
  | done
  | error (message : List Char)

inductive Role
  | system | user | assistant | tool
deriving DecidableEq

structure Message where
  role : Role
  content : List Char
  toolCalls : Option (List LlmToolCall)
  toolCallId : Option (List Char)
  toolStatus : Option ToolCallStatus
  reasoningContent : Option (List Char)

inductive ThinkingMode
  | direct | contemplating | ruminating | baking | reflecting | verifying | debugging
  | synthesizing | planning
deriving DecidableEq

def ThinkingMode.asStr : ThinkingMode → List Char
  | direct => "direct".toList
  | contemplating => "contemplating".toList
  | ruminating => "ruminating".toList
  | baking => "baking".toList
  | reflecting => "reflecting".toList
  | verifying => "verifying".toList
  | debugging => "debugging".toList
  | synthesizing => "synthesizing".toList
  | planning => "planning".toList

/-- `from_str`: the names of `asStr`, nothing else. -/
def ThinkingMode.parse (text : List Char) : Option ThinkingMode :=
  [direct, contemplating, ruminating, baking, reflecting, verifying, debugging, synthesizing,
    planning].find? fun mode => mode.asStr = text

inductive ReasoningDecision
  | continue | execute | askUser | done
deriving DecidableEq

structure ReasoningStep where
  step : Nat
  mode : ThinkingMode
  content : List Char
  decision : ReasoningDecision
  toolCalls : List LlmToolCall

structure PendingAsk where
  id : Nat
  question : List Char
  quickReplies : List (List Char)

/-- The two statuses that are ever written to a mission. -/
inductive MissionStatus
  | clarifying | done
deriving DecidableEq

structure MissionState where
  id : Nat
  goal : List Char
  status : MissionStatus
  plan : Option (List Char)
  workflowId : Option (List Char)
  reasoningSteps : List ReasoningStep
  pendingAsk : Option PendingAsk

/-- The events a turn yields. Those of the sub-agents come from the registry. -/
inductive HarnessEvent
  | assistantDelta (delta : List Char)
  | toolCallStarted (id name : List Char) (arguments : Value)
  | toolCallFinished (id result : List Char)
  | toolCallError (id message : List Char)
  | reasoningStarted (step : Nat) (mode : List Char)
  | reasoningDelta (delta : List Char)
  | reasoningDone (step : Nat) (mode content : List Char) (decision : ReasoningDecision)
  | askUser (question : List Char) (quickReplies : List (List Char))
  | commandProposed (id : List Char) (candidates : List (List Char)) (cwd : List Char)
  | missionUpdated (missionId : Nat) (status : MissionStatus)
  | tokenUsage (usage : TokenUsage)
  | done
  | error (message : List Char)

/-- What the user decides on a proposed command. -/
inductive CommandDecision
  | approve (text : List Char)
  | edit (text : List Char)
  | reject (reason : List Char)

end Mission

end Goble
