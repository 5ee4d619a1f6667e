/-!
# Harness types and the harness event stream

The model-facing types of `goble-harness-types` and the events of
`goble-harness-protocol` a harness streams back to its host. Ids are newtypes over
strings, as in the source. A `serde_json::Value` is carried through unread, so `Value`
only has the shape of JSON. Instants (`chrono::DateTime<Utc>`) are ticks of an unspecified
clock; nothing below compares them.
-/

namespace Goble

/-- An instant, as `Utc::now()` returns it. -/
abbrev Time := Nat

/-- A `serde_json::Value`. Carried opaquely. -/
inductive Value where
  | null
  | bool (b : Bool)
  | number (repr : String)
  | string (s : String)
  | array (xs : List Value)
  | object (fields : List (String × Value))
deriving Repr, BEq, Inhabited

structure HarnessId where
  val : String
deriving DecidableEq, Repr, Inhabited

/-- The directory or mounted workspace work happens in. -/
structure ProjectId where
  val : String
deriving DecidableEq, Repr, Inhabited

structure SessionId where
  val : String
deriving DecidableEq, Repr, Inhabited

structure MediumId where
  val : String
deriving DecidableEq, Repr, Inhabited

inductive ChatRole where
  | system | user | assistant | tool
deriving DecidableEq, Repr, Inhabited

structure ChatMessage where
  role : ChatRole
  content : String
deriving DecidableEq, Repr, Inhabited

inductive GrantMode where
  | readOnly | readWrite
deriving DecidableEq, Repr, Inhabited

structure Grant where
  repo : String
  mode : GrantMode
deriving DecidableEq, Repr, Inhabited

inductive InteractionHint where
  | text
  | voice (shortAnswers : Bool)
  | auto
deriving DecidableEq, Repr, Inhabited

inductive Schedule where
  | manual
  | cron (expression : String)
  | http (path : String)
  | heartbeat (intervalSeconds : Nat)
deriving DecidableEq, Repr, Inhabited

/-- The request handed to a harness. One harness run is one `HarnessTurn`. -/
structure HarnessTurn where
  harnessId : HarnessId
  projectId : ProjectId
  sessionId : SessionId
  mediumId : MediumId
  goal : String
  context : List ChatMessage
  permissions : List Grant
  interaction : InteractionHint
  schedule : Option Schedule
deriving DecidableEq, Repr, Inhabited

/-- `HarnessTurn::new`: the default project and medium, no context, grants or schedule. -/
def HarnessTurn.new (harnessId : HarnessId) (sessionId : SessionId) (goal : String) :
    HarnessTurn where
  harnessId := harnessId
  projectId := ⟨"default"⟩
  sessionId := sessionId
  mediumId := ⟨"local"⟩
  goal := goal
  context := []
  permissions := []
  interaction := .auto
  schedule := none

/-- An opaque snapshot of a harness's execution state. -/
structure HarnessSnapshot where
  kind : String
  data : Value
deriving Repr, Inhabited

structure ToolSchemaWire where
  name : String
  description : String
  parameters : Value
deriving Repr, Inhabited

inductive HarnessServerEvent where
  | ready
  | toolList (tools : List ToolSchemaWire)
  | assistantDelta (sessionId : SessionId) (delta : String)
  | toolCallStarted (sessionId : SessionId) (id name : String) (arguments : Value)
  | toolCallFinished (sessionId : SessionId) (id result : String)
  | toolCallError (sessionId : SessionId) (id message : String)
  | askUser (sessionId : SessionId) (question : String) (quickReplies : List String)
  | commandProposed (sessionId : SessionId) (id : String) (candidates : List String)
      (cwd : String)
  | subAgentSpawned (sessionId : SessionId) (chatId subagentId subagentType description
      parentCallId : String) (runInBackground : Bool)
  | subAgentProgress (sessionId : SessionId) (chatId subagentId status activity : String)
      (turns toolCalls tokens durationMs : Nat)
  | subAgentFinished (sessionId : SessionId) (chatId subagentId status : String)
      (output error : Option String) (durationMs turns toolCalls tokens : Nat)
  | missionUpdated (sessionId : SessionId) (missionId status : String)
  | tokenUsage (sessionId : SessionId) (chatId : String) (input : Nat) (cached : Option Nat)
      (output : Nat)
  | reasoningStarted (sessionId : SessionId) (step : Nat) (mode : String)
  | reasoningDelta (sessionId : SessionId) (delta : String)
  | reasoningDone (sessionId : SessionId) (step : Nat) (mode content decision : String)
  | done (sessionId : SessionId)
  | error (sessionId : SessionId) (message : String)
  | checkpoint (sessionId : SessionId) (snapshot : HarnessSnapshot)
deriving Repr, Inhabited

/-- What the daemon reads of a registered `HarnessRuntime` object: its id and the
`reversible` capability. What its methods answer is carried by the labels of the daemon
machine. -/
structure Harness where
  id : HarnessId
  reversible : Bool
deriving DecidableEq, Repr, Inhabited

end Goble
