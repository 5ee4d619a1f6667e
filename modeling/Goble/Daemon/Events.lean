import Goble.Harness.Protocol

/-!
# Daemon wire events

The `DaemonEvent` wire shape and `mapEvent` (`state/events.rs`), which turns a harness event
into the wire event it is mirrored as. Host-discovery frames (`ready`, `toolList`) and
harness checkpoints are not part of the daemon stream. Every other event keeps all of its
fields, and no harness event is mapped to a trace-lifecycle event: `TraceStarted` and
`TraceFinished` are emitted by the daemon alone (`mapEvent_not_isTrace`).
-/

namespace Goble

inductive DaemonEvent where
  | assistantDelta (sessionId : SessionId) (delta : String)
  | toolCallStarted (sessionId : SessionId) (id name : String) (arguments : Value)
  | toolCallFinished (sessionId : SessionId) (id result : String)
  | toolCallError (sessionId : SessionId) (id message : String)
  | askUser (sessionId : SessionId) (question : String) (quickReplies : List String)
  | commandProposed (sessionId : SessionId) (id : String) (candidates : List String)
      (cwd : String)
  | subAgentSpawned (sessionId : SessionId) (chatId subagentId subagentType description
      parentCallId : String) (runInBackground : Bool)
  | subAgentProgress (sessionId : SessionId) (chatId subagentId status activity : String)
      (turns toolCalls tokens durationMs : Nat)
  | subAgentFinished (sessionId : SessionId) (chatId subagentId status : String)
      (output error : Option String) (durationMs turns toolCalls tokens : Nat)
  | missionUpdated (sessionId : SessionId) (missionId status : String)
  | tokenUsage (sessionId : SessionId) (chatId : String) (input : Nat) (cached : Option Nat)
      (output : Nat)
  | reasoningStarted (sessionId : SessionId) (step : Nat) (mode : String)
  | reasoningDelta (sessionId : SessionId) (delta : String)
  | reasoningDone (sessionId : SessionId) (step : Nat) (mode content decision : String)
  | done (sessionId : SessionId)
  | error (sessionId : SessionId) (message : String)
  | traceStarted (sessionId : SessionId) (traceId : String) (projectId : ProjectId)
      (mediumId : MediumId)
  | traceFinished (sessionId : SessionId) (traceId status : String) (projectId : ProjectId)
      (mediumId : MediumId)
deriving Repr, Inhabited

def DaemonEvent.isTrace : DaemonEvent → Bool
  | .traceStarted .. => true
  | .traceFinished .. => true
  | _ => false

def mapEvent : HarnessServerEvent → Option DaemonEvent
  | .ready => none
  | .toolList _ => none
  | .checkpoint _ _ => none
  | .assistantDelta s d => some (.assistantDelta s d)
  | .toolCallStarted s id name args => some (.toolCallStarted s id name args)
  | .toolCallFinished s id result => some (.toolCallFinished s id result)
  | .toolCallError s id message => some (.toolCallError s id message)
  | .askUser s q replies => some (.askUser s q replies)
  | .commandProposed s id cands cwd => some (.commandProposed s id cands cwd)
  | .subAgentSpawned s chat sub ty desc parent bg =>
    some (.subAgentSpawned s chat sub ty desc parent bg)
  | .subAgentProgress s chat sub status activity turns calls tokens ms =>
    some (.subAgentProgress s chat sub status activity turns calls tokens ms)
  | .subAgentFinished s chat sub status output error ms turns calls tokens =>
    some (.subAgentFinished s chat sub status output error ms turns calls tokens)
  | .missionUpdated s m status => some (.missionUpdated s m status)
  | .tokenUsage s chat input cached output => some (.tokenUsage s chat input cached output)
  | .reasoningStarted s step mode => some (.reasoningStarted s step mode)
  | .reasoningDelta s d => some (.reasoningDelta s d)
  | .reasoningDone s step mode content decision =>
    some (.reasoningDone s step mode content decision)
  | .done s => some (.done s)
  | .error s message => some (.error s message)

theorem mapEvent_not_isTrace {ev : HarnessServerEvent} {e : DaemonEvent}
    (h : mapEvent ev = some e) : e.isTrace = false := by
  cases ev <;> simp only [mapEvent, reduceCtorEq, Option.some.injEq] at h <;> subst h <;> rfl

end Goble
