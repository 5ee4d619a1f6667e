import Goble.Mission.Data
import Mathlib.Data.List.Sort

/-!
# The rows of one conversation

What the turns of one chat read and write in the store (`store::chats`, `store::missions`). Every
statement is keyed by the chat or by an id of one of its rows, so the rows of other chats are left
out.

Rows are listed `ORDER BY created_at` or `updated_at`, which is the wall clock at the write. The
order of the writes stands for it: messages and proposals in the order they were inserted, missions
with the one written last in front. An upsert leaves `created_at` alone, so a proposal that is made
again keeps its place.
-/

namespace Goble.Mission

/-- The `role` column. `tool_calls` and `system` are read, never written here. -/
inductive RowRole
  | user | assistant | tool | toolCalls | system
deriving DecidableEq

/-- A row of `chat_messages`. The `tool_calls` column holds the records as JSON and is read back as
written. -/
structure ChatRow where
  id : Nat
  role : RowRole
  content : List Char
  toolCalls : Option (List ChatToolCall)
  reasoningContent : List Char

structure MissionRow where
  id : Nat
  goal : List Char
  status : MissionStatus
  plan : Option (List Char)
  workflowId : Option (List Char)

structure AskRow where
  id : Nat
  missionId : Nat
  question : List Char
  quickReplies : List Char
  pending : Bool

structure CommandRow where
  callId : List Char
  /-- The assistant row that has the call; `none` is the empty text. -/
  messageId : Option Nat
  candidates : List (List Char)
  cwd : List Char
  pending : Bool

structure Store where
  messages : List ChatRow
  missions : List MissionRow
  /-- With the mission each belongs to. -/
  reasoningSteps : List (Nat × ReasoningStep)
  pendingAsks : List AskRow
  pendingCommands : List CommandRow
  credentials : List (List Char × List Char)
  /-- No id was drawn from here on. -/
  nextId : Nat

def Store.empty : Store := ⟨[], [], [], [], [], [], 0⟩

inductive StoreCall
  | insertChatMessage (id : Nat) (role : RowRole) (content : List Char)
      (toolCalls : Option (List ChatToolCall))
  /-- `UPDATE chats SET updated_at`, the second statement of `insert_chat_message`. -/
  | touchChat
  | appendChatMessageContent (id : Nat) (delta : List Char)
  | setChatMessageToolCalls (id : Nat) (records : List ChatToolCall)
  | setChatMessageReasoning (id : Nat) (reasoning : List Char)
  | listChatMessages
  | listChatMessageReasoning
  | listMissions
  | insertMission (row : MissionRow)
  | listReasoningSteps (missionId : Nat)
  | insertReasoningStep (missionId : Nat) (step : ReasoningStep)
  | insertPendingAsk (row : AskRow)
  | getPendingAsk
  | resolvePendingAsk (id : Nat)
  | insertPendingCommand (row : CommandRow)
  | getPendingCommand
  | resolvePendingCommand (callId : List Char)
  | setCredential (name value : List Char)
  | getCredential (name : List Char)

@[reducible] def StoreCall.Result : StoreCall → Type
  | listChatMessages => List ChatRow
  | listChatMessageReasoning => List (Nat × List Char)
  | listMissions => List MissionRow
  | listReasoningSteps _ => List ReasoningStep
  | getPendingAsk => Option AskRow
  | getPendingCommand => Option CommandRow
  | getCredential _ => Option (List Char)
  | _ => Unit

namespace Store

variable (s : Store)

def modifyMessage (id : Nat) (f : ChatRow → ChatRow) : Store :=
  { s with messages := s.messages.map fun row => if row.id = id then f row else row }

/-- `INSERT … ON CONFLICT(id) DO UPDATE`, with a new `updated_at`. -/
def insertMission (row : MissionRow) : Store :=
  { s with missions := row :: s.missions.filter fun other => other.id ≠ row.id }

def insertPendingCommand (row : CommandRow) : Store :=
  { s with
    pendingCommands :=
      if s.pendingCommands.any fun other => other.callId = row.callId then
        s.pendingCommands.map fun other => if other.callId = row.callId then row else other
      else s.pendingCommands ++ [row] }

/-- The oldest proposal still pending. -/
def getPendingCommand : Option CommandRow := s.pendingCommands.find? CommandRow.pending

def resolvePendingCommand (callId : List Char) : Store :=
  { s with
    pendingCommands := s.pendingCommands.map fun row =>
      if row.callId = callId then { row with pending := false } else row }

def call : (c : StoreCall) → c.Result × Store
  | .insertChatMessage id role content toolCalls =>
    ((), { s with messages := s.messages ++ [⟨id, role, content, toolCalls, []⟩] })
  | .touchChat => ((), s)
  | .appendChatMessageContent id delta =>
    ((), s.modifyMessage id fun row => { row with content := row.content ++ delta })
  | .setChatMessageToolCalls id records =>
    ((), s.modifyMessage id fun row => { row with toolCalls := some records })
  | .setChatMessageReasoning id reasoning =>
    ((), s.modifyMessage id fun row => { row with reasoningContent := reasoning })
  | .listChatMessages => (s.messages, s)
  | .listChatMessageReasoning =>
    ((s.messages.filter fun row => !row.reasoningContent.isEmpty).map
      fun row => (row.id, row.reasoningContent), s)
  | .listMissions => (s.missions, s)
  | .insertMission row => ((), s.insertMission row)
  -- `ORDER BY step_index`: the steps of every turn of the mission, counted from 0 in each.
  | .listReasoningSteps missionId =>
    (((s.reasoningSteps.filter fun row => row.1 = missionId).map Prod.snd).insertionSort
      fun a b => a.step ≤ b.step, s)
  | .insertReasoningStep missionId step =>
    ((), { s with reasoningSteps := s.reasoningSteps ++ [(missionId, step)] })
  | .insertPendingAsk row => ((), { s with pendingAsks := s.pendingAsks ++ [row] })
  | .getPendingAsk => (s.pendingAsks.reverse.find? AskRow.pending, s)
  | .resolvePendingAsk id =>
    ((), { s with
      pendingAsks := s.pendingAsks.map fun row =>
        if row.id = id then { row with pending := false } else row })
  | .insertPendingCommand row => ((), s.insertPendingCommand row)
  | .getPendingCommand => (s.getPendingCommand, s)
  | .resolvePendingCommand callId => ((), s.resolvePendingCommand callId)
  | .setCredential name value =>
    ((), { s with credentials := (name, value) :: s.credentials.filter fun row => row.1 ≠ name })
  | .getCredential name => (s.credentials.lookup name, s)

end Store

end Goble.Mission
