import Goble.Mission.History

/-!
# What the model is told

A request is built with the prompt of the harness and the prompt of its phase, and then
`with_messages` puts the history in the place of both; only the prompt of the execution phase, which
joins the history before, is still there (`messages_eq`). A provider is told to answer by the
prompts just if the chat has them stored as rows of the system. Two of the wire formats send every
system text; Anthropic's sends the first (`instructions_iff`).
-/

namespace Goble.Mission

/-! ### The prompts -/

def harnessSystemPrompt : List Char :=
  "You are an assistant that controls a local Goble agent environment.\n".toList ++
  ("You can create/update agents, workflows and teams, run shell commands, read/write files, " ++
    "search the store, deploy agents/workflows to workers, schedule workflows, and check " ++
    "execution status.\n" ++
    "Use memory_write to record goals, decisions, constraints and progress into an agent's " ++
    "persistent memory; use memory_read to review what an agent already knows. Memory survives " ++
    "conversation summarization.\n" ++
    "Only call a tool when the user explicitly asks for an action you can perform with a tool.\n" ++
    "If no tool is needed, reply conversationally.\n" ++
    "There is a user guide for this product at ~/.goble/docs/user-guide. For questions about how " ++
    "to set up or use Goble (credentials, workspaces, principals, remote/self-as-worker access, " ++
    "reaching this machine from the mobile app via Tailscale), call the user_guide tool to look " ++
    "up the relevant topic before answering.\n" ++
    "When reading or writing files, paths must be inside the workspace directory unless the user " ++
    "explicitly provides an absolute path.").toList

def ThinkingMode.prompt : ThinkingMode → List Char
  | direct => "Think briefly and then act or reply.".toList
  | contemplating => ("Explore multiple angles and viewpoints before deciding. Do not commit " ++
      "yet.").toList
  | ruminating => "Let the problem sit. Revisit assumptions, constraints, and edge cases.".toList
  | baking => ("Allow the idea to mature. Synthesize partial thoughts without rushing to a " ++
      "conclusion.").toList
  | reflecting => ("Check what you already know, what is missing, and whether the goal is " ++
      "clear.").toList
  | verifying => ("Validate facts, plan consistency, and tool availability before " ++
      "acting.").toList
  | debugging => "Diagnose why the previous approach might fail or what could go wrong.".toList
  | synthesizing => "Combine gathered information into a coherent plan or answer.".toList
  | planning => "Break the goal into concrete steps, tools, and dependencies.".toList

/-- `serde_json::to_string` -/
def ReasoningDecision.json : ReasoningDecision → List Char
  | .continue => "\"continue\"".toList
  | .execute => "\"execute\"".toList
  | .askUser => "\"ask_user\"".toList
  | .done => "\"done\"".toList

/-- One of the last four steps. -/
def ReasoningStep.recalled (step : ReasoningStep) : List Char :=
  "- [".toList ++ (toString step.step).toList ++ "] ".toList ++ step.mode.asStr ++
    " -> ".toList ++ step.decision.json ++ ['\n']

def buildReasoningPrompt (mode : ThinkingMode) (goal : List Char) (steps : List ReasoningStep) :
    List Char :=
  "You are in thinking mode: ".toList ++ mode.asStr ++ ".\n".toList ++ mode.prompt ++
    ("\n\nYou are orchestrating a complex task. You may call reasoning tools: " ++
      "set_thinking_mode, continue_thinking, execute, ask_user, create_mission, " ++
      "update_mission.\n" ++
      "Rules:\n" ++
      "- If you need more information, call ask_user.\n" ++
      "- If you need to keep reasoning, call continue_thinking or set_thinking_mode.\n" ++
      "- When you are ready to act (call tools, create agents/workflows, deploy), call execute.\n" ++
      "- Track the overall goal using create_mission / update_mission.\n\n" ++
      "Current goal: ").toList ++ goal ++ "\n\n".toList ++
    if steps.isEmpty then []
    else "Previous reasoning steps:\n".toList ++
      (steps.reverse.take 4).flatMap ReasoningStep.recalled ++ ['\n']

/-- One of the last six steps. -/
def ReasoningStep.summary (step : ReasoningStep) : List Char :=
  "- [".toList ++ (toString step.step).toList ++ "] ".toList ++ step.mode.asStr ++ ": ".toList ++
    step.content.take 200 ++ ['\n']

def buildExecutionPrompt (goal : List Char) (steps : List ReasoningStep) : List Char :=
  "You are now executing. The goal is: ".toList ++ goal ++ "\n\nReasoning summary:\n".toList ++
    (steps.reverse.take 6).flatMap ReasoningStep.summary ++
    ("\nUse available tools to create agents, workflows, discover MCPs, install/connect MCPs, " ++
      "deploy to workers, and schedule workflows.\n" ++
      "Only call a tool when you have enough information. If still missing info, ask the user " ++
      "instead.\n").toList

/-! ### The request -/

/-- `CompletionRequest` of `llm::types`, the tools and the temperature left out. -/
structure ModelRequest where
  provider : List Char
  model : List Char
  messages : List Message

def systemMessage (content : List Char) : Message := ⟨.system, content, none, none, none, none⟩

namespace ModelRequest

def new (provider model : List Char) : ModelRequest := ⟨provider, model, []⟩

def withSystem (request : ModelRequest) (content : List Char) : ModelRequest :=
  { request with messages := request.messages ++ [systemMessage content] }

def withMessages (request : ModelRequest) (messages : List Message) : ModelRequest :=
  { request with messages }

end ModelRequest

namespace CompletionRequest

def prompt (request : CompletionRequest) : List Char :=
  match request.planning with
  | some mode => buildReasoningPrompt mode request.goal request.reasoningSteps
  | none => buildExecutionPrompt request.goal request.reasoningSteps

/-- The request that `run_mission` hands to the provider. -/
def build (request : CompletionRequest) (provider model : List Char) : ModelRequest :=
  match request.planning with
  | some _ =>
    (((ModelRequest.new provider model).withSystem harnessSystemPrompt).withSystem
      request.prompt).withMessages request.history
  | none =>
    ((ModelRequest.new provider model).withSystem harnessSystemPrompt).withMessages
      (request.history ++ [systemMessage request.prompt])

end CompletionRequest

/-! ### The wire -/

inductive Wire
  | openAi (thinkingProvider : Bool)
  | ollama
  | anthropic
deriving DecidableEq

def providerContent (message : Message) : List Char :=
  if message.toolStatus = some .error then "[tool call failed]\n".toList ++ message.content
  else message.content

def Role.name : Role → List Char
  | system => "system".toList
  | user => "user".toList
  | assistant => "assistant".toList
  | tool => "tool".toList

/-- A call has the type `function`, and its arguments are sent as text. -/
structure OpenAiMessage where
  role : List Char
  content : Option (List Char)
  reasoningContent : Option (List Char)
  toolCallId : Option (List Char)
  toolCalls : Option (List LlmToolCall)

structure WireMessage where
  role : List Char
  content : List Char

inductive Body
  | openAi (messages : List OpenAiMessage)
  | ollama (messages : List WireMessage)
  | anthropic (system : Option (List Char)) (messages : List WireMessage)

def intoOpenAiMessages (messages : List Message) (thinkingProvider : Bool) : List OpenAiMessage :=
  messages.map fun m =>
    let content := providerContent m
    { role := m.role.name
      content := if content.isEmpty then none else some content
      reasoningContent :=
        if thinkingProvider = true ∧ m.role = .assistant then some (m.reasoningContent.getD [])
        else none
      toolCallId := m.toolCallId
      toolCalls := m.toolCalls }

def intoOllamaMessages (messages : List Message) : List WireMessage :=
  messages.map fun m => ⟨m.role.name, providerContent m⟩

def Wire.body (messages : List Message) : Wire → Body
  | openAi thinkingProvider => .openAi (intoOpenAiMessages messages thinkingProvider)
  | ollama => .ollama (intoOllamaMessages messages)
  | anthropic =>
    .anthropic ((messages.find? fun m => m.role = .system).map Message.content)
      ((messages.filter fun m => m.role ≠ .system).map fun m =>
        ⟨if m.role = .assistant then "assistant".toList else "user".toList, providerContent m⟩)

/-- What the model reads as instructions. -/
def Body.instructions : Body → List (List Char)
  | openAi messages => (messages.filter fun m => m.role = Role.system.name).map fun m =>
      m.content.getD []
  | ollama messages => (messages.filter fun m => m.role = Role.system.name).map WireMessage.content
  | anthropic system _ => system.toList

/-! ### What is asked of both -/

def HasSystem (text : List Char) (messages : List Message) : Prop :=
  ∃ m ∈ messages, m.role = .system ∧ m.content = text

structure Instructed (request : CompletionRequest) (messages : List Message) : Prop where
  harness : HasSystem harnessSystemPrompt messages
  phase : HasSystem request.prompt messages
  history : request.history <:+: messages

def Sends (wire : Wire) (messages : List Message) : Prop :=
  ∀ m ∈ messages, m.role = .system → m.content ∈ (wire.body messages).instructions

def Kept (rows : List ChatRow) (text : List Char) : Prop :=
  ∃ row ∈ rows, row.role = .system ∧ row.content = text

/-- The rows that a history is made of: those the chat has then, or none if they cannot be listed. -/
def Listed (start : Store) (rows : List ChatRow) : Prop :=
  rows = [] ∨ ∃ s, Moves True (fun _ _ => True) (fun _ => True) start s ∧ rows = s.messages

section Request

variable {request : CompletionRequest} {rows : List ChatRow} {thoughts : List (Nat × List Char)}
  {messages : List Message} {wire : Wire} {provider model text : List Char}

theorem messages_eq (request : CompletionRequest) (provider model : List Char) :
    (request.build provider model).messages = request.history ++
      if request.planning.isSome then [] else [systemMessage request.prompt] := by
  rw [CompletionRequest.build]
  cases request.planning with
  | none => rfl
  | some mode => exact (List.append_nil _).symm

theorem mem_historyOf_system {m : Message} (hm : m ∈ historyOf rows thoughts)
    (hrole : m.role = .system) :
    m.toolStatus = none ∧ ∃ row ∈ rows, row.role = .system ∧ row.content = m.content := by
  obtain ⟨row, hrow, hmade⟩ := List.mem_filterMap.mp hm
  dsimp only at hmade
  split at hmade
  · split at hmade
    · split at hmade
      · obtain rfl := Option.some.inj hmade
        cases hrole
      · cases hmade
    · cases hmade
  · obtain rfl := Option.some.inj hmade
    cases hrole
  · rename_i hsystem
    obtain rfl := Option.some.inj hmade
    exact ⟨rfl, row, hrow, hsystem, rfl⟩
  all_goals
    split at hmade
    · split at hmade
      · cases hmade
      · obtain rfl := Option.some.inj hmade
        cases hrole
    · obtain rfl := Option.some.inj hmade
      cases hrole

theorem hasSystem_historyOf : HasSystem text (historyOf rows thoughts) ↔ Kept rows text := by
  constructor
  · rintro ⟨m, hm, hrole, rfl⟩
    exact (mem_historyOf_system hm hrole).2
  · rintro ⟨row, hrow, hrole, rfl⟩
    refine ⟨⟨.system, row.content, none, none, none, thoughts.lookup row.id⟩,
      List.mem_filterMap.mpr ⟨row, hrow, ?_⟩, rfl, rfl⟩
    simp only [hrole]

theorem hasSystem_messages : HasSystem text (request.build provider model).messages ↔
    HasSystem text request.history ∨ request.planning = none ∧ request.prompt = text := by
  rw [messages_eq]
  cases hplanning : request.planning with
  | some mode => simp
  | none =>
    simp only [HasSystem, Option.isSome_none, Bool.false_eq_true, if_false, List.mem_append,
      List.mem_singleton, true_and]
    constructor
    · rintro ⟨m, hm | rfl, hrole, hcontent⟩
      · exact .inl ⟨m, hm, hrole, hcontent⟩
      · exact .inr hcontent
    · rintro (⟨m, hm, hrole, hcontent⟩ | hcontent)
      · exact ⟨m, .inl hm, hrole, hcontent⟩
      · exact ⟨_, .inr rfl, rfl, hcontent⟩

theorem harness_ne_prompt : harnessSystemPrompt ≠ request.prompt := by
  intro heq
  -- "You are an", "You are in" and "You are now".
  have hninth : harnessSystemPrompt[8]? = request.prompt[8]? := by rw [heq]
  have hharness : harnessSystemPrompt[8]? = some 'a' := rfl
  rw [hharness, CompletionRequest.prompt] at hninth
  split at hninth
  · rename_i mode _
    have hreasoning : (buildReasoningPrompt mode request.goal request.reasoningSteps)[8]? =
        some 'i' := rfl
    rw [hreasoning] at hninth
    cases hninth
  · have hexecution : (buildExecutionPrompt request.goal request.reasoningSteps)[8]? =
        some 'n' := rfl
    rw [hexecution] at hninth
    cases hninth

/-! ### What a wire format sends -/

theorem sends_of_ne_anthropic (hwire : wire ≠ .anthropic)
    (hplain : ∀ m ∈ messages, m.role = .system → m.toolStatus = none) : Sends wire messages := by
  intro m hm hrole
  have hcontent : providerContent m = m.content := by
    rw [providerContent, hplain m hm hrole]
    rfl
  cases wire with
  | anthropic => exact absurd rfl hwire
  | ollama =>
    refine List.mem_map.mpr ⟨⟨m.role.name, providerContent m⟩, ?_, hcontent⟩
    exact List.mem_filter.mpr ⟨List.mem_map_of_mem hm, by rw [hrole]; rfl⟩
  | openAi thinkingProvider =>
    refine List.mem_map.mpr ⟨_, List.mem_filter.mpr ⟨List.mem_map_of_mem hm, ?_⟩, ?_⟩
    · dsimp only
      rw [hrole]
      rfl
    · dsimp only
      rw [hcontent]
      cases m.content <;> rfl

theorem not_sends_anthropic {first second : List Char} (hfirst : HasSystem first messages)
    (hsecond : HasSystem second messages) (hne : first ≠ second) :
    ¬ Sends .anthropic messages := by
  obtain ⟨m, hm, hrole, rfl⟩ := hfirst
  obtain ⟨m', hm', hrole', rfl⟩ := hsecond
  intro hsends
  have hsent := hsends m hm hrole
  have hsent' := hsends m' hm' hrole'
  simp only [Wire.body, Body.instructions, Option.mem_toList] at hsent hsent'
  exact hne (Option.some.inj (hsent.symm.trans hsent'))

/-- A provider is told both prompts just if the rows of the chat have what `with_messages` dropped,
and the wire format sends more than one system text. -/
theorem instructed_iff (hhistory : request.history = historyOf rows thoughts) :
    (Instructed request (request.build provider model).messages ∧
        Sends wire (request.build provider model).messages) ↔
      wire ≠ .anthropic ∧ Kept rows harnessSystemPrompt ∧
        (request.planning.isSome → Kept rows request.prompt) := by
  have hkept : ∀ text, HasSystem text (request.build provider model).messages ↔
      Kept rows text ∨ request.planning = none ∧ request.prompt = text := by
    intro text
    rw [hasSystem_messages, hhistory, hasSystem_historyOf]
  constructor
  · rintro ⟨⟨hharness, hphase, -⟩, hsends⟩
    refine ⟨?_, ?_, fun hplanning => ?_⟩
    · rintro rfl
      exact not_sends_anthropic hharness hphase harness_ne_prompt hsends
    · exact ((hkept _).mp hharness).resolve_right fun h => harness_ne_prompt h.2.symm
    · exact ((hkept _).mp hphase).resolve_right fun h => by simp [h.1] at hplanning
  · rintro ⟨hwire, hharness, hphase⟩
    refine ⟨⟨(hkept _).mpr (.inl hharness), (hkept _).mpr ?_, ?_⟩,
      sends_of_ne_anthropic hwire fun m hm hrole => ?_⟩
    · cases hplanning : request.planning with
      | none => exact .inr ⟨rfl, rfl⟩
      | some mode => exact .inl (hphase (hplanning ▸ rfl))
    · rw [messages_eq]
      exact List.infix_append' [] _ _
    · rw [messages_eq, hhistory, List.mem_append] at hm
      obtain hm | hm := hm
      · exact (mem_historyOf_system hm hrole).1
      · split at hm
        · cases hm
        · obtain rfl := List.mem_singleton.mp hm
          rfl

end Request

/-! ### Every request of a turn -/

theorem instructions_iff {l : TurnLabel} {w w' : World} (hnumbered : Numbered w.store)
    (hturn : chat.step w l = some w') :
    ∀ request ∈ requests w'.trace, ∃ rows thoughts, Listed w.store rows ∧
      request.history = historyOf rows thoughts ∧
      ∀ (wire : Wire) (provider model : List Char),
        (Instructed request (request.build provider model).messages ∧
            Sends wire (request.build provider model).messages) ↔
          wire ≠ .anthropic ∧ Kept rows harnessSystemPrompt ∧
            (request.planning.isSome → Kept rows request.prompt) := by
  intro request hrequest
  obtain ⟨act, hact, hasked⟩ := mem_requests.mp hrequest
  have hwrote : Wrote True (fun _ _ => True) (fun _ => True) w.store w' :=
    wrote_turn hnumbered (callsMeet_true w l) (fun _ _ => trivial) hturn
  obtain hnone | ⟨s, hmoves, thoughts, hhistory⟩ := hwrote.asked act hact request hasked
  · exact ⟨[], [], .inl rfl, hnone, fun _ _ _ => instructed_iff (show _ = historyOf [] [] from hnone)⟩
  · exact ⟨s.messages, thoughts, .inr ⟨s, hmoves, rfl⟩, hhistory,
      fun _ _ _ => instructed_iff hhistory⟩

def hello : TurnLabel := ⟨plain, .prompt "hello".toList, caller readFile false⟩

theorem instructions_of_hello : ∃ w, chat.step chat.init hello = some w ∧
    requests w.trace ≠ [] ∧ ∀ request ∈ requests w.trace, ∃ rows thoughts,
      Listed chat.init.store rows ∧ request.history = historyOf rows thoughts ∧
      ∀ (wire : Wire) (provider model : List Char),
        (Instructed request (request.build provider model).messages ∧
            Sends wire (request.build provider model).messages) ↔
          wire ≠ .anthropic ∧ Kept rows harnessSystemPrompt ∧
            (request.planning.isSome → Kept rows request.prompt) :=
  ⟨_, rfl, by decide +kernel, instructions_iff numbered_empty rfl⟩

theorem not_instructed : ¬ ∀ (w w' : World) (l : TurnLabel), chat.step w l = some w' →
    ∀ request ∈ requests w'.trace, ∀ (wire : Wire) (provider model : List Char),
      Instructed request (request.build provider model).messages ∧
        Sends wire (request.build provider model).messages := by
  intro h
  obtain ⟨w, hturn, request, hrequest, hroles⟩ : ∃ w, chat.step chat.init hello = some w ∧
      ∃ request ∈ requests w.trace, ∀ m ∈ request.history, m.role ≠ .system :=
    ⟨_, rfl, _, List.mem_cons_self, by decide +kernel⟩
  obtain ⟨⟨hharness, -, -⟩, -⟩ := h _ w hello hturn request hrequest .ollama [] []
  obtain ⟨m, hm, hrole, -⟩ | ⟨-, hprompt⟩ := hasSystem_messages.mp hharness
  · exact hroles m hm hrole
  · exact harness_ne_prompt hprompt.symm

end Goble.Mission
