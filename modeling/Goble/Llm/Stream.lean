import Goble.Lib.Utf8
import Goble.Mission.Data

/-!
# The completion streams

The three providers read the body of a response as the transport hands it over. Each chunk is
decoded on its own, lossily, and put at the end of a buffer; then the lines that are complete are
taken off the front of the buffer, and each is one frame. What a line does is what the providers
differ in (`LineDecoder`); the loop is the same (`LineDecoder.run`).

What the loop does depends only on the text in the buffer, not on when it came (`run_eq`). But the
text does depend on the chunks: a character that is cut by the end of a chunk is decoded as two
halves.
-/

namespace Goble.Llm

open Goble.Mission (CompletionStreamEvent LlmToolCall TokenUsage)
open Goble.Text

/-! ### The loop -/

/-- What a provider does with a line, and with the end of the body. -/
structure LineDecoder (σ : Type) where
  init : σ
  /-- What the line is answered with, and the state after it, none if the stream is over. -/
  line : σ → List Char → List CompletionStreamEvent × Option σ
  close : σ → List CompletionStreamEvent

/-- The lines that are complete, with their newlines, and what is left in the buffer. -/
def takeLines : List Char → List (List Char) × List Char
  | [] => ([], [])
  | c :: text =>
    let (lines, rest) := takeLines text
    if c = '\n' then (['\n'] :: lines, rest)
    else
      match lines with
      | [] => ([], c :: rest)
      | line :: lines => ((c :: line) :: lines, rest)

namespace LineDecoder

variable {σ : Type} (d : LineDecoder σ)

/-- The lines of one chunk, up to the one that ends the stream. -/
def handle : σ → List (List Char) → List CompletionStreamEvent × Option σ
  | s, [] => ([], some s)
  | s, line :: lines =>
    match d.line s line with
    | (events, none) => (events, none)
    | (events, some s') =>
      let (more, last) := handle s' lines
      (events ++ more, last)

/-- The stream over what the transport hands over: chunks, and maybe an error. -/
def run : σ → List Char → List (Except (List Char) (List UInt8)) → List CompletionStreamEvent
  | s, _, [] => d.close s
  | _, _, .error e :: _ => [.error e]
  | s, buffer, .ok chunk :: body =>
    let (lines, rest) := takeLines (buffer ++ lossy chunk)
    match d.handle s lines with
    | (events, none) => events
    | (events, some s') => events ++ run s' rest body

/-- The events of a response whose body comes in these chunks. -/
def events (chunks : List (List UInt8)) : List CompletionStreamEvent :=
  d.run d.init [] (chunks.map .ok)

def ofText (s : σ) (text : List Char) : List CompletionStreamEvent :=
  match d.handle s (takeLines text).1 with
  | (events, none) => events
  | (events, some s') => events ++ d.close s'

end LineDecoder

/-! ### What the loop depends on -/

section Lines

variable {text more : List Char}

theorem takeLines_append : takeLines (text ++ more) =
    ((takeLines text).1 ++ (takeLines ((takeLines text).2 ++ more)).1,
      (takeLines ((takeLines text).2 ++ more)).2) := by
  induction text with
  | nil => rfl
  | cons c text ih =>
    rw [List.cons_append, takeLines, ih, takeLines]
    dsimp only
    by_cases hc : c = '\n'
    · rw [if_pos hc, if_pos hc]
      rfl
    · rw [if_neg hc, if_neg hc]
      cases hlines : (takeLines text).1 with
      | cons line lines => rfl
      | nil =>
        -- the line is still open, and goes on with what follows
        dsimp only
        rw [List.nil_append, List.nil_append, List.cons_append, takeLines]
        dsimp only
        rw [if_neg hc]

theorem takeLines_rest : takeLines (takeLines text).2 = ([], (takeLines text).2) := by
  induction text with
  | nil => rfl
  | cons c text ih =>
    rw [takeLines]
    dsimp only
    by_cases hc : c = '\n'
    · rw [if_pos hc]
      exact ih
    · rw [if_neg hc]
      cases hlines : (takeLines text).1 with
      | cons line lines => exact ih
      | nil =>
        dsimp only
        rw [takeLines, ih]
        dsimp only
        rw [if_neg hc]

end Lines

namespace LineDecoder

variable {σ : Type} {d : LineDecoder σ}

theorem handle_append (s : σ) (lines more : List (List Char)) : d.handle s (lines ++ more) =
    match d.handle s lines with
    | (events, none) => (events, none)
    | (events, some s') => (events ++ (d.handle s' more).1, (d.handle s' more).2) := by
  induction lines generalizing s with
  | nil => rfl
  | cons line lines ih =>
    rw [List.cons_append, handle, handle]
    cases hline : d.line s line with
    | mk events last =>
      cases last with
      | none => rfl
      | some s' =>
        dsimp only
        rw [ih]
        cases hrest : d.handle s' lines with
        | mk events' last' =>
          cases last' with
          | none => rfl
          | some s'' =>
            dsimp only
            rw [List.append_assoc]

/-- **What the loop does depends on the text alone.** -/
theorem run_eq {s : σ} {buffer : List Char} (hbuffer : takeLines buffer = ([], buffer))
    (chunks : List (List UInt8)) :
    d.run s buffer (chunks.map .ok) = d.ofText s (buffer ++ chunks.flatMap lossy) := by
  induction chunks generalizing s buffer with
  | nil =>
    show d.close s = d.ofText s (buffer ++ [])
    rw [List.append_nil, ofText, hbuffer]
    rfl
  | cons chunk chunks ih =>
    rw [List.map_cons, List.flatMap_cons, ← List.append_assoc, run, ofText,
      @takeLines_append (buffer ++ lossy chunk)]
    dsimp only
    rw [handle_append]
    cases hhandle : d.handle s (takeLines (buffer ++ lossy chunk)).1 with
    | mk events last =>
      cases last with
      | none => rfl
      | some s' =>
        dsimp only
        rw [ih takeLines_rest, ofText]
        -- the lines of the chunks that follow
        cases hmore : d.handle s' (takeLines ((takeLines (buffer ++ lossy chunk)).2 ++
            chunks.flatMap lossy)).1 with
        | mk events' last' =>
          cases last' with
          | none => rfl
          | some s'' => exact (List.append_assoc _ _ _).symm

theorem events_eq {chunks : List (List UInt8)} (h : CutsBetween chunks) :
    d.events chunks = d.events [chunks.flatten] := by
  have hwhole : [chunks.flatten].flatMap lossy = lossy chunks.flatten := List.flatMap_singleton ..
  show d.run d.init [] (chunks.map .ok) = d.run d.init [] ([chunks.flatten].map .ok)
  rw [run_eq rfl, run_eq rfl, flatMap_lossy h, hwhole]

end LineDecoder

/-! ### The three providers -/

def eventData (line : List Char) : Option (List Char) :=
  let line := trim line
  if "data: ".toList.isPrefixOf line then some (line.drop 6) else none

/-- `from_str` failed: the stream goes on. -/
def parseError (e : List Char) : CompletionStreamEvent :=
  .error ("[parse error: ".toList ++ e ++ "]".toList)

structure OpenAiUsage where
  promptTokens : Option Nat
  completionTokens : Option Nat
  /-- `prompt_tokens_details`, and its `cached_tokens`. -/
  promptTokensDetails : Option (Option Nat)

def OpenAiUsage.intoUsage (usage : OpenAiUsage) : TokenUsage where
  input := usage.promptTokens.getD 0
  cached := usage.promptTokensDetails.bind id
  output := usage.completionTokens.getD 0

structure OpenAiStreamFunctionCall where
  name : Option (List Char)
  arguments : Option (List Char)

structure OpenAiStreamToolCall where
  index : Nat
  id : Option (List Char)
  toolType : Option (List Char)
  function : Option OpenAiStreamFunctionCall

structure OpenAiStreamDelta where
  content : Option (List Char)
  reasoningContent : Option (List Char)
  toolCalls : Option (List OpenAiStreamToolCall)

structure OpenAiStreamChoice where
  delta : OpenAiStreamDelta
  finishReason : Option (List Char)

structure OpenAiStreamChunk where
  choices : List OpenAiStreamChoice
  usage : Option OpenAiUsage

structure AnthropicUsage where
  inputTokens : Option Nat
  outputTokens : Option Nat
  cacheReadInputTokens : Option Nat

structure AnthropicStreamChunk where
  chunkType : List Char
  /-- `delta`, and its `text`. -/
  delta : Option (Option (List Char))
  /-- `message`, and its `usage`. -/
  message : Option (Option AnthropicUsage)
  usage : Option AnthropicUsage

structure OllamaStreamChunk where
  content : List Char
  done : Bool
  promptEvalCount : Option Nat
  evalCount : Option Nat

/-- `serde_json::from_str` at the types of the frames. -/
structure Frames where
  value : List Char → Except (List Char) Value
  openAi : List Char → Except (List Char) OpenAiStreamChunk
  anthropic : List Char → Except (List Char) AnthropicStreamChunk
  ollama : List Char → Except (List Char) OllamaStreamChunk

variable (frames : Frames)

/-! The OpenAI-compatible provider keeps the calls that arrive in pieces. -/

abbrev ToolCallBuffer := List (Option OpenAiStreamToolCall)

def flushToolCallBuffer (buffer : ToolCallBuffer) : List LlmToolCall :=
  buffer.filterMap fun call => do
    let call ← call
    let function ← call.function
    let name ← function.name
    let arguments ← function.arguments
    some ⟨call.id.getD [], name, (frames.value arguments).toOption.getD .null⟩

def flushed (buffer : ToolCallBuffer) : List CompletionStreamEvent :=
  let toolCalls := flushToolCallBuffer frames buffer
  if toolCalls.isEmpty then [] else [.toolCalls toolCalls]

def addToolCall (buffer : ToolCallBuffer) (call : OpenAiStreamToolCall) : ToolCallBuffer :=
  let buffer := buffer ++ List.replicate (call.index + 1 - buffer.length) none
  buffer.modify call.index fun existing =>
    let existing := existing.getD ⟨call.index, none, none, none⟩
    some { existing with
      id := call.id.or existing.id
      toolType := call.toolType.or existing.toolType
      function :=
        match call.function with
        | none => existing.function
        | some function =>
          let existingFunction := existing.function.getD ⟨none, none⟩
          some
            { name := function.name.or existingFunction.name
              arguments :=
                match function.arguments with
                | some args => some (existingFunction.arguments.getD [] ++ args)
                | none => existingFunction.arguments } }

def present (text : Option (List Char)) : List (List Char) :=
  match text with
  | some text => if text.isEmpty then [] else [text]
  | none => []

def openAiChoice (buffer : ToolCallBuffer) (choice : OpenAiStreamChoice) :
    List CompletionStreamEvent × ToolCallBuffer :=
  let deltas := (present choice.delta.reasoningContent).map .reasoningDelta ++
    (present choice.delta.content).map .assistantDelta
  let buffer := (choice.delta.toolCalls.getD []).foldl addToolCall buffer
  (deltas ++ if choice.finishReason.isSome then flushed frames buffer else [], buffer)

def openAiChoices (buffer : ToolCallBuffer) :
    List OpenAiStreamChoice → List CompletionStreamEvent × ToolCallBuffer
  | [] => ([], buffer)
  | choice :: choices =>
    let (events, buffer) := openAiChoice frames buffer choice
    let (more, buffer) := openAiChoices buffer choices
    (events ++ more, buffer)

def openAi : LineDecoder ToolCallBuffer where
  init := []
  line buffer line :=
    match eventData line with
    | none => ([], some buffer)
    | some data =>
      if data = "[DONE]".toList then (flushed frames buffer ++ [.done], none)
      else
        match frames.openAi data with
        | .error e => ([parseError e], some buffer)
        | .ok parsed =>
          let usage := parsed.usage.toList.map fun usage => .usage usage.intoUsage
          let (events, buffer) := openAiChoices frames buffer parsed.choices
          (usage ++ events, some buffer)
  close buffer := flushed frames buffer ++ [.done]

/-- `AnthropicProvider::complete_stream`, which keeps what is known of the prompt. -/
def anthropic : LineDecoder (Option (Nat × Option Nat)) where
  init := none
  line prompt line :=
    match eventData line with
    | none => ([], some prompt)
    | some data =>
      if data = "[DONE]".toList then ([.done], none)
      else
        match frames.anthropic data with
        | .error e => ([parseError e], some prompt)
        | .ok parsed =>
          let text := if parsed.chunkType = "content_block_delta".toList then
            (parsed.delta.bind id).toList.map .assistantDelta else []
          let prompt := match parsed.message.bind id with
            | some usage => some (usage.inputTokens.getD 0, usage.cacheReadInputTokens)
            | none => prompt
          let usage := parsed.usage.toList.map fun usage =>
            let (input, cached) := prompt.getD (0, none)
            .usage ⟨input, cached, usage.outputTokens.getD 0⟩
          (text ++ usage, some prompt)
  close _ := [.done]

def ollama : LineDecoder Unit where
  init := ()
  line _ line :=
    let line := trim line
    if line.isEmpty then ([], some ())
    else
      match frames.ollama line with
      | .error e => ([parseError e], some ())
      | .ok parsed =>
        if parsed.done then
          let usage := if parsed.promptEvalCount.isSome || parsed.evalCount.isSome then
            [.usage ⟨parsed.promptEvalCount.getD 0, none, parsed.evalCount.getD 0⟩] else []
          (.assistantDelta parsed.content :: usage ++ [.done], none)
        else ([.assistantDelta parsed.content], some ())
  close _ := [.done]

/-- The events of the three providers do not depend on the chunks. -/
def SameEvents (chunks : List (List UInt8)) : Prop :=
  (openAi frames).events chunks = (openAi frames).events [chunks.flatten] ∧
    (anthropic frames).events chunks = (anthropic frames).events [chunks.flatten] ∧
      (ollama frames).events chunks = (ollama frames).events [chunks.flatten]

/-- **Chunks.** They decode to the text of the body exactly if none ends inside a character, and
where they do, the events are those of the body in one chunk. -/
theorem same_events_of_cuts (chunks : List (List UInt8)) :
    (chunks.flatMap lossy = lossy chunks.flatten ↔ CutsBetween chunks) ∧
      (CutsBetween chunks → ∀ frames, SameEvents frames chunks) :=
  ⟨flatMap_lossy_eq_iff chunks, fun h _ =>
    ⟨LineDecoder.events_eq h, LineDecoder.events_eq h, LineDecoder.events_eq h⟩⟩

/-- Frames that are their own content: what stands in the line is the text of the reply. -/
def plain : Frames where
  value _ := .error []
  openAi data := .ok ⟨[⟨⟨some data, none, none⟩, none⟩], none⟩
  anthropic data := .ok ⟨"content_block_delta".toList, some (some data), none, none⟩
  ollama line := .ok ⟨line, false, none, none⟩

def letterCut : List (List UInt8) := ["data: ".toList.map Char.toUInt8 ++ [0xc3], [0xa9, 0x0a]]

/-- The letter arrives as two replacement characters. -/
theorem not_same_events : ¬ ∀ (frames : Frames) (chunks : List (List UInt8)),
    SameEvents frames chunks := by
  intro h
  have hreply := (h plain letterCut).1
  have hcut : (openAi plain).events letterCut =
      [.assistantDelta [replacement, replacement], .done] := rfl
  have hwhole : (openAi plain).events [letterCut.flatten] = [.assistantDelta ['é'], .done] := rfl
  rw [hcut, hwhole] at hreply
  injection hreply with hdelta
  injection hdelta with htext
  exact absurd htext (by decide)

end Goble.Llm
