import Goble.Llm.Stream
import Mathlib.Algebra.Ring.Nat

/-!
# The contract of a completion stream

A stream is to end with one terminal event, and to report the tokens of its call at most once, with
the output count that the server reported last (`Contract`).

The decoders do not keep it for every body. A line that does not parse is answered with an error,
which is terminal, and the stream goes on; a usage frame is answered with a usage event each time
it comes. How far a body is from the contract can be read off its lines (`Reading`): off those that
the decoder reads, up to the first that ends the stream.
-/

namespace Goble.Llm

open Goble.Mission (CompletionStreamEvent LlmToolCall TokenUsage)
open Goble.Text

/-! ### The contract -/

def isTerminal : CompletionStreamEvent → Bool
  | .done => true
  | .error _ => true
  | _ => false

def usageOf : CompletionStreamEvent → Option TokenUsage
  | .usage usage => some usage
  | _ => none

/-- What the conversation's total is made of. -/
def usages (events : List CompletionStreamEvent) : List TokenUsage := events.filterMap usageOf

/-- The output count that a server reported last, of these. -/
def lastReported (reports : List Nat) : Nat := reports.getLast?.getD 0

structure Contract (reports : List Nat) (events : List CompletionStreamEvent) : Prop where
  ends : ∃ before last, events = before ++ [last] ∧ isTerminal last = true ∧
    ∀ event ∈ before, isTerminal event = false
  once : (usages events).length ≤ 1
  last : ∀ usage ∈ usages events, usage.output = lastReported reports
  total : ((usages events).map TokenUsage.output).sum ≤ lastReported reports

def EndsAfter (n : Nat) (events : List CompletionStreamEvent) : Prop :=
  ∃ before last, events = before ++ [last] ∧ isTerminal last = true ∧ before.countP isTerminal = n

variable {events : List CompletionStreamEvent}

theorem EndsAfter.append {n : Nat} {more : List CompletionStreamEvent} (h : EndsAfter n more) :
    EndsAfter (events.countP isTerminal + n) (events ++ more) := by
  obtain ⟨before, last, rfl, hlast, hcount⟩ := h
  refine ⟨events ++ before, last, (List.append_assoc _ _ _).symm, hlast, ?_⟩
  rw [List.countP_append, hcount]

theorem endsAfter_singleton {event : CompletionStreamEvent} (h : isTerminal event = true) :
    EndsAfter 0 [event] := ⟨[], event, rfl, h, rfl⟩

theorem EndsAfter.ends_iff {n : Nat} (h : EndsAfter n events) :
    (∃ before last, events = before ++ [last] ∧ isTerminal last = true ∧
      ∀ event ∈ before, isTerminal event = false) ↔ n = 0 := by
  obtain ⟨before, last, hevents, hlast, rfl⟩ := h
  constructor
  · rintro ⟨before', last', hevents', -, hbefore'⟩
    obtain ⟨rfl, -⟩ := List.append_inj' (hevents.symm.trans hevents') rfl
    exact List.countP_eq_zero.mpr fun event hevent => Bool.eq_false_iff.mp (hbefore' event hevent)
  · intro hzero
    refine ⟨before, last, hevents, hlast, fun event hevent => ?_⟩
    exact Bool.eq_false_iff.mpr (List.countP_eq_zero.mp hzero event hevent)

/-! ### What can be read off the lines -/

/-- What a provider finds in a line, whatever came before it. -/
structure Reading where
  /-- The line ends the stream. -/
  ends : List Char → Bool
  /-- The line is a frame that does not parse. -/
  malformed : List Char → Bool
  /-- The output count of the usage that the line is answered with. -/
  usage : List Char → Option Nat
  /-- The output counts that the server reports in the line. -/
  reports : List Char → List Nat

namespace Reading

variable (reading : Reading)

/-- The lines up to the first that ends the stream. -/
def read : List (List Char) → List (List Char)
  | [] => []
  | line :: lines => if reading.ends line then [line] else line :: read lines

def finished (lines : List (List Char)) : Bool := lines.any reading.ends

variable {reading}

theorem read_append_of_finished {lines : List (List Char)} (h : reading.finished lines = true)
    (more : List (List Char)) : reading.read (lines ++ more) = reading.read lines := by
  induction lines with
  | nil => cases h
  | cons line lines ih =>
    rw [List.cons_append, read, read]
    split
    · rfl
    · next hends =>
      rw [finished, List.any_cons, Bool.or_eq_true, or_iff_right hends] at h
      rw [ih h]

theorem read_append_of_not_finished {lines : List (List Char)} (h : reading.finished lines = false)
    (more : List (List Char)) : reading.read (lines ++ more) = lines ++ reading.read more := by
  induction lines with
  | nil => rfl
  | cons line lines ih =>
    rw [finished, List.any_cons, Bool.or_eq_false_iff] at h
    rw [List.cons_append, read, if_neg (Bool.eq_false_iff.mp h.1), ih h.2]
    rfl

structure LineOf {σ : Type} (reading : Reading) (line : List Char)
    (answer : List CompletionStreamEvent × Option σ) : Prop where
  stops : answer.2.isNone = reading.ends line
  ends : reading.ends line = true → EndsAfter 0 answer.1 ∧ reading.malformed line = false
  goesOn : reading.ends line = false →
    answer.1.countP isTerminal = if reading.malformed line then 1 else 0
  usage : (usages answer.1).map TokenUsage.output = (reading.usage line).toList

structure Of {σ : Type} (reading : Reading) (d : LineDecoder σ) : Prop where
  line : ∀ s line, reading.LineOf line (d.line s line)
  close : ∀ s, EndsAfter 0 (d.close s) ∧ usages (d.close s) = []

end Reading

/-! ### The loop -/

/-- The text that arrives, before the transport fails. -/
def received : List (Except (List Char) (List UInt8)) → List Char
  | [] => []
  | .error _ :: _ => []
  | .ok chunk :: body => lossy chunk ++ received body

def bodyLines (body : List (Except (List Char) (List UInt8))) : List (List Char) :=
  (takeLines (received body)).1

theorem usages_append (events more : List CompletionStreamEvent) :
    usages (events ++ more) = usages events ++ usages more := List.filterMap_append

variable {σ : Type} {d : LineDecoder σ} {reading : Reading}

theorem filterMap_one {α β : Type} (f : α → Option β) (x : α) :
    [x].filterMap f = (f x).toList := by
  rw [List.filterMap_cons]
  cases f x with
  | none => rfl
  | some y => rfl

/-- The lines of a chunk: the stream is over, or it has answered all of them. -/
theorem read_handle (h : reading.Of d) (s : σ) (lines : List (List Char)) :
    ((d.handle s lines).2.isNone = reading.finished lines) ∧
      ((usages (d.handle s lines).1).map TokenUsage.output =
        (reading.read lines).filterMap reading.usage) ∧
      (reading.finished lines = true →
        EndsAfter ((reading.read lines).countP reading.malformed) (d.handle s lines).1) ∧
      (reading.finished lines = false →
        (d.handle s lines).1.countP isTerminal = lines.countP reading.malformed) := by
  induction lines generalizing s with
  | nil => exact ⟨rfl, rfl, (absurd · Bool.false_ne_true), fun _ => rfl⟩
  | cons line lines ih =>
    obtain ⟨hover, hends, hgoesOn, husage⟩ := h.line s line
    rw [LineDecoder.handle, Reading.read, Reading.finished, List.any_cons]
    cases hline : d.line s line with
    | mk events last =>
      rw [hline] at hover husage hends hgoesOn
      cases last with
      | none =>
        -- the line ends the stream
        have hline : reading.ends line = true := hover.symm
        obtain ⟨hevents, hmalformed⟩ := hends hline
        rw [if_pos hline, hline, Bool.true_or]
        refine ⟨rfl, ?_, fun _ => ?_, fun hmore => by cases hmore⟩
        · exact husage.trans (filterMap_one reading.usage line).symm
        · rw [List.countP_cons_of_neg (Bool.eq_false_iff.mp hmalformed)]
          exact hevents
      | some s' =>
        have hline : reading.ends line = false := hover.symm
        obtain ⟨hover', husage', hends', hgoesOn'⟩ := ih s'
        rw [if_neg (Bool.eq_false_iff.mp hline), hline, Bool.false_or]
        have hcount : ∀ rest : List (List Char), (line :: rest).countP reading.malformed =
            events.countP isTerminal + rest.countP reading.malformed := by
          intro rest
          rw [List.countP_cons, hgoesOn hline, Nat.add_comm]
        refine ⟨hover', ?_, fun hmore => ?_, fun hmore => ?_⟩
        · show (usages (events ++ (d.handle s' lines).1)).map TokenUsage.output = _
          rw [usages_append, List.map_append, husage, husage', ← List.singleton_append,
            List.filterMap_append, filterMap_one]
        · rw [hcount]
          exact (hends' hmore).append
        · rw [hcount, ← hgoesOn' hmore]
          exact List.countP_append

theorem read_run (h : reading.Of d) (s : σ) {buffer : List Char}
    (hbuffer : takeLines buffer = ([], buffer))
    (body : List (Except (List Char) (List UInt8))) :
    EndsAfter ((reading.read (takeLines (buffer ++ received body)).1).countP reading.malformed)
        (d.run s buffer body) ∧
      (usages (d.run s buffer body)).map TokenUsage.output =
        (reading.read (takeLines (buffer ++ received body)).1).filterMap reading.usage := by
  induction body generalizing s buffer with
  | nil =>
    rw [received, List.append_nil, hbuffer]
    exact ⟨(h.close s).1, congrArg (List.map TokenUsage.output) (h.close s).2⟩
  | cons item body ih =>
    cases item with
    | error e =>
      -- the transport fails, and that is the end
      rw [received, List.append_nil, hbuffer]
      exact ⟨endsAfter_singleton rfl, rfl⟩
    | ok chunk =>
      rw [received, ← List.append_assoc, takeLines_append, LineDecoder.run]
      dsimp only
      obtain ⟨hover, husage, hends, hgoesOn⟩ :=
        read_handle h s (takeLines (buffer ++ lossy chunk)).1
      cases hhandle : d.handle s (takeLines (buffer ++ lossy chunk)).1 with
      | mk events last =>
        rw [hhandle] at hover husage hends hgoesOn
        cases last with
        | none =>
          rw [Reading.read_append_of_finished hover.symm]
          exact ⟨hends hover.symm, husage⟩
        | some s' =>
          -- none of the lines ends the stream, and the next chunk goes on after them
          obtain ⟨hends', husage'⟩ := ih s' takeLines_rest
          rw [Reading.read_append_of_not_finished hover.symm]
          constructor
          · rw [List.countP_append, ← hgoesOn hover.symm]
            exact hends'.append
          · have hread := @Reading.read_append_of_not_finished reading _ hover.symm []
            rw [List.append_nil, Reading.read, List.append_nil] at hread
            rw [usages_append, List.map_append, husage, husage', List.filterMap_append, hread]

/-- The contract of a stream, read off the lines of the body. -/
def Reading.Keeps (reading : Reading) (lines : List (List Char)) : Prop :=
  (∀ line ∈ reading.read lines, reading.malformed line = false) ∧
    ((reading.read lines).filterMap reading.usage).length ≤ 1 ∧
    ∀ n ∈ (reading.read lines).filterMap reading.usage, n = lastReported (lines.flatMap reading.reports)

/-- **The contract** is kept just by the bodies whose lines allow it. -/
theorem contract_iff (h : reading.Of d) (body : List (Except (List Char) (List UInt8))) :
    Contract ((bodyLines body).flatMap reading.reports) (d.run d.init [] body) ↔
      reading.Keeps (bodyLines body) := by
  obtain ⟨hends, husage⟩ := read_run h d.init (show takeLines [] = ([], []) from rfl) body
  have hlength : (usages (d.run d.init [] body)).length =
      ((reading.read (bodyLines body)).filterMap reading.usage).length :=
    (List.length_map TokenUsage.output).symm.trans (congrArg List.length husage)
  have hmalformed : (reading.read (bodyLines body)).countP reading.malformed = 0 ↔
      ∀ line ∈ reading.read (bodyLines body), reading.malformed line = false := by
    rw [List.countP_eq_zero]
    exact forall₂_congr fun line _ => Bool.eq_false_iff.symm
  have hlast : (∀ n ∈ (reading.read (bodyLines body)).filterMap reading.usage,
      n = lastReported ((bodyLines body).flatMap reading.reports)) ↔
        ∀ usage ∈ usages (d.run d.init [] body),
          usage.output = lastReported ((bodyLines body).flatMap reading.reports) := by
    rw [show (reading.read (bodyLines body)).filterMap reading.usage = _ from husage.symm,
      List.forall_mem_map]
  constructor
  · intro hcontract
    exact ⟨hmalformed.mp (hends.ends_iff.mp hcontract.ends), hlength ▸ hcontract.once,
      hlast.mpr hcontract.last⟩
  · rintro ⟨hread, honce, hcounts⟩
    refine ⟨hends.ends_iff.mpr (hmalformed.mpr hread), hlength ▸ honce, hlast.mp hcounts, ?_⟩
    -- with one usage at most, the total is its count
    show ((usages (d.run d.init [] body)).map TokenUsage.output).sum ≤ _
    rw [husage]
    match hcount : (reading.read (bodyLines body)).filterMap reading.usage with
    | [] => exact Nat.zero_le _
    | [n] =>
      have hn := hcounts n (hcount ▸ List.mem_singleton_self n)
      exact Nat.le_of_eq hn
    | _ :: _ :: _ =>
      rw [hcount] at honce
      simp at honce

/-! ### The three providers -/

/-- The line is a frame, which parses or does not. -/
def Reading.malformedFrame {α : Type} : Option (Except (List Char) α) → Bool
  | some (.error _) => true
  | _ => false

def Reading.parsed {α : Type} (frame : Option (Except (List Char) α)) : Option α :=
  frame.bind Except.toOption

def eventFrame {α : Type} (parse : List Char → Except (List Char) α) (line : List Char) :
    Option (Except (List Char) α) :=
  match eventData line with
  | none => none
  | some data => if data = "[DONE]".toList then none else some (parse data)

def isDone (line : List Char) : Bool := decide (eventData line = some "[DONE]".toList)

variable (frames : Frames)

def openAiReading : Reading where
  ends := isDone
  malformed line := Reading.malformedFrame (eventFrame frames.openAi line)
  usage line := (Reading.parsed (eventFrame frames.openAi line)).bind fun parsed =>
    parsed.usage.map fun usage => usage.completionTokens.getD 0
  reports line := (Reading.parsed (eventFrame frames.openAi line)).toList.flatMap fun parsed =>
    parsed.usage.toList.flatMap fun usage => usage.completionTokens.toList

def anthropicReading : Reading where
  ends := isDone
  malformed line := Reading.malformedFrame (eventFrame frames.anthropic line)
  usage line := (Reading.parsed (eventFrame frames.anthropic line)).bind fun parsed =>
    parsed.usage.map fun usage => usage.outputTokens.getD 0
  reports line := (Reading.parsed (eventFrame frames.anthropic line)).toList.flatMap fun parsed =>
    ((parsed.message.bind id).toList ++ parsed.usage.toList).flatMap fun usage =>
      usage.outputTokens.toList

def ollamaFrame (line : List Char) : Option (Except (List Char) OllamaStreamChunk) :=
  if (trim line).isEmpty then none else some (frames.ollama (trim line))

def ollamaReading : Reading where
  ends line := (Reading.parsed (ollamaFrame frames line)).any OllamaStreamChunk.done
  malformed line := Reading.malformedFrame (ollamaFrame frames line)
  usage line := (Reading.parsed (ollamaFrame frames line)).bind fun parsed =>
    if parsed.done && (parsed.promptEvalCount.isSome || parsed.evalCount.isSome) then
      some (parsed.evalCount.getD 0) else none
  reports line := (Reading.parsed (ollamaFrame frames line)).toList.flatMap fun parsed =>
    parsed.evalCount.toList

structure Silent (events : List CompletionStreamEvent) : Prop where
  terminals : events.countP isTerminal = 0
  usages : usages events = []

theorem silent_nil : Silent [] := ⟨rfl, rfl⟩

theorem Silent.append {more : List CompletionStreamEvent} (h : Silent events)
    (hmore : Silent more) : Silent (events ++ more) := by
  constructor
  · rw [List.countP_append, h.terminals, hmore.terminals]
  · rw [usages_append, h.usages, hmore.usages]
    rfl

theorem silent_map {α : Type} (event : α → CompletionStreamEvent)
    (h : ∀ a, isTerminal (event a) = false ∧ usageOf (event a) = none) (items : List α) :
    Silent (items.map event) := by
  constructor
  · rw [List.countP_eq_zero, List.forall_mem_map]
    exact fun a _ => Bool.eq_false_iff.mp (h a).1
  · show List.filterMap usageOf (items.map event) = []
    rw [List.filterMap_eq_nil_iff, List.forall_mem_map]
    exact fun a _ => (h a).2

theorem silent_flushed (buffer : ToolCallBuffer) : Silent (flushed frames buffer) := by
  unfold flushed
  dsimp only
  split
  · exact silent_nil
  · exact silent_map .toolCalls (fun _ => ⟨rfl, rfl⟩) [_]

theorem silent_openAiChoice (buffer : ToolCallBuffer) (choice : OpenAiStreamChoice) :
    Silent (openAiChoice frames buffer choice).1 := by
  rw [openAiChoice]
  refine Silent.append (Silent.append ?_ ?_) ?_
  · exact silent_map .reasoningDelta (fun _ => ⟨rfl, rfl⟩) _
  · exact silent_map .assistantDelta (fun _ => ⟨rfl, rfl⟩) _
  · split
    · exact silent_flushed frames _
    · exact silent_nil

theorem silent_openAiChoices (buffer : ToolCallBuffer) (choices : List OpenAiStreamChoice) :
    Silent (openAiChoices frames buffer choices).1 := by
  induction choices generalizing buffer with
  | nil => exact silent_nil
  | cons choice choices ih =>
    rw [openAiChoices]
    exact (silent_openAiChoice frames buffer choice).append (ih _)

theorem Silent.ends (h : Silent events) :
    EndsAfter 0 (events ++ [.done]) :=
  ⟨events, .done, rfl, rfl, h.terminals⟩

theorem usages_map_usage (items : List TokenUsage) :
    usages (items.map .usage) = items := by
  induction items with
  | nil => rfl
  | cons usage items ih => exact congrArg (List.cons usage) ih

theorem countP_map_usage (items : List TokenUsage) :
    (items.map CompletionStreamEvent.usage).countP isTerminal = 0 := by
  rw [List.countP_eq_zero, List.forall_mem_map]
  exact fun _ _ => Bool.false_ne_true

section Lines

variable {σ : Type} {reading : Reading} {line : List Char}

theorem Reading.lineOf_goesOn (hends : reading.ends line = false)
    (hmalformed : reading.malformed line = false) {before after : List CompletionStreamEvent}
    (hbefore : Silent before) (hafter : Silent after) (items : List TokenUsage)
    (husage : items.map TokenUsage.output = (reading.usage line).toList) (s : σ) :
    reading.LineOf line (before ++ (items.map .usage ++ after), some s) := by
  refine ⟨hends.symm, fun h => ?_, fun _ => ?_, ?_⟩
  · rw [hends] at h
    cases h
  · rw [List.countP_append, List.countP_append, hbefore.terminals, hafter.terminals,
      countP_map_usage, hmalformed]
    rfl
  · rw [usages_append, usages_append, hbefore.usages, hafter.usages, usages_map_usage,
      List.append_nil]
    exact husage

theorem Reading.lineOf_malformed (hends : reading.ends line = false)
    (hmalformed : reading.malformed line = true) (husage : reading.usage line = none)
    (e : List Char) (s : σ) : reading.LineOf line ([parseError e], some s) := by
  refine ⟨hends.symm, fun h => ?_, fun _ => ?_, ?_⟩
  · rw [hends] at h
    cases h
  · rw [hmalformed]
    rfl
  · rw [husage]
    rfl

theorem Reading.lineOf_ends (hends : reading.ends line = true)
    (hmalformed : reading.malformed line = false) {before : List CompletionStreamEvent}
    (hbefore : Silent before) (items : List TokenUsage)
    (husage : items.map TokenUsage.output = (reading.usage line).toList) :
    reading.LineOf line
      ((before ++ (items.map .usage ++ [.done]), none) : _ × Option σ) := by
  refine ⟨hends.symm, fun _ => ⟨⟨before ++ items.map .usage, .done, ?_, rfl, ?_⟩, hmalformed⟩,
    fun h => ?_, ?_⟩
  · exact (List.append_assoc _ _ _).symm
  · rw [List.countP_append, hbefore.terminals, countP_map_usage]
  · rw [hends] at h
    cases h
  · rw [usages_append, usages_append, hbefore.usages, usages_map_usage]
    exact (congrArg (List.map TokenUsage.output) (List.append_nil items)).trans husage

end Lines

theorem eventFrame_cases {α : Type} (parse : List Char → Except (List Char) α) (line : List Char) :
    (eventData line = none ∧ isDone line = false ∧ eventFrame parse line = none) ∨
      (eventData line = some "[DONE]".toList ∧ isDone line = true ∧ eventFrame parse line = none) ∨
      ∃ data, eventData line = some data ∧ data ≠ "[DONE]".toList ∧ isDone line = false ∧
        eventFrame parse line = some (parse data) := by
  rw [isDone, eventFrame]
  cases hdata : eventData line with
  | none => exact .inl ⟨rfl, rfl, rfl⟩
  | some data =>
    by_cases hdone : data = "[DONE]".toList
    · subst hdone
      exact .inr (.inl ⟨rfl, decide_eq_true rfl, if_pos rfl⟩)
    · exact .inr (.inr ⟨data, rfl, hdone,
        decide_eq_false fun heq => hdone (Option.some.inj heq), if_neg hdone⟩)

theorem openAiReading_of : (openAiReading frames).Of (openAi frames) := by
  refine ⟨fun buffer line => ?_, fun buffer => ⟨(silent_flushed frames buffer).ends, ?_⟩⟩
  · obtain ⟨hdata, hdone, hframe⟩ | ⟨hdata, hdone, hframe⟩ | ⟨data, hdata, hnot, hdone, hframe⟩ :=
      eventFrame_cases frames.openAi line
    · have hline : (openAi frames).line buffer line = ([], some buffer) := by
        simp only [openAi, hdata]
      rw [hline]
      refine Reading.lineOf_goesOn hdone (congrArg Reading.malformedFrame hframe) silent_nil
        silent_nil [] ?_ buffer
      show [] = ((Reading.parsed (eventFrame frames.openAi line)).bind _).toList
      rw [hframe]
      rfl
    · have hline : (openAi frames).line buffer line = (flushed frames buffer ++ [.done], none) := by
        simp only [openAi, hdata, if_true]
      rw [hline]
      refine Reading.lineOf_ends hdone (congrArg Reading.malformedFrame hframe)
        (silent_flushed frames buffer) [] ?_
      show [] = ((Reading.parsed (eventFrame frames.openAi line)).bind _).toList
      rw [hframe]
      rfl
    · cases hparse : frames.openAi data with
      | error e =>
        have hline : (openAi frames).line buffer line = ([parseError e], some buffer) := by
          simp only [openAi, hdata, if_neg hnot, hparse]
        rw [hparse] at hframe
        rw [hline]
        refine Reading.lineOf_malformed hdone (congrArg Reading.malformedFrame hframe) ?_ e buffer
        show (Reading.parsed (eventFrame frames.openAi line)).bind _ = none
        rw [hframe]
        rfl
      | ok parsed =>
        have hline : (openAi frames).line buffer line =
            ([] ++ ((parsed.usage.toList.map OpenAiUsage.intoUsage).map .usage ++
              (openAiChoices frames buffer parsed.choices).1),
              some (openAiChoices frames buffer parsed.choices).2) := by
          simp only [openAi, hdata, if_neg hnot, hparse, List.nil_append, List.map_map]
          rfl
        rw [hparse] at hframe
        rw [hline]
        refine Reading.lineOf_goesOn hdone (congrArg Reading.malformedFrame hframe) silent_nil
          (silent_openAiChoices frames buffer parsed.choices) _ ?_ _
        show _ = ((Reading.parsed (eventFrame frames.openAi line)).bind _).toList
        rw [hframe]
        show _ = (parsed.usage.map fun usage => usage.completionTokens.getD 0).toList
        cases parsed.usage with
        | none => rfl
        | some usage => rfl
  · show usages (flushed frames buffer ++ [.done]) = []
    rw [usages_append, (silent_flushed frames buffer).usages]
    rfl

theorem anthropicReading_of : (anthropicReading frames).Of (anthropic frames) := by
  refine ⟨fun prompt line => ?_, fun prompt => ⟨silent_nil.ends, rfl⟩⟩
  obtain ⟨hdata, hdone, hframe⟩ | ⟨hdata, hdone, hframe⟩ | ⟨data, hdata, hnot, hdone, hframe⟩ :=
    eventFrame_cases frames.anthropic line
  · have hline : (anthropic frames).line prompt line = ([], some prompt) := by
      simp only [anthropic, hdata]
    rw [hline]
    refine Reading.lineOf_goesOn hdone (congrArg Reading.malformedFrame hframe) silent_nil
      silent_nil [] ?_ prompt
    show [] = ((Reading.parsed (eventFrame frames.anthropic line)).bind _).toList
    rw [hframe]
    rfl
  · have hline : (anthropic frames).line prompt line = ([.done], none) := by
      simp only [anthropic, hdata, if_true]
    rw [hline]
    refine Reading.lineOf_ends hdone (congrArg Reading.malformedFrame hframe) silent_nil [] ?_
    show [] = ((Reading.parsed (eventFrame frames.anthropic line)).bind _).toList
    rw [hframe]
    rfl
  · cases hparse : frames.anthropic data with
    | error e =>
      have hline : (anthropic frames).line prompt line = ([parseError e], some prompt) := by
        simp only [anthropic, hdata, if_neg hnot, hparse]
      rw [hparse] at hframe
      rw [hline]
      refine Reading.lineOf_malformed hdone (congrArg Reading.malformedFrame hframe) ?_ e prompt
      show (Reading.parsed (eventFrame frames.anthropic line)).bind _ = none
      rw [hframe]
      rfl
    | ok parsed =>
      -- the counts of the prompt come from before, the output count from this frame
      have hanswer : ∀ (text : List CompletionStreamEvent) (prompt : Option (Nat × Option Nat)),
          Silent text → ∃ text' items prompt',
            ((text ++ parsed.usage.toList.map fun usage => .usage ⟨(prompt.getD (0, none)).1,
              (prompt.getD (0, none)).2, usage.outputTokens.getD 0⟩, some prompt) :
                List CompletionStreamEvent × Option (Option (Nat × Option Nat))) =
              (text' ++ (List.map .usage items ++ []), some prompt') ∧ Silent text' ∧
            items.map TokenUsage.output =
              (parsed.usage.map fun usage => usage.outputTokens.getD 0).toList := by
        intro text prompt htext
        refine ⟨text, parsed.usage.toList.map fun usage => ⟨(prompt.getD (0, none)).1,
          (prompt.getD (0, none)).2, usage.outputTokens.getD 0⟩, prompt, ?_, htext, ?_⟩
        · rw [List.map_map, List.append_nil]
          rfl
        · cases parsed.usage with
          | none => rfl
          | some usage => rfl
      obtain ⟨text, items, prompt', hline, htext, hitems⟩ : ∃ text items prompt',
          (anthropic frames).line prompt line =
            (text ++ (List.map .usage items ++ []), some prompt') ∧ Silent text ∧
          items.map TokenUsage.output =
            (parsed.usage.map fun usage => usage.outputTokens.getD 0).toList := by
        simp only [anthropic, hdata, if_neg hnot, hparse]
        refine hanswer _ _ ?_
        split
        · exact silent_map .assistantDelta (fun _ => ⟨rfl, rfl⟩) _
        · exact silent_nil
      rw [hparse] at hframe
      rw [hline]
      refine Reading.lineOf_goesOn hdone (congrArg Reading.malformedFrame hframe) htext silent_nil
        items ?_ prompt'
      show _ = ((Reading.parsed (eventFrame frames.anthropic line)).bind _).toList
      rw [hframe]
      exact hitems

theorem ollamaReading_of : (ollamaReading frames).Of (ollama frames) := by
  refine ⟨fun s line => ?_, fun s => ⟨silent_nil.ends, rfl⟩⟩
  by_cases hempty : (trim line).isEmpty = true
  · have hframe : ollamaFrame frames line = none := if_pos hempty
    have hline : (ollama frames).line s line = ([], some ()) := by
      simp only [ollama, hempty, if_true]
    rw [hline]
    refine Reading.lineOf_goesOn ?_ (congrArg Reading.malformedFrame hframe) silent_nil silent_nil
      [] ?_ ()
    · show (Reading.parsed (ollamaFrame frames line)).any _ = false
      rw [hframe]
      rfl
    · show [] = ((Reading.parsed (ollamaFrame frames line)).bind _).toList
      rw [hframe]
      rfl
  · have hframe : ollamaFrame frames line = some (frames.ollama (trim line)) := if_neg hempty
    cases hparse : frames.ollama (trim line) with
    | error e =>
      have hline : (ollama frames).line s line = ([parseError e], some ()) := by
        simp only [ollama, if_neg hempty, hparse]
      rw [hparse] at hframe
      rw [hline]
      refine Reading.lineOf_malformed ?_ (congrArg Reading.malformedFrame hframe) ?_ e ()
      · show (Reading.parsed (ollamaFrame frames line)).any _ = false
        rw [hframe]
        rfl
      · show (Reading.parsed (ollamaFrame frames line)).bind _ = none
        rw [hframe]
        rfl
    | ok parsed =>
      rw [hparse] at hframe
      have hends : (ollamaReading frames).ends line = parsed.done := by
        show (Reading.parsed (ollamaFrame frames line)).any _ = _
        rw [hframe]
        rfl
      have husage : (ollamaReading frames).usage line =
          if parsed.done && (parsed.promptEvalCount.isSome || parsed.evalCount.isSome) then
            some (parsed.evalCount.getD 0) else none := by
        show (Reading.parsed (ollamaFrame frames line)).bind _ = _
        rw [hframe]
        rfl
      by_cases hdone : parsed.done = true
      · have hline : (ollama frames).line s line = ([.assistantDelta parsed.content] ++
            (List.map .usage (if parsed.promptEvalCount.isSome || parsed.evalCount.isSome then
              [⟨parsed.promptEvalCount.getD 0, none, parsed.evalCount.getD 0⟩] else []) ++ [.done]),
              none) := by
          simp only [ollama, if_neg hempty, hparse, if_pos hdone]
          split <;> rfl
        rw [hline]
        refine Reading.lineOf_ends (hends.trans hdone) (congrArg Reading.malformedFrame hframe)
          ⟨rfl, rfl⟩ _ ?_
        rw [husage, hdone, Bool.true_and]
        split <;> rfl
      · have hline : (ollama frames).line s line =
            ([.assistantDelta parsed.content] ++ (List.map .usage [] ++ []), some ()) := by
          simp only [ollama, if_neg hempty, hparse, if_neg hdone]
          rfl
        rw [hline]
        refine Reading.lineOf_goesOn (hends.trans (Bool.eq_false_iff.mpr hdone))
          (congrArg Reading.malformedFrame hframe) ⟨rfl, rfl⟩ silent_nil [] ?_ ()
        rw [husage, Bool.eq_false_iff.mpr hdone]
        rfl

/-! ### The contract of the three -/

/-- The streams of the three providers over this body keep the contract. -/
structure Contracts (body : List (Except (List Char) (List UInt8))) : Prop where
  openAi : Contract ((bodyLines body).flatMap (openAiReading frames).reports)
    ((openAi frames).run (openAi frames).init [] body)
  anthropic : Contract ((bodyLines body).flatMap (anthropicReading frames).reports)
    ((anthropic frames).run (anthropic frames).init [] body)
  ollama : Contract ((bodyLines body).flatMap (ollamaReading frames).reports)
    ((ollama frames).run (ollama frames).init [] body)

/-- **The contract.** Each provider keeps it just where, of the lines that it reads up to the one
that ends the stream, all parse and at most one reports a usage, with an output count that the body
does not report otherwise later. -/
theorem contracts_iff (body : List (Except (List Char) (List UInt8))) :
    (Contract ((bodyLines body).flatMap (openAiReading frames).reports)
        ((openAi frames).run (openAi frames).init [] body) ↔
      (openAiReading frames).Keeps (bodyLines body)) ∧
    (Contract ((bodyLines body).flatMap (anthropicReading frames).reports)
        ((anthropic frames).run (anthropic frames).init [] body) ↔
      (anthropicReading frames).Keeps (bodyLines body)) ∧
    (Contract ((bodyLines body).flatMap (ollamaReading frames).reports)
        ((ollama frames).run (ollama frames).init [] body) ↔
      (ollamaReading frames).Keeps (bodyLines body)) :=
  ⟨contract_iff (openAiReading_of frames) body, contract_iff (anthropicReading_of frames) body,
    contract_iff (ollamaReading_of frames) body⟩

def noFrames : Frames where
  value _ := .error "EOF while parsing an object at line 1 column 1".toList
  openAi _ := .error "EOF while parsing an object at line 1 column 1".toList
  anthropic _ := .error "EOF while parsing an object at line 1 column 1".toList
  ollama _ := .error "EOF while parsing an object at line 1 column 1".toList

/-- `data: {`, and the end of the stream. -/
def cutFrame : List (Except (List Char) (List UInt8)) :=
  [.ok ("data: \x7b\ndata: [DONE]\n".toList.map Char.toUInt8)]

/-- A malformed frame is answered with an error, and the stream goes on to its end. -/
theorem not_contracts : ¬ ∀ (frames : Frames) (body : List (Except (List Char) (List UInt8))),
    Contracts frames body := by
  intro h
  obtain ⟨before, last, hevents, -, hbefore⟩ := (h noFrames cutFrame).openAi.ends
  have hrun : (openAi noFrames).run (openAi noFrames).init [] cutFrame =
      [parseError "EOF while parsing an object at line 1 column 1".toList] ++ [.done] := rfl
  rw [hrun] at hevents
  obtain ⟨rfl, -⟩ := List.append_inj' hevents rfl
  exact absurd (hbefore _ (List.mem_singleton_self _)) (by decide)

end Goble.Llm
