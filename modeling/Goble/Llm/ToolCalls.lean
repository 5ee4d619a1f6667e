import Mathlib.Data.List.Range
import Mathlib.Data.List.Sort
import Goble.Llm.Contract

/-!
# Tool calls in pieces

An OpenAI-compatible server sends a tool call in pieces, each with the index of its call. The
decoder keeps a list with a slot for each index, and lists the slots that have a name and arguments
at the end.

* `assembles_iff` — so the calls are put together as they were cut just if each was given some
  arguments and its name and its id came last in one piece, and if no index is larger than the
  number of the pieces allows.
-/

namespace Goble.Llm

open Goble.Mission (CompletionStreamEvent LlmToolCall)
open Goble.Text

/-! ### Slots -/

/-- A piece is put to what its slot has. -/
def mergeCall (slot : Option OpenAiStreamToolCall) (call : OpenAiStreamToolCall) :
    OpenAiStreamToolCall :=
  let existing := slot.getD ⟨call.index, none, none, none⟩
  { existing with
    id := call.id.or existing.id
    toolType := call.toolType.or existing.toolType
    function :=
      match call.function with
      | none => existing.function
      | some function =>
        let existingFunction := existing.function.getD ⟨none, none⟩
        some
          { name := function.name.or existingFunction.name
            arguments :=
              match function.arguments with
              | some args => some (existingFunction.arguments.getD [] ++ args)
              | none => existingFunction.arguments } }

def slotAt (buffer : ToolCallBuffer) (index : Nat) : Option OpenAiStreamToolCall :=
  (buffer[index]?).join

variable {buffer : ToolCallBuffer}

theorem slotAt_of_length_le {index : Nat} (h : buffer.length ≤ index) :
    slotAt buffer index = none := by
  rw [slotAt, List.getElem?_eq_none h]
  rfl

theorem length_addToolCall (buffer : ToolCallBuffer) (call : OpenAiStreamToolCall) :
    (addToolCall buffer call).length = max buffer.length (call.index + 1) := by
  rw [addToolCall]
  dsimp only
  rw [List.length_modify, List.length_append, List.length_replicate]
  omega

theorem slotAt_addToolCall (buffer : ToolCallBuffer) (call : OpenAiStreamToolCall) (index : Nat) :
    slotAt (addToolCall buffer call) index =
      if call.index = index then some (mergeCall (slotAt buffer index) call)
      else slotAt buffer index := by
  -- empty slots are no different from slots that are not there
  have hgrown : ∀ n, ((buffer ++ List.replicate n none)[index]?).join = slotAt buffer index := by
    intro n
    rw [slotAt, List.getElem?_append]
    split
    · rfl
    · next hle =>
      rw [List.getElem?_eq_none (Nat.le_of_not_lt hle), List.getElem?_replicate]
      split <;> rfl
  rw [slotAt, addToolCall]
  dsimp only
  by_cases hindex : call.index = index
  · subst hindex
    have hlt : call.index <
        (buffer ++ List.replicate (call.index + 1 - buffer.length) none).length := by
      rw [List.length_append, List.length_replicate]
      omega
    rw [List.getElem?_modify_eq, if_pos rfl, ← hgrown (call.index + 1 - buffer.length),
      List.getElem?_eq_getElem hlt]
    rfl
  · rw [List.getElem?_modify_ne _ _ hindex, if_neg hindex, hgrown]

/-! ### Pieces -/

def piecesOf (index : Nat) (pieces : List OpenAiStreamToolCall) : List OpenAiStreamToolCall :=
  pieces.filter fun piece => piece.index = index

def idPieces (index : Nat) (pieces : List OpenAiStreamToolCall) : List (List Char) :=
  (piecesOf index pieces).filterMap OpenAiStreamToolCall.id

def namePieces (index : Nat) (pieces : List OpenAiStreamToolCall) : List (List Char) :=
  (piecesOf index pieces).filterMap fun piece => piece.function.bind OpenAiStreamFunctionCall.name

def argumentPieces (index : Nat) (pieces : List OpenAiStreamToolCall) : List (List Char) :=
  (piecesOf index pieces).filterMap fun piece =>
    piece.function.bind OpenAiStreamFunctionCall.arguments

def joined (pieces : List (List Char)) : Option (List Char) :=
  if pieces.isEmpty then none else some pieces.flatten

theorem joined_concat (pieces : List (List Char)) (piece : List Char) :
    joined (pieces ++ [piece]) = some ((joined pieces).getD [] ++ piece) := by
  cases pieces with
  | nil => exact congrArg some (List.append_nil piece)
  | cons first pieces =>
    show some ((first :: pieces) ++ [piece]).flatten = some ((first :: pieces).flatten ++ piece)
    rw [List.flatten_append, List.flatten_singleton]

structure Holds (slot : Option OpenAiStreamToolCall) (ids names arguments : List (List Char)) :
    Prop where
  id : (slot.bind OpenAiStreamToolCall.id) = ids.getLast?
  name : ((slot.bind OpenAiStreamToolCall.function).bind OpenAiStreamFunctionCall.name) =
    names.getLast?
  arguments : ((slot.bind OpenAiStreamToolCall.function).bind OpenAiStreamFunctionCall.arguments) =
    joined arguments

theorem holds_none : Holds none [] [] [] := ⟨rfl, rfl, rfl⟩

theorem getLast?_append_toList (pieces : List (List Char)) (piece : Option (List Char)) :
    (pieces ++ piece.toList).getLast? = piece.or pieces.getLast? := by
  cases piece with
  | none => exact congrArg List.getLast? (List.append_nil pieces)
  | some piece => exact List.getLast?_concat ..

theorem Holds.merge {slot : Option OpenAiStreamToolCall} {ids names arguments : List (List Char)}
    (h : Holds slot ids names arguments) (call : OpenAiStreamToolCall) :
    Holds (some (mergeCall slot call)) (ids ++ call.id.toList)
      (names ++ (call.function.bind OpenAiStreamFunctionCall.name).toList)
      (arguments ++ (call.function.bind OpenAiStreamFunctionCall.arguments).toList) := by
  obtain ⟨hid, hname, harguments⟩ := h
  refine ⟨?_, ?_, ?_⟩
  · rw [getLast?_append_toList, ← hid]
    cases slot with
    | none => rfl
    | some slot => rfl
  · rw [getLast?_append_toList, ← hname]
    cases hfunction : call.function with
    | none =>
      cases slot with
      | none => simp [mergeCall, hfunction]
      | some slot => simp [mergeCall, hfunction]
    | some function =>
      cases slot with
      | none => simp [mergeCall, hfunction]
      | some slot => cases hslot : slot.function <;> simp [mergeCall, hfunction, hslot]
  · cases hfunction : call.function with
    | none =>
      rw [Option.bind_none, Option.toList_none, List.append_nil, ← harguments]
      cases slot with
      | none => simp [mergeCall, hfunction]
      | some slot => simp [mergeCall, hfunction]
    | some function =>
      cases hargs : function.arguments with
      | none =>
        have hnone : (some function).bind OpenAiStreamFunctionCall.arguments = none := hargs
        rw [hnone, Option.toList_none, List.append_nil, ← harguments]
        cases slot with
        | none => simp [mergeCall, hfunction, hargs]
        | some slot => cases hslot : slot.function <;> simp [mergeCall, hfunction, hargs, hslot]
      | some args =>
        have hsome : (some function).bind OpenAiStreamFunctionCall.arguments = some args := hargs
        rw [hsome, Option.toList_some, joined_concat, ← harguments]
        cases slot with
        | none => simp [mergeCall, hfunction, hargs]
        | some slot => cases hslot : slot.function <;> simp [mergeCall, hfunction, hargs, hslot]

theorem filterMap_concat {α β : Type} (f : α → Option β) (xs : List α) (x : α) :
    (xs ++ [x]).filterMap f = xs.filterMap f ++ (f x).toList := by
  rw [List.filterMap_append, filterMap_one]

theorem holds_foldl (pieces : List OpenAiStreamToolCall) (index : Nat) :
    Holds (slotAt (pieces.foldl addToolCall []) index) (idPieces index pieces)
      (namePieces index pieces) (argumentPieces index pieces) := by
  induction pieces using List.reverseRecOn with
  | nil => exact holds_none
  | append_singleton pieces piece ih =>
    rw [List.foldl_concat, slotAt_addToolCall]
    by_cases hindex : piece.index = index
    · have hpieces : piecesOf index (pieces ++ [piece]) = piecesOf index pieces ++ [piece] := by
        rw [piecesOf, List.filter_append, List.filter_cons, if_pos (decide_eq_true hindex)]
        rfl
      rw [if_pos hindex, idPieces, namePieces, argumentPieces, hpieces, filterMap_concat,
        filterMap_concat, filterMap_concat]
      exact ih.merge piece
    · have hpieces : piecesOf index (pieces ++ [piece]) = piecesOf index pieces := by
        rw [piecesOf, List.filter_append, List.filter_cons, if_neg (by simpa using hindex)]
        exact List.append_nil _
      rw [if_neg hindex, idPieces, namePieces, argumentPieces, hpieces]
      exact ih

/-! ### What is listed -/

variable (frames : Frames)

def flushSlot (slot : Option OpenAiStreamToolCall) : Option LlmToolCall := do
  let call ← slot
  let function ← call.function
  let name ← function.name
  let arguments ← function.arguments
  some ⟨call.id.getD [], name, (frames.value arguments).toOption.getD .null⟩

/-- The call of which these are the pieces: its id and name as they came last. -/
def lastCall (ids names arguments : List (List Char)) : Option LlmToolCall := do
  let name ← names.getLast?
  let arguments ← joined arguments
  some ⟨ids.getLast?.getD [], name, (frames.value arguments).toOption.getD .null⟩

theorem flushSlot_of_holds {slot : Option OpenAiStreamToolCall}
    {ids names arguments : List (List Char)} (h : Holds slot ids names arguments) :
    flushSlot frames slot = lastCall frames ids names arguments := by
  rw [lastCall, ← h.id, ← h.name, ← h.arguments]
  cases slot with
  | none => rfl
  | some call =>
    cases hfunction : call.function with
    | none => simp [flushSlot, hfunction]
    | some function => simp [flushSlot, hfunction]

theorem flush_eq {n : Nat} (h : buffer.length ≤ n) :
    flushToolCallBuffer frames buffer =
      (List.range n).filterMap fun index => flushSlot frames (slotAt buffer index) := by
  induction buffer generalizing n with
  | nil =>
    refine (List.filterMap_eq_nil_iff.mpr fun index _ => ?_).symm
    rw [slotAt_of_length_le (Nat.zero_le index)]
    rfl
  | cons slot buffer ih =>
    obtain ⟨n, rfl⟩ : ∃ m, n = m + 1 := ⟨n - 1, by rw [List.length_cons] at h; omega⟩
    rw [List.range_succ_eq_map, List.filterMap_cons, List.filterMap_map]
    have htail := ih (Nat.le_of_succ_le_succ h)
    show (slot :: buffer).filterMap (flushSlot frames) = _
    rw [List.filterMap_cons]
    rw [show slotAt (slot :: buffer) 0 = slot from by rw [slotAt]; exact Option.join_some]
    have hrest : buffer.filterMap (flushSlot frames) = (List.range n).filterMap
        ((fun index => flushSlot frames (slotAt (slot :: buffer) index)) ∘ Nat.succ) := htail
    rw [hrest]

/-! ### The stream -/

def assembled (pieces : List OpenAiStreamToolCall) : ToolCallBuffer := pieces.foldl addToolCall []

def listed (pieces : List OpenAiStreamToolCall) : List LlmToolCall :=
  flushToolCallBuffer frames (assembled pieces)

variable {pieces : List OpenAiStreamToolCall}

theorem listed_eq {n : Nat} (h : (assembled pieces).length ≤ n) : listed frames pieces =
      (List.range n).filterMap fun index => lastCall frames (idPieces index pieces)
        (namePieces index pieces) (argumentPieces index pieces) := by
  rw [listed, flush_eq frames h]
  exact List.filterMap_congr fun index _ => flushSlot_of_holds frames (holds_foldl pieces index)

theorem lastCall_isSome {ids names arguments : List (List Char)} :
    (lastCall frames ids names arguments).isSome = true ↔ names ≠ [] ∧ arguments ≠ [] := by
  rw [lastCall]
  cases names with
  | nil => simp
  | cons name names =>
    cases arguments with
    | nil => simp [joined]
    | cons args arguments => simp [joined, List.getLast?_cons]

theorem piecesOf_append (index : Nat) (pieces more : List OpenAiStreamToolCall) :
    piecesOf index (pieces ++ more) = piecesOf index pieces ++ piecesOf index more :=
  List.filter_append ..

theorem listed_append (h : listed frames pieces ≠ []) (more : List OpenAiStreamToolCall) :
    listed frames (pieces ++ more) ≠ [] := by
  obtain ⟨call, hcall⟩ := List.exists_mem_of_ne_nil _ h
  rw [listed_eq frames (Nat.le_max_left _ (assembled (pieces ++ more)).length),
    List.mem_filterMap] at hcall
  obtain ⟨index, hindex, hlast⟩ := hcall
  obtain ⟨hnames, harguments⟩ :=
    (lastCall_isSome frames).mp (Option.isSome_iff_exists.mpr ⟨call, hlast⟩)
  have hlater : (lastCall frames (idPieces index (pieces ++ more)) (namePieces index (pieces ++ more))
      (argumentPieces index (pieces ++ more))).isSome = true := by
    rw [lastCall_isSome, namePieces, argumentPieces, piecesOf_append, List.filterMap_append,
      List.filterMap_append]
    exact ⟨List.append_ne_nil_of_left_ne_nil hnames _,
      List.append_ne_nil_of_left_ne_nil harguments _⟩
  obtain ⟨call', hcall'⟩ := Option.isSome_iff_exists.mp hlater
  refine List.ne_nil_of_mem (a := call') ?_
  rw [listed_eq frames (Nat.le_max_right (assembled pieces).length _), List.mem_filterMap]
  exact ⟨index, hindex, hcall'⟩

def toolCallsOf : CompletionStreamEvent → Option (List LlmToolCall)
  | .toolCalls calls => some calls
  | _ => none

def lastToolCalls (events : List CompletionStreamEvent) : Option (List LlmToolCall) :=
  (events.filterMap toolCallsOf).getLast?

def Lists (pieces : List OpenAiStreamToolCall) (events : List CompletionStreamEvent) : Prop :=
  ∀ event ∈ events, (toolCallsOf event).isSome = true → listed frames pieces ≠ []

variable {frames}

theorem Lists.append {more : List OpenAiStreamToolCall} {events later : List CompletionStreamEvent}
    (h : Lists frames pieces events) (hlater : Lists frames (pieces ++ more) later) :
    Lists frames (pieces ++ more) (events ++ later) := by
  intro event hevent hcalls
  obtain hevent | hevent := List.mem_append.mp hevent
  · exact listed_append frames (h event hevent hcalls) more
  · exact hlater event hevent hcalls

theorem lists_of_none {events : List CompletionStreamEvent}
    (h : ∀ event ∈ events, toolCallsOf event = none) : Lists frames pieces events := by
  intro event hevent hcalls
  rw [h event hevent] at hcalls
  cases hcalls

theorem flushed_of_nil (h : listed frames pieces = []) :
    flushed frames (assembled pieces) = [] := if_pos (List.isEmpty_iff.mpr h)

theorem flushed_of_ne_nil (h : listed frames pieces ≠ []) :
    flushed frames (assembled pieces) = [.toolCalls (listed frames pieces)] :=
  if_neg fun hempty => h (List.isEmpty_iff.mp hempty)

theorem lists_flushed (pieces : List OpenAiStreamToolCall) :
    Lists frames pieces (flushed frames (assembled pieces)) := by
  intro event hevent _ hnil
  rw [flushed_of_nil hnil] at hevent
  cases hevent

def choicePieces (choices : List OpenAiStreamChoice) : List OpenAiStreamToolCall :=
  choices.flatMap fun choice => choice.delta.toolCalls.getD []

theorem openAiChoices_pieces (pieces : List OpenAiStreamToolCall)
    (choices : List OpenAiStreamChoice) :
    (openAiChoices frames (assembled pieces) choices).2 =
        assembled (pieces ++ choicePieces choices) ∧
      Lists frames (pieces ++ choicePieces choices)
        (openAiChoices frames (assembled pieces) choices).1 := by
  induction choices generalizing pieces with
  | nil =>
    refine ⟨?_, lists_of_none nofun⟩
    rw [choicePieces, List.flatMap_nil, List.append_nil]
    rfl
  | cons choice choices ih =>
    have hbuffer : (choice.delta.toolCalls.getD []).foldl addToolCall (assembled pieces) =
        assembled (pieces ++ choice.delta.toolCalls.getD []) := (List.foldl_append ..).symm
    have hpieces : pieces ++ choicePieces (choice :: choices) =
        (pieces ++ choice.delta.toolCalls.getD []) ++ choicePieces choices := by
      rw [choicePieces, List.flatMap_cons, List.append_assoc]
      rfl
    obtain ⟨hnext, hlists⟩ := ih (pieces ++ choice.delta.toolCalls.getD [])
    rw [hpieces, openAiChoices, openAiChoice]
    dsimp only
    rw [hbuffer]
    refine ⟨hnext, Lists.append ?_ hlists⟩
    -- text has no calls, and those that are listed at the end of the choice are there
    intro event hevent hcalls
    obtain hevent | hevent := List.mem_append.mp hevent
    · refine lists_of_none ?_ event hevent hcalls
      rw [List.forall_mem_append, List.forall_mem_map, List.forall_mem_map]
      exact ⟨fun _ _ => rfl, fun _ _ => rfl⟩
    · split at hevent
      · exact lists_flushed _ event hevent hcalls
      · cases hevent

variable (frames)

def linePieces (line : List Char) : List OpenAiStreamToolCall :=
  (Reading.parsed (eventFrame frames.openAi line)).toList.flatMap fun parsed =>
    choicePieces parsed.choices

def piecesIn (chunks : List (List UInt8)) : List OpenAiStreamToolCall :=
  ((openAiReading frames).read (takeLines (chunks.flatMap lossy)).1).flatMap (linePieces frames)

variable {frames}

def EndsListed (frames : Frames) (pieces : List OpenAiStreamToolCall)
    (events : List CompletionStreamEvent) : Prop :=
  ∃ before, events = before ++ (flushed frames (assembled pieces) ++ [.done]) ∧
    Lists frames pieces before

theorem line_pieces (pieces : List OpenAiStreamToolCall) (line : List Char) :
    (isDone line = true ∧ linePieces frames line = [] ∧
        (openAi frames).line (assembled pieces) line =
          (flushed frames (assembled pieces) ++ [.done], none)) ∨
      (isDone line = false ∧ ∃ events, (openAi frames).line (assembled pieces) line =
          (events, some (assembled (pieces ++ linePieces frames line))) ∧
        Lists frames (pieces ++ linePieces frames line) events) := by
  obtain ⟨hdata, hdone, hframe⟩ | ⟨hdata, hdone, hframe⟩ | ⟨data, hdata, hnot, hdone, hframe⟩ :=
    eventFrame_cases frames.openAi line
  · refine .inr ⟨hdone, [], ?_, lists_of_none nofun⟩
    rw [linePieces, hframe]
    simp only [openAi, hdata]
    exact congrArg (fun pieces => ([], some (assembled pieces))) (List.append_nil pieces).symm
  · refine .inl ⟨hdone, ?_, ?_⟩
    · rw [linePieces, hframe]
      rfl
    · simp only [openAi, hdata, if_true]
  · right
    cases hparse : frames.openAi data with
    | error e =>
      refine ⟨hdone, [parseError e], ?_, lists_of_none (List.forall_mem_singleton.mpr rfl)⟩
      rw [linePieces, hframe, hparse]
      simp only [openAi, hdata, if_neg hnot, hparse]
      exact congrArg (fun pieces => ([parseError e], some (assembled pieces)))
        (List.append_nil pieces).symm
    | ok parsed =>
      have hpieces : linePieces frames line = choicePieces parsed.choices := by
        rw [linePieces, hframe, hparse]
        exact List.flatMap_singleton ..
      obtain ⟨hnext, hlists⟩ := @openAiChoices_pieces frames pieces parsed.choices
      rw [hpieces]
      refine ⟨hdone, parsed.usage.toList.map (fun usage => .usage usage.intoUsage) ++
        (openAiChoices frames (assembled pieces) parsed.choices).1, ?_, ?_⟩
      · simp only [openAi, hdata, if_neg hnot, hparse, hnext]
      · refine Lists.append (lists_of_none ?_) hlists
        rw [List.forall_mem_map]
        exact fun _ _ => rfl

theorem handle_pieces (pieces : List OpenAiStreamToolCall) (lines : List (List Char)) :
    (∃ events, (openAi frames).handle (assembled pieces) lines = (events, none) ∧
        EndsListed frames (pieces ++ ((openAiReading frames).read lines).flatMap (linePieces frames))
          events) ∨
      (∃ events, (openAi frames).handle (assembled pieces) lines =
          (events, some (assembled
            (pieces ++ ((openAiReading frames).read lines).flatMap (linePieces frames)))) ∧
        Lists frames (pieces ++ ((openAiReading frames).read lines).flatMap (linePieces frames))
          events) := by
  induction lines generalizing pieces with
  | nil =>
    refine .inr ⟨[], ?_, lists_of_none nofun⟩
    rw [Reading.read, List.flatMap_nil, List.append_nil]
    rfl
  | cons line lines ih =>
    obtain ⟨hdone, hpieces, hline⟩ | ⟨hdone, events, hline, hlists⟩ := line_pieces pieces line
    · refine .inl ⟨flushed frames (assembled pieces) ++ [.done], ?_, ?_⟩
      · rw [LineDecoder.handle, hline]
      · have hends : (openAiReading frames).ends line = true := hdone
        rw [Reading.read, if_pos hends, List.flatMap_singleton, hpieces, List.append_nil]
        exact ⟨[], rfl, lists_of_none nofun⟩
    · have hends : ¬ (openAiReading frames).ends line = true := Bool.eq_false_iff.mp hdone
      rw [Reading.read, if_neg hends, List.flatMap_cons, ← List.append_assoc, LineDecoder.handle,
        hline]
      dsimp only
      obtain ⟨more, hmore, before, rfl, hbefore⟩ | ⟨more, hmore, hlater⟩ :=
        ih (pieces ++ linePieces frames line)
      · refine .inl ⟨events ++ (before ++ _), ?_, events ++ before,
          (List.append_assoc _ _ _).symm, hlists.append hbefore⟩
        rw [hmore]
      · refine .inr ⟨events ++ more, ?_, hlists.append hlater⟩
        rw [hmore]

theorem lastToolCalls_events (chunks : List (List UInt8)) :
    (lastToolCalls ((openAi frames).events chunks)).getD [] =
      listed frames (piecesIn frames chunks) := by
  obtain ⟨before, hevents, hbefore⟩ :
      EndsListed frames (piecesIn frames chunks) ((openAi frames).events chunks) := by
    rw [LineDecoder.events, LineDecoder.run_eq rfl, List.nil_append, LineDecoder.ofText, piecesIn]
    obtain ⟨events, hhandle, hends⟩ | ⟨events, hhandle, hlists⟩ :=
      @handle_pieces frames [] (takeLines (chunks.flatMap lossy)).1
    · rw [show (openAi frames).init = assembled [] from rfl, hhandle]
      exact hends
    · rw [show (openAi frames).init = assembled [] from rfl, hhandle]
      exact ⟨events, rfl, hlists⟩
  rw [hevents, lastToolCalls, List.filterMap_append, List.filterMap_append]
  by_cases hnil : listed frames (piecesIn frames chunks) = []
  · -- nothing is listed at the end, so nothing was listed before
    have hnone : before.filterMap toolCallsOf = [] := by
      refine List.filterMap_eq_nil_iff.mpr fun event hevent => ?_
      cases hcalls : toolCallsOf event with
      | none => rfl
      | some calls =>
        exact absurd hnil (hbefore event hevent (Option.isSome_iff_exists.mpr ⟨calls, hcalls⟩))
    rw [hnone, flushed_of_nil hnil, hnil]
    rfl
  · rw [flushed_of_ne_nil hnil]
    show ((before.filterMap toolCallsOf ++ [listed frames (piecesIn frames chunks)]).getLast?).getD
      [] = _
    rw [List.getLast?_concat]
    rfl

/-! ### The slots that are allocated -/

/-- `resize_with`, where there is room for so many slots; none is the panic of an allocation that
fails. -/
def resizeWith (room : UInt64) (buffer : ToolCallBuffer) (length : Nat) : Option ToolCallBuffer :=
  if length ≤ buffer.length then some (buffer.take length)
  else if length ≤ room.toNat then some (buffer ++ List.replicate (length - buffer.length) none)
  else none

/-- `addToolCall` as it is compiled: the length wraps, and a slot may be missing. -/
def addToolCallChecked (room : UInt64) (buffer : ToolCallBuffer) (call : OpenAiStreamToolCall) :
    Option ToolCallBuffer := do
  let buffer ← if buffer.length ≤ call.index then
    resizeWith room buffer ((call.index + 1) % 2 ^ 64) else some buffer
  if call.index < buffer.length then
    some (buffer.modify call.index fun existing => some (mergeCall existing call))
  else none

theorem length_resizeWith_le {room : UInt64} {buffer' : ToolCallBuffer} {length : Nat}
    (hbuffer : buffer.length ≤ room.toNat) (h : resizeWith room buffer length = some buffer') :
    buffer'.length ≤ room.toNat := by
  rw [resizeWith] at h
  split at h
  · next hle =>
    obtain rfl := Option.some.inj h
    exact (List.length_take_le _ _).trans (hle.trans hbuffer)
  · split at h
    · obtain rfl := Option.some.inj h
      rw [List.length_append, List.length_replicate]
      omega
    · cases h

theorem addToolCallChecked_eq {room : UInt64} (hbuffer : buffer.length ≤ room.toNat)
    (call : OpenAiStreamToolCall) :
    addToolCallChecked room buffer call =
      if call.index < room.toNat then some (addToolCall buffer call) else none := by
  have hroom := room.toNat_lt
  rw [addToolCallChecked]
  by_cases hindex : call.index < room.toNat
  · rw [if_pos hindex, Nat.mod_eq_of_lt (by omega)]
    by_cases hgrow : buffer.length ≤ call.index
    · have hresize : resizeWith room buffer (call.index + 1) =
          some (buffer ++ List.replicate (call.index + 1 - buffer.length) none) := by
        rw [resizeWith, if_neg (by omega), if_pos (by omega)]
      have hlt : call.index <
          (buffer ++ List.replicate (call.index + 1 - buffer.length) none).length := by
        rw [List.length_append, List.length_replicate]
        omega
      rw [if_pos hgrow, hresize]
      exact if_pos hlt
    · have hzero : call.index + 1 - buffer.length = 0 := by omega
      rw [if_neg hgrow, addToolCall, hzero, List.replicate_zero, List.append_nil]
      exact if_pos (Nat.lt_of_not_le hgrow)
  · -- the buffer is never so long that the slot is there
    rw [if_neg hindex, if_pos (by omega)]
    cases hresize : resizeWith room buffer ((call.index + 1) % 2 ^ 64) with
    | none => rfl
    | some buffer' =>
      have hle := length_resizeWith_le hbuffer hresize
      exact if_neg (by omega)

/-- The decoder survives the pieces just if there is room for each of their indices, and has then
done with them what it does without limits. -/
theorem foldlM_addToolCallChecked {room : UInt64} (pieces : List OpenAiStreamToolCall)
    (hbuffer : buffer.length ≤ room.toNat) :
    ((pieces.foldlM (addToolCallChecked room) buffer).isSome = true ↔
        ∀ piece ∈ pieces, piece.index < room.toNat) ∧
      ∀ buffer', pieces.foldlM (addToolCallChecked room) buffer = some buffer' →
        buffer' = pieces.foldl addToolCall buffer := by
  induction pieces generalizing buffer with
  | nil => exact ⟨iff_of_true rfl nofun, fun _ h => (Option.some.inj h).symm⟩
  | cons piece pieces ih =>
    rw [List.foldlM_cons, addToolCallChecked_eq hbuffer, List.forall_mem_cons]
    by_cases hindex : piece.index < room.toNat
    · have hnext : (addToolCall buffer piece).length ≤ room.toNat := by
        rw [length_addToolCall]
        omega
      obtain ⟨hsurvives, hsame⟩ := ih hnext
      rw [if_pos hindex, and_iff_right hindex]
      exact ⟨hsurvives, hsame⟩
    · rw [if_neg hindex]
      exact ⟨iff_of_false Bool.false_ne_true fun h => hindex h.1, nofun⟩

theorem length_foldl_addToolCall (pieces : List OpenAiStreamToolCall) (buffer : ToolCallBuffer)
    (n : Nat) : (pieces.foldl addToolCall buffer).length ≤ n ↔
      buffer.length ≤ n ∧ ∀ piece ∈ pieces, piece.index < n := by
  induction pieces generalizing buffer with
  | nil => exact (and_iff_left nofun).symm
  | cons piece pieces ih =>
    rw [List.foldl_cons, ih, length_addToolCall, List.forall_mem_cons, Nat.max_le, and_assoc,
      Nat.succ_le_iff]

/-! ### Calls that are cut -/

/-- A call as the server means it. Its arguments may never be sent. -/
structure CutCall where
  index : Nat
  id : List Char
  name : List Char
  arguments : Option (List Char)

def CutCall.call (frames : Frames) (call : CutCall) : LlmToolCall :=
  ⟨call.id, call.name, (frames.value (call.arguments.getD [])).toOption.getD .null⟩

/-- The calls in the order of their indices are cut into these pieces, in any order. -/
structure Cut (calls : List CutCall) (pieces : List OpenAiStreamToolCall) : Prop where
  sorted : calls.Pairwise fun a b => a.index < b.index
  known : ∀ piece ∈ pieces, ∃ call ∈ calls, call.index = piece.index
  id : ∀ call ∈ calls, call.id = (idPieces call.index pieces).flatten
  name : ∀ call ∈ calls, call.name = (namePieces call.index pieces).flatten
  arguments : ∀ call ∈ calls, call.arguments = joined (argumentPieces call.index pieces)

structure Whole (pieces : List OpenAiStreamToolCall) (call : CutCall) : Prop where
  sent : argumentPieces call.index pieces ≠ []
  id : (idPieces call.index pieces).getLast?.getD [] = (idPieces call.index pieces).flatten
  name : (namePieces call.index pieces).getLast? = some (namePieces call.index pieces).flatten

/-- The decoder survives, with no more slots than it was sent pieces, and the last calls before the
end of the stream are those that were cut. -/
structure Assembles (room : UInt64) (frames : Frames) (chunks : List (List UInt8))
    (calls : List CutCall) : Prop where
  survives : ((piecesIn frames chunks).foldlM (addToolCallChecked room) []).isSome = true
  slots : (assembled (piecesIn frames chunks)).length ≤ (piecesIn frames chunks).length
  last : (lastToolCalls ((openAi frames).events chunks)).getD [] = calls.map (CutCall.call frames)

theorem filterMap_eq_map_iff {α β : Type} {f : α → Option β} {g : α → β} {xs : List α} :
    xs.filterMap f = xs.map g ↔ ∀ x ∈ xs, f x = some (g x) := by
  induction xs with
  | nil => exact iff_of_true rfl nofun
  | cons x xs ih =>
    rw [List.forall_mem_cons, ← ih, List.filterMap_cons, List.map_cons]
    cases hx : f x with
    | none =>
      refine iff_of_false (fun heq => ?_) fun h => Option.some_ne_none _ h.1.symm
      have hcons : xs.filterMap f = g x :: xs.map g := heq
      have hle := List.length_filterMap_le f xs
      rw [hcons, List.length_cons, List.length_map] at hle
      exact Nat.not_succ_le_self _ hle
    | some y => rw [List.cons.injEq, Option.some.injEq]

theorem exists_index_lt (calls : List CutCall) : ∃ n, ∀ call ∈ calls, call.index < n := by
  induction calls with
  | nil => exact ⟨0, nofun⟩
  | cons call calls ih =>
    obtain ⟨n, hn⟩ := ih
    refine ⟨max (call.index + 1) n, List.forall_mem_cons.mpr ⟨Nat.le_max_left _ _, ?_⟩⟩
    exact fun other hother => (hn other hother).trans_le (Nat.le_max_right _ _)

theorem listed_of_cut {calls : List CutCall} (h : Cut calls pieces) :
    listed frames pieces = calls.filterMap fun call =>
      lastCall frames (idPieces call.index pieces) (namePieces call.index pieces)
        (argumentPieces call.index pieces) := by
  obtain ⟨m, hm⟩ := exists_index_lt calls
  obtain ⟨n, hlength, hindex⟩ : ∃ n, (assembled pieces).length ≤ n ∧
      ∀ call ∈ calls, call.index < n :=
    ⟨max _ m, Nat.le_max_left _ m, fun call hcall => (hm call hcall).trans_le (Nat.le_max_right _ m)⟩
  have hindices : (List.range n).filter (fun index => index ∈ calls.map CutCall.index) =
      calls.map CutCall.index := by
    refine List.Pairwise.eq_of_mem_iff (r := (· < ·)) (List.pairwise_lt_range.filter _)
      (List.pairwise_map.mpr h.sorted) fun index => ?_
    rw [List.mem_filter, List.mem_range, decide_eq_true_iff, and_iff_right_iff_imp]
    intro hmem
    obtain ⟨call, hcall, rfl⟩ := List.mem_map.mp hmem
    exact hindex call hcall
  -- no piece has another index
  have hother : ∀ index, index ∉ calls.map CutCall.index →
      lastCall frames (idPieces index pieces) (namePieces index pieces)
        (argumentPieces index pieces) = none := by
    intro index hnot
    have hnone : piecesOf index pieces = [] := by
      refine List.filter_eq_nil_iff.mpr fun piece hpiece heq => hnot ?_
      obtain ⟨call, hcall, hsame⟩ := h.known piece hpiece
      exact List.mem_map.mpr ⟨call, hcall, hsame.trans (of_decide_eq_true heq)⟩
    rw [idPieces, namePieces, argumentPieces, hnone]
    rfl
  calc
    listed frames pieces = (List.range n).filterMap fun index =>
        lastCall frames (idPieces index pieces) (namePieces index pieces)
          (argumentPieces index pieces) := listed_eq frames hlength
    _ = ((List.range n).filter fun index => index ∈ calls.map CutCall.index).filterMap fun index =>
        lastCall frames (idPieces index pieces) (namePieces index pieces)
          (argumentPieces index pieces) := by
      rw [List.filterMap_filter]
      refine List.filterMap_congr fun index _ => ?_
      split
      · rfl
      · next hnot => exact hother index (by simpa using hnot)
    _ = (calls.map CutCall.index).filterMap fun index =>
        lastCall frames (idPieces index pieces) (namePieces index pieces)
          (argumentPieces index pieces) := by rw [hindices]
    _ = _ := List.filterMap_map

theorem lastCall_eq_iff {calls : List CutCall} (h : Cut calls pieces) {call : CutCall}
    (hcall : call ∈ calls) :
    lastCall frames (idPieces call.index pieces) (namePieces call.index pieces)
        (argumentPieces call.index pieces) = some (call.call frames) ↔ Whole pieces call := by
  have hid := h.id call hcall
  have hname := h.name call hcall
  have harguments := h.arguments call hcall
  constructor
  · intro heq
    obtain ⟨-, hsent⟩ := (lastCall_isSome frames).mp (Option.isSome_iff_exists.mpr ⟨_, heq⟩)
    obtain ⟨name, hlast, hrest⟩ := Option.bind_eq_some_iff.mp heq
    obtain ⟨args, -, hlisted⟩ := Option.bind_eq_some_iff.mp hrest
    have hcall' := Option.some.inj hlisted
    refine ⟨hsent, ?_, ?_⟩
    · exact (congrArg LlmToolCall.id hcall').trans hid
    · rw [hlast, ← hname]
      exact congrArg some (congrArg LlmToolCall.name hcall')
  · rintro ⟨hsent, hlastId, hlastName⟩
    have hjoined : joined (argumentPieces call.index pieces) =
        some (argumentPieces call.index pieces).flatten := if_neg fun h => hsent (List.isEmpty_iff.mp h)
    rw [lastCall, hlastName, hjoined, hlastId, ← hid, ← hname, CutCall.call, harguments, hjoined]
    rfl

/-- **Calls in pieces.** They are put together as they were cut, with no more slots than pieces and
no panic, just if each came whole and no index is beyond the pieces and the memory. -/
theorem assembles_iff (room : UInt64) (frames : Frames) (chunks : List (List UInt8))
    {calls : List CutCall} (hcut : Cut calls (piecesIn frames chunks)) :
    Assembles room frames chunks calls ↔
      (∀ piece ∈ piecesIn frames chunks,
        piece.index < room.toNat ∧ piece.index < (piecesIn frames chunks).length) ∧
      ∀ call ∈ calls, Whole (piecesIn frames chunks) call := by
  have hsurvives := (foldlM_addToolCallChecked (piecesIn frames chunks)
    (show ([] : ToolCallBuffer).length ≤ room.toNat from Nat.zero_le _)).1
  have hslots := length_foldl_addToolCall (piecesIn frames chunks) [] (piecesIn frames chunks).length
  have hlast : (lastToolCalls ((openAi frames).events chunks)).getD [] =
      calls.map (CutCall.call frames) ↔ ∀ call ∈ calls, Whole (piecesIn frames chunks) call := by
    rw [lastToolCalls_events, listed_of_cut hcut, filterMap_eq_map_iff]
    exact forall₂_congr fun call hcall => lastCall_eq_iff hcut hcall
  constructor
  · rintro ⟨hroom, hlength, hcalls⟩
    refine ⟨fun piece hpiece => ⟨hsurvives.mp hroom piece hpiece, ?_⟩, hlast.mp hcalls⟩
    exact (hslots.mp hlength).2 piece hpiece
  · rintro ⟨hindices, hwhole⟩
    refine ⟨hsurvives.mpr fun piece hpiece => (hindices piece hpiece).1, hslots.mpr ⟨?_, ?_⟩,
      hlast.mpr hwhole⟩
    · exact Nat.zero_le _
    · exact fun piece hpiece => (hindices piece hpiece).2

/-! ### A call without arguments -/

/-- The whole of a call, in one piece, that was given no arguments. -/
def bareCall : OpenAiStreamToolCall := ⟨0, some "c1".toList, none, some ⟨some "ls".toList, none⟩⟩

def bareFrames : Frames where
  value _ := .error "EOF while parsing a value at line 1 column 0".toList
  openAi _ := .ok ⟨[⟨⟨none, none, some [bareCall]⟩, none⟩], none⟩
  anthropic _ := .error []
  ollama _ := .error []

/-- A frame with the call, and the end of the stream. -/
def bareBody : List (List UInt8) :=
  [("data: \x7b\"choices\":[\x7b\"delta\":\x7b\"tool_calls\":[\x7b\"index\":0,\"id\":\"c1\"," ++
    "\"function\":\x7b\"name\":\"ls\"\x7d\x7d]\x7d\x7d]\x7d\ndata: [DONE]\n").toList.map
    Char.toUInt8]

set_option maxRecDepth 4000 in
theorem piecesIn_bare : piecesIn bareFrames bareBody = [bareCall] := rfl

theorem cut_bare : Cut [⟨0, "c1".toList, "ls".toList, none⟩]
    (piecesIn bareFrames bareBody) := by
  rw [piecesIn_bare]
  refine ⟨List.pairwise_singleton _ _, ?_, ?_, ?_, ?_⟩
  · exact List.forall_mem_singleton.mpr ⟨_, List.mem_singleton_self _, rfl⟩
  · exact List.forall_mem_singleton.mpr rfl
  · exact List.forall_mem_singleton.mpr rfl
  · exact List.forall_mem_singleton.mpr rfl

theorem assembles_iff_bare :
    Assembles 1024 bareFrames bareBody [⟨0, "c1".toList, "ls".toList, none⟩] ↔
      (∀ piece ∈ piecesIn bareFrames bareBody,
        piece.index < (1024 : UInt64).toNat ∧
          piece.index < (piecesIn bareFrames bareBody).length) ∧
      ∀ call ∈ [⟨0, "c1".toList, "ls".toList, none⟩],
        Whole (piecesIn bareFrames bareBody) call :=
  assembles_iff 1024 bareFrames bareBody cut_bare

/-- The call is dropped. -/
theorem not_assembles : ¬ ∀ (room : UInt64) (frames : Frames) (chunks : List (List UInt8))
    (calls : List CutCall), Cut calls (piecesIn frames chunks) →
      Assembles room frames chunks calls := by
  intro h
  have hlast := (h 1024 bareFrames bareBody _ cut_bare).last
  rw [lastToolCalls_events, piecesIn_bare] at hlast
  exact absurd (congrArg List.length hlast) (by decide)

end Goble.Llm
