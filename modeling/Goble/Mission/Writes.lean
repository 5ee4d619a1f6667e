import Goble.Mission.Transcript

/-!
# A turn makes moves

Every turn changes the transcript by `Moves` only and ends with `Leaves`; each history that it sends
to the model is that of a transcript in between (`Asked`); and, if the store does not fail, the calls
it starts have their outcome told before the next one starts (`Lifecycle`).

`Writes` is the state of a turn that goes on, `Wrote` that of one that returns. Inside a batch the
rows are described by `InBatch`, statement by statement.
-/

namespace Goble.Mission

/-! ### The events of the calls -/

def HarnessEvent.starts : HarnessEvent → Option (List Char)
  | .toolCallStarted id _ _ => some id
  | _ => none

def HarnessEvent.settles : HarnessEvent → Option (List Char)
  | .toolCallFinished id _ | .toolCallError id _ | .commandProposed id _ _ => some id
  | _ => none

/-- The calls whose outcome is told before the next call starts. -/
def outcomes (stream : List HarnessEvent) : List (List Char) :=
  (stream.takeWhile fun event => event.starts.isNone).filterMap HarnessEvent.settles

/-- Each call that starts has exactly one outcome told before the next one starts, its own. -/
def Lifecycle : List HarnessEvent → Prop
  | [] => True
  | event :: rest => (∀ id, event.starts = some id → outcomes rest = [id]) ∧ Lifecycle rest

/-- An event that tells nothing of a call. -/
def HarnessEvent.Quiet (event : HarnessEvent) : Prop :=
  event.starts = none ∧ event.settles = none

theorem outcomes_append {second : List HarnessEvent} (h : outcomes second = [])
    (first : List HarnessEvent) : outcomes (first ++ second) = outcomes first := by
  induction first with
  | nil => exact h
  | cons event first ih =>
    rw [List.cons_append]
    by_cases hstarts : event.starts.isNone
    · have hcons : ∀ rest, outcomes (event :: rest) = event.settles.toList ++ outcomes rest := by
        intro rest
        simp only [outcomes, List.takeWhile_cons, hstarts, if_true]
        cases hsettles : event.settles <;> simp [hsettles]
      rw [hcons, hcons, ih]
    · simp [outcomes, hstarts]

theorem Lifecycle.append {first second : List HarnessEvent} (h : Lifecycle first)
    (h' : Lifecycle second) (hquiet : outcomes second = []) : Lifecycle (first ++ second) := by
  induction first with
  | nil => exact h'
  | cons event first ih =>
    refine ⟨fun id hid => ?_, ih h.2⟩
    change outcomes (first ++ second) = [id]
    rw [outcomes_append hquiet]
    exact h.1 id hid

variable {stream : List HarnessEvent} {event : HarnessEvent}

theorem Lifecycle.quiet (h : Lifecycle stream) (hquiet : event.Quiet) :
    Lifecycle (stream ++ [event]) := by
  refine h.append ⟨fun id hid => ?_, trivial⟩ ?_
  · cases hquiet.1.symm.trans hid
  · simp [outcomes, hquiet.1, hquiet.2]

theorem Lifecycle.call {id name : List Char} {arguments : Value} (h : Lifecycle stream)
    (hstarts : event.starts = none) (hsettles : event.settles = some id) :
    Lifecycle (stream ++ [.toolCallStarted id name arguments, event]) := by
  refine h.append ⟨fun other hother => ?_, ⟨fun other hother => ?_, trivial⟩⟩ rfl
  · obtain rfl : id = other := Option.some.inj hother
    simp [outcomes, hstarts, hsettles]
  · cases hstarts.symm.trans hother

/-! ### Traces -/

def Op.asks : Op → Bool
  | .completeStream _ => true
  | _ => false

def Op.says : Op → Bool
  | .yield _ => true
  | _ => false

theorem events_log_yield (w : World) (event : HarnessEvent) :
    events (w.log (.yield event) ()).trace = events w.trace ++ [event] := events_append _ _

theorem events_call (w : World) (c : StoreCall) : events (w.call c).trace = events w.trace := by
  rw [World.call_trace, events_append]
  exact List.append_nil _

theorem events_draw (w : World) : events w.draw.trace = events w.trace := by
  rw [World.draw_trace, events_append]
  exact List.append_nil _

variable {op : Op}

theorem events_log (hop : op.says = false) (w : World) (answer : op.Answer) :
    events (w.log op answer).trace = events w.trace := by
  rw [World.log_trace, events_append]
  cases op with
  | yield event => cases hop
  | _ => exact List.append_nil _

section Turns

variable {fails : Prop} {F : List (List Char) → List (List Char) → Prop} {G : Store → Prop}
  {start : Store} {w : World}

/-- Every history sent to the model is that of a transcript the turn made on the way. -/
def Asked (fails : Prop) (F : List (List Char) → List (List Char) → Prop) (G : Store → Prop)
    (start : Store) (trace : List Act) : Prop :=
  ∀ act ∈ trace, ∀ request, act.op = .completeStream request → request.history = [] ∨
    ∃ s, Moves fails F G start s ∧ ∃ thoughts, request.history = historyOf s.messages thoughts

theorem Asked.log (h : Asked fails F G start w.trace) (hasks : op.asks = false)
    (answer : op.Answer) :
    Asked fails F G start (w.log op answer).trace := by
  intro act hact request hrequest
  rw [World.log_trace, List.mem_append, List.mem_singleton] at hact
  obtain hact | rfl := hact
  · exact h act hact request hrequest
  · rw [show op = .completeStream request from hrequest] at hasks
    cases hasks

theorem Asked.call (h : Asked fails F G start w.trace) (c : StoreCall) :
    Asked fails F G start (w.call c).trace :=
  Asked.log (w := { w with store := (w.store.call c).2 }) h rfl _

theorem Asked.draw (h : Asked fails F G start w.trace) : Asked fails F G start w.draw.trace :=
  Asked.log (w := { w with store := { w.store with nextId := w.store.nextId + 1 } }) h rfl _

def RepliesMeet (F : List (List Char) → List (List Char) → Prop) (w : World)
    (request : CompletionRequest) (answer : (Op.completeStream request).Answer) : Prop :=
  request.planning = none → ∀ stream, answer = .ok stream → ∀ calls,
    CompletionStreamEvent.toolCalls calls ∈ stream →
      F (recordIds w.store.messages) (calls.map LlmToolCall.id)

/-- A turn that goes on. -/
structure Writes (fails : Prop) (F : List (List Char) → List (List Char) → Prop) (G : Store → Prop)
    (start : Store) (w : World) : Prop where
  moves : Moves fails F G start w.store
  numbered : Numbered w.store
  asked : Asked fails F G start w.trace
  lifecycle : ¬ fails → Lifecycle (events w.trace)

/-- A turn that returns. -/
structure Wrote (fails : Prop) (F : List (List Char) → List (List Char) → Prop) (G : Store → Prop)
    (start : Store) (w : World) : Prop where
  leaves : Leaves fails F G start w.store
  numbered : Numbered w.store
  asked : Asked fails F G start w.trace
  lifecycle : ¬ fails → Lifecycle (events w.trace)

theorem Writes.wrote (h : Writes fails F G start w) : Wrote fails F G start w :=
  ⟨.inl h.moves, h.numbered, h.asked, h.lifecycle⟩

/-- A step that changes no store and tells nothing of a call. -/
theorem Writes.log (h : Writes fails F G start w) (hasks : op.asks = false)
    (hsaid : op.says = false) (answer : op.Answer) : Writes fails F G start (w.log op answer) := by
  refine ⟨h.moves, h.numbered, h.asked.log hasks answer, fun hsteady => ?_⟩
  rw [events_log hsaid]
  exact h.lifecycle hsteady

theorem Writes.yield (h : Writes fails F G start w) (hquiet : event.Quiet) :
    Writes fails F G start (w.log (.yield event) ()) := by
  refine ⟨h.moves, h.numbered, h.asked.log rfl _, fun hsteady => ?_⟩
  rw [events_log_yield]
  exact (h.lifecycle hsteady).quiet hquiet

theorem Writes.request {request : CompletionRequest} (h : Writes fails F G start w)
    (hhistory : request.history = [] ∨
      ∃ thoughts, request.history = historyOf w.store.messages thoughts)
    (answer : (Op.completeStream request).Answer) :
    Writes fails F G start (w.log (.completeStream request) answer) := by
  refine ⟨h.moves, h.numbered, ?_, fun hsteady => ?_⟩
  · intro act hact other hother
    rw [World.log_trace, List.mem_append, List.mem_singleton] at hact
    obtain hact | rfl := hact
    · exact h.asked act hact other hother
    · obtain rfl : request = other := Op.completeStream.inj hother
      exact hhistory.imp id fun hthoughts => ⟨w.store, h.moves, hthoughts⟩
  · rw [events_log rfl]
    exact h.lifecycle hsteady

variable {c : StoreCall}

theorem Writes.call (h : Writes fails F G start w)
    (hchange : Change fails F G w.store (w.store.call c).2)
    (hnumbered : Numbered (w.store.call c).2) : Writes fails F G start (w.call c) := by
  refine ⟨h.moves.tail ⟨hchange, hnumbered⟩, hnumbered, h.asked.call c, fun hsteady => ?_⟩
  rw [events_call]
  exact h.lifecycle hsteady

theorem change_of_same {s s' : Store} (hrows : s'.messages = s.messages)
    (hcommands : s'.pendingCommands = s.pendingCommands) : Change fails F G s s' := by
  refine .rewrite ?_ hcommands
  rw [hrows]
  exact List.forall₂_same.mpr fun row _ => alike_refl row

theorem Writes.neutral (h : Writes fails F G start w)
    (hrows : (w.store.call c).2.messages = w.store.messages)
    (hcommands : (w.store.call c).2.pendingCommands = w.store.pendingCommands)
    (hnext : (w.store.call c).2.nextId = w.store.nextId) : Writes fails F G start (w.call c) := by
  refine h.call (change_of_same hrows hcommands) (numbered_of_map h.numbered ?_ hnext.ge)
  rw [hrows]

theorem Writes.draw (h : Writes fails F G start w) : Writes fails F G start w.draw := by
  have hnumbered : Numbered w.draw.store := numbered_of_map h.numbered rfl (Nat.le_succ _)
  refine ⟨h.moves.tail ⟨change_of_same rfl rfl, hnumbered⟩, hnumbered, h.asked.draw,
    fun hsteady => ?_⟩
  rw [events_draw]
  exact h.lifecycle hsteady

theorem Asked.failed (h : Asked fails F G start w.trace) (hfails : fails)
    (hleaves : Leaves fails F G start w.store) (hnumbered : Numbered w.store) (c : StoreCall)
    (message : List Char) :
    Wrote fails F G start ((w.log (.store c) (.error message)).log (.yield (.error message)) ()) :=
  ⟨hleaves, hnumbered, (h.log rfl _).log rfl _, fun hsteady => absurd hfails hsteady⟩

theorem Writes.failed (h : Writes fails F G start w) (hfails : fails) (c : StoreCall)
    (message : List Char) :
    Wrote fails F G start ((w.log (.store c) (.error message)).log (.yield (.error message)) ()) :=
  h.asked.failed hfails (.inl h.moves) h.numbered c message

/-! ### Single steps -/

/-- A statement that touches neither messages nor proposals. -/
def StoreCall.Neutral : StoreCall → Prop
  | .insertChatMessage .. | .appendChatMessageContent .. | .setChatMessageToolCalls ..
  | .setChatMessageReasoning .. | .insertPendingCommand _ | .resolvePendingCommand _ => False
  | _ => True

theorem StoreCall.Neutral.call (h : c.Neutral) (s : Store) :
    (s.call c).2.messages = s.messages ∧ (s.call c).2.pendingCommands = s.pendingCommands ∧
      (s.call c).2.nextId = s.nextId := by
  cases c <;> first | exact h.elim | exact ⟨rfl, rfl, rfl⟩

variable {α β : Type}

/-- The program goes on with moves, or returns with them. -/
abbrev Makes (fails : Prop) (F : List (List Char) → List (List Char) → Prop) (G : Store → Prop)
    (start : Store) (p : Turn α) : Prop :=
  p.Keeps handler (Allows fails (RepliesMeet F)) (Wrote fails F G start) (Writes fails F G start)

theorem makes_yield (hquiet : event.Quiet) :
    Makes fails F G start (Turn.yield event) := fun _ h => wp_yield.mpr (h.yield hquiet)

theorem makes_uuid : Makes fails F G start Turn.uuid := fun _ h => wp_uuid.mpr h.draw

theorem makes_store (hc : c.Neutral) : Makes fails F G start (Turn.store c) := by
  intro w h
  obtain ⟨hrows, hcommands, hnext⟩ := hc.call w.store
  exact wp_store_fails.mpr ⟨h.neutral hrows hcommands hnext, fun _ _ => h.log rfl rfl _⟩

theorem makes_fail (message : List Char) : Makes fails F G start (Turn.fail message : Turn α) :=
  fun _ h => wp_fail.mpr (h.yield ⟨rfl, rfl⟩).wrote

theorem makes_storeOrFail (hc : c.Neutral) :
    Makes fails F G start (Turn.storeOrFail c) := by
  refine Prog.keeps_bind (makes_store hc) fun answer => ?_
  cases answer with
  | ok result => exact Prog.keeps_pure result
  | error message => exact makes_fail message

theorem makes_returnIfCancelled (point : CheckPoint) :
    Makes fails F G start (Turn.returnIfCancelled point) := by
  refine Prog.keeps_bind ?_ fun seen => Prog.keeps_ite (makes_fail _) (Prog.keeps_pure ())
  exact fun _ h => wp_cancelled.mpr fun _ => h.log rfl rfl _

variable {post : Unit → World → Prop}

theorem Writes.wp_insertChatMessage {role : RowRole} {content : List Char}
    (h : Writes fails F G start w) (hrole : role ≠ .tool) (hpost : ∀ w', Writes fails F G start w' →
      w'.store.messages = w.store.messages ++ [⟨w.store.nextId, role, content, none, []⟩] →
        post () w') :
    (Turn.insertChatMessage w.store.nextId role content none).wp handler
      (Allows fails (RepliesMeet F)) (Wrote fails F G start) post w.draw := by
  have hadd : Writes fails F G start
      (w.draw.call (.insertChatMessage w.store.nextId role content none)) :=
    h.draw.call (.add _ hrole rfl rfl rfl) (numbered_concat h.numbered rfl rfl rfl)
  refine Prog.wp_bind.mpr (wp_storeOrFail_fails.mpr ⟨?_, fun hfails m => h.draw.failed hfails _ m⟩)
  refine wp_storeOrFail_fails.mpr ⟨?_, fun hfails message => hadd.failed hfails _ message⟩
  exact hpost _ (hadd.neutral rfl rfl rfl) rfl

theorem makes_newRow {role : RowRole} (hrole : role ≠ .tool) (content : List Char) :
    Makes fails F G start
      (Turn.uuid >>= fun id => Turn.insertChatMessage id role content none) := by
  intro w h
  exact Prog.wp_bind.mpr (wp_uuid.mpr (h.wp_insertChatMessage hrole fun _ h' _ => h'))

/-- What `build_history` returns is made of the rows as they are. -/
theorem Writes.wp_buildHistory (h : Writes fails F G start w) :
    buildHistory.wp handler (Allows fails (RepliesMeet F)) (Wrote fails F G start)
      (fun history w' => Writes fails F G start w' ∧ (history = [] ∨
        ∃ thoughts, history = historyOf w'.store.messages thoughts)) w := by
  have hlist : Writes fails F G start (w.call .listChatMessages) := h.neutral rfl rfl rfl
  refine Prog.wp_bind.mpr (wp_store_fails.mpr ⟨?_, fun _ _ => ⟨h.log rfl rfl _, .inl rfl⟩⟩)
  refine Prog.wp_bind.mpr (wp_store_fails.mpr ⟨?_, fun _ _ => ?_⟩)
  · exact ⟨hlist.neutral rfl rfl rfl, .inr ⟨_, rfl⟩⟩
  · exact ⟨hlist.log rfl rfl _, .inr ⟨[], rfl⟩⟩

/-! ### Planning -/

theorem makes_reasoningStream (stream : List CompletionStreamEvent) (content : List Char)
    (calls : List LlmToolCall) :
    Makes fails F G start (reasoningStream stream content calls) := by
  induction stream generalizing content calls with
  | nil => exact Prog.keeps_pure _
  | cons event rest ih =>
    refine Prog.keeps_bind (makes_returnIfCancelled _) fun _ => ?_
    cases event with
    | assistantDelta delta =>
      exact Prog.keeps_bind (makes_yield ⟨rfl, rfl⟩) fun _ => ih _ _
    | reasoningDelta delta => exact ih _ _
    | toolCalls calls => exact ih _ _
    | usage usage => exact Prog.keeps_bind (makes_yield ⟨rfl, rfl⟩) fun _ => ih _ _
    | done => exact Prog.keeps_pure _
    | error message => exact makes_fail message

theorem makes_askUser (cfg : Settings) (missionId : Nat) (question : List Char)
    (quickReplies : List (List Char)) :
    Makes fails F G start (askUser cfg missionId question quickReplies) := by
  refine Prog.keeps_bind makes_uuid fun askId => Prog.keeps_ite (makes_newRow (by decide) _) ?_
  refine Prog.keeps_bind (makes_storeOrFail trivial) fun _ => ?_
  exact Prog.keeps_bind (makes_yield ⟨rfl, rfl⟩) fun _ _ h => Prog.wp_leave.mpr h.wrote

theorem makes_followDecision (cfg : Settings) (missionId : Nat) (step : ReasoningStep) :
    Makes fails F G start (followDecision cfg missionId step) := by
  refine Prog.keeps_ite ?_ (Prog.keeps_pure ())
  split
  · exact makes_askUser cfg missionId _ _
  · exact Prog.keeps_pure ()

theorem makes_reasoningStep (index : Nat) (mission : MissionState) (mode : ThinkingMode) :
    Makes fails F G start (reasoningStep index mission mode) := by
  refine Prog.keeps_bind (makes_returnIfCancelled _) fun _ w h => ?_
  refine Prog.wp_bind.mpr (h.wp_buildHistory.mono ?_)
  rintro history w ⟨h, hhistory⟩
  refine Prog.wp_bind.mpr (wp_yield.mpr (Prog.wp_bind.mpr (wp_completeStream.mpr ?_)))
  intro answer _
  -- The rows are still those that the history was made of.
  have hasked : Writes fails F G start
      ((w.log (.yield (.reasoningStarted index mode.asStr)) ()).log (.completeStream
        ⟨history, mission.goal, mission.reasoningSteps, some mode⟩) answer) :=
    (h.yield ⟨rfl, rfl⟩).request hhistory answer
  cases answer with
  | error message => exact makes_fail message _ hasked
  | ok stream =>
    refine Prog.wp_bind.mpr ((makes_reasoningStream stream [] [] _ hasked).mono ?_)
    rintro ⟨content, calls⟩ w h
    refine Prog.keeps_bind (makes_storeOrFail ?_) (fun _ => ?_) w h
    · trivial
    · exact Prog.keeps_bind (makes_yield ⟨rfl, rfl⟩) fun _ => Prog.keeps_pure _

theorem makes_reasoningLoop (cfg : Settings) (left : Nat) (mission : MissionState)
    (mode : ThinkingMode) : Makes fails F G start (reasoningLoop cfg left mission mode) := by
  induction left generalizing mission mode with
  | zero => exact Prog.keeps_pure _
  | succ left ih =>
    refine Prog.keeps_bind (makes_reasoningStep _ mission mode) fun step => ?_
    refine Prog.keeps_ite (Prog.keeps_pure _) ?_
    exact Prog.keeps_bind (makes_followDecision _ _ _) fun _ => ih _ _

theorem makes_plan (cfg : Settings) (mission : MissionState) :
    Makes fails F G start (plan cfg mission) :=
  Prog.keeps_ite (makes_reasoningLoop cfg _ mission _) (Prog.keeps_pure _)

/-! ### The reply -/

theorem Writes.modify {pre post : List ChatRow} {row : ChatRow} {f : ChatRow → ChatRow}
    (h : Writes fails F G start w) (hrows : w.store.messages = pre ++ row :: post)
    (hc : (w.store.call c).2 = w.store.modifyMessage row.id f) (halike : Alike row (f row)) :
    Writes fails F G start (w.call c) ∧ (w.call c).store.messages = pre ++ f row :: post := by
  have hrows' : (w.store.call c).2.messages = pre ++ f row :: post :=
    hc ▸ messages_modifyMessage h.numbered.nodup hrows f
  have halike' : List.Forall₂ Alike w.store.messages (w.store.call c).2.messages := by
    rw [hrows, hrows']
    have hrefl : ∀ rows : List ChatRow, List.Forall₂ Alike rows rows :=
      fun rows => List.forall₂_same.mpr fun row _ => alike_refl row
    exact List.rel_append (hrefl pre) (.cons halike (hrefl post))
  refine ⟨h.call (.rewrite halike' (hc ▸ rfl)) ?_, hrows'⟩
  exact numbered_of_map h.numbered (map_id_alike halike') (hc ▸ le_rfl)

structure Streaming (fails : Prop) (F : List (List Char) → List (List Char) → Prop)
    (G : Store → Prop) (start : Store) (ids : List (List Char)) (reply : Reply) (w : World) :
    Prop where
  writes : Writes fails F G start w
  row : ∀ id, reply.messageId = some id → ∃ pre row, w.store.messages = pre ++ [row] ∧
    row.id = id ∧ row.role = .assistant ∧ row.toolCalls = none
  known : recordIds w.store.messages = ids
  calls : reply.toolCalls = [] ∨ F ids (reply.toolCalls.map LlmToolCall.id)

variable {ids : List (List Char)} {reply : Reply}

theorem Streaming.step {w' : World} (h : Streaming fails F G start ids reply w)
    (hwrites : Writes fails F G start w') (hrows : w'.store.messages = w.store.messages) :
    Streaming fails F G start ids reply w' := by
  refine ⟨hwrites, fun id hid => ?_, ?_, h.calls⟩
  · rw [hrows]
    exact h.row id hid
  · rw [hrows]
    exact h.known

theorem Streaming.modify {id : Nat} {f : ChatRow → ChatRow}
    (h : Streaming fails F G start ids reply w) (hid : reply.messageId = some id)
    (hc : (w.store.call c).2 = w.store.modifyMessage id f)
    (halike : ∀ row, row.role = .assistant → Alike row (f row)) :
    Streaming fails F G start ids reply (w.call c) := by
  obtain ⟨pre, row, hrows, rfl, hrole, hcalls⟩ := h.row id hid
  have hrow := halike row hrole
  obtain ⟨hwrites, hrows'⟩ := h.writes.modify hrows hc hrow
  refine ⟨hwrites, fun other hother => ?_, ?_, h.calls⟩
  · obtain rfl : row.id = other := Option.some.inj (hid.symm.trans hother)
    exact ⟨pre, f row, hrows', hrow.id, hrow.role.trans hrole, hrow.toolCalls.trans hcalls⟩
  · rw [← h.known, recordIds, hrows', recordsOf_append, recordsOf_cons, hrow.toolCalls,
      ← recordsOf_cons, ← recordsOf_append, ← hrows]
    rfl

theorem Streaming.wp_push (h : Streaming fails F G start ids reply w) (delta : List Char) :
    (reply.push delta).wp handler (Allows fails (RepliesMeet F)) (Wrote fails F G start)
      (Streaming fails F G start ids) w := by
  rw [Reply.push]
  split
  · next id hid =>
    refine Prog.wp_bind.mpr (wp_storeOrFail_fails.mpr
      ⟨Prog.wp_pure.mpr ?_, fun hfails message => h.writes.failed hfails _ message⟩)
    have hstep := h.modify (c := .appendChatMessageContent id delta) hid rfl fun row hrole =>
      ⟨rfl, rfl, rfl, fun htool => nomatch htool.symm.trans hrole⟩
    exact ⟨hstep.writes, hstep.row, hstep.known, hstep.calls⟩
  · refine Prog.wp_bind.mpr (wp_uuid.mpr (Prog.wp_bind.mpr ?_))
    refine h.writes.wp_insertChatMessage (by decide) fun w' hwrites hrows => Prog.wp_pure.mpr ?_
    refine ⟨hwrites, fun id hid => ?_, ?_, h.calls⟩
    · obtain rfl : w.store.nextId = id := Option.some.inj hid
      exact ⟨_, _, hrows, rfl, rfl, rfl⟩
    · rw [← h.known, recordIds, hrows, recordsOf_concat rfl]
      rfl

theorem Streaming.wp_executionStream (stream : List CompletionStreamEvent)
    (h : Streaming fails F G start ids reply w) (hstream : ∀ calls,
      CompletionStreamEvent.toolCalls calls ∈ stream → F ids (calls.map LlmToolCall.id)) :
    (executionStream stream reply).wp handler (Allows fails (RepliesMeet F))
      (Wrote fails F G start) (Streaming fails F G start ids) w := by
  induction stream generalizing reply w with
  | nil => exact Prog.wp_pure.mpr h
  | cons event rest ih =>
    have hrest : ∀ calls, CompletionStreamEvent.toolCalls calls ∈ rest →
        F ids (calls.map LlmToolCall.id) :=
      fun calls hmem => hstream calls (List.mem_cons_of_mem _ hmem)
    refine Prog.wp_bind.mpr (wp_cancelled.mpr fun seen => ?_)
    have hseen : Streaming fails F G start ids reply
        (w.log (.cancelled .executionStream) seen) := h.step (h.writes.log rfl rfl _) rfl
    cases seen with
    | true =>
      refine Prog.wp_bind.mpr (wp_yield.mpr (Prog.wp_pure.mpr ?_))
      exact hseen.step (hseen.writes.yield ⟨rfl, rfl⟩) rfl
    | false =>
      cases event with
      | assistantDelta delta =>
        refine Prog.wp_bind.mpr ((hseen.wp_push delta).mono fun reply w h => ?_)
        refine Prog.wp_bind.mpr (wp_yield.mpr (ih ?_ hrest))
        exact h.step (h.writes.yield ⟨rfl, rfl⟩) rfl
      | reasoningDelta delta => exact ih ⟨hseen.writes, hseen.row, hseen.known, hseen.calls⟩ hrest
      | toolCalls calls =>
        refine ih ⟨hseen.writes, hseen.row, hseen.known, .inr ?_⟩ hrest
        exact hstream calls (List.mem_cons_self ..)
      | usage usage =>
        refine Prog.wp_bind.mpr (wp_yield.mpr (ih ?_ hrest))
        exact hseen.step (hseen.writes.yield ⟨rfl, rfl⟩) rfl
      | done => exact Prog.wp_pure.mpr hseen
      | error message => exact wp_fail.mpr (hseen.writes.yield ⟨rfl, rfl⟩).wrote

theorem Streaming.wp_storeReasoning (h : Streaming fails F G start ids reply w) :
    (storeReasoning reply).wp handler (Allows fails (RepliesMeet F)) (Wrote fails F G start)
      (fun _ => Streaming fails F G start ids reply) w := by
  rw [storeReasoning]
  split
  · next id hid =>
    split
    · exact Prog.wp_pure.mpr h
    · refine wp_storeOrFail_fails.mpr ⟨?_, fun hfails message => h.writes.failed hfails _ message⟩
      exact h.modify hid rfl fun row _ => ⟨rfl, rfl, rfl, fun _ => rfl⟩
  · exact Prog.wp_pure.mpr h

theorem Writes.wp_completeReply (h : Writes fails F G start w) (mission : MissionState) :
    (completeReply mission).wp handler (Allows fails (RepliesMeet F)) (Wrote fails F G start)
      (fun reply w' => ∃ ids, Streaming fails F G start ids reply w') w := by
  refine Prog.wp_bind.mpr (h.wp_buildHistory.mono ?_)
  rintro history w ⟨h, hhistory⟩
  refine Prog.wp_bind.mpr (wp_completeStream.mpr fun answer hmeets => ?_)
  have hasked : Writes fails F G start (w.log (.completeStream
      ⟨history, mission.goal, mission.reasoningSteps, none⟩) answer) := h.request hhistory answer
  cases answer with
  | error message => exact wp_fail.mpr (hasked.yield ⟨rfl, rfl⟩).wrote
  | ok stream =>
    have hstart : Streaming fails F G start (recordIds w.store.messages) ⟨[], [], [], none⟩
        (w.log (.completeStream ⟨history, mission.goal, mission.reasoningSteps, none⟩)
          (.ok stream)) := ⟨hasked, nofun, rfl, .inl rfl⟩
    have hreply := hstart.wp_executionStream stream (hmeets rfl stream rfl)
    refine Prog.wp_bind.mpr (hreply.mono fun reply w h => ?_)
    refine Prog.wp_bind.mpr (h.wp_storeReasoning.mono fun _ w h => Prog.wp_pure.mpr ?_)
    exact ⟨_, h⟩

/-! ### The batch -/

structure InBatch (fails : Prop) (F : List (List Char) → List (List Char) → Prop)
    (G : Store → Prop) (start : Store) (messageId : Nat) (done rest : List ChatToolCall)
    (late : List ChatRow) (w : World) : Prop where
  base : ∃ s, Moves fails F G start s ∧ Numbered s ∧ Batch F s w.store messageId done rest late ∧
    w.store.pendingCommands = s.pendingCommands
  numbered : Numbered w.store
  asked : Asked fails F G start w.trace

variable {messageId : Nat} {done rest : List ChatToolCall} {late : List ChatRow}
  {record : ChatToolCall}

theorem planned_pending (calls : List LlmToolCall) :
    ∀ record ∈ calls.map ChatToolCall.planned, record.status = .pending := by
  intro record hrecord
  obtain ⟨call, -, rfl⟩ := List.mem_map.mp hrecord
  rfl

def ChatToolCall.started (call : LlmToolCall) : ChatToolCall :=
  { ChatToolCall.planned call with status := .running }

theorem planned_ids (calls : List LlmToolCall) :
    (calls.map ChatToolCall.planned).map ChatToolCall.id = calls.map LlmToolCall.id := by
  rw [List.map_map]
  rfl

theorem InBatch.log (h : InBatch fails F G start messageId done rest late w)
    (hasks : op.asks = false) (answer : op.Answer) :
    InBatch fails F G start messageId done rest late (w.log op answer) :=
  ⟨h.base, h.numbered, h.asked.log hasks answer⟩

/-- A batch that is over, or broken off between two calls. -/
theorem InBatch.moves (h : InBatch fails F G start messageId done rest [] w)
    (hrest : ∀ record ∈ rest, record.status = .pending) : Moves fails F G start w.store := by
  obtain ⟨s, hmoves, -, hbatch, hcommands⟩ := h.base
  exact hmoves.tail ⟨.batch messageId done rest hbatch hrest hcommands, h.numbered⟩

/-- A batch that is broken off while a call is run. -/
theorem InBatch.cut (h : InBatch fails F G start messageId done (record :: rest) late w)
    (hfails : fails)
    (hlate : late = [] ∨ ∃ tool body, late = [tool] ∧ IsToolRow tool record.id body) :
    Moves fails F G start w.store := by
  obtain ⟨s, hmoves, -, hbatch, hcommands⟩ := h.base
  exact hmoves.tail
    ⟨.cut hfails messageId done rest record late hbatch hlate hcommands, h.numbered⟩

theorem InBatch.failed (h : InBatch fails F G start messageId done rest late w) (hfails : fails)
    (hmoves : Moves fails F G start w.store) (c : StoreCall) (message : List Char) :
    Wrote fails F G start ((w.log (.store c) (.error message)).log (.yield (.error message)) ()) :=
  h.asked.failed hfails (.inl hmoves) h.numbered c message

theorem InBatch.persist {rest' : List ChatToolCall}
    (h : InBatch fails F G start messageId done rest late w)
    (hids : rest'.map ChatToolCall.id <+: rest.map ChatToolCall.id) :
    InBatch fails F G start messageId done rest' late
      (w.call (.setChatMessageToolCalls messageId (done ++ rest'))) := by
  obtain ⟨s, hmoves, hs, ⟨⟨pre, row, tools, hrows, rfl, hrole, hnone, htools, hrows'⟩, calls,
    hcalls, hF⟩, hcommands⟩ := h.base
  have hmessages := messages_modifyMessage h.numbered.nodup hrows'
    fun row => { row with toolCalls := some (done ++ rest') }
  refine ⟨⟨s, hmoves, hs, ⟨⟨pre, row, tools, hrows, rfl, hrole, hnone, htools, hmessages⟩, calls,
    ?_, hF⟩, hcommands⟩, numbered_of_map h.numbered ?_ le_rfl, h.asked.call _⟩
  · refine List.IsPrefix.trans ?_ hcalls
    rw [List.map_append, List.map_append]
    exact List.prefix_append_right_inj _ |>.mpr hids
  · -- The row has kept its id.
    refine (congrArg (List.map ChatRow.id) hmessages).trans ?_
    rw [hrows']
    simp only [List.map_append, List.map_cons]

theorem InBatch.answer (h : InBatch fails F G start messageId done rest [] w)
    (content : List Char) :
    InBatch fails F G start messageId done rest [⟨w.store.nextId, .tool, content, none, []⟩]
      (w.draw.call (.insertChatMessage w.store.nextId .tool content none)) := by
  obtain ⟨s, hmoves, hs, ⟨⟨pre, row, tools, hrows, hid, hrole, hnone, htools, hrows'⟩, hids⟩,
    hcommands⟩ := h.base
  refine ⟨⟨s, hmoves, hs, ⟨⟨pre, row, tools, hrows, hid, hrole, hnone, htools, ?_⟩, hids⟩,
    hcommands⟩, numbered_concat h.numbered rfl rfl rfl, h.asked.draw.call _⟩
  change w.store.messages ++ [_] = _
  rw [hrows', List.append_nil, List.append_assoc, List.cons_append]

theorem InBatch.neutral (h : InBatch fails F G start messageId done rest late w) (hc : c.Neutral) :
    InBatch fails F G start messageId done rest late (w.call c) := by
  obtain ⟨s, hmoves, hs, ⟨⟨pre, row, tools, hrows, hid, hrole, hnone, htools, hrows'⟩, hids⟩,
    hcommands⟩ := h.base
  obtain ⟨hmessages, hcommands', hnext⟩ := hc.call w.store
  refine ⟨⟨s, hmoves, hs, ⟨⟨pre, row, tools, hrows, hid, hrole, hnone, htools, ?_⟩, hids⟩,
    hcommands'.trans hcommands⟩, numbered_of_map h.numbered (congrArg _ hmessages) hnext.ge,
    h.asked.call c⟩
  exact hmessages.trans hrows'

theorem InBatch.settle {tool : ChatRow}
    (h : InBatch fails F G start messageId done (record :: rest) [tool] w)
    (htool : Answers tool record) :
    InBatch fails F G start messageId (done ++ [record]) rest [] w := by
  obtain ⟨s, hmoves, hs, ⟨⟨pre, row, tools, hrows, hid, hrole, hnone, htools, hrows'⟩, hids⟩,
    hcommands⟩ := h.base
  have hrecords : done ++ [record] ++ rest = done ++ record :: rest := List.append_cons .. |>.symm
  refine ⟨⟨s, hmoves, hs, ⟨⟨pre, row, tools ++ [tool], hrows, hid, hrole, hnone, ?_, ?_⟩, ?_⟩,
    hcommands⟩, h.numbered, h.asked⟩
  · exact List.rel_append htools (.cons htool .nil)
  · rw [hrecords, List.append_nil]
    exact hrows'
  · rw [hrecords]
    exact hids

theorem InBatch.draw (h : InBatch fails F G start messageId done rest late w) :
    InBatch fails F G start messageId done rest late w.draw := by
  obtain ⟨s, hmoves, hs, ⟨hrows, hids⟩, hcommands⟩ := h.base
  exact ⟨⟨s, hmoves, hs, ⟨hrows, hids⟩, hcommands⟩,
    numbered_of_map h.numbered rfl (Nat.le_succ _), h.asked.draw⟩

theorem InBatch.wp_recordResult {body : List Char} {final : ChatToolCall}
    (h : InBatch fails F G start messageId done (record :: rest) [] w) (hid : final.id = record.id)
    (hresult : final.result = some body) (hfinal : final.status = .finished ∨ final.status = .error)
    (hpost : ∀ w', InBatch fails F G start messageId (done ++ [final]) rest [] w' →
      events w'.trace = events w.trace → post () w') :
    (recordResult messageId (done ++ final :: rest) record.id body).wp handler
      (Allows fails (RepliesMeet F)) (Wrote fails F G start) post w := by
  have hrow := h.answer (toolRow record.id body)
  have htouched := hrow.neutral (c := .touchChat) trivial
  have hlate : ∀ n : Nat, IsToolRow ⟨n, .tool, toolRow record.id body, none, []⟩ record.id body :=
    fun n => ⟨rfl, rfl, rfl⟩
  refine Prog.wp_bind.mpr (wp_uuid.mpr (Prog.wp_bind.mpr (Prog.wp_bind.mpr ?_)))
  refine wp_storeOrFail_fails.mpr ⟨?_, fun hfails m =>
    h.draw.failed hfails (h.draw.cut hfails (.inl rfl)) _ m⟩
  refine wp_storeOrFail_fails.mpr ⟨?_, fun hfails m =>
    hrow.failed hfails (hrow.cut hfails (.inr ⟨_, body, rfl, hlate _⟩)) _ m⟩
  refine wp_storeOrFail_fails.mpr ⟨?_, fun hfails m =>
    htouched.failed hfails (htouched.cut hfails (.inr ⟨_, body, rfl, hlate _⟩)) _ m⟩
  have hids : (final :: rest).map ChatToolCall.id = (record :: rest).map ChatToolCall.id := by
    rw [List.map_cons, List.map_cons, hid]
  refine hpost _ ((htouched.persist (hids ▸ List.prefix_rfl)).settle ⟨hfinal, body, hresult, ?_⟩) ?_
  · rw [hid]
    exact hlate _
  · rw [events_call, events_call, events_call, events_draw]

theorem InBatch.wp_runToolCall {call : LlmToolCall} {post : List ChatToolCall → World → Prop}
    (h : InBatch fails F G start messageId done (record :: rest) [] w) (hid : record.id = call.id)
    (hevents : events w.trace = stream ++ [.toolCallStarted call.id call.name call.arguments])
    (hstream : ¬ fails → Lifecycle stream)
    (hpost : ∀ final w', InBatch fails F G start messageId (done ++ [final]) rest [] w' →
      (¬ fails → Lifecycle (events w'.trace)) → post (done ++ final :: rest) w') :
    (runToolCall messageId (done ++ record :: rest) done.length call).wp handler
      (Allows fails (RepliesMeet F)) (Wrote fails F G start) post w := by
  refine Prog.wp_bind.mpr (wp_executeToolCall.mpr fun answer => ?_)
  have hrun : InBatch fails F G start messageId done (record :: rest) []
      (w.log (.executeToolCall call) answer) := h.log rfl _
  -- Both outcomes are recorded and told in the same way.
  have hlast : ∀ (final : ChatToolCall) (body : List Char) (event : HarnessEvent),
      final.id = record.id → final.result = some body →
      (final.status = .finished ∨ final.status = .error) → event.starts = none →
      event.settles = some call.id →
      (recordResult messageId (done ++ final :: rest) call.id body >>= fun _ =>
        Turn.yield event >>= fun _ => pure (done ++ final :: rest)).wp handler
        (Allows fails (RepliesMeet F)) (Wrote fails F G start) post
        (w.log (.executeToolCall call) answer) := by
    intro final body event hfid hresult hfinal hstarts hsettles
    rw [← hid, Prog.wp_bind]
    refine hrun.wp_recordResult hfid hresult hfinal fun w' h' hsame => ?_
    refine Prog.wp_bind.mpr (wp_yield.mpr (Prog.wp_pure.mpr ?_))
    refine hpost final _ (h'.log rfl _) fun hsteady => ?_
    rw [events_log_yield, hsame, events_log rfl, hevents, List.append_assoc]
    exact (hstream hsteady).call hstarts hsettles
  cases answer with
  | ok outcome =>
    have hrecords := modify_append_cons done record rest fun record =>
      { record with status := .finished, result := some outcome.output, diff := outcome.diff }
    change Prog.wp handler _ _ _ (recordResult _ (List.modify ..) .. >>= _) _
    rw [hrecords]
    exact hlast _ outcome.output _ rfl rfl (.inl rfl) rfl rfl
  | error message =>
    have hrecords := modify_append_cons done record rest fun record =>
      { record with status := .error, result := some message }
    change Prog.wp handler _ _ _ (recordResult _ (List.modify ..) .. >>= _) _
    rw [hrecords]
    exact hlast _ message _ rfl rfl (.inr rfl) rfl rfl

theorem InBatch.wp_proposeCommand {cfg : Settings} {call : LlmToolCall}
    (h : InBatch fails F G start messageId done (record :: rest) [] w) (hid : record.id = call.id)
    (hrunning : record.status = .running)
    (hevents : events w.trace = stream ++ [.toolCallStarted call.id call.name call.arguments])
    (hstream : ¬ fails → Lifecycle stream) :
    (proposeCommand cfg messageId (done ++ record :: rest) done.length call).wp handler
      (Allows fails (RepliesMeet F)) (Wrote fails F G start) post w := by
  have htake : (done ++ record :: rest).take (done.length + 1) = done ++ [record] := by
    rw [List.take_length_add_append]
    rfl
  rw [proposeCommand, htake]
  have hlast : InBatch fails F G start messageId done [record] []
      (w.call (.setChatMessageToolCalls messageId (done ++ [record]))) := h.persist ⟨_, rfl⟩
  refine Prog.wp_bind.mpr (wp_storeOrFail_fails.mpr ⟨?_, fun hfails m =>
    h.failed hfails (h.cut hfails (.inl rfl)) _ m⟩)
  refine Prog.wp_bind.mpr (wp_storeOrFail_fails.mpr ⟨?_, fun hfails m =>
    hlast.failed hfails (hlast.cut hfails (.inl rfl)) _ m⟩)
  refine Prog.wp_bind.mpr (wp_yield.mpr (Prog.wp_leave.mpr ?_))
  obtain ⟨s, hmoves, hs, hbatch, hcommands⟩ := hlast.base
  have hnumbered : Numbered ((w.call (.setChatMessageToolCalls messageId (done ++ [record]))).call
      (.insertPendingCommand ⟨call.id, some messageId, commandCandidates call, cfg.workspaceDir,
        true⟩)).store := numbered_of_map hlast.numbered rfl le_rfl
  refine ⟨.inr ⟨s, hmoves, ⟨messageId, done, record, commandCandidates call, cfg.workspaceDir,
    ⟨hbatch.rows, hbatch.ids⟩, hrunning, ?_⟩, hnumbered⟩, hnumbered,
    (hlast.asked.call _).log rfl _, fun hsteady => ?_⟩
  · rw [hid]
    change (Store.insertPendingCommand _ _).pendingCommands = _
    unfold Store.insertPendingCommand
    rw [hcommands]
  · rw [events_log_yield, events_call, events_call, hevents, List.append_assoc]
    exact (hstream hsteady).call rfl rfl

theorem InBatch.wp_start {call : LlmToolCall} {next : Turn Unit}
    (h : InBatch fails F G start messageId done (.planned call :: rest) [] w)
    (hover : Moves fails F G start w.store)
    (hpost : ∀ w', InBatch fails F G start messageId done (.started call :: rest) [] w' →
      events w'.trace =
        events w.trace ++ [.toolCallStarted call.id call.name call.arguments] →
      next.wp handler (Allows fails (RepliesMeet F)) (Wrote fails F G start) post w') :
    (persistToolCallRecords messageId (done ++ .started call :: rest) >>= fun _ =>
      Turn.yield (.toolCallStarted call.id call.name call.arguments) >>= fun _ => next).wp handler
        (Allows fails (RepliesMeet F)) (Wrote fails F G start) post w := by
  have hstarted : InBatch fails F G start messageId done (.started call :: rest) []
      (w.call (.setChatMessageToolCalls messageId (done ++ .started call :: rest))) :=
    h.persist List.prefix_rfl
  refine Prog.wp_bind.mpr (wp_storeOrFail_fails.mpr ⟨?_, fun hfails m =>
    h.failed hfails hover _ m⟩)
  refine Prog.wp_bind.mpr (wp_yield.mpr (hpost _ (hstarted.log rfl _) ?_))
  rw [events_log_yield, events_call]

theorem InBatch.wp_toolLoop (cfg : Settings) (calls : List LlmToolCall)
    (h : InBatch fails F G start messageId done (calls.map ChatToolCall.planned) [] w)
    (hlifecycle : ¬ fails → Lifecycle (events w.trace)) :
    (toolLoop cfg messageId (done ++ calls.map ChatToolCall.planned) done.length calls).wp handler
      (Allows fails (RepliesMeet F)) (Wrote fails F G start)
      (fun _ => Writes fails F G start) w := by
  induction calls generalizing done w with
  | nil => exact Prog.wp_pure.mpr ⟨h.moves nofun, h.numbered, h.asked, hlifecycle⟩
  | cons call rest ih =>
    have hmoves : Moves fails F G start w.store := h.moves (planned_pending _)
    refine Prog.wp_bind.mpr (wp_cancelled.mpr fun seen => ?_)
    cases seen with
    | true =>
      have hover : Writes fails F G start w := ⟨hmoves, h.numbered, h.asked, hlifecycle⟩
      refine Prog.wp_bind.mpr (wp_yield.mpr (Prog.wp_pure.mpr ?_))
      exact (hover.log rfl rfl _).yield ⟨rfl, rfl⟩
    | false =>
      have hrecords : (done ++ (call :: rest).map ChatToolCall.planned).modify done.length
          (fun record => { record with status := .running }) =
          done ++ .started call :: rest.map ChatToolCall.planned := modify_append_cons done _ _ _
      rw [if_neg Bool.false_ne_true, hrecords]
      refine (h.log rfl _).wp_start hmoves fun w' h' hevents => ?_
      rw [events_log rfl] at hevents
      split
      · exact h'.wp_proposeCommand rfl rfl hevents hlifecycle
      · refine Prog.wp_bind.mpr (h'.wp_runToolCall rfl hevents hlifecycle ?_)
        intro final w'' h'' hlifecycle'
        have hnext := ih h'' hlifecycle'
        rwa [List.append_assoc, List.singleton_append, List.length_append,
          List.length_singleton] at hnext

/-- The chain of thought is stored beside a row with calls. -/
theorem InBatch.setReasoning (h : InBatch fails F G start messageId done rest late w)
    (reasoning : List Char) : InBatch fails F G start messageId done rest late
      (w.call (.setChatMessageReasoning messageId reasoning)) := by
  obtain ⟨s, hmoves, hs, ⟨⟨pre, row, tools, hrows, rfl, hrole, hnone, htools, hrows'⟩, hids⟩,
    hcommands⟩ := h.base
  have hset := messages_modifyMessage h.numbered.nodup hrows'
    fun row => { row with reasoningContent := reasoning }
  -- The rows that the batch started from get the chain of thought too.
  let row' : ChatRow := { row with reasoningContent := reasoning }
  have halike : List.Forall₂ Alike s.messages (pre ++ [row']) := by
    rw [hrows]
    refine List.rel_append (List.forall₂_same.mpr fun row _ => alike_refl row) (.cons ?_ .nil)
    exact ⟨rfl, rfl, rfl, fun _ => rfl⟩
  have hs' : Numbered { s with messages := pre ++ [row'] } :=
    numbered_of_map hs (map_id_alike halike) le_rfl
  refine ⟨⟨{ s with messages := pre ++ [row'] }, hmoves.tail ⟨.rewrite halike rfl, hs'⟩, hs',
    ⟨⟨pre, row', tools, rfl, rfl, hrole, hnone, htools, hset⟩, ?_⟩, hcommands⟩, ?_, h.asked.call _⟩
  · rw [recordIds, recordsOf_alike halike]
    exact hids
  · refine numbered_of_map h.numbered ((congrArg (List.map ChatRow.id) hset).trans ?_) le_rfl
    rw [hrows']
    simp only [List.map_append, List.map_cons]

theorem Streaming.wp_attachToolCalls (h : Streaming fails F G start ids reply w)
    (hcalls : F ids (reply.toolCalls.map LlmToolCall.id)) :
    (attachToolCalls reply).wp handler (Allows fails (RepliesMeet F)) (Wrote fails F G start)
      (fun messageId w' => InBatch fails F G start messageId []
        (reply.toolCalls.map ChatToolCall.planned) [] w' ∧
          (¬ fails → Lifecycle (events w'.trace))) w := by
  rw [attachToolCalls]
  have hpre : ([] ++ reply.toolCalls.map ChatToolCall.planned).map ChatToolCall.id <+:
      reply.toolCalls.map LlmToolCall.id := by
    simpa only [List.nil_append, planned_ids] using List.prefix_rfl
  split
  · next id hid =>
    obtain ⟨pre, row, hrows, rfl, hrole, hnone⟩ := h.row id hid
    refine Prog.wp_bind.mpr (wp_storeOrFail_fails.mpr
      ⟨Prog.wp_pure.mpr ?_, fun hfails m => h.writes.failed hfails _ m⟩)
    have hset := messages_modifyMessage h.writes.numbered.nodup hrows
      fun row => { row with toolCalls := some (reply.toolCalls.map ChatToolCall.planned) }
    refine ⟨⟨⟨w.store, h.writes.moves, h.writes.numbered, ⟨⟨pre, row, [], hrows, rfl, hrole, hnone,
      .nil, hset⟩, _, hpre, h.known ▸ hcalls⟩, rfl⟩, ?_, h.writes.asked.call _⟩, fun hsteady => ?_⟩
    · refine numbered_of_map h.writes.numbered ((congrArg _ hset).trans ?_) le_rfl
      rw [hrows]
      simp only [List.map_append, List.map_cons]
    · rw [events_call]
      exact h.writes.lifecycle hsteady
  · -- The row of the calls is first one without calls: no statement writes that one.
    let row : ChatRow := ⟨w.store.nextId, .assistant, [], none, []⟩
    let s : Store := { w.draw.store with messages := w.store.messages ++ [row] }
    have hs : Numbered s := numbered_concat h.writes.numbered rfl rfl rfl
    have hmoves : Moves fails F G start s :=
      h.writes.draw.moves.tail ⟨.add row nofun rfl rfl rfl, hs⟩
    have hids : recordIds s.messages = ids := by
      rw [← h.known, recordIds, recordsOf_concat rfl]
      rfl
    have hbatch : InBatch fails F G start w.store.nextId []
        (reply.toolCalls.map ChatToolCall.planned) []
        (w.draw.call (.insertChatMessage w.store.nextId .assistant []
          (some (reply.toolCalls.map ChatToolCall.planned)))) :=
      ⟨⟨s, hmoves, hs, ⟨⟨w.store.messages, row, [], rfl, rfl, rfl, rfl, .nil, rfl⟩, _, hpre,
        hids ▸ hcalls⟩, rfl⟩, numbered_concat h.writes.numbered rfl rfl rfl,
        h.writes.asked.draw.call _⟩
    refine Prog.wp_bind.mpr (wp_uuid.mpr (Prog.wp_bind.mpr (Prog.wp_bind.mpr ?_)))
    refine wp_storeOrFail_fails.mpr ⟨?_, fun hfails m => h.writes.draw.failed hfails _ m⟩
    refine wp_storeOrFail_fails.mpr ⟨?_, fun hfails m =>
      hbatch.failed hfails (hbatch.moves (planned_pending _)) _ m⟩
    refine Prog.wp_pure.mpr ⟨hbatch.neutral trivial, fun hsteady => ?_⟩
    rw [events_call, events_call, events_draw]
    exact h.writes.lifecycle hsteady

theorem Streaming.wp_runBatch (h : Streaming fails F G start ids reply w) (cfg : Settings)
    (hcalls : F ids (reply.toolCalls.map LlmToolCall.id)) :
    (runBatch cfg reply).wp handler (Allows fails (RepliesMeet F)) (Wrote fails F G start)
      (fun _ => Writes fails F G start) w := by
  refine Prog.wp_bind.mpr ((h.wp_attachToolCalls hcalls).mono ?_)
  rintro messageId w ⟨h, hlifecycle⟩
  refine Prog.wp_bind.mpr ?_
  change Prog.wp _ _ _ _ (if reply.reasoning.isEmpty then _ else _) _
  split
  · exact Prog.wp_pure.mpr (h.wp_toolLoop cfg reply.toolCalls hlifecycle)
  · refine wp_storeOrFail_fails.mpr ⟨?_, fun hfails m =>
      h.failed hfails (h.moves (planned_pending _)) _ m⟩
    refine (h.setReasoning reply.reasoning).wp_toolLoop cfg reply.toolCalls fun hsteady => ?_
    rw [events_call]
    exact hlifecycle hsteady

theorem makes_executionLoop (cfg : Settings) (mission : MissionState) (left : Nat)
    (prevToolCalls : List LlmToolCall) :
    Makes fails F G start (executionLoop cfg mission left prevToolCalls) := by
  induction left generalizing prevToolCalls with
  | zero => exact Prog.keeps_bind (makes_returnIfCancelled _) fun _ => makes_fail _
  | succ left ih =>
    refine Prog.keeps_bind (makes_returnIfCancelled _) fun _ w h => ?_
    refine Prog.wp_bind.mpr ((h.wp_completeReply mission).mono ?_)
    rintro reply w ⟨ids, h⟩
    split
    · exact Prog.wp_pure.mpr h.writes
    · next hlast =>
      have hcalls : F ids (reply.toolCalls.map LlmToolCall.id) := by
        refine h.calls.resolve_left fun hnone => hlast ?_
        rw [Reply.isLast, hnone]
        rfl
      exact Prog.wp_bind.mpr ((h.wp_runBatch cfg hcalls).mono fun _ w h => ih _ w h)

theorem makes_loadOrCreateMission (goal : List Char) :
    Makes fails F G start (loadOrCreateMission goal) := by
  refine Prog.keeps_bind (makes_storeOrFail trivial) fun missions => ?_
  cases openMission missions with
  | some row =>
    refine Prog.keeps_bind (makes_storeOrFail trivial) fun steps => ?_
    exact Prog.keeps_bind (makes_storeOrFail trivial) fun pending => Prog.keeps_pure _
  | none =>
    refine Prog.keeps_bind makes_uuid fun id => ?_
    exact Prog.keeps_bind (makes_storeOrFail trivial) fun _ => Prog.keeps_pure _

theorem makes_runMission (cfg : Settings) (prompt : List Char) :
    Makes fails F G start (runMission cfg prompt) := by
  refine Prog.keeps_bind (makes_loadOrCreateMission prompt) fun mission => ?_
  refine Prog.keeps_bind (makes_yield ⟨rfl, rfl⟩) fun _ => ?_
  refine Prog.keeps_bind (makes_plan cfg mission) fun ⟨mission, decision⟩ => ?_
  refine Prog.keeps_ite (makes_yield ⟨rfl, rfl⟩) ?_
  refine Prog.keeps_bind (makes_executionLoop cfg mission _ _) fun _ => ?_
  refine Prog.keeps_bind (makes_storeOrFail trivial) fun _ => ?_
  exact Prog.keeps_bind (makes_yield ⟨rfl, rfl⟩) fun _ => makes_yield ⟨rfl, rfl⟩

theorem makes_runMissionTurn (cfg : Settings) (prompt : List Char) :
    Makes fails F G start (runMissionTurn cfg prompt) := by
  intro w h
  refine Prog.wp_bind.mpr (wp_uuid.mpr (Prog.wp_bind.mpr ?_))
  exact h.wp_insertChatMessage (by decide) fun w' h' _ => makes_runMission cfg prompt w' h'

theorem makes_storeCredential (credential : Option (List Char × List Char)) :
    Makes fails F G start (storeCredential credential) := by
  cases credential with
  | none => exact Prog.keeps_pure []
  | some credential =>
    refine Prog.keeps_bind ?_ fun name => ?_
    · refine Prog.keeps_ite ?_ (Prog.keeps_pure _)
      exact Prog.keeps_bind makes_uuid fun id => Prog.keeps_pure _
    · exact Prog.keeps_bind (makes_storeOrFail trivial) fun _ => Prog.keeps_pure _

theorem makes_resumeMissionTurn (cfg : Settings) (response : List Char)
    (credential : Option (List Char × List Char)) :
    Makes fails F G start (resumeMissionTurn cfg response credential) := by
  refine Prog.keeps_bind (makes_store trivial) fun found => ?_
  split
  · next ask =>
    refine Prog.keeps_bind (makes_storeOrFail trivial) fun _ => ?_
    refine Prog.keeps_bind (makes_storeCredential credential) fun note w h => ?_
    refine Prog.wp_bind.mpr (wp_uuid.mpr (Prog.wp_bind.mpr ?_))
    exact h.wp_insertChatMessage nofun fun w' h' _ => makes_runMissionTurn _ response w' h'
  · exact makes_fail _

/-! ### The decision on a command -/

/-- The proposal is resolved, and its decision is being carried out or recorded; `late` is what was
recorded of it. -/
structure Deciding (fails : Prop) (F : List (List Char) → List (List Char) → Prop)
    (G : Store → Prop) (start : Store) (p : CommandRow) (late : List ChatRow) (w : World) :
    Prop where
  rows : w.store.messages = start.messages ++ late
  commands : w.store.pendingCommands = (start.resolvePendingCommand p.callId).pendingCommands
  numbered : Numbered w.store
  asked : Asked fails F G start w.trace
  silent : events w.trace = []

variable {p : CommandRow}

theorem Deciding.log (h : Deciding fails F G start p late w) (hasks : op.asks = false)
    (hsaid : op.says = false) (answer : op.Answer) :
    Deciding fails F G start p late (w.log op answer) :=
  ⟨h.rows, h.commands, h.numbered, h.asked.log hasks answer, (events_log hsaid w answer).trans h.silent⟩

theorem Deciding.neutral (h : Deciding fails F G start p late w) (hc : c.Neutral) :
    Deciding fails F G start p late (w.call c) := by
  obtain ⟨hrows, hcommands, hnext⟩ := hc.call w.store
  refine ⟨hrows.trans h.rows, hcommands.trans h.commands, ?_, h.asked.call c,
    (events_call w c).trans h.silent⟩
  exact numbered_of_map h.numbered (congrArg _ hrows) hnext.ge

theorem Deciding.draw (h : Deciding fails F G start p late w) :
    Deciding fails F G start p late w.draw :=
  ⟨h.rows, h.commands, numbered_of_map h.numbered rfl (Nat.le_succ _), h.asked.draw,
    (events_draw w).trans h.silent⟩

theorem Deciding.answer (h : Deciding fails F G start p [] w) (content : List Char) :
    Deciding fails F G start p [⟨w.store.nextId, .tool, content, none, []⟩]
      (w.draw.call (.insertChatMessage w.store.nextId .tool content none)) := by
  refine ⟨?_, h.commands, numbered_concat h.numbered rfl rfl rfl, h.asked.draw.call _, ?_⟩
  · change w.store.messages ++ [_] = _
    rw [h.rows, List.append_nil]
  · rw [events_call, events_draw, h.silent]

theorem Deciding.failed (h : Deciding fails F G start p late w) (hfails : fails) (hG : G start)
    (hpending : start.getPendingCommand = some p)
    (hlate : late = [] ∨ ∃ tool body, late = [tool] ∧ IsToolRow tool p.callId body)
    (c : StoreCall) (message : List Char) :
    Wrote fails F G start
      ((w.log (.store c) (.error message)).log (.yield (.error message)) ()) := by
  refine h.asked.failed hfails (.inl (.single ⟨?_, h.numbered⟩)) h.numbered c message
  exact .drop hfails p late hG hpending hlate h.rows h.commands

/-- Carrying out a decision writes nothing. -/
theorem keeps_expandCredentialRefs {left : World → Prop} (fuel : Nat) (text : List Char) :
    (expandCredentialRefs fuel text).Keeps handler (Allows fails (RepliesMeet F)) left
      (Deciding fails F G start p late) := by
  induction fuel generalizing text with
  | zero => exact Prog.keeps_pure _
  | succ fuel ih =>
    rw [expandCredentialRefs]
    split
    · exact Prog.keeps_pure _
    · split
      · exact Prog.keeps_pure _
      · next rest _ =>
        refine Prog.keeps_bind (fun w h => wp_store_fails.mpr
          ⟨h.neutral trivial, fun _ _ => h.log rfl rfl _⟩) fun found => ?_
        split
        · exact Prog.keeps_pure _
        · exact Prog.keeps_pure _
        · refine Prog.keeps_bind (ih rest) fun expanded => ?_
          split
          · exact Prog.keeps_pure _
          · exact Prog.keeps_pure _

theorem keeps_carryOut {left : World → Prop} (decision : CommandDecision) :
    (carryOut decision).Keeps handler (Allows fails (RepliesMeet F)) left
      (Deciding fails F G start p late) := by
  have hrun : ∀ line, (runApprovedCommand line).Keeps handler (Allows fails (RepliesMeet F)) left
      (Deciding fails F G start p late) := by
    intro line
    refine Prog.keeps_bind (keeps_expandCredentialRefs _ _) fun expanded => ?_
    cases expanded with
    | error message => exact Prog.keeps_pure _
    | ok line => exact fun w h => wp_runLine.mpr fun _ => h.log rfl rfl _
  cases decision with
  | reject reason => exact Prog.keeps_pure _
  | approve text => exact hrun text
  | edit text => exact hrun text

/-- The decision is on record. -/
theorem Deciding.writes {w' : World} {tool : ChatRow} {status : ToolCallStatus} {body : List Char}
    (h : Deciding fails F G start p [tool] w) (hG : G start)
    (hpending : start.getPendingCommand = some p) (htool : IsToolRow tool p.callId body)
    (hstatus : status = .finished ∨ status = .error)
    (hrows : w'.store.messages = w.store.messages.map (settled p status body))
    (hcommands : w'.store.pendingCommands = w.store.pendingCommands)
    (hnext : w.store.nextId ≤ w'.store.nextId) (hasked : Asked fails F G start w'.trace)
    (hsilent : events w'.trace = []) : Writes fails F G start w' ∧ events w'.trace = [] := by
  have hnumbered : Numbered w'.store := by
    refine numbered_of_map h.numbered ?_ hnext
    rw [hrows, List.map_map]
    exact List.map_congr_left fun row _ => settled_id p status body row
  refine ⟨⟨.single ⟨?_, hnumbered⟩, hnumbered, hasked, fun _ => ?_⟩, hsilent⟩
  · refine .decide p tool status body hG hpending htool hstatus ?_ (hcommands.trans h.commands)
    rw [hrows, h.rows]
  · rw [hsilent]
    trivial

theorem Deciding.wp_recordCommandOutcome {status : ToolCallStatus} {body : List Char}
    (h : Deciding fails F G start p [] w) (hG : G start)
    (hpending : start.getPendingCommand = some p)
    (hstatus : status = .finished ∨ status = .error) :
    (recordCommandOutcome p.messageId p.callId status body).wp handler
      (Allows fails (RepliesMeet F)) (Wrote fails F G start)
      (fun _ w' => Writes fails F G start w' ∧ events w'.trace = []) w := by
  have hrow := h.answer (toolRow p.callId body)
  have htouched := hrow.neutral (c := .touchChat) trivial
  have htool : ∀ n : Nat, IsToolRow ⟨n, .tool, toolRow p.callId body, none, []⟩ p.callId body :=
    fun n => ⟨rfl, rfl, rfl⟩
  refine Prog.wp_bind.mpr (wp_uuid.mpr (Prog.wp_bind.mpr (Prog.wp_bind.mpr ?_)))
  refine wp_storeOrFail_fails.mpr ⟨?_, fun hfails m =>
    h.draw.failed hfails hG hpending (.inl rfl) _ m⟩
  refine wp_storeOrFail_fails.mpr ⟨?_, fun hfails m =>
    hrow.failed hfails hG hpending (.inr ⟨_, body, rfl, htool _⟩) _ m⟩
  cases hid : p.messageId with
  | none =>
    refine Prog.wp_pure.mpr (htouched.writes hG hpending (htool _) hstatus ?_ rfl le_rfl
      htouched.asked htouched.silent)
    exact (map_settled_of_none hid status body _).symm
  | some id =>
    have hlisted := htouched.neutral (c := .listChatMessages) trivial
    have hmap := map_settled htouched.numbered.nodup hid status body
    refine Prog.wp_bind.mpr (wp_storeOrFail_fails.mpr ⟨?_, fun hfails m =>
      htouched.failed hfails hG hpending (.inr ⟨_, body, rfl, htool _⟩) _ m⟩)
    rw [show ∀ s : Store, (s.call .listChatMessages).1 = s.messages from fun _ => rfl]
    split
    · next hfind =>
      rw [hfind] at hmap
      exact Prog.wp_pure.mpr (hlisted.writes hG hpending (htool _) hstatus hmap.symm rfl le_rfl
        hlisted.asked hlisted.silent)
    · next records hfind =>
      rw [hfind] at hmap
      split
      · next hindex =>
        simp only [hindex] at hmap
        exact Prog.wp_pure.mpr (hlisted.writes hG hpending (htool _) hstatus hmap.symm rfl le_rfl
          hlisted.asked hlisted.silent)
      · next index hindex =>
        simp only [hindex] at hmap
        refine wp_storeOrFail_fails.mpr ⟨?_, fun hfails m =>
          hlisted.failed hfails hG hpending (.inr ⟨_, body, rfl, htool _⟩) _ m⟩
        refine hlisted.writes hG hpending (htool _) hstatus hmap.symm rfl le_rfl
          (hlisted.asked.call _) ?_
        rw [events_call]
        exact hlisted.silent

theorem Deciding.wp_decideCommand (h : Deciding fails F G start p [] w) (hG : G start)
    (hpending : start.getPendingCommand = some p) (decision : CommandDecision) :
    (decideCommand p decision).wp handler (Allows fails (RepliesMeet F)) (Wrote fails F G start)
      (fun _ => Writes fails F G start) w := by
  refine Prog.wp_bind.mpr ((keeps_carryOut decision w h).mono fun outcome w h => ?_)
  -- The first event of the turn is the outcome of a call that an earlier turn started.
  have htell : ∀ w' (event : HarnessEvent), event.starts = none →
      (Writes fails F G start w' ∧ events w'.trace = []) →
      Writes fails F G start (w'.log (.yield event) ()) := by
    rintro w' event hstarts ⟨hwrites, hsilent⟩
    refine ⟨hwrites.moves, hwrites.numbered, hwrites.asked.log rfl _, fun _ => ?_⟩
    rw [events_log_yield, hsilent]
    refine ⟨fun id hid => ?_, trivial⟩
    cases hstarts.symm.trans hid
  cases outcome with
  | ok value =>
    refine Prog.wp_bind.mpr ((h.wp_recordCommandOutcome hG hpending (.inl rfl)).mono ?_)
    exact fun _ w' h' => wp_yield.mpr (htell w' _ rfl h')
  | error message =>
    refine Prog.wp_bind.mpr ((h.wp_recordCommandOutcome hG hpending (.inr rfl)).mono ?_)
    exact fun _ w' h' => wp_yield.mpr (htell w' _ rfl h')

/-- **Every turn makes moves**, from the store it starts with. -/
theorem wrote_program (hstart : Numbered start) (cfg : Settings) (request : Request)
    (hG : ∀ decision, request = .decide decision → G start) :
    (request.program cfg).wp handler (Allows fails (RepliesMeet F)) (Wrote fails F G start)
      (fun _ => Wrote fails F G start) ⟨start, []⟩ := by
  have hfirst : Writes fails F G start ⟨start, []⟩ := ⟨.refl, hstart, nofun, fun _ => trivial⟩
  cases request with
  | prompt text => exact (makes_runMissionTurn cfg text _ hfirst).mono fun _ _ h => h.wrote
  | answer response credential =>
    exact (makes_resumeMissionTurn cfg response credential _ hfirst).mono fun _ _ h => h.wrote
  | decide decision =>
    have hG := hG decision rfl
    have hread : Writes fails F G start (World.call ⟨start, []⟩ .getPendingCommand) :=
      hfirst.neutral rfl rfl rfl
    refine Prog.wp_bind.mpr (wp_store_fails.mpr ⟨?_, fun _ _ => ?_⟩)
    · rw [show (Store.call start .getPendingCommand).1 = start.getPendingCommand from rfl]
      cases hpending : start.getPendingCommand with
      | none => exact wp_fail.mpr (hread.yield ⟨rfl, rfl⟩).wrote
      | some p =>
        refine Prog.wp_bind.mpr (wp_storeOrFail_fails.mpr
          ⟨?_, fun hfails m => hread.failed hfails _ m⟩)
        have hresolved : Deciding fails F G start p [] ((World.call ⟨start, []⟩
            .getPendingCommand).call (.resolvePendingCommand p.callId)) := by
          refine ⟨(List.append_nil _).symm, rfl, ⟨hstart.nodup, hstart.below⟩,
            hread.asked.call _, rfl⟩
        refine Prog.wp_bind.mpr ((hresolved.wp_decideCommand hG hpending decision).mono ?_)
        intro _ w h
        refine Prog.wp_bind.mpr (Prog.wp.mono ?_ fun goal w h =>
          (makes_runMission cfg goal w h).mono fun _ _ h => h.wrote)
        refine Prog.keeps_bind (makes_store ?_) (fun missions => ?_) w h
        · trivial
        · cases missions with
          | ok missions => exact Prog.keeps_pure _
          | error message => exact Prog.keeps_pure _
    · exact wp_fail.mpr ((hfirst.log rfl rfl _).yield ⟨rfl, rfl⟩).wrote

def CallsMeet (F : List (List Char) → List (List Char) → Prop) (w : World) (l : TurnLabel) : Prop :=
  (l.request.program l.cfg).Meets handler (Allows True (RepliesMeet F)) l.env ⟨w.store, []⟩

theorem wrote_turn {w' : World} {l : TurnLabel} (hnumbered : Numbered w.store)
    (hmeets : (l.request.program l.cfg).Meets handler (Allows fails (RepliesMeet F)) l.env
      ⟨w.store, []⟩) (hG : ∀ decision, l.request = .decide decision → G w.store)
    (hturn : chat.step w l = some w') : Wrote fails F G w.store w' := by
  obtain rfl := Option.some.inj hturn
  exact ends_runTurn (wrote_program hnumbered l.cfg l.request hG) hmeets

theorem CallsMeet.steady {l : TurnLabel} (h : CallsMeet F w l)
    (hsteady : ∀ world call, l.env world (.store call) = none) :
    (l.request.program l.cfg).Meets handler (Allows False (RepliesMeet F)) l.env
      ⟨w.store, []⟩ := by
  refine (h.and (meets_steady hsteady _ _)).mono fun w op choice hok => ?_
  cases op with
  | store call => exact hok.2
  | completeStream request => exact hok.1
  | _ => trivial

theorem callsMeet_true (w : World) (l : TurnLabel) : CallsMeet (fun _ _ => True) w l := by
  refine Prog.meets_of_forall (fun w op => ?_) _ _
  cases op with
  | store call => exact .inr trivial
  | completeStream request => exact fun _ _ _ _ _ => trivial
  | _ => trivial

end Turns

end Goble.Mission
