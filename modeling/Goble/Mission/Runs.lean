import Goble.Lib.Machine
import Goble.Mission.Turn

/-!
# Runs of turns

What the operations of a turn do (`handler`), to the store and to the trace of what was done. Who
answers makes the choices: the model its stream, a tool its outcome, the user the moment of a
cancellation, and the store whether it fails. `Allows` is a condition on the model's replies, with
a store that may fail or, for `Admits`, one that does not.

`chat` is one conversation: turns one after the other, each from the store that the last one left.
-/

namespace Goble.Mission

/-- An operation that was performed, and its answer. -/
structure Act where
  op : Op
  answer : op.Answer

structure World where
  store : Store
  trace : List Act

/-- What an operation leaves open. For a store call it is the error it fails with. -/
@[reducible] def Op.Choice : Op → Type
  | yield _ => Unit
  | store _ => Option (List Char)
  | uuid => Unit
  | cancelled point => (cancelled point).Answer
  | completeStream request => (completeStream request).Answer
  | executeToolCall call => (executeToolCall call).Answer
  | runLine line => (runLine line).Answer

def World.log (w : World) (op : Op) (answer : op.Answer) : World :=
  { w with trace := w.trace ++ [⟨op, answer⟩] }

@[simp] theorem World.log_store (w : World) (op : Op) (answer : op.Answer) :
    (w.log op answer).store = w.store := rfl

@[simp] theorem World.log_trace (w : World) (op : Op) (answer : op.Answer) :
    (w.log op answer).trace = w.trace ++ [⟨op, answer⟩] := rfl

def World.call (w : World) (c : StoreCall) : World :=
  World.log { w with store := (w.store.call c).2 } (.store c) (.ok (w.store.call c).1)

@[simp] theorem World.call_store (w : World) (c : StoreCall) :
    (w.call c).store = (w.store.call c).2 := rfl

@[simp] theorem World.call_trace (w : World) (c : StoreCall) :
    (w.call c).trace = w.trace ++ [⟨.store c, .ok (w.store.call c).1⟩] := rfl

def World.draw (w : World) : World :=
  World.log { w with store := { w.store with nextId := w.store.nextId + 1 } } .uuid w.store.nextId

@[simp] theorem World.draw_store (w : World) :
    w.draw.store = { w.store with nextId := w.store.nextId + 1 } := rfl

@[simp] theorem World.draw_trace (w : World) :
    w.draw.trace = w.trace ++ [⟨.uuid, w.store.nextId⟩] := rfl

def handler : Handler Op Op.Answer Op.Choice World where
  handle
    | .yield event, _, w => ((), w.log (.yield event) ())
    | .store c, none, w => (.ok (w.store.call c).1, w.call c)
    | .store c, some message, w => (.error message, w.log (.store c) (.error message))
    | .uuid, _, w => (w.store.nextId, w.draw)
    | .cancelled point, seen, w => (seen, w.log (.cancelled point) seen)
    | .completeStream request, answer, w => (answer, w.log (.completeStream request) answer)
    | .executeToolCall call, answer, w => (answer, w.log (.executeToolCall call) answer)
    | .runLine line, answer, w => (answer, w.log (.runLine line) answer)

/-- The model's replies meet `C`, and the store fails only if it may. -/
def Allows (fails : Prop)
    (C : World → (request : CompletionRequest) → (Op.completeStream request).Answer → Prop)
    (w : World) : (op : Op) → op.Choice → Prop
  | .store _, failure => failure = none ∨ fails
  | .completeStream request, answer => C w request answer
  | _, _ => True

/-- The store does not fail, and the model's replies meet `C`. -/
abbrev Admits
    (C : World → (request : CompletionRequest) → (Op.completeStream request).Answer → Prop) :
    World → (op : Op) → op.Choice → Prop := Allows False C

/-- The store does not fail. -/
abbrev Steady : World → (op : Op) → op.Choice → Prop := Admits fun _ _ _ => True

/-! ### Rules for the operations -/

section Rules

variable {C : World → (request : CompletionRequest) → (Op.completeStream request).Answer → Prop}
  {fails : Prop} {left : World → Prop} {w : World}

@[simp] theorem wp_yield {event : HarnessEvent} {post : Unit → World → Prop} :
    (Turn.yield event).wp handler (Allows fails C) left post w ↔ post () (w.log (.yield event) ()) :=
  ⟨fun h => h () trivial, fun h _ _ => h⟩

@[simp] theorem wp_cancelled {point : CheckPoint} {post : Bool → World → Prop} :
    (Turn.cancelled point).wp handler (Allows fails C) left post w ↔
      ∀ seen, post seen (w.log (.cancelled point) seen) :=
  ⟨fun h seen => h seen trivial, fun h seen _ => h seen⟩

@[simp] theorem wp_uuid {post : Nat → World → Prop} :
    Turn.uuid.wp handler (Allows fails C) left post w ↔ post w.store.nextId w.draw :=
  ⟨fun h => h () trivial, fun h _ _ => h⟩

theorem wp_store_fails {c : StoreCall} {post : Except (List Char) c.Result → World → Prop} :
    (Turn.store c).wp handler (Allows fails C) left post w ↔
      post (.ok (w.store.call c).1) (w.call c) ∧
        (fails → ∀ message, post (.error message) (w.log (.store c) (.error message))) := by
  refine ⟨fun h => ⟨h none (.inl rfl), fun hfails message => h (some message) (.inr hfails)⟩, ?_⟩
  rintro ⟨hok, herror⟩ (_ | message) hallowed
  · exact hok
  · exact herror (hallowed.resolve_left nofun) message

@[simp] theorem wp_store {c : StoreCall} {post : Except (List Char) c.Result → World → Prop} :
    (Turn.store c).wp handler (Admits C) left post w ↔ post (.ok (w.store.call c).1) (w.call c) := by
  rw [wp_store_fails]
  exact and_iff_left False.elim

@[simp] theorem wp_completeStream {request : CompletionRequest}
    {post : Except (List Char) (List CompletionStreamEvent) → World → Prop} :
    (Turn.completeStream request).wp handler (Allows fails C) left post w ↔
      ∀ answer, C w request answer → post answer (w.log (.completeStream request) answer) :=
  Iff.rfl

@[simp] theorem wp_executeToolCall {call : LlmToolCall}
    {post : Except (List Char) ToolOutcome → World → Prop} :
    (Turn.executeToolCall call).wp handler (Allows fails C) left post w ↔
      ∀ answer, post answer (w.log (.executeToolCall call) answer) :=
  ⟨fun h answer => h answer trivial, fun h answer _ => h answer⟩

@[simp] theorem wp_runLine {line : List Char}
    {post : Except (List Char) (List Char) → World → Prop} :
    (Turn.runLine line).wp handler (Allows fails C) left post w ↔
      ∀ answer, post answer (w.log (.runLine line) answer) :=
  ⟨fun h answer => h answer trivial, fun h answer _ => h answer⟩

@[simp] theorem wp_fail {α : Type} {message : List Char} {post : α → World → Prop} :
    (Turn.fail message : Turn α).wp handler (Allows fails C) left post w ↔
      left (w.log (.yield (.error message)) ()) := by
  rw [Turn.fail, Prog.wp_bind, wp_yield, Prog.wp_leave]

theorem wp_storeOrFail_fails {c : StoreCall} {post : c.Result → World → Prop} :
    (Turn.storeOrFail c).wp handler (Allows fails C) left post w ↔
      post (w.store.call c).1 (w.call c) ∧
        (fails → ∀ message,
          left ((w.log (.store c) (.error message)).log (.yield (.error message)) ())) := by
  rw [Turn.storeOrFail, Prog.wp_bind, wp_store_fails]
  refine and_congr Prog.wp_pure (imp_congr_right fun _ => forall_congr' fun message => ?_)
  exact wp_fail

@[simp] theorem wp_storeOrFail {c : StoreCall} {post : c.Result → World → Prop} :
    (Turn.storeOrFail c).wp handler (Admits C) left post w ↔
      post (w.store.call c).1 (w.call c) := by
  rw [wp_storeOrFail_fails]
  exact and_iff_left False.elim

theorem wp_resumeMissionTurn {cfg : Settings} {response : List Char}
    {credential : Option (List Char × List Char)} {post : Unit → World → Prop}
    (hask : ∀ ask, (w.store.call .getPendingAsk).1 = some ask →
      (answerAsk cfg ask response credential).wp handler (Admits C) left post
        (w.call .getPendingAsk))
    (hnone : (w.store.call .getPendingAsk).1 = none → left ((w.call .getPendingAsk).log
      (.yield (.error "no pending ask for chat".toList)) ())) :
    (resumeMissionTurn cfg response credential).wp handler (Admits C) left post w := by
  refine Prog.wp_bind.mpr (wp_store.mpr ?_)
  generalize (w.store.call .getPendingAsk).1 = found at hask hnone ⊢
  cases found with
  | some ask => exact hask ask rfl
  | none => exact wp_fail.mpr (hnone rfl)

theorem wp_resumeCommandTurn {cfg : Settings} {decision : CommandDecision}
    {post : Unit → World → Prop}
    (hpending : ∀ pending, w.store.getPendingCommand = some pending →
      (answerCommand cfg pending decision).wp handler (Admits C) left post
        (w.call .getPendingCommand))
    (hnone : w.store.getPendingCommand = none → left ((w.call .getPendingCommand).log
      (.yield (.error "no pending command for chat".toList)) ())) :
    (resumeCommandTurn cfg decision).wp handler (Admits C) left post w := by
  refine Prog.wp_bind.mpr (wp_store.mpr ?_)
  rw [show (w.store.call .getPendingCommand).1 = w.store.getPendingCommand from rfl]
  generalize w.store.getPendingCommand = found at hpending hnone ⊢
  cases found with
  | some pending => exact hpending pending rfl
  | none => exact wp_fail.mpr (hnone rfl)

end Rules

/-! ### Turns of a chat -/

/-- What starts a turn, with the settings it is run with. -/
inductive Request
  | prompt (text : List Char)
  | answer (response : List Char) (credential : Option (List Char × List Char))
  | decide (decision : CommandDecision)

def Request.program (cfg : Settings) : Request → Turn Unit
  | prompt text => runMissionTurn cfg text
  | answer response credential => resumeMissionTurn cfg response credential
  | decide decision => resumeCommandTurn cfg decision

/-- Who makes the choices has seen all that was done. -/
abbrev Env := World → (op : Op) → op.Choice

def runTurn (env : Env) (turn : Turn Unit) (store : Store) : World :=
  (turn.run handler env ⟨store, []⟩).2

theorem ends_runTurn
    {C : World → (request : CompletionRequest) → (Op.completeStream request).Answer → Prop}
    {fails : Prop} {P : World → Prop} {turn : Turn Unit} {store : Store} {env : Env}
    (h : turn.wp handler (Allows fails C) P (fun _ => P) ⟨store, []⟩)
    (hmeets : turn.Meets handler (Allows fails C) env ⟨store, []⟩) :
    P (runTurn env turn store) := by
  have hend := h.run hmeets
  rw [Mission.runTurn]
  cases hrun : (turn.run handler env ⟨store, []⟩).1 with
  | none => simpa [hrun] using hend
  | some value => simpa [hrun] using hend

theorem meets_steady {α : Type} {env : Env} (h : ∀ w call, env w (.store call) = none)
    (turn : Turn α) (w : World) : turn.Meets handler Steady env w := by
  refine Prog.meets_of_forall (fun w op => ?_) turn w
  cases op with
  | store call => exact .inl (h w call)
  | _ => trivial

structure TurnLabel where
  cfg : Settings
  request : Request
  env : Env

def chat : Machine World TurnLabel where
  init := ⟨.empty, []⟩
  step w l := some (runTurn l.env (l.request.program l.cfg) w.store)

def events (trace : List Act) : List HarnessEvent :=
  trace.filterMap fun act =>
    match act.op with
    | .yield event => some event
    | _ => none

theorem events_append (first second : List Act) :
    events (first ++ second) = events first ++ events second := List.filterMap_append

theorem events_yield (event : HarnessEvent) : events [⟨.yield event, ()⟩] = [event] := rfl

end Goble.Mission
