import Goble.Mission.Parts

/-!
# A mission that is loaded again

A turn that suspends on a question, or fails, leaves its mission open, and the next turn loads it:
its reasoning steps, and the question that waits for an answer. The `Chronicle` of a chat says what
should come back: the steps of every turn, and the questions that were not answered.

Two things get lost. A turn counts its steps from 0, and the steps of all turns are loaded in the
order of that count, so a turn that takes a step after one that took two is loaded before the end
of that one. And quick replies are stored as the lines of one text, which has a line even when
there is no reply. Apart from these, what was left is loaded (`reloads_iff`).

`Recalls` is what the store keeps of the chronicle, between turns and at every step of one.
-/

namespace Goble.Mission

/-! ### What a chat has seen -/

/-- A question, as `AskUser` says it. -/
structure Question where
  text : List Char
  quickReplies : List (List Char)
deriving DecidableEq

structure Chronicle where
  /-- The reasoning steps, turn by turn. -/
  turns : List (List ReasoningStep)
  /-- The questions that wait for an answer, the last one at the end. -/
  unanswered : List Question

def Act.taken : Act → Option ReasoningStep
  | ⟨.store (.insertReasoningStep _ step), .ok _⟩ => some step
  | _ => none

/-- The questions that wait after this, if these did before. An answer goes to the last one. -/
def Act.waiting (questions : List Question) : Act → List Question
  | ⟨.yield (.askUser text quickReplies), _⟩ => questions ++ [⟨text, quickReplies⟩]
  | ⟨.store (.resolvePendingAsk _), .ok _⟩ => questions.dropLast
  | _ => questions

def taken (trace : List Act) : List ReasoningStep := trace.filterMap Act.taken

def Chronicle.after (before : Chronicle) (trace : List Act) : Chronicle :=
  ⟨before.turns ++ [taken trace], trace.foldl Act.waiting before.unanswered⟩

def chronicled : Machine (World × Chronicle) TurnLabel :=
  chat.withHistory ⟨[], []⟩ fun _ _ w chronicle => chronicle.after w.trace

instance decidableEqDone : DecidablePred (· = HarnessEvent.done)
  | .done => isTrue rfl
  | .assistantDelta _ | .toolCallStarted .. | .toolCallFinished .. | .toolCallError ..
  | .reasoningStarted .. | .reasoningDelta _ | .reasoningDone .. | .askUser ..
  | .commandProposed .. | .missionUpdated .. | .tokenUsage _ | .error _ => isFalse nofun

def Suspends (w : World) (l : TurnLabel) : Prop :=
  ∀ event ∈ events (runTurn l.env (l.request.program l.cfg) w.store).trace, event ≠ .done

instance (w : World) (l : TurnLabel) : Decidable (Suspends w l) :=
  inferInstanceAs (Decidable (∀ event ∈ _, ¬ event = HarnessEvent.done))

/-- What was left is loaded. -/
structure Reloads (chronicle : Chronicle) (mission : MissionState) : Prop where
  steps : mission.reasoningSteps = chronicle.turns.flatten
  mode : mission.mode = (chronicle.turns.flatten.getLast?.map ReasoningStep.mode).getD .direct
  ask : (mission.pendingAsk.map fun ask => Question.mk ask.question ask.quickReplies) =
    chronicle.unanswered.getLast?

structure Chronicle.Reloadable (chronicle : Chronicle) : Prop where
  steps : chronicle.turns.Pairwise fun earlier later => later = [] ∨ earlier.length ≤ 1
  replies : ∀ question ∈ chronicle.unanswered.getLast?, question.quickReplies ≠ []

instance (chronicle : Chronicle) : Decidable chronicle.Reloadable :=
  decidable_of_iff
    (chronicle.turns.Pairwise (fun earlier later => later = [] ∨ earlier.length ≤ 1) ∧
      ∀ question ∈ chronicle.unanswered.getLast?, question.quickReplies ≠ [])
    ⟨fun h => ⟨h.1, h.2⟩, fun h => ⟨h.steps, h.replies⟩⟩

/-- A chat whose turns all suspended or failed. Its questions have quick replies of one line. -/
structure LeftOpen (ls : List TurnLabel) (w : World) (chronicle : Chronicle) : Prop where
  run : chronicled.exec chronicled.init ls = some (w, chronicle)
  suspends : chronicled.Along (fun p l => Suspends p.1 l) chronicled.init ls
  lines : ∀ question ∈ chronicle.unanswered, ∀ reply ∈ question.quickReplies, '\n' ∉ reply

def reload (env : Env) (goal : List Char) (s : Store) : Option MissionState :=
  ((loadOrCreateMission goal).run handler env ⟨s, []⟩).1

/-! ### What the store keeps of it -/

def Question.joined (question : Question) : List Char × List Char :=
  (question.text, ['\n'].intercalate question.quickReplies)

structure Recalls (mission : Option Nat) (chronicle : Chronicle) (s : Store) : Prop where
  opened : (s.missions.map fun row => (row.id, row.status)) =
    mission.toList.map fun id => (id, .clarifying)
  own : ∀ row ∈ s.reasoningSteps, mission = some row.1
  steps : s.reasoningSteps.map Prod.snd = chronicle.turns.flatten
  numbered : ∀ turn ∈ chronicle.turns, turn.map ReasoningStep.step = List.range turn.length
  asks : ((s.pendingAsks.filter AskRow.pending).map fun row => (row.question, row.quickReplies)) =
    chronicle.unanswered.map Question.joined
  distinct : (s.pendingAsks.map AskRow.id).Nodup
  below : ∀ row ∈ s.pendingAsks, row.id < s.nextId
  asked : mission = none → chronicle.unanswered = []

structure SameRows (s s' : Store) : Prop where
  missions : s'.missions = s.missions
  reasoningSteps : s'.reasoningSteps = s.reasoningSteps
  pendingAsks : s'.pendingAsks = s.pendingAsks
  nextId : s.nextId ≤ s'.nextId

theorem Recalls.sameRows {mission : Option Nat} {chronicle : Chronicle} {s s' : Store}
    (h : Recalls mission chronicle s) (hs : SameRows s s') : Recalls mission chronicle s' where
  opened := hs.missions ▸ h.opened
  own := hs.reasoningSteps ▸ h.own
  steps := hs.reasoningSteps ▸ h.steps
  numbered := h.numbered
  asks := hs.pendingAsks ▸ h.asks
  distinct := hs.pendingAsks ▸ h.distinct
  below row hrow := (h.below row (hs.pendingAsks ▸ hrow)).trans_le hs.nextId
  asked := h.asked

theorem recalls_empty : Recalls none ⟨[], []⟩ .empty :=
  ⟨rfl, nofun, rfl, nofun, rfl, List.nodup_nil, nofun, fun _ => rfl⟩

/-- Nothing is missing between two turns but the turn itself. -/
theorem Recalls.after_nil {mission : Option Nat} {chronicle : Chronicle} {s : Store}
    (h : Recalls mission chronicle s) : Recalls mission (chronicle.after []) s where
  opened := h.opened
  own := h.own
  steps := by rw [h.steps, Chronicle.after, List.flatten_append, taken]; simp
  numbered turn hturn := by
    obtain hturn | hturn := List.mem_append.mp hturn
    · exact h.numbered turn hturn
    · obtain rfl := List.mem_singleton.mp hturn
      rfl
  asks := h.asks
  distinct := h.distinct
  below := h.below
  asked := h.asked

/-! ### A turn under way -/

theorem taken_append (trace : List Act) (act : Act) :
    taken (trace ++ [act]) = taken trace ++ act.taken.toList := by
  rw [taken, List.filterMap_append, taken, List.filterMap_cons, List.filterMap_nil]
  cases act.taken <;> rfl

/-- Neither a step, nor a question, nor an answer to one. -/
def Act.Silent (act : Act) : Prop :=
  act.taken = none ∧ ∀ questions, act.waiting questions = questions

theorem after_silent {act : Act} (h : act.Silent) (before : Chronicle) (trace : List Act) :
    before.after (trace ++ [act]) = before.after trace := by
  rw [Chronicle.after, taken_append, h.1, List.foldl_append, List.foldl_cons, List.foldl_nil, h.2,
    Option.toList_none, List.append_nil, Chronicle.after]

structure Midway (before : Chronicle) (mission : Option Nat) (steps : Nat) (w : World) : Prop where
  recalls : Recalls mission (before.after w.trace) w.store
  count : (taken w.trace).length = steps

/-- The end of a turn, if it does not say `Done`. -/
def Stops (before : Chronicle) (w : World) : Prop :=
  HarnessEvent.done ∉ events w.trace → ∃ mission, Recalls mission (before.after w.trace) w.store

/-- The store may fail at any statement, and the model reply with anything. -/
abbrev Fallible : World → (op : Op) → op.Choice → Prop := Allows True fun _ _ _ => True

theorem meets_fallible {α : Type} (env : Env) (turn : Turn α) (w : World) :
    turn.Meets handler Fallible env w := by
  refine Prog.meets_of_forall (fun w op => ?_) turn w
  cases op with
  | store call => exact .inr trivial
  | _ => trivial

/-- An operation that the chronicle and its rows do not depend on. -/
def Op.Silent : Op → Prop
  | .yield .done | .yield (.askUser ..) | .store (.insertMission _)
  | .store (.insertReasoningStep ..) | .store (.insertPendingAsk _)
  | .store (.resolvePendingAsk _) => False
  | _ => True

section Turn

variable {before : Chronicle} {mission : Option Nat} {steps : Nat} {w w' : World} {α : Type}

theorem Midway.step (h : Midway before mission steps w) (hstore : SameRows w.store w'.store)
    {act : Act} (htrace : w'.trace = w.trace ++ [act]) (hact : act.Silent) :
    Midway before mission steps w' := by
  refine ⟨?_, ?_⟩
  · rw [htrace, after_silent hact]
    exact h.recalls.sameRows hstore
  · rw [htrace, taken_append, hact.1, Option.toList_none, List.append_nil]
    exact h.count

theorem Midway.stops (h : Midway before mission steps w) : Stops before w :=
  fun _ => ⟨mission, h.recalls⟩

theorem Midway.failed (h : Midway before mission steps w) (c : StoreCall) (message : List Char) :
    Midway before mission steps (w.log (.store c) (.error message)) := by
  refine h.step ⟨rfl, rfl, rfl, le_rfl⟩ rfl ?_
  cases c <;> exact ⟨rfl, fun _ => rfl⟩

theorem Midway.call (h : Midway before mission steps w) {c : StoreCall}
    (hc : Op.Silent (.store c)) : Midway before mission steps (w.call c) := by
  cases c with
  | insertMission row => exact hc.elim
  | insertReasoningStep id step => exact hc.elim
  | insertPendingAsk row => exact hc.elim
  | resolvePendingAsk id => exact hc.elim
  | _ => exact h.step ⟨rfl, rfl, rfl, le_rfl⟩ rfl ⟨rfl, fun _ => rfl⟩

theorem Midway.draw (h : Midway before mission steps w) : Midway before mission steps w.draw :=
  h.step ⟨rfl, rfl, rfl, Nat.le_succ _⟩ rfl ⟨rfl, fun _ => rfl⟩

theorem Midway.yield (h : Midway before mission steps w) (event : HarnessEvent)
    (hevent : Op.Silent (.yield event)) :
    Midway before mission steps (w.log (.yield event) ()) := by
  cases event with
  | done => exact hevent.elim
  | askUser text quickReplies => exact hevent.elim
  | _ => exact h.step ⟨rfl, rfl, rfl, le_rfl⟩ rfl ⟨rfl, fun _ => rfl⟩

theorem Midway.handle (h : Midway before mission steps w) (op : Op) (hop : op.Silent)
    (choice : op.Choice) : Midway before mission steps (handler.handle op choice w).2 := by
  cases op with
  | yield event => exact h.yield event hop
  | uuid => exact h.draw
  | store c =>
    cases choice with
    | none => exact h.call hop
    | some message => exact h.failed c message
  | _ => exact h.step ⟨rfl, rfl, rfl, le_rfl⟩ rfl ⟨rfl, fun _ => rfl⟩

theorem midway_of_silent {p : Turn α} (hp : p.Uses Op.Silent) :
    p.Keeps handler Fallible (Stops before) (Midway before mission steps) :=
  hp.keeps (fun _ _ choice hop h _ => h.handle _ hop choice) fun _ h => h.stops

theorem Midway.fail (h : Midway before mission steps w) (message : List Char)
    {post : α → World → Prop} :
    (Turn.fail message : Turn α).wp handler Fallible (Stops before) post w :=
  wp_fail.mpr (h.yield (.error message) trivial).stops

theorem Midway.storeOrFail (h : Midway before mission steps w) {c : StoreCall}
    {post : c.Result → World → Prop} (hok : post (w.store.call c).1 (w.call c)) :
    (Turn.storeOrFail c).wp handler Fallible (Stops before) post w := by
  refine wp_storeOrFail_fails.mpr ⟨hok, fun _ message => ?_⟩
  exact ((h.failed c message).yield (.error message) trivial).stops

end Turn

/-! ### The silent parts -/

theorem Op.Records.silent {op : Op} (h : op.Records) : op.Silent := by
  cases op with
  | store call => cases call <;> trivial
  | yield event => cases event <;> trivial
  | _ => trivial

theorem Op.LooksUp.silent {op : Op} (h : op.LooksUp) : op.Silent := by
  cases op with
  | store call => cases call <;> trivial
  | yield event => exact h.elim
  | _ => trivial

theorem HarnessEvent.Executes.silent {event : HarnessEvent} (h : event.Executes) :
    Op.Silent (.yield event) := by
  cases event <;> trivial

theorem StoreCall.Executes.silent {c : StoreCall} (h : c.Executes) : Op.Silent (.store c) := by
  cases c <;> trivial

theorem midway_of_records {before : Chronicle} {mission : Option Nat} {steps : Nat} {α : Type}
    {p : Turn α} (hp : p.Uses Op.Records) :
    p.Keeps handler Fallible (Stops before) (Midway before mission steps) :=
  midway_of_silent (hp.mono fun _ => Op.Records.silent)

theorem executing_silent : Executing fun {α} (p : Turn α) => p.Uses Op.Silent where
  pure a := Prog.uses_pure a
  bind hp hf := Prog.uses_bind hp hf
  yield _ h := Prog.uses_ofOp h.silent
  ends _ h := Prog.uses_bind (Prog.uses_ofOp h.silent) fun _ => trivial
  uuid := Prog.uses_ofOp trivial
  store h := Prog.uses_ofOp h.silent
  completeStream _ := Prog.uses_ofOp trivial
  executeToolCall _ := Prog.uses_ofOp trivial
  check _ := uses_returnIfCancelled (fun _ => trivial) trivial
  innerCheck _ hafter hp := uses_innerCheck (fun _ => trivial) trivial hafter hp

theorem silent_carryOut (decision : CommandDecision) : (carryOut decision).Uses Op.Silent := by
  have hrun : ∀ line, (runApprovedCommand line).Uses Op.Silent := by
    intro line
    refine Prog.uses_bind ((looksUp_expandCredentialRefs _ _).mono fun _ => Op.LooksUp.silent)
      fun expanded => ?_
    cases expanded with
    | error message => exact Prog.uses_pure _
    | ok line => exact Prog.uses_ofOp trivial
  cases decision with
  | reject reason => exact Prog.uses_pure _
  | approve text => exact hrun text
  | edit text => exact hrun text

theorem silent_decideCommand (pending : CommandRow) (decision : CommandDecision) :
    (decideCommand pending decision).Uses Op.Silent := by
  have hrecord : ∀ status body,
      (recordCommandOutcome pending.messageId pending.callId status body).Uses Op.Silent :=
    fun _ _ => (records_recordCommandOutcome _ _ _ _).mono fun _ => Op.Records.silent
  refine Prog.uses_bind (silent_carryOut decision) fun outcome => ?_
  cases outcome with
  | ok value => exact Prog.uses_bind (hrecord _ _) fun _ => Prog.uses_ofOp trivial
  | error message => exact Prog.uses_bind (hrecord _ _) fun _ => Prog.uses_ofOp trivial

/-! ### Loading a mission -/

section Loading

variable {mission : Option Nat} {chronicle : Chronicle} {s : Store}

theorem Recalls.openMission_eq (h : Recalls mission chronicle s) :
    (openMission s.missions).map MissionRow.id = mission ∧
      (openMission s.missions = none → s.missions = []) := by
  have hopened := h.opened
  cases mission with
  | none =>
    rw [List.map_eq_nil_iff.mp hopened]
    exact ⟨rfl, fun _ => rfl⟩
  | some id =>
    obtain ⟨row, hrow, heq⟩ := List.map_eq_singleton_iff.mp hopened
    obtain ⟨rfl, hstatus⟩ := Prod.mk.inj heq
    have hfound : openMission s.missions = some row := by
      rw [hrow, openMission, List.find?_cons_of_pos]
      simp [hstatus]
    rw [hfound]
    exact ⟨rfl, nofun⟩

theorem Recalls.reasoningSteps_nil (h : Recalls none chronicle s) : s.reasoningSteps = [] :=
  List.eq_nil_iff_forall_not_mem.mpr fun row hrow => Option.some_ne_none row.1 (h.own row hrow).symm

theorem Recalls.listReasoningSteps {id : Nat} (h : Recalls (some id) chronicle s) :
    (s.call (.listReasoningSteps id)).1 =
      chronicle.turns.flatten.insertionSort fun a b => a.step ≤ b.step := by
  have hall : s.reasoningSteps.filter (fun row => row.1 = id) = s.reasoningSteps :=
    List.filter_eq_self.mpr fun row hrow => by simpa using (Option.some.inj (h.own row hrow)).symm
  change ((s.reasoningSteps.filter fun row => row.1 = id).map Prod.snd).insertionSort _ = _
  rw [hall, h.steps]

theorem Recalls.getPendingAsk (h : Recalls mission chronicle s) :
    ((s.call .getPendingAsk).1.map fun row => (row.question, row.quickReplies)) =
      chronicle.unanswered.getLast?.map Question.joined := by
  change (s.pendingAsks.reverse.find? AskRow.pending).map _ = _
  rw [← List.getLast?_filter, ← List.getLast?_map, h.asks, List.getLast?_map]

end Loading

section Turn

variable {before : Chronicle} {mission : Option Nat} {steps : Nat} {w : World}

theorem Midway.insertMission (h : Midway before none steps w) (hnone : w.store.missions = [])
    (id : Nat) (goal : List Char) :
    Midway before (some id) steps
      (w.call (.insertMission ⟨id, goal, .clarifying, none, none⟩)) := by
  have hafter : before.after (w.call (.insertMission ⟨id, goal, .clarifying, none, none⟩)).trace =
      before.after w.trace := after_silent ⟨rfl, fun _ => rfl⟩ before w.trace
  refine ⟨?_, ?_⟩
  · rw [hafter]
    refine ⟨?_, ?_, h.recalls.steps, h.recalls.numbered, h.recalls.asks, h.recalls.distinct,
      h.recalls.below, nofun⟩
    · change ((_ :: w.store.missions.filter _).map _) = _
      rw [hnone]
      rfl
    · -- Steps are of a mission, and there was none.
      change ∀ row ∈ w.store.reasoningSteps, _
      rw [h.recalls.reasoningSteps_nil]
      exact nofun
  · rw [World.call_trace, taken_append]
    exact (congrArg List.length (List.append_nil _)).trans h.count

theorem midway_loadOrCreateMission (h : Midway before mission steps w) (goal : List Char) :
    (loadOrCreateMission goal).wp handler Fallible (Stops before)
      (fun loaded => Midway before (some loaded.id) steps) w := by
  refine Prog.wp_bind.mpr (h.storeOrFail ?_)
  have hlisted : Midway before mission steps (w.call .listMissions) := h.call trivial
  obtain ⟨hid, hempty⟩ := h.recalls.openMission_eq
  split
  · next row hopen =>
    replace hopen : openMission w.store.missions = some row := hopen
    rw [hopen] at hid
    obtain rfl : some row.id = mission := hid
    have hread := hlisted.call (c := .listReasoningSteps row.id) trivial
    refine Prog.wp_bind.mpr (hlisted.storeOrFail ?_)
    refine Prog.wp_bind.mpr (hread.storeOrFail ?_)
    exact Prog.wp_pure.mpr (hread.call trivial)
  · next hopen =>
    replace hopen : openMission w.store.missions = none := hopen
    rw [hopen] at hid
    obtain rfl : none = mission := hid
    refine Prog.wp_bind.mpr (wp_uuid.mpr (Prog.wp_bind.mpr (hlisted.draw.storeOrFail ?_)))
    exact Prog.wp_pure.mpr (hlisted.draw.insertMission (hempty hopen) _ goal)

/-! ### Planning -/

theorem Midway.insertReasoningStep {id : Nat} (h : Midway before (some id) steps w)
    (step : ReasoningStep) (hstep : step.step = steps) :
    Midway before (some id) (steps + 1) (w.call (.insertReasoningStep id step)) := by
  have hafter : before.after (w.call (.insertReasoningStep id step)).trace =
      ⟨before.turns ++ [taken w.trace ++ [step]], (before.after w.trace).unanswered⟩ := by
    rw [World.call_trace, Chronicle.after, taken_append, List.foldl_append]
    rfl
  have hturns : (before.after w.trace).turns = before.turns ++ [taken w.trace] := rfl
  refine ⟨?_, ?_⟩
  · rw [hafter]
    refine ⟨h.recalls.opened, ?_, ?_, ?_, h.recalls.asks, h.recalls.distinct, h.recalls.below,
      nofun⟩
    · exact List.forall_mem_append.mpr ⟨h.recalls.own, List.forall_mem_singleton.mpr rfl⟩
    · change (w.store.reasoningSteps ++ [(id, step)]).map Prod.snd = _
      rw [List.map_append, h.recalls.steps, hturns]
      simp
    · -- Its number is how many steps the turn took before it.
      have hnumbered := h.recalls.numbered
      rw [hturns, List.forall_mem_append, List.forall_mem_singleton] at hnumbered
      refine List.forall_mem_append.mpr ⟨hnumbered.1, List.forall_mem_singleton.mpr ?_⟩
      rw [List.map_append, hnumbered.2, List.length_append, List.length_singleton,
        List.range_succ, List.map_singleton, hstep, h.count]
  · rw [World.call_trace, taken_append, List.length_append, h.count]
    rfl

theorem Midway.asks {id : Nat} (h : Midway before (some id) steps w) (ask : Nat)
    (hfresh : ∀ row ∈ w.store.pendingAsks, row.id < ask) (hask : ask < w.store.nextId)
    (text : List Char) (quickReplies : List (List Char)) :
    Stops before ((w.call (.insertPendingAsk ⟨ask, id, text, ['\n'].intercalate quickReplies,
      true⟩)).log (.yield (.askUser text quickReplies)) ()) := by
  refine fun _ => ⟨some id, ?_⟩
  have hafter : before.after ((w.call (.insertPendingAsk ⟨ask, id, text,
      ['\n'].intercalate quickReplies, true⟩)).log (.yield (.askUser text quickReplies)) ()).trace =
        ⟨(before.after w.trace).turns,
          (before.after w.trace).unanswered ++ [⟨text, quickReplies⟩]⟩ := by
    rw [World.log_trace, World.call_trace, Chronicle.after, taken_append, taken_append,
      List.foldl_append, List.foldl_append]
    simp [Act.taken, Act.waiting, Chronicle.after]
  rw [hafter]
  refine ⟨h.recalls.opened, h.recalls.own, h.recalls.steps, h.recalls.numbered, ?_, ?_, ?_, nofun⟩
  · change ((w.store.pendingAsks ++ [_]).filter AskRow.pending).map _ = _
    rw [List.filter_append, List.map_append, h.recalls.asks, List.map_append]
    rfl
  · change ((w.store.pendingAsks ++ [_]).map AskRow.id).Nodup
    rw [List.map_append, List.nodup_append_comm, List.map_singleton, List.singleton_append,
      List.nodup_cons]
    refine ⟨fun hmem => ?_, h.recalls.distinct⟩
    obtain ⟨row, hrow, hid⟩ := List.mem_map.mp hmem
    exact (hfresh row hrow).ne hid
  · exact List.forall_mem_append.mpr ⟨h.recalls.below, List.forall_mem_singleton.mpr hask⟩

theorem midway_askUser {id : Nat} (h : Midway before (some id) steps w) (cfg : Settings)
    (question : List Char) (quickReplies : List (List Char)) :
    (askUser cfg id question quickReplies).wp handler Fallible (Stops before)
      (fun _ => Midway before (some id) steps) w := by
  refine Prog.wp_bind.mpr (wp_uuid.mpr ?_)
  split
  · refine Prog.wp_bind.mpr (wp_uuid.mpr ?_)
    exact midway_of_records (records_insertChatMessage _ _ _ _) _ h.draw.draw
  · refine Prog.wp_bind.mpr (h.draw.storeOrFail ?_)
    refine Prog.wp_bind.mpr (wp_yield.mpr (Prog.wp_leave.mpr ?_))
    exact h.draw.asks w.store.nextId h.recalls.below (Nat.lt_succ_self _) question quickReplies

theorem midway_followDecision {id : Nat} (h : Midway before (some id) steps w) (cfg : Settings)
    (step : ReasoningStep) :
    (followDecision cfg id step).wp handler Fallible (Stops before)
      (fun _ => Midway before (some id) steps) w := by
  rw [followDecision]
  split
  · split
    · exact midway_askUser h cfg _ _
    · exact Prog.wp_pure.mpr h
  · exact Prog.wp_pure.mpr h

theorem midway_reasoningStep {loaded : MissionState} (h : Midway before (some loaded.id) steps w)
    (mode : ThinkingMode) :
    (reasoningStep steps loaded mode).wp handler Fallible (Stops before)
      (fun _ => Midway before (some loaded.id) (steps + 1)) w := by
  have hquiet : ∀ {α : Type} {p : Turn α} {w : World}, p.Uses Op.Silent →
      Midway before (some loaded.id) steps w → p.wp handler Fallible (Stops before)
        (fun _ => Midway before (some loaded.id) steps) w := fun hp h => midway_of_silent hp _ h
  refine Prog.wp_bind.mpr ((hquiet (executing_silent.check
    (by rintro (h | h) <;> cases h)) h).mono fun _ w h => ?_)
  refine Prog.wp_bind.mpr ((hquiet executing_silent.buildHistory h).mono fun history w h => ?_)
  refine Prog.wp_bind.mpr (wp_yield.mpr ?_)
  refine Prog.wp_bind.mpr (wp_completeStream.mpr fun answer _ => ?_)
  have hasked := (h.yield (.reasoningStarted steps mode.asStr) trivial).handle
    (.completeStream ⟨history, loaded.goal, loaded.reasoningSteps, some mode⟩) trivial answer
  cases answer with
  | error message => exact hasked.fail message
  | ok stream =>
    refine Prog.wp_bind.mpr ((hquiet (executing_silent.reasoningStream stream [] []) hasked).mono
      fun ⟨content, calls⟩ w h => ?_)
    refine Prog.wp_bind.mpr (h.storeOrFail (Prog.wp_bind.mpr (wp_yield.mpr ?_)))
    exact (h.insertReasoningStep _ rfl).yield _ trivial

theorem midway_reasoningLoop (cfg : Settings) {left : Nat} (hleft : left ≤ maxReasoningSteps)
    (loaded : MissionState)
    (h : Midway before (some loaded.id) (maxReasoningSteps - left) w) (mode : ThinkingMode) :
    (reasoningLoop cfg left loaded mode).wp handler Fallible (Stops before)
      (fun _ w => ∃ steps, Midway before (some loaded.id) steps w) w := by
  induction left generalizing loaded mode w with
  | zero => exact Prog.wp_pure.mpr ⟨_, h⟩
  | succ left ih =>
    refine Prog.wp_bind.mpr ((midway_reasoningStep h mode).mono fun step w h => ?_)
    dsimp only
    split
    · exact Prog.wp_pure.mpr ⟨_, h⟩
    · -- What is left to take and what was taken make up the limit.
      have hcount : maxReasoningSteps - (left + 1) + 1 = maxReasoningSteps - left := by omega
      rw [hcount] at h
      refine Prog.wp_bind.mpr ((midway_followDecision h cfg step).mono fun _ w h => ?_)
      exact ih (by omega) { loaded with reasoningSteps := loaded.reasoningSteps ++ [step] } h
        step.mode

theorem midway_plan {loaded : MissionState} (h : Midway before (some loaded.id) 0 w)
    (cfg : Settings) :
    (plan cfg loaded).wp handler Fallible (Stops before)
      (fun _ w => ∃ steps, Midway before (some loaded.id) steps w) w := by
  rw [plan]
  split
  · exact midway_reasoningLoop cfg le_rfl loaded h _
  · exact Prog.wp_pure.mpr ⟨_, h⟩

theorem stops_settle (h : Midway before mission steps w) (loaded : MissionState) :
    (settle loaded).wp handler Fallible (Stops before) (fun _ => Stops before) w := by
  refine Prog.wp_bind.mpr (h.storeOrFail (Prog.wp_bind.mpr (wp_yield.mpr (wp_yield.mpr ?_))))
  -- The turn says `Done`, so nothing is left open.
  intro hnot
  refine absurd ?_ hnot
  rw [World.log_trace, events_append, events_yield]
  exact List.mem_append_right _ (List.mem_singleton_self _)

theorem stops_runMission (h : Midway before mission 0 w) (cfg : Settings) (prompt : List Char) :
    (runMission cfg prompt).wp handler Fallible (Stops before) (fun _ => Stops before) w := by
  refine Prog.wp_bind.mpr ((midway_loadOrCreateMission h prompt).mono fun loaded w h => ?_)
  refine Prog.wp_bind.mpr (wp_yield.mpr (Prog.wp_bind.mpr ?_))
  have hsaid := h.yield (.missionUpdated loaded.id loaded.status) trivial
  refine ((midway_plan hsaid cfg).returns (returns_plan cfg loaded)).mono ?_
  rintro ⟨planned, decision⟩ w ⟨⟨hdecision, -, -⟩, steps, h⟩
  change Prog.wp handler Fallible _ _ (if decision = .done then _ else _) w
  -- Planning never decides that the mission is done.
  rw [if_neg hdecision]
  refine Prog.wp_bind.mpr ((midway_of_silent
    (executing_silent.executionLoop cfg planned maxExecutionSteps []) w h).mono fun _ w h => ?_)
  exact stops_settle h planned

theorem stops_runMissionTurn (h : Midway before mission 0 w) (cfg : Settings)
    (prompt : List Char) :
    (runMissionTurn cfg prompt).wp handler Fallible (Stops before) (fun _ => Stops before) w := by
  refine Prog.wp_bind.mpr (wp_uuid.mpr (Prog.wp_bind.mpr ?_))
  refine (midway_of_records (records_insertChatMessage _ _ _ _) _ h.draw).mono fun _ w h => ?_
  exact stops_runMission h cfg prompt

end Turn

/-! ### Answers -/

def resolved (id : Nat) (row : AskRow) : AskRow :=
  if row.id = id then { row with pending := false } else row

theorem id_resolved (id : Nat) (row : AskRow) : (resolved id row).id = row.id := by
  rw [resolved]
  split <;> rfl

theorem filter_resolved (id : Nat) (rows : List AskRow) :
    (rows.map (resolved id)).filter AskRow.pending =
      (rows.filter AskRow.pending).filter fun row => row.id ≠ id := by
  induction rows with
  | nil => rfl
  | cons row rows ih =>
    rw [List.map_cons, resolved]
    split
    · next heq =>
      rw [List.filter_cons_of_neg Bool.false_ne_true, ih, List.filter_cons]
      split <;> simp [heq]
    · next hne =>
      rw [List.filter_cons, ih, List.filter_cons]
      split <;> simp [hne]

theorem filter_resolved_last {rows : List AskRow} {ask : AskRow}
    (hdistinct : (rows.map AskRow.id).Nodup)
    (hlast : (rows.filter AskRow.pending).getLast? = some ask) :
    (rows.map (resolved ask.id)).filter AskRow.pending = (rows.filter AskRow.pending).dropLast := by
  obtain ⟨first, hfirst⟩ := List.getLast?_eq_some_iff.mp hlast
  have hids : ((first ++ [ask]).map AskRow.id).Nodup :=
    hfirst ▸ hdistinct.sublist (List.filter_sublist.map AskRow.id)
  rw [List.map_append, List.map_singleton, List.nodup_append] at hids
  have hkept : first.filter (fun row => row.id ≠ ask.id) = first :=
    List.filter_eq_self.mpr fun row hrow => by
      simpa using hids.2.2 row.id (List.mem_map_of_mem hrow) ask.id (List.mem_singleton_self _)
  rw [filter_resolved, hfirst, List.filter_append, hkept, List.dropLast_concat]
  simp

section Turn

variable {before : Chronicle} {mission : Option Nat} {steps : Nat} {w : World}

/-- The question that is answered is the last one. -/
theorem Midway.resolvePendingAsk (h : Midway before mission steps w) {ask : AskRow}
    (hask : (w.store.call .getPendingAsk).1 = some ask) :
    Midway before mission steps (w.call (.resolvePendingAsk ask.id)) := by
  have hlast : (w.store.pendingAsks.filter AskRow.pending).getLast? = some ask :=
    List.getLast?_filter.trans hask
  have hafter : before.after (w.call (.resolvePendingAsk ask.id)).trace =
      ⟨(before.after w.trace).turns, (before.after w.trace).unanswered.dropLast⟩ := by
    rw [World.call_trace, Chronicle.after, taken_append, List.foldl_append]
    simp [Act.taken, Act.waiting, Chronicle.after]
  have hids : (w.store.pendingAsks.map (resolved ask.id)).map AskRow.id =
      w.store.pendingAsks.map AskRow.id := by
    rw [List.map_map]
    exact List.map_congr_left fun row _ => id_resolved ask.id row
  refine ⟨?_, ?_⟩
  · rw [hafter]
    refine ⟨h.recalls.opened, h.recalls.own, h.recalls.steps, h.recalls.numbered, ?_, ?_, ?_, ?_⟩
    · change ((w.store.pendingAsks.map (resolved ask.id)).filter AskRow.pending).map _ = _
      rw [filter_resolved_last h.recalls.distinct hlast, List.map_dropLast, h.recalls.asks,
        List.map_dropLast]
    · change ((w.store.pendingAsks.map (resolved ask.id)).map AskRow.id).Nodup
      rw [hids]
      exact h.recalls.distinct
    · change ∀ row ∈ w.store.pendingAsks.map (resolved ask.id), row.id < w.store.nextId
      intro row hrow
      obtain ⟨old, hold, rfl⟩ := List.mem_map.mp hrow
      rw [id_resolved]
      exact h.recalls.below old hold
    · intro hnone
      change (before.after w.trace).unanswered.dropLast = []
      rw [h.recalls.asked hnone, List.dropLast_nil]
  · rw [World.call_trace, taken_append]
    exact (congrArg List.length (List.append_nil _)).trans h.count

theorem stops_resumeMissionTurn (h : Midway before mission 0 w) (cfg : Settings)
    (response : List Char) (credential : Option (List Char × List Char)) :
    (resumeMissionTurn cfg response credential).wp handler Fallible (Stops before)
      (fun _ => Stops before) w := by
  refine Prog.wp_bind.mpr (wp_store_fails.mpr ⟨?_, fun _ message => ?_⟩)
  · have hread := h.call (c := .getPendingAsk) trivial
    cases hfound : (w.store.call .getPendingAsk).1 with
    | none => exact hread.fail _
    | some ask =>
      refine Prog.wp_bind.mpr (hread.storeOrFail ?_)
      refine Prog.wp_bind.mpr ((midway_of_records (records_storeCredential credential) _
        (hread.resolvePendingAsk hfound)).mono fun note w h => ?_)
      refine Prog.wp_bind.mpr (wp_uuid.mpr (Prog.wp_bind.mpr ?_))
      refine (midway_of_records (records_insertChatMessage _ _ _ _) _ h.draw).mono fun _ w h => ?_
      exact stops_runMissionTurn h _ response
  · exact (h.failed .getPendingAsk message).fail _

theorem stops_resumeCommandTurn (h : Midway before mission 0 w) (cfg : Settings)
    (decision : CommandDecision) :
    (resumeCommandTurn cfg decision).wp handler Fallible (Stops before)
      (fun _ => Stops before) w := by
  refine Prog.wp_bind.mpr (wp_store_fails.mpr ⟨?_, fun _ message => ?_⟩)
  · have hread := h.call (c := .getPendingCommand) trivial
    cases hfound : (w.store.call .getPendingCommand).1 with
    | none => exact hread.fail _
    | some pending =>
      refine Prog.wp_bind.mpr (hread.storeOrFail (Prog.wp_bind.mpr ?_))
      refine (midway_of_silent (silent_decideCommand pending decision) _
        (hread.call (c := .resolvePendingCommand pending.callId) trivial)).mono fun _ w h => ?_
      refine Prog.wp_bind.mpr ((midway_of_records records_openGoal _ h).mono fun goal w h => ?_)
      exact stops_runMission h cfg goal
  · exact (h.failed .getPendingCommand message).fail _

end Turn

theorem stops_runTurn {mission : Option Nat} {chronicle : Chronicle} {s : Store}
    (h : Recalls mission chronicle s) (l : TurnLabel) :
    Stops chronicle (runTurn l.env (l.request.program l.cfg) s) := by
  refine ends_runTurn ?_ (meets_fallible l.env _ _)
  have hstart : Midway chronicle mission 0 ⟨s, []⟩ := ⟨h.after_nil, rfl⟩
  cases l.request with
  | prompt text => exact stops_runMissionTurn hstart l.cfg text
  | answer response credential => exact stops_resumeMissionTurn hstart l.cfg response credential
  | decide decision => exact stops_resumeCommandTurn hstart l.cfg decision

theorem recalls_of_run {ls : List TurnLabel} {p : World × Chronicle}
    (hsuspends : chronicled.Along (fun p l => Suspends p.1 l) chronicled.init ls)
    (hrun : chronicled.exec chronicled.init ls = some p) :
    ∃ mission, Recalls mission p.2 p.1.store := by
  refine chronicled.invariant (I := fun p => ∃ mission, Recalls mission p.2 p.1.store)
    ⟨none, recalls_empty⟩ ?_ hsuspends hrun
  rintro ⟨w, chronicle⟩ l ⟨w', chronicle'⟩ ⟨mission, h⟩ hsuspends hstep
  obtain ⟨hturn, hchronicle⟩ := Machine.step_withHistory_eq_some.mp hstep
  obtain rfl : runTurn l.env (l.request.program l.cfg) w.store = w' := Option.some.inj hturn
  have hafter : chronicle' =
    chronicle.after (runTurn l.env (l.request.program l.cfg) w.store).trace := hchronicle
  rw [hafter]
  exact stops_runTurn h l fun hdone => hsuspends _ hdone rfl

/-! ### What is loaded -/

def Question.read (question : Question) : Question :=
  ⟨question.text, question.joined.2.splitOn '\n'⟩

structure Loads (chronicle : Chronicle) (mission : MissionState) : Prop where
  steps : mission.reasoningSteps =
    chronicle.turns.flatten.insertionSort fun a b => a.step ≤ b.step
  ask : (mission.pendingAsk.map fun ask => Question.mk ask.question ask.quickReplies) =
    chronicle.unanswered.getLast?.map Question.read

theorem loads_loadOrCreateMission {mission : Option Nat} {chronicle : Chronicle} {s : Store}
    (h : Recalls mission chronicle s) (goal : List Char) :
    (loadOrCreateMission goal).wp handler Fallible (fun _ => True)
      (fun loaded _ => Loads chronicle loaded) ⟨s, []⟩ := by
  have hstore : ∀ {c : StoreCall} {w : World} {post : c.Result → World → Prop},
      post (w.store.call c).1 (w.call c) →
        (Turn.storeOrFail c).wp handler Fallible (fun _ => True) post w :=
    fun hok => wp_storeOrFail_fails.mpr ⟨hok, fun _ _ => trivial⟩
  refine Prog.wp_bind.mpr (hstore ?_)
  obtain ⟨hid, -⟩ := h.openMission_eq
  split
  · next row hopen =>
    replace hopen : openMission s.missions = some row := hopen
    rw [hopen] at hid
    obtain rfl : some row.id = mission := hid
    refine Prog.wp_bind.mpr (hstore (Prog.wp_bind.mpr (hstore (Prog.wp_pure.mpr ?_))))
    refine ⟨h.listReasoningSteps, ?_⟩
    have hask := congrArg (Option.map fun columns : List Char × List Char =>
      Question.mk columns.1 (columns.2.splitOn '\n')) h.getPendingAsk
    rw [Option.map_map, Option.map_map] at hask
    exact (Option.map_map _ _ _).trans hask
  · next hopen =>
    replace hopen : openMission s.missions = none := hopen
    rw [hopen] at hid
    obtain rfl : none = mission := hid
    refine Prog.wp_bind.mpr (wp_uuid.mpr (Prog.wp_bind.mpr (hstore (Prog.wp_pure.mpr ?_))))
    have hsteps : chronicle.turns.flatten = [] := by
      rw [← h.steps, h.reasoningSteps_nil, List.map_nil]
    refine ⟨?_, ?_⟩
    · rw [hsteps]
      rfl
    · rw [h.asked rfl]
      rfl

theorem pairwise_step_iff {turns : List (List ReasoningStep)}
    (hnumbered : ∀ turn ∈ turns, turn.map ReasoningStep.step = List.range turn.length) :
    turns.flatten.Pairwise (fun a b => a.step ≤ b.step) ↔
      turns.Pairwise fun earlier later => later = [] ∨ earlier.length ≤ 1 := by
  have hwithin : ∀ turn ∈ turns, turn.Pairwise fun a b => a.step ≤ b.step := by
    intro turn hturn
    refine List.pairwise_map.mp ?_
    rw [hnumbered turn hturn]
    exact List.pairwise_le_range
  rw [List.pairwise_flatten, and_iff_right hwithin]
  refine List.Pairwise.iff_of_mem fun {earlier later} hearlier hlater => ?_
  have hmem : ∀ turn ∈ turns, ∀ n, (∃ step ∈ turn, step.step = n) ↔ n < turn.length := by
    intro turn hturn n
    rw [← List.mem_range, ← hnumbered turn hturn, List.mem_map]
  constructor
  · intro hle
    by_contra hnot
    obtain ⟨hlater', hearlier'⟩ := not_or.mp hnot
    -- The second step of the one turn is number 1, the first of the other is number 0.
    obtain ⟨a, ha, hone⟩ := (hmem earlier hearlier 1).mpr (by omega)
    obtain ⟨b, hb, hzero⟩ := (hmem later hlater 0).mpr (List.length_pos_of_ne_nil hlater')
    have := hle a ha b hb
    omega
  · rintro (rfl | hshort) a ha b hb
    · cases hb
    · have := (hmem earlier hearlier a.step).mp ⟨a, ha, rfl⟩
      omega

/-- The steps are loaded in their order only if they are numbered in it. -/
theorem insertionSort_step_iff (taken : List ReasoningStep) :
    (taken.insertionSort fun a b => a.step ≤ b.step) = taken ↔
      taken.Pairwise fun a b => a.step ≤ b.step := by
  constructor
  · intro h
    have : Std.Total fun a b : ReasoningStep => a.step ≤ b.step := ⟨fun a b => le_total _ _⟩
    have : IsTrans ReasoningStep fun a b => a.step ≤ b.step := ⟨fun a b c => le_trans⟩
    rw [← h]
    exact List.pairwise_insertionSort _ taken
  · exact List.Pairwise.insertionSort_eq

theorem read_eq_iff {question : Question} (hlines : ∀ reply ∈ question.quickReplies, '\n' ∉ reply) :
    question.read = question ↔ question.quickReplies ≠ [] := by
  obtain ⟨text, quickReplies⟩ := question
  constructor
  · rintro heq rfl
    cases heq
  · intro hne
    exact congrArg (Question.mk text) (List.splitOn_intercalate '\n' hlines hne)

theorem Loads.iff_reloadable {chronicle : Chronicle} {loaded : MissionState}
    (h : Loads chronicle loaded)
    (hnumbered : ∀ turn ∈ chronicle.turns,
      turn.map ReasoningStep.step = List.range turn.length)
    (hlines : ∀ question ∈ chronicle.unanswered, ∀ reply ∈ question.quickReplies, '\n' ∉ reply) :
    Reloads chronicle loaded ↔ chronicle.Reloadable := by
  have hsteps : loaded.reasoningSteps = chronicle.turns.flatten ↔
      chronicle.turns.Pairwise fun earlier later => later = [] ∨ earlier.length ≤ 1 := by
    rw [h.steps, insertionSort_step_iff, pairwise_step_iff hnumbered]
  have hask : (loaded.pendingAsk.map fun ask => Question.mk ask.question ask.quickReplies) =
        chronicle.unanswered.getLast? ↔
      ∀ question ∈ chronicle.unanswered.getLast?, question.quickReplies ≠ [] := by
    rw [h.ask]
    cases hlast : chronicle.unanswered.getLast? with
    | none => exact iff_of_true rfl nofun
    | some question =>
      have hread := read_eq_iff (hlines question (List.mem_of_getLast? hlast))
      simpa using hread
  constructor
  · exact fun hreloads => ⟨hsteps.mp hreloads.steps, hask.mp hreloads.ask⟩
  · intro hreloadable
    have hsame := hsteps.mpr hreloadable.steps
    refine ⟨hsame, ?_, hask.mpr hreloadable.replies⟩
    rw [MissionState.mode, hsame]

/-- **What is loaded is what was left**, after any turns that suspend or fail, unless a turn takes a
step after one that took two, or the last question has no quick reply. -/
theorem reloads_iff {ls : List TurnLabel} {w : World} {chronicle : Chronicle}
    (h : LeftOpen ls w chronicle) {env : Env} {goal : List Char} {loaded : MissionState}
    (hload : reload env goal w.store = some loaded) :
    Reloads chronicle loaded ↔ chronicle.Reloadable := by
  obtain ⟨mission, hrecalls⟩ := recalls_of_run h.suspends h.run
  have hloads := (loads_loadOrCreateMission hrecalls goal).run (meets_fallible env _ _)
  rw [show ((loadOrCreateMission goal).run handler env ⟨w.store, []⟩).1 = some loaded from hload]
    at hloads
  exact Loads.iff_reloadable hloads hrecalls.numbered h.lines

/-! ### Two turns -/

/-- A model that plans a step with these calls, by the number of steps before it. -/
def planner (calls : Nat → List LlmToolCall) : Env := fun _ op =>
  match op with
  | .yield _ => ()
  | .store _ => none
  | .uuid => ()
  | .cancelled _ => false
  | .completeStream request => .ok [.toolCalls (calls request.reasoningSteps.length)]
  | .executeToolCall _ => .error []
  | .runLine _ => .error []

def plannedTurns (calls : Nat → List LlmToolCall) : List TurnLabel :=
  [⟨⟨id, [], true, false⟩, .prompt "plan".toList, planner calls⟩,
    ⟨⟨id, [], true, false⟩, .answer "yes".toList none, planner calls⟩]

def asking (quickReplies : List String) : LlmToolCall :=
  ⟨[], "ask_user".toList, .object [("question", .string "go on?"),
    ("quick_replies", .array (quickReplies.map .string))]⟩

def thinking : LlmToolCall := ⟨[], "continue_thinking".toList, .null⟩

theorem exists_leftOpen {α : Type} (ls : List TurnLabel) (f : Chronicle → MissionState → α) (a : α)
    (hsuspends : chronicled.Along (fun p l => Suspends p.1 l) chronicled.init ls)
    (hends : (chronicled.exec chronicled.init ls).bind (fun p =>
      (reload (planner fun _ => []) [] p.1.store).map fun loaded =>
        (decide (∀ question ∈ p.2.unanswered, ∀ reply ∈ question.quickReplies, '\n' ∉ reply),
          f p.2 loaded)) = some (true, a)) :
    ∃ w chronicle loaded, LeftOpen ls w chronicle ∧
      reload (planner fun _ => []) [] w.store = some loaded ∧ f chronicle loaded = a := by
  obtain ⟨⟨w, chronicle⟩, hrun, hloaded⟩ := Option.bind_eq_some_iff.mp hends
  obtain ⟨loaded, hload, hfacts⟩ := Option.map_eq_some_iff.mp hloaded
  obtain ⟨hlines, hf⟩ := Prod.mk.inj hfacts
  exact ⟨w, chronicle, loaded, ⟨hrun, hsuspends, of_decide_eq_true hlines⟩, hload, hf⟩

/-- Each turn asks at once. -/
theorem reloads_asking : ∃ w chronicle loaded,
    LeftOpen (plannedTurns fun _ => [asking ["yes", "no"]]) w chronicle ∧
      reload (planner fun _ => []) [] w.store = some loaded ∧
        chronicle.turns.map List.length = [1, 1] ∧ Reloads chronicle loaded := by
  obtain ⟨w, chronicle, loaded, hleft, hload, hfacts⟩ := exists_leftOpen
    (plannedTurns fun _ => [asking ["yes", "no"]])
    (fun chronicle _ => (chronicle.turns.map List.length, decide chronicle.Reloadable))
    ([1, 1], true) (by decide +kernel) (by decide +kernel)
  obtain ⟨hturns, hreloadable⟩ := Prod.mk.inj hfacts
  exact ⟨w, chronicle, loaded, hleft, hload, hturns,
    (reloads_iff hleft hload).mpr (of_decide_eq_true hreloadable)⟩

/-- The first turn takes two steps and the second one more, which is loaded before the second step;
and a question without quick replies is loaded with one that is empty. -/
theorem not_reloads :
    (∃ w chronicle loaded,
      LeftOpen (plannedTurns fun steps => if steps = 0 then [thinking] else [asking ["yes"]])
        w chronicle ∧ reload (planner fun _ => []) [] w.store = some loaded ∧
          loaded.reasoningSteps ≠ chronicle.turns.flatten) ∧
    ∃ w chronicle loaded, LeftOpen (plannedTurns fun _ => [asking []]) w chronicle ∧
      reload (planner fun _ => []) [] w.store = some loaded ∧
        (loaded.pendingAsk.map fun ask => Question.mk ask.question ask.quickReplies) ≠
          chronicle.unanswered.getLast? := by
  constructor
  · obtain ⟨w, chronicle, loaded, hleft, hload, hfacts⟩ := exists_leftOpen
      (plannedTurns fun steps => if steps = 0 then [thinking] else [asking ["yes"]])
      (fun chronicle loaded => (loaded.reasoningSteps.map ReasoningStep.step,
        chronicle.turns.flatten.map ReasoningStep.step))
      ([0, 0, 1], [0, 1, 0]) (by decide +kernel) (by decide +kernel)
    refine ⟨w, chronicle, loaded, hleft, hload, fun heq => ?_⟩
    rw [heq] at hfacts
    obtain ⟨hloaded, hleft⟩ := Prod.mk.inj hfacts
    cases hloaded.symm.trans hleft
  · obtain ⟨w, chronicle, loaded, hleft, hload, hfacts⟩ := exists_leftOpen
      (plannedTurns fun _ => [asking []])
      (fun chronicle loaded =>
        (loaded.pendingAsk.map fun ask => Question.mk ask.question ask.quickReplies,
          chronicle.unanswered.getLast?))
      (some ⟨"go on?".toList, [[]]⟩, some ⟨"go on?".toList, []⟩)
      (by decide +kernel) (by decide +kernel)
    refine ⟨w, chronicle, loaded, hleft, hload, fun heq => ?_⟩
    rw [heq] at hfacts
    obtain ⟨hloaded, hleft⟩ := Prod.mk.inj hfacts
    cases hloaded.symm.trans hleft

end Goble.Mission
