import Goble.Mission.Parts

/-!
# How a turn ends

A turn should end with exactly one of `Done`, `Error`, `AskUser` and `CommandProposed`, as its last
event, and not with `Done` if it saw a cancellation. It does unless the cancellation is first seen
inside one of the two inner loops of the execution phase, while a reply streams or between the calls
of a batch: these report `Error` and leave their loop only, so the turn goes on to a second ending.

`Going` is the state of a turn that has not returned, `Settled` of one that has. Each part of the
turn keeps the first or returns with the second.
-/

namespace Goble.Mission

def EndsOnce (stream : List HarnessEvent) : Prop :=
  ∃ body last, stream = body ++ [last] ∧ last.endsTurn ∧ ∀ event ∈ body, event.endsTurn = false

/-- The flag was seen raised at a point of this kind. -/
def Saw (kind : CheckPoint → Prop) (trace : List Act) : Prop :=
  ∃ point, kind point ∧ (⟨.cancelled point, true⟩ : Act) ∈ trace

/-- The answer of a check that saw the flag raised, with its point. -/
def Act.sighting : Act → Option CheckPoint
  | ⟨.cancelled point, true⟩ => some point
  | _ => none

theorem Act.sighting_eq_some {act : Act} {point : CheckPoint} :
    act.sighting = some point ↔ act = ⟨.cancelled point, true⟩ := by
  constructor
  · intro h
    obtain ⟨op, answer⟩ := act
    cases op with
    | cancelled at_ =>
      cases answer with
      | true =>
        obtain rfl : at_ = point := Option.some.inj h
        rfl
      | false => cases h
    | _ => cases h
  · rintro rfl
    rfl

theorem saw_iff {kind : CheckPoint → Prop} {trace : List Act} :
    Saw kind trace ↔ ∃ point ∈ trace.filterMap Act.sighting, kind point := by
  simp only [Saw, List.mem_filterMap, Act.sighting_eq_some, exists_eq_right, and_comm]

instance (kind : CheckPoint → Prop) [DecidablePred kind] (trace : List Act) :
    Decidable (Saw kind trace) :=
  decidable_of_iff _ saw_iff.symm

structure OneEnding (trace : List Act) : Prop where
  once : EndsOnce (events trace)
  notDone : Saw (fun _ => True) trace → HarnessEvent.done ∉ events trace

/-! ### Traces -/

section Traces

variable {trace : List Act} {act : Act}

def Act.Quiet : Act → Prop
  | ⟨.yield event, _⟩ => event.endsTurn = false
  | ⟨.cancelled _, seen⟩ => seen = false
  | _ => True

theorem Act.Quiet.events (h : act.Quiet) : ∀ event ∈ events [act], event.endsTurn = false := by
  obtain ⟨op, answer⟩ := act
  intro event hevent
  cases op with
  | yield said =>
    obtain rfl := List.mem_singleton.mp hevent
    exact h
  | _ => cases hevent

theorem Act.Quiet.unseen (h : act.Quiet) (point : CheckPoint) :
    act ≠ ⟨.cancelled point, true⟩ := by
  rintro rfl
  cases h

theorem saw_append {kind : CheckPoint → Prop} {first second : List Act} :
    Saw kind (first ++ second) ↔ Saw kind first ∨ Saw kind second := by
  simp only [Saw, List.mem_append, and_or_left, exists_or]

theorem Act.Quiet.not_saw (h : act.Quiet) (kind : CheckPoint → Prop) : ¬ Saw kind [act] := by
  rintro ⟨point, -, hmem⟩
  exact h.unseen point (List.mem_singleton.mp hmem).symm

def endings (trace : List Act) : Nat := (events trace).countP HarnessEvent.endsTurn

theorem endings_append (first second : List Act) :
    endings (first ++ second) = endings first + endings second := by
  rw [endings, events_append, List.countP_append]
  rfl

/-- A turn that has not returned: nothing ended it and no cancellation was seen, or one was seen in
an inner loop and reported. -/
def Going (trace : List Act) : Prop :=
  (endings trace = 0 ∧ ¬ Saw (fun _ => True) trace) ∨
    (1 ≤ endings trace ∧ Saw CheckPoint.Inner trace)

/-- A turn that has returned: with one ending, or with two after a cancellation seen in an inner
loop. -/
def Settled (trace : List Act) : Prop :=
  (OneEnding trace ∧ ¬ Saw CheckPoint.Inner trace) ∨
    (2 ≤ endings trace ∧ Saw CheckPoint.Inner trace)

theorem Saw.weaken {kind : CheckPoint → Prop} (h : Saw kind trace) :
    Saw (fun _ => True) trace := by
  obtain ⟨point, -, hmem⟩ := h
  exact ⟨point, trivial, hmem⟩

theorem going_nil : Going [] := by
  refine .inl ⟨rfl, ?_⟩
  rintro ⟨point, -, hmem⟩
  cases hmem

theorem Going.step (h : Going trace) (hquiet : act.Quiet) : Going (trace ++ [act]) := by
  have hzero : endings [act] = 0 :=
    List.countP_eq_zero.mpr fun event hevent => by simp [hquiet.events event hevent]
  obtain ⟨hnone, hunseen⟩ | ⟨hsome, hsaw⟩ := h
  · refine .inl ⟨by rw [endings_append, hnone, hzero], ?_⟩
    rw [saw_append]
    rintro (hsaw | hsaw)
    · exact hunseen hsaw
    · exact hquiet.not_saw _ hsaw
  · refine .inr ⟨?_, saw_append.mpr (.inl hsaw)⟩
    rw [endings_append]
    omega

theorem settled_of_unseen {event : HarnessEvent} (hnone : endings trace = 0)
    (hends : event.endsTurn) (hinner : ¬ Saw CheckPoint.Inner trace)
    (hdone : Saw (fun _ => True) trace → event ≠ .done) :
    Settled (trace ++ [⟨.yield event, ()⟩]) := by
  have hbody : ∀ said ∈ events trace, said.endsTurn = false := fun said hsaid =>
    Bool.not_eq_true _ ▸ List.countP_eq_zero.mp hnone said hsaid
  have hquiet : ∀ kind, ¬ Saw kind [(⟨.yield event, ()⟩ : Act)] := by
    rintro kind ⟨point, -, hmem⟩
    cases List.mem_singleton.mp hmem
  refine .inl ⟨⟨⟨events trace, event, events_append _ _, hends, hbody⟩, fun hsaw => ?_⟩, ?_⟩
  · rw [events_append, events_yield, List.mem_append, List.mem_singleton]
    rintro (hmem | heq)
    · -- `Done` would have ended the turn before.
      cases hbody _ hmem
    · exact hdone ((saw_append.mp hsaw).resolve_right (hquiet _)) heq.symm
  · rw [saw_append]
    exact fun hsaw => hsaw.elim hinner (hquiet _)

theorem settled_of_inner {event : HarnessEvent} (hsome : 1 ≤ endings trace)
    (hends : event.endsTurn) (hinner : Saw CheckPoint.Inner trace) :
    Settled (trace ++ [⟨.yield event, ()⟩]) := by
  refine .inr ⟨?_, saw_append.mpr (.inl hinner)⟩
  have hone : endings [(⟨.yield event, ()⟩ : Act)] = 1 := by
    rw [endings, events_yield, List.countP_singleton, if_pos hends]
  rw [endings_append, hone]
  omega

theorem Going.settled {event : HarnessEvent} (h : Going trace) (hends : event.endsTurn) :
    Settled (trace ++ [⟨.yield event, ()⟩]) := by
  obtain ⟨hnone, hunseen⟩ | ⟨hsome, hinner⟩ := h
  · exact settled_of_unseen hnone hends (fun hsaw => hunseen hsaw.weaken)
      fun hsaw => absurd hsaw hunseen
  · exact settled_of_inner hsome hends hinner

theorem endings_cancelled (point : CheckPoint) (seen : Bool) :
    endings [(⟨.cancelled point, seen⟩ : Act)] = 0 := rfl

theorem Going.returned {point : CheckPoint} (h : Going trace) (hpoint : ¬ point.Inner)
    (message : List Char) :
    Settled (trace ++ [⟨.cancelled point, true⟩] ++ [⟨.yield (.error message), ()⟩]) := by
  obtain ⟨hnone, hunseen⟩ | ⟨hsome, hinner⟩ := h
  · refine settled_of_unseen ?_ rfl ?_ fun _ => nofun
    · rw [endings_append, hnone, endings_cancelled]
    · rw [saw_append]
      rintro (hsaw | ⟨other, hother, hmem⟩)
      · exact hunseen hsaw.weaken
      · -- The one check of this step is not an inner one.
        cases List.mem_singleton.mp hmem
        exact hpoint hother
  · refine settled_of_inner ?_ rfl (saw_append.mpr (.inl hinner))
    rw [endings_append]
    omega

/-- A cancellation that is seen in an inner loop leaves the turn going, with one ending out. -/
theorem going_of_inner {point : CheckPoint} (hpoint : point.Inner) (message : List Char) :
    Going (trace ++ [⟨.cancelled point, true⟩] ++ [⟨.yield (.error message), ()⟩]) := by
  refine .inr ⟨?_, ?_⟩
  · have hone : endings [(⟨.yield (.error message), ()⟩ : Act)] = 1 := rfl
    rw [endings_append, hone]
    omega
  · exact saw_append.mpr (.inl (saw_append.mpr (.inr ⟨point, hpoint, List.mem_singleton_self _⟩)))

theorem OneEnding.endings_le (h : OneEnding trace) : endings trace ≤ 1 := by
  obtain ⟨body, last, hstream, -, hbody⟩ := h.once
  have hzero : body.countP HarnessEvent.endsTurn = 0 :=
    List.countP_eq_zero.mpr fun event hevent => by simp [hbody event hevent]
  rw [endings, hstream, List.countP_append, hzero]
  exact (Nat.zero_add _).le.trans List.countP_le_length

/-- Whether a turn that has returned ended once is whether the cancellation stayed out of the inner
loops. -/
theorem Settled.oneEnding_iff (h : Settled trace) :
    OneEnding trace ↔ ¬ Saw CheckPoint.Inner trace := by
  obtain ⟨hone, hinner⟩ | ⟨htwo, hinner⟩ := h
  · exact ⟨fun _ => hinner, fun _ => hone⟩
  · refine ⟨fun hone => ?_, fun hnot => absurd hinner hnot⟩
    have hle := hone.endings_le
    omega

end Traces

/-! ### The parts of a turn -/

/-- The program goes on with the turn, or returns from it. -/
abbrev Proceeds {α : Type} (p : Turn α) : Prop :=
  p.Keeps handler Steady (fun w => Settled w.trace) fun w => Going w.trace

theorem closed_proceeds : Closed fun {α} (p : Turn α) => Proceeds p where
  pure a := Prog.keeps_pure a
  bind hp hf := Prog.keeps_bind hp hf
  yield h _ _ hgoing := wp_yield.mpr (hgoing.step h)
  ends h _ _ hgoing := Prog.wp_bind.mpr (wp_yield.mpr (Prog.wp_leave.mpr (hgoing.settled h)))
  uuid _ hgoing := wp_uuid.mpr (hgoing.step trivial)
  store _ _ hgoing := wp_store.mpr (hgoing.step trivial)
  completeStream _ _ hgoing := wp_completeStream.mpr fun _ _ => hgoing.step trivial
  executeToolCall _ _ hgoing := wp_executeToolCall.mpr fun _ => hgoing.step trivial
  check hpoint w hgoing := by
    refine Prog.wp_bind.mpr (wp_cancelled.mpr fun seen => ?_)
    cases seen with
    | true => exact wp_fail.mpr (hgoing.returned hpoint _)
    | false => exact Prog.wp_pure.mpr (hgoing.step rfl)
  innerCheck hpoint hafter hp message w hgoing := by
    refine Prog.wp_bind.mpr (wp_cancelled.mpr fun seen => ?_)
    cases seen with
    | true =>
      rw [if_pos rfl]
      refine Prog.wp_bind.mpr (wp_yield.mpr (hafter _ ?_))
      exact going_of_inner hpoint message
    | false =>
      rw [if_neg Bool.false_ne_true]
      exact hp _ (hgoing.step rfl)

theorem proceeds_loadOrCreateMission (goal : List Char) :
    Proceeds (loadOrCreateMission goal) := by
  have hstore : ∀ c, Proceeds (Turn.storeOrFail c) :=
    fun _ _ hgoing => wp_storeOrFail.mpr (hgoing.step trivial)
  refine Prog.keeps_bind (hstore _) fun missions => ?_
  cases openMission missions with
  | some row =>
    refine Prog.keeps_bind (hstore _) fun steps => ?_
    exact Prog.keeps_bind (hstore _) fun pending => Prog.keeps_pure _
  | none =>
    refine Prog.keeps_bind closed_proceeds.uuid fun id => ?_
    exact Prog.keeps_bind (hstore _) fun _ => Prog.keeps_pure _

theorem settles_settle (mission : MissionState) (w : World) (h : Going w.trace) :
    (settle mission).wp handler Steady (fun w => Settled w.trace) (fun _ w => Settled w.trace) w := by
  refine Prog.wp_bind.mpr (wp_storeOrFail.mpr (Prog.wp_bind.mpr (wp_yield.mpr (wp_yield.mpr ?_))))
  exact Going.settled (Going.step (Going.step h trivial) rfl) rfl

theorem settles_runMission (cfg : Settings) (prompt : List Char) (w : World)
    (h : Going w.trace) :
    (runMission cfg prompt).wp handler Steady (fun w => Settled w.trace)
      (fun _ w => Settled w.trace) w := by
  refine Prog.wp_bind.mpr ((proceeds_loadOrCreateMission prompt w h).mono fun mission w h => ?_)
  refine Prog.wp_bind.mpr (wp_yield.mpr (Prog.wp_bind.mpr ?_))
  refine (closed_proceeds.plan cfg mission _ ?_).mono ?_
  · exact h.step rfl
  rintro ⟨mission, decision⟩ w h
  change Prog.wp handler Steady _ _ (if decision = .done then _ else _) w
  split
  · exact wp_yield.mpr (h.settled rfl)
  · refine Prog.wp_bind.mpr ((closed_proceeds.executionLoop cfg mission _ _ w h).mono ?_)
    exact fun _ w h => settles_settle mission w h

/-- **One event ends a turn**, the last one, and no cancelled turn is `Done` — unless the
cancellation is seen inside a reply or a batch that is being executed. -/
theorem oneEnding_iff_not_inner (cfg : Settings) (prompt : List Char) (store : Store) (env : Env)
    (hsteady : ∀ w call, env w (.store call) = none) :
    OneEnding (runTurn env (runMission cfg prompt) store).trace ↔
      ¬ Saw CheckPoint.Inner (runTurn env (runMission cfg prompt) store).trace := by
  have hwp := settles_runMission cfg prompt ⟨store, []⟩ going_nil
  exact Settled.oneEnding_iff (ends_runTurn hwp (meets_steady hsteady _ _))

/-- A user who raises the flag once a word of the reply has been shown, if at all, and a model that
says one word. -/
def oneWord (cancels : Bool) : Env := fun w op =>
  match op with
  | .yield _ => ()
  | .store _ => none
  | .uuid => ()
  | .cancelled _ => cancels && (events w.trace).any fun
    | .assistantDelta _ => true
    | _ => false
  | .completeStream _ => .ok [.assistantDelta "hi".toList, .done]
  | .executeToolCall _ => .ok ⟨[], none⟩
  | .runLine _ => .ok []

/-- No planning, and commands wait for approval. -/
def plain : Settings := ⟨id, "/work".toList, false, false⟩

/-- The reply that is not cancelled. -/
theorem oneEnding_uncancelled :
    OneEnding (runTurn (oneWord false) (runMission plain "hello".toList) .empty).trace :=
  (oneEnding_iff_not_inner plain _ .empty (oneWord false) fun _ _ => rfl).mpr (by decide)

/-- Cancelled after its first word, the turn reports `Error` and then `Done`. -/
theorem not_oneEnding : ¬ ∀ (cfg : Settings) (prompt : List Char) (store : Store) (env : Env),
    (∀ w call, env w (.store call) = none) →
      OneEnding (runTurn env (runMission cfg prompt) store).trace := by
  intro h
  have hone := h plain "hello".toList .empty (oneWord true) fun _ _ => rfl
  have htwo : endings (runTurn (oneWord true) (runMission plain "hello".toList) .empty).trace = 2 := by
    decide
  have hle := hone.endings_le
  omega

end Goble.Mission
