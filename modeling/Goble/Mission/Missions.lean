import Goble.Mission.Endings

/-!
# A mission closes with its turn

A turn runs under the open mission of its chat, or opens one. It closes the mission when it ends
with `Done` and at no other time: settlement is the only place that says `Done`, since planning
never decides that a mission is done. So after `Done` no mission is open, and the next prompt opens
one of its own.

`Tidy` is the state of the missions between two turns, `Under` that of a turn that has loaded one.
-/

namespace Goble.Mission

def EndsDone (w : World) : Prop := (events w.trace).getLast? = some .done

instance (w : World) : Decidable (EndsDone w) :=
  match h : (events w.trace).getLast? with
  | some .done => isTrue h
  | none => isFalse fun hdone => by cases h.symm.trans hdone
  | some (.assistantDelta _) | some (.toolCallStarted ..) | some (.toolCallFinished ..)
  | some (.toolCallError ..) | some (.reasoningStarted ..) | some (.reasoningDelta _)
  | some (.reasoningDone ..) | some (.askUser ..) | some (.commandProposed ..)
  | some (.missionUpdated ..) | some (.tokenUsage _) | some (.error _) =>
    isFalse fun hdone => by cases h.symm.trans hdone

/-- There is something for the request to go on with. -/
def Request.Applies (store : Store) : Request → Prop
  | .prompt _ => True
  | .answer .. => ∃ ask, (store.call .getPendingAsk).1 = some ask
  | .decide _ => ∃ pending, store.getPendingCommand = some pending

def RunsUnder (w : World) (row : MissionRow) : Prop :=
  row ∈ w.store.missions ∧ ∃ status, HarnessEvent.missionUpdated row.id status ∈ events w.trace

/-! ### The missions of a store -/

/-- Missions have ids that were drawn, and at most one is open. -/
structure Tidy (s : Store) : Prop where
  below : ∀ row ∈ s.missions, row.id < s.nextId
  single : ∀ a ∈ s.missions, ∀ b ∈ s.missions, a.status ≠ .done → b.status ≠ .done → a.id = b.id

theorem tidy_empty : Tidy .empty := ⟨nofun, nofun⟩

theorem openMission_eq_some {missions : List MissionRow} {row : MissionRow}
    (h : openMission missions = some row) : row ∈ missions ∧ row.status ≠ .done := by
  refine ⟨List.mem_of_find?_eq_some h, ?_⟩
  simpa using List.find?_some h

theorem openMission_eq_none {missions : List MissionRow} :
    openMission missions = none ↔ ∀ row ∈ missions, row.status = .done := by
  simp [openMission]

theorem mem_insertMission {s : Store} {row other : MissionRow} :
    other ∈ (s.insertMission row).missions ↔
      other = row ∨ other ∈ s.missions ∧ other.id ≠ row.id := by
  simp [Store.insertMission]

theorem Tidy.insert {s : Store} (h : Tidy s) (hnone : openMission s.missions = none)
    (row : MissionRow) (hid : row.id = s.nextId) :
    Tidy ({ s with nextId := s.nextId + 1 }.insertMission row) := by
  have hdone := openMission_eq_none.mp hnone
  have hnew : ∀ other ∈ (Store.insertMission { s with nextId := s.nextId + 1 } row).missions,
      other.status ≠ .done → other = row := by
    intro other hother hopen
    obtain rfl | ⟨hmem, -⟩ := mem_insertMission.mp hother
    · rfl
    · exact absurd (hdone other hmem) hopen
  refine ⟨fun other hother => ?_, fun a ha b hb hopena hopenb => ?_⟩
  · obtain rfl | ⟨hmem, -⟩ := mem_insertMission.mp hother
    · exact hid ▸ Nat.lt_succ_self _
    · exact Nat.lt_succ_of_lt (h.below other hmem)
  · rw [hnew a ha hopena, hnew b hb hopenb]

theorem Tidy.close {s : Store} (h : Tidy s) {open_ : MissionRow} (hmem : open_ ∈ s.missions)
    (hopen : open_.status ≠ .done) (row : MissionRow) (hid : row.id = open_.id)
    (hdone : row.status = .done) :
    Tidy (s.insertMission row) ∧ ∀ other ∈ (s.insertMission row).missions, other.status = .done := by
  have hall : ∀ other ∈ (s.insertMission row).missions, other.status = .done := by
    intro other hother
    obtain rfl | ⟨hother, hne⟩ := mem_insertMission.mp hother
    · exact hdone
    · -- Another open mission would be the one that is closed here.
      by_contra hstill
      exact hne ((h.single other hother open_ hmem hstill hopen).trans hid.symm)
  refine ⟨⟨fun other hother => ?_, fun a ha _ _ hopena _ => absurd (hall a ha) hopena⟩, hall⟩
  obtain rfl | ⟨hother, -⟩ := mem_insertMission.mp hother
  · exact hid ▸ h.below open_ hmem
  · exact h.below other hother

/-! ### Steps that leave the missions alone -/

def Op.MissionFree : Op → Prop
  | .yield event => event.Ordinary
  | .store (.insertMission _) => False
  | _ => True

theorem Op.Ordinary.missionFree {op : Op} (h : op.Ordinary) : op.MissionFree := by
  cases op with
  | store call => cases call with
    | insertMission row => exact h
    | _ => trivial
  | yield event => exact h
  | _ => trivial

structure Apart (w w' : World) : Prop where
  missions : w'.store.missions = w.store.missions
  nextId : w.store.nextId ≤ w'.store.nextId
  said : ∃ said, events w'.trace = events w.trace ++ said ∧ ∀ event ∈ said, event.Ordinary

theorem apart_call {c : StoreCall} (h : ∀ row, c ≠ .insertMission row) (w : World) :
    Apart w (w.call c) := by
  have hsaid : events (w.call c).trace = events w.trace ++ [] := events_append _ _
  cases c with
  | insertMission row => exact absurd rfl (h row)
  | _ => exact ⟨rfl, le_rfl, [], hsaid, nofun⟩

theorem apart_draw (w : World) : Apart w w.draw :=
  ⟨rfl, Nat.le_succ _, [], events_append _ _, nofun⟩

theorem apart_yield {event : HarnessEvent} (h : event.Ordinary) (w : World) :
    Apart w (w.log (.yield event) ()) := by
  refine ⟨rfl, le_rfl, [event], events_append _ _, fun said hsaid => ?_⟩
  obtain rfl := List.mem_singleton.mp hsaid
  exact h

variable {w : World}

theorem apart_handle {op : Op} (hop : op.MissionFree) {choice : op.Choice}
    (hok : Steady w op choice) : Apart w (handler.handle op choice w).2 := by
  cases op with
  | yield event => exact apart_yield hop w
  | store c =>
    obtain rfl : choice = none := hok.resolve_right id
    refine apart_call (fun row heq => ?_) w
    subst heq
    exact hop
  | uuid => exact apart_draw w
  | _ => exact ⟨rfl, le_rfl, [], events_append _ _, nofun⟩

/-- The missions are those of `before`, and nothing was said of one. -/
structure Ahead (before : Store) (w : World) : Prop where
  missions : w.store.missions = before.missions
  tidy : Tidy w.store
  ordinary : ∀ event ∈ events w.trace, event.Ordinary

variable {before : Store}

theorem Ahead.step {w' : World} (h : Ahead before w) (hw : Apart w w') :
    Ahead before w' := by
  obtain ⟨said, hsaid, hordinary⟩ := hw.said
  refine ⟨hw.missions.trans h.missions, ⟨fun row hrow => ?_, ?_⟩, fun event hevent => ?_⟩
  · exact (h.tidy.below row (hw.missions ▸ hrow)).trans_le hw.nextId
  · rw [hw.missions]
    exact h.tidy.single
  · rw [hsaid] at hevent
    exact (List.mem_append.mp hevent).elim (h.ordinary event) (hordinary event)

theorem not_endsDone_of_ordinary (h : ∀ event ∈ events w.trace, event.Ordinary) :
    ¬ EndsDone w :=
  fun hdone => h _ (List.mem_of_getLast? hdone)

/-! ### A turn under a mission -/

structure Under (id : Nat) (goal : List Char) (w : World) : Prop where
  tidy : Tidy w.store
  isOpen : ∃ row, RunsUnder w row ∧ row.id = id ∧ row.goal = goal ∧ row.status ≠ .done
  notDone : HarnessEvent.done ∉ events w.trace

theorem Under.step {id : Nat} {goal : List Char} {w' : World} (h : Under id goal w)
    (hw : Apart w w') : Under id goal w' := by
  obtain ⟨row, ⟨hrow, status, hmem⟩, hid, hgoal, hopen⟩ := h.isOpen
  obtain ⟨said, hsaid, hordinary⟩ := hw.said
  refine ⟨⟨fun row hrow => ?_, ?_⟩, ⟨row, ⟨hw.missions ▸ hrow, status, ?_⟩, hid, hgoal, hopen⟩, ?_⟩
  · exact (h.tidy.below row (hw.missions ▸ hrow)).trans_le hw.nextId
  · rw [hw.missions]
    exact h.tidy.single
  · rw [hsaid]
    exact List.mem_append_left _ hmem
  · rw [hsaid, List.mem_append]
    exact fun hdone => hdone.elim h.notDone fun hdone => hordinary _ hdone

structure Over (id : Nat) (goal : List Char) (w : World) : Prop where
  tidy : Tidy w.store
  under : ∃ row, RunsUnder w row ∧ row.id = id ∧ row.goal = goal ∧
    (¬ EndsDone w → row.status ≠ .done)
  closed : EndsDone w → ∀ row ∈ w.store.missions, row.status = .done

theorem Under.over {id : Nat} {goal : List Char} (h : Under id goal w) :
    Over id goal w := by
  obtain ⟨row, hunder, hid, hgoal, hopen⟩ := h.isOpen
  refine ⟨h.tidy, ⟨row, hunder, hid, hgoal, fun _ => hopen⟩, fun hdone => ?_⟩
  exact absurd (List.mem_of_getLast? hdone) h.notDone

section Programs

variable {α : Type} {left : World → Prop}

theorem keeps_under {p : Turn α} (hp : p.Uses Op.MissionFree) (id : Nat) (goal : List Char)
    (hleft : ∀ w, Over id goal w → left w) : p.Keeps handler Steady left (Under id goal) :=
  hp.keeps (fun _ _ _ hop hunder hok => hunder.step (apart_handle hop hok))
    fun w hunder => hleft w hunder.over

theorem over_settle (mission : MissionState) (h : Under mission.id mission.goal w) :
    (settle mission).wp handler Steady left (fun _ => Over mission.id mission.goal) w := by
  refine Prog.wp_bind.mpr (wp_storeOrFail.mpr (Prog.wp_bind.mpr (wp_yield.mpr (wp_yield.mpr ?_))))
  obtain ⟨row, ⟨hrow, -⟩, hid, -, hopen⟩ := h.isOpen
  obtain ⟨htidy, hall⟩ := h.tidy.close hrow hopen
    ⟨mission.id, mission.goal, .done, mission.plan, mission.workflowId⟩ hid.symm rfl
  have hevents : ∀ trace : List Act, events (trace ++ [⟨.yield (.missionUpdated mission.id .done), ()⟩]
      ++ [⟨.yield .done, ()⟩]) = events trace ++ [.missionUpdated mission.id .done] ++ [.done] :=
    fun trace => by simp only [events_append, events_yield]
  have hdone : EndsDone (((w.call (.insertMission
      ⟨mission.id, mission.goal, .done, mission.plan, mission.workflowId⟩)).log
      (.yield (.missionUpdated mission.id .done)) ()).log (.yield .done) ()) := by
    rw [EndsDone, World.log_trace, World.log_trace, hevents, List.getLast?_concat]
  refine ⟨htidy, ⟨_, ⟨mem_insertMission.mpr (.inl rfl), .done, ?_⟩, rfl, rfl, fun hnot => ?_⟩,
    fun _ => hall⟩
  · rw [World.log_trace, World.log_trace, hevents]
    simp
  · exact absurd hdone hnot

structure Loaded (before : Store) (prompt : List Char) (mission : MissionState) (w : World) :
    Prop where
  tidy : Tidy w.store
  isOpen : ∃ row ∈ w.store.missions, row.id = mission.id ∧ row.goal = mission.goal ∧
    row.status ≠ .done
  ordinary : ∀ event ∈ events w.trace, event.Ordinary
  isNew : openMission before.missions = none →
    mission.goal = prompt ∧ ∀ row ∈ before.missions, row.id ≠ mission.id

theorem loaded_loadOrCreateMission (h : Ahead before w) (prompt : List Char) :
    (loadOrCreateMission prompt).wp handler Steady left (Loaded before prompt) w := by
  have hlisted := h.step (apart_call (c := .listMissions) (by simp) w)
  refine Prog.wp_bind.mpr (wp_storeOrFail.mpr ?_)
  split
  · next row hopen =>
    replace hopen : openMission w.store.missions = some row := hopen
    obtain ⟨hmem, hstatus⟩ := openMission_eq_some hopen
    refine Prog.wp_bind.mpr (wp_storeOrFail.mpr (Prog.wp_bind.mpr (wp_storeOrFail.mpr ?_)))
    have hread := (hlisted.step (apart_call (c := .listReasoningSteps row.id) (by simp) _)).step
      (apart_call (c := .getPendingAsk) (by simp) _)
    refine Prog.wp_pure.mpr ⟨hread.tidy, ⟨row, hmem, rfl, rfl, hstatus⟩, hread.ordinary, ?_⟩
    intro hnone
    rw [← h.missions, hopen] at hnone
    cases hnone
  · next hopen =>
    replace hopen : openMission w.store.missions = none := hopen
    refine Prog.wp_bind.mpr (wp_uuid.mpr (Prog.wp_bind.mpr (wp_storeOrFail.mpr ?_)))
    have htidy := h.tidy.insert hopen ⟨w.store.nextId, prompt, .clarifying, none, none⟩ rfl
    refine Prog.wp_pure.mpr ⟨htidy,
      ⟨_, mem_insertMission.mpr (.inl rfl), rfl, rfl, by simp⟩, ?_, ?_⟩
    · intro event hevent
      refine h.ordinary event ?_
      -- The three steps so far said nothing.
      simpa [events_append, events] using hevent
    · intro _
      refine ⟨rfl, fun row hrow => ?_⟩
      exact (h.tidy.below row (h.missions ▸ hrow)).ne

def TurnOver (before : Store) (prompt : List Char) (w : World) : Prop :=
  ∃ id goal, Over id goal w ∧ (openMission before.missions = none →
    goal = prompt ∧ ∀ row ∈ before.missions, row.id ≠ id)

theorem over_runMission (h : Ahead before w) (cfg : Settings) (prompt : List Char)
    (hleft : ∀ w, TurnOver before prompt w → left w) :
    (runMission cfg prompt).wp handler Steady left (fun _ => left) w := by
  refine Prog.wp_bind.mpr ((loaded_loadOrCreateMission h prompt).mono fun mission w hloaded => ?_)
  obtain ⟨row, hrow, hid, hgoal, hopen⟩ := hloaded.isOpen
  have hover : ∀ w, Over mission.id mission.goal w → left w := fun w hover =>
    hleft w ⟨mission.id, mission.goal, hover, hloaded.isNew⟩
  have hunder : Under mission.id mission.goal
      (w.log (.yield (.missionUpdated mission.id mission.status)) ()) := by
    refine ⟨hloaded.tidy, ⟨row, ⟨hrow, mission.status, ?_⟩, hid, hgoal, hopen⟩, ?_⟩
    · rw [World.log_trace, events_append, events_yield, hid]
      exact List.mem_append_right _ (List.mem_singleton_self _)
    · rw [World.log_trace, events_append, events_yield, List.mem_append, List.mem_singleton]
      exact fun hdone => hdone.elim (fun hdone => hloaded.ordinary _ hdone) nofun
  refine Prog.wp_bind.mpr (wp_yield.mpr (Prog.wp_bind.mpr ?_))
  have hplan := keeps_under ((closed_ordinary.plan cfg mission).mono fun _ => Op.Ordinary.missionFree)
    mission.id mission.goal hover _ hunder
  refine (hplan.returns (returns_plan cfg mission)).mono ?_
  rintro ⟨planned, decision⟩ w ⟨⟨hdecision, hpid, hpgoal⟩, hunder⟩
  change Prog.wp handler Steady _ _ (if decision = .done then _ else _) w
  rw [if_neg hdecision]
  have hexecution := keeps_under
    ((closed_ordinary.executionLoop cfg planned maxExecutionSteps []).mono
      fun _ => Op.Ordinary.missionFree) mission.id mission.goal hover w hunder
  refine Prog.wp_bind.mpr (hexecution.mono fun _ w hunder => ?_)
  refine (over_settle planned ?_).mono fun _ w hend => ?_
  · rw [hpid, hpgoal]
    exact hunder
  · rw [hpid, hpgoal] at hend
    exact hover w hend

/-! ### What comes before -/

/-- The program says nothing of missions, and never returns while the store does not fail. -/
abbrev Prepares (p : Turn α) : Prop :=
  ∀ before left, p.Keeps handler Steady left (Ahead before)

theorem prepares_bind {β : Type} {p : Turn α} {f : α → Turn β} (hp : Prepares p)
    (hf : ∀ a, Prepares (f a)) : Prepares (p >>= f) :=
  fun before left => Prog.keeps_bind (hp before left) fun a => hf a before left

theorem prepares_pure (a : α) : Prepares (pure a) := fun _ _ => Prog.keeps_pure a

theorem prepares_yield {event : HarnessEvent} (h : event.Ordinary) : Prepares (Turn.yield event) :=
  fun _ _ w hahead => wp_yield.mpr (hahead.step (apart_yield h w))

theorem prepares_uuid : Prepares Turn.uuid :=
  fun _ _ w hahead => wp_uuid.mpr (hahead.step (apart_draw w))

theorem prepares_store {c : StoreCall} (h : ∀ row, c ≠ .insertMission row) :
    Prepares (Turn.store c) :=
  fun _ _ w hahead => wp_store.mpr (hahead.step (apart_call h w))

theorem prepares_storeOrFail {c : StoreCall} (h : ∀ row, c ≠ .insertMission row) :
    Prepares (Turn.storeOrFail c) :=
  fun _ _ w hahead => wp_storeOrFail.mpr (hahead.step (apart_call h w))

theorem prepares_runLine (line : List Char) : Prepares (Turn.runLine line) :=
  fun _ _ _ hahead => wp_runLine.mpr fun _ =>
    hahead.step ⟨rfl, le_rfl, [], events_append _ _, nofun⟩

theorem prepares_insertChatMessage (id : Nat) (role : RowRole) (content : List Char)
    (toolCalls : Option (List ChatToolCall)) :
    Prepares (Turn.insertChatMessage id role content toolCalls) :=
  prepares_bind (prepares_storeOrFail nofun) fun _ => prepares_storeOrFail nofun

theorem prepares_storeCredential (credential : Option (List Char × List Char)) :
    Prepares (storeCredential credential) := by
  cases credential with
  | none => exact prepares_pure []
  | some credential =>
    refine prepares_bind ?_ fun name => ?_
    · rw [credentialName]
      split
      · exact prepares_bind prepares_uuid fun id => prepares_pure _
      · exact prepares_pure _
    · exact prepares_bind (prepares_storeOrFail nofun) fun _ => prepares_pure _

theorem prepares_expandCredentialRefs (fuel : Nat) (text : List Char) :
    Prepares (expandCredentialRefs fuel text) := by
  induction fuel generalizing text with
  | zero => exact prepares_pure _
  | succ fuel ih =>
    rw [expandCredentialRefs]
    split
    · exact prepares_pure _
    · split
      · exact prepares_pure _
      · next rest _ =>
        refine prepares_bind (prepares_store (by simp)) fun found => ?_
        split
        · exact prepares_pure _
        · exact prepares_pure _
        · refine prepares_bind (ih rest) fun expanded => ?_
          split
          · exact prepares_pure _
          · exact prepares_pure _

theorem prepares_runApprovedCommand (line : List Char) : Prepares (runApprovedCommand line) := by
  refine prepares_bind (prepares_expandCredentialRefs _ _) fun expanded => ?_
  cases expanded with
  | error message => exact prepares_pure _
  | ok line => exact prepares_runLine line

theorem prepares_carryOut (decision : CommandDecision) : Prepares (carryOut decision) := by
  cases decision with
  | reject reason => exact prepares_pure _
  | approve text => exact prepares_runApprovedCommand text
  | edit text => exact prepares_runApprovedCommand text

theorem prepares_recordCommandOutcome (messageId : Option Nat) (callId : List Char)
    (status : ToolCallStatus) (body : List Char) :
    Prepares (recordCommandOutcome messageId callId status body) := by
  refine prepares_bind prepares_uuid fun id => ?_
  refine prepares_bind (prepares_insertChatMessage _ _ _ _) fun _ => ?_
  cases messageId with
  | none => exact prepares_pure ()
  | some messageId =>
    refine prepares_bind (prepares_storeOrFail nofun) fun rows => ?_
    split
    · exact prepares_pure ()
    · split
      · exact prepares_pure ()
      · exact prepares_storeOrFail nofun

theorem prepares_decideCommand (pending : CommandRow) (decision : CommandDecision) :
    Prepares (decideCommand pending decision) := by
  refine prepares_bind (prepares_carryOut decision) fun outcome => ?_
  cases outcome with
  | ok value =>
    exact prepares_bind (prepares_recordCommandOutcome _ _ _ _) fun _ => prepares_yield trivial
  | error message =>
    exact prepares_bind (prepares_recordCommandOutcome _ _ _ _) fun _ => prepares_yield trivial

theorem prepares_openGoal : Prepares openGoal := by
  refine prepares_bind (prepares_store nofun) fun missions => ?_
  cases missions with
  | ok missions => exact prepares_pure _
  | error message => exact prepares_pure []

theorem over_runMissionTurn (h : Ahead before w) (cfg : Settings) (prompt : List Char)
    (hleft : ∀ w, TurnOver before prompt w → left w) :
    (runMissionTurn cfg prompt).wp handler Steady left (fun _ => left) w := by
  refine Prog.wp_bind.mpr ((prepares_uuid before left w h).mono fun id w h => ?_)
  refine Prog.wp_bind.mpr ((prepares_insertChatMessage _ _ _ _ before left w h).mono
    fun _ w h => ?_)
  exact over_runMission h cfg prompt hleft

end Programs

/-! ### Every turn of a chat -/

/-- The end of a turn: it had nothing to go on with and said so, or it loaded a mission. -/
structure Ended (before : Store) (request : Request) (w : World) : Prop where
  tidy : Tidy w.store
  closed : EndsDone w → ∀ row ∈ w.store.missions, row.status = .done
  remains : request.Applies before → ¬ EndsDone w → ∃ row, RunsUnder w row ∧ row.status ≠ .done
  idle : ¬ request.Applies before → ¬ EndsDone w ∧ w.store.missions = before.missions
  prompted : ∀ text, request = .prompt text → openMission before.missions = none →
    ∃ row, RunsUnder w row ∧ row.goal = text ∧ ∀ old ∈ before.missions, old.id ≠ row.id

theorem TurnOver.ended {prompt : List Char} {request : Request} (h : TurnOver before prompt w)
    (happlies : request.Applies before) (hprompt : ∀ text, request = .prompt text → text = prompt) :
    Ended before request w := by
  obtain ⟨id, goal, hover, hnew⟩ := h
  obtain ⟨row, hunder, hid, hgoal, hopen⟩ := hover.under
  refine ⟨hover.tidy, hover.closed, fun _ hnot => ⟨row, hunder, hopen hnot⟩,
    fun hnot => absurd happlies hnot, fun text htext hnone => ?_⟩
  obtain ⟨hgoal', hfresh⟩ := hnew hnone
  refine ⟨row, hunder, hgoal.trans (hgoal'.trans (hprompt text htext).symm), fun old hold => ?_⟩
  rw [hid]
  exact hfresh old hold

theorem Ahead.ended {request : Request} (h : Ahead before w) (hidle : ¬ request.Applies before) :
    Ended before request w := by
  have hnot := not_endsDone_of_ordinary h.ordinary
  refine ⟨h.tidy, fun hdone => absurd hdone hnot, fun happlies => absurd happlies hidle,
    fun _ => ⟨hnot, h.missions⟩, ?_⟩
  rintro text rfl
  exact absurd trivial hidle

theorem ended_program (htidy : Tidy before) (cfg : Settings) (request : Request) :
    (request.program cfg).wp handler Steady (Ended before request) (fun _ => Ended before request)
      ⟨before, []⟩ := by
  have hstart : Ahead before ⟨before, []⟩ := ⟨rfl, htidy, nofun⟩
  cases request with
  | prompt text =>
    refine over_runMissionTurn hstart cfg text fun w hover => ?_
    exact hover.ended trivial fun _ htext => (Request.prompt.inj htext).symm
  | answer response credential =>
    have hread := hstart.step (apart_call (c := .getPendingAsk) nofun _)
    refine wp_resumeMissionTurn (fun ask hask => ?_) fun hnone => ?_
    · have hresolved := hread.step (apart_call (c := .resolvePendingAsk ask.id) nofun _)
      refine Prog.wp_bind.mpr (wp_storeOrFail.mpr ?_)
      refine Prog.wp_bind.mpr ((prepares_storeCredential credential before _ _ hresolved).mono
        fun note w h => ?_)
      refine Prog.wp_bind.mpr ((prepares_uuid before _ w h).mono fun id w h => ?_)
      refine Prog.wp_bind.mpr ((prepares_insertChatMessage _ _ _ _ before _ w h).mono
        fun _ w h => ?_)
      refine over_runMissionTurn h _ response fun w hover => ?_
      exact hover.ended ⟨ask, hask⟩ nofun
    · refine Ahead.ended (hread.step (apart_yield ?_ _)) ?_
      · trivial
      rintro ⟨ask, hask⟩
      cases hnone.symm.trans hask
  | decide decision =>
    have hread := hstart.step (apart_call (c := .getPendingCommand) nofun _)
    refine wp_resumeCommandTurn (fun pending hpending => ?_) fun hnone => ?_
    · have hresolved := hread.step
        (apart_call (c := .resolvePendingCommand pending.callId) nofun _)
      refine Prog.wp_bind.mpr (wp_storeOrFail.mpr ?_)
      refine Prog.wp_bind.mpr ((prepares_decideCommand pending decision before _ _ hresolved).mono
        fun _ w h => ?_)
      refine Prog.wp_bind.mpr ((prepares_openGoal before _ w h).mono fun goal w h => ?_)
      refine over_runMission h cfg goal fun w hover => ?_
      exact hover.ended ⟨pending, hpending⟩ nofun
    · refine Ahead.ended (hread.step (apart_yield ?_ _)) ?_
      · trivial
      rintro ⟨pending, hpending⟩
      cases hnone.symm.trans hpending

/-- Between two turns. -/
def Between (w : World) : Prop :=
  Tidy w.store ∧ (EndsDone w → ∀ row ∈ w.store.missions, row.status = .done)

theorem ended_turn {w' : World} {l : TurnLabel} (h : Between w)
    (hsteady : ∀ world call, l.env world (.store call) = none) (hturn : chat.step w l = some w') :
    Ended w.store l.request w' := by
  obtain rfl := Option.some.inj hturn
  exact ends_runTurn (ended_program h.1 l.cfg l.request) (meets_steady hsteady _ _)

theorem between_of_run {ls : List TurnLabel}
    (hsteady : ∀ k ∈ ls, ∀ world call, k.env world (.store call) = none)
    (hrun : chat.exec chat.init ls = some w) : Between w := by
  refine chat.invariant (C := fun _ l => True ∧ ∀ world call, l.env world (.store call) = none)
    ⟨tidy_empty, nofun⟩ (fun w l w' hbetween hC hturn => ?_)
    ((Machine.along_true _ _).and_labels hsteady) hrun
  have hended := ended_turn hbetween hC.2 hturn
  exact ⟨hended.tidy, hended.closed⟩

/-- **A mission closes with its turn**, in every conversation. After `Done` no mission is open;
after any other ending the one the turn ran under is; and a prompt that follows `Done` runs under a
new mission, with the prompt as its goal. -/
theorem mission_closes_with_turn {ls : List TurnLabel} {l : TurnLabel} {w w' : World}
    (hsteady : ∀ k ∈ ls ++ [l], ∀ world call, k.env world (.store call) = none)
    (hrun : chat.exec chat.init ls = some w) (hturn : chat.step w l = some w') :
    (EndsDone w' → ∀ row ∈ w'.store.missions, row.status = .done) ∧
    (¬ EndsDone w' → l.request.Applies w.store → ∃ row, RunsUnder w' row ∧ row.status ≠ .done) ∧
    (¬ l.request.Applies w.store → ¬ EndsDone w' ∧ w'.store.missions = w.store.missions) ∧
    (EndsDone w → ∀ text, l.request = .prompt text →
      ∃ row, RunsUnder w' row ∧ row.goal = text ∧ ∀ old ∈ w.store.missions, old.id ≠ row.id) := by
  have hbetween := between_of_run (fun k hk => hsteady k (List.mem_append_left _ hk)) hrun
  have hl := hsteady l (List.mem_append_right _ (List.mem_singleton_self l))
  have hended := ended_turn hbetween hl hturn
  refine ⟨hended.closed, fun hnot happlies => hended.remains happlies hnot, hended.idle, ?_⟩
  intro hdone text htext
  exact hended.prompted text htext (openMission_eq_none.mpr (hbetween.2 hdone))

/-- Two prompts, each answered with a word: the second has a mission of its own. -/
theorem mission_of_second_prompt :
    let first : TurnLabel := ⟨plain, .prompt "hello".toList, oneWord false⟩
    let second : TurnLabel := ⟨plain, .prompt "again".toList, oneWord false⟩
    ∃ w w', chat.exec chat.init [first] = some w ∧ chat.step w second = some w' ∧ EndsDone w ∧
      ∃ row, RunsUnder w' row ∧ row.goal = "again".toList ∧
        ∀ old ∈ w.store.missions, old.id ≠ row.id := by
  intro first second
  have hsteady : ∀ k ∈ [first] ++ [second], ∀ world call, k.env world (.store call) = none := by
    intro k hk world call
    obtain rfl | rfl : k = first ∨ k = second := by simpa using hk
    · rfl
    · rfl
  obtain ⟨w, hrun, hdone⟩ : ∃ w, chat.exec chat.init [first] = some w ∧ EndsDone w :=
    ⟨_, rfl, by decide +kernel⟩
  obtain ⟨w', hturn⟩ : ∃ w', chat.step w second = some w' := ⟨_, rfl⟩
  obtain ⟨-, -, -, hnew⟩ := mission_closes_with_turn hsteady hrun hturn
  exact ⟨w, w', hrun, hturn, hdone, hnew hdone _ rfl⟩

end Goble.Mission
