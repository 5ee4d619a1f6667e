import Goble.Lib.Threads
import Goble.Mission.Parts
import Goble.Mission.Transcript

/-!
# Decisions on proposed commands

The user's answer to a proposed command names neither the call nor the candidate: the turn that
resumes reads the oldest proposal still pending, and marks it resolved with another statement.
Turns of one chat may take their steps in any order.
-/

namespace Goble.Mission

def Op.resolves : Op → Option (List Char)
  | .store (.resolvePendingCommand callId) => some callId
  | _ => none

/-- The content of the tool row that an operation writes. -/
def Op.toolContent : Op → Option (List Char)
  | .store (.insertChatMessage _ .tool content _) => some content
  | _ => none

def Op.isRunLine : Op → Bool
  | .runLine _ => true
  | _ => false

def Op.fails : (op : Op) → op.Choice → Bool
  | .store _, some _ => true
  | _, _ => false

structure TurnThread where
  /-- The call of the card that the user answers, `none` for a turn that answers no card. -/
  card : Option (List Char)
  turn : Turn Unit
  /-- The call it has resolved, until the row that answers it is written, and whether its line is
  still to run. -/
  answering : Option (List Char × Bool)

/-- The store, with the decisions on its proposals. -/
structure Desk where
  store : Store
  /-- The calls resolved, each with the card that was answered. -/
  decided : List (List Char × Option (List Char))
  /-- The calls whose line has been run. -/
  ran : List (List Char)
  /-- The calls that have been answered, with the row that answers each. -/
  recorded : List (List Char × List Char)

/-- What is known of the call being answered after an operation. -/
def Op.answering (op : Op) (failed : Bool) (before : Option (List Char × Bool)) :
    Option (List Char × Bool) :=
  match op.resolves with
  | some callId => if failed then before else some (callId, true)
  | none =>
    if op.toolContent.isSome then none
    else if op.isRunLine then before.map fun call => (call.1, false)
    else before

def Desk.note (desk : Desk) (thread : TurnThread) (op : Op) (failed : Bool) : Desk where
  store := desk.store
  decided := desk.decided ++
    if failed then [] else op.resolves.toList.map fun callId => (callId, thread.card)
  ran := desk.ran ++ if op.isRunLine then thread.answering.toList.map Prod.fst else []
  recorded := desk.recorded ++
    if failed then []
    else (op.toolContent.toList.zip thread.answering.toList).map fun row => (row.2.1, row.1)

def TurnThread.goesOn (thread : TurnThread) : Option TurnThread :=
  match thread.turn with
  | .perform .. => some thread
  | _ => none

/-- What is asked of a chat: a request, and for the answer to a card the call it shows. -/
structure TurnCall where
  cfg : Settings
  request : Request
  card : Option (List Char)

/-- The turns of one chat, operation by operation. -/
def turnThreads : Threads Desk TurnThread TurnCall ((op : Op) → op.Choice) where
  init := ⟨.empty, [], [], []⟩
  enter _ call := some ⟨call.card, call.request.program call.cfg, none⟩
  next desk thread choose :=
    match thread.turn with
    | .perform op next =>
      let after := handler.handle op (choose op) ⟨desk.store, []⟩
      let failed := op.fails (choose op)
      some ({ desk.note thread op failed with store := after.2.store },
        TurnThread.goesOn ⟨thread.card, next after.1, op.answering failed thread.answering⟩)
    | _ => none

def TurnThread.resolves (thread : TurnThread) : Option (List Char) :=
  match thread.turn with
  | .perform op _ => op.resolves
  | _ => none

abbrev ChatState := Threads.State Desk TurnThread

abbrev ChatLabel := Threads.Label TurnCall ((op : Op) → op.Choice)

/-- The condition on the next operation of a turn: the oldest proposal pending is the one of the
card, and no other turn is about to resolve it; a call that is proposed has not been proposed
before. -/
def pairedOp (s : ChatState) (thread : TurnThread) : Op → Bool
  | .store .getPendingCommand =>
    s.shared.store.getPendingCommand.all fun row =>
      thread.card == some row.callId &&
        s.threads.all fun other => other.resolves != some row.callId
  | .store (.insertPendingCommand row) =>
    s.shared.store.pendingCommands.all fun other => other.callId != row.callId
  | _ => true

def paired (s : ChatState) : ChatLabel → Bool
  | .call _ => true
  | .run index _ =>
    match s.threads[index]? with
    | some thread =>
      match thread.turn with
      | .perform op _ => pairedOp s thread op
      | _ => true
    | none => true

/-! ### Turns that decide nothing -/

/-- An operation that neither reads nor resolves a proposal, and runs no line. -/
def Op.Undeciding : Op → Prop
  | .store (.resolvePendingCommand _) | .store .getPendingCommand | .runLine _ => False
  | _ => True

theorem Op.Ordinary.undeciding {op : Op} (h : op.Ordinary) : op.Undeciding := by
  cases op with
  | store call => cases call <;> trivial
  | runLine line => exact h
  | _ => trivial

/-- The turn, however it goes, decides nothing. -/
abbrev Undeciding {α : Type} (turn : Turn α) : Prop := turn.Uses Op.Undeciding

theorem Op.Records.undeciding {op : Op} (h : op.Records) : op.Undeciding := by
  cases op with
  | store call => cases call <;> trivial
  | runLine line => exact h
  | _ => trivial

variable {α : Type}

theorem undeciding_fail (message : List Char) :
    Undeciding (Turn.fail message : Turn α) :=
  uses_fail (fun _ => trivial) message

theorem undeciding_storeOrFail {c : StoreCall} (h : Op.Undeciding (.store c)) :
    Undeciding (Turn.storeOrFail c) :=
  uses_storeOrFail (fun _ => trivial) h

theorem undeciding_insertChatMessage (id : Nat) (role : RowRole) (content : List Char)
    (toolCalls : Option (List ChatToolCall)) :
    Undeciding (Turn.insertChatMessage id role content toolCalls) :=
  (records_insertChatMessage id role content toolCalls).mono fun _ => Op.Records.undeciding

theorem undeciding_loadOrCreateMission (goal : List Char) :
    Undeciding (loadOrCreateMission goal) := by
  refine Prog.uses_bind (undeciding_storeOrFail trivial) fun missions => ?_
  cases openMission missions with
  | some row =>
    refine Prog.uses_bind (undeciding_storeOrFail trivial) fun steps => ?_
    exact Prog.uses_bind (undeciding_storeOrFail trivial) fun _ => Prog.uses_pure _
  | none =>
    refine Prog.uses_bind (Prog.uses_ofOp trivial) fun id => ?_
    exact Prog.uses_bind (undeciding_storeOrFail trivial) fun _ => Prog.uses_pure _

theorem undeciding_runMission (cfg : Settings) (prompt : List Char) :
    Undeciding (runMission cfg prompt) := by
  refine Prog.uses_bind (undeciding_loadOrCreateMission prompt) fun mission => ?_
  refine Prog.uses_bind (Prog.uses_ofOp trivial) fun _ => ?_
  refine Prog.uses_bind ((closed_ordinary.plan cfg mission).mono fun _ => Op.Ordinary.undeciding)
    fun planned => ?_
  refine Prog.uses_ite (Prog.uses_ofOp trivial) ?_
  refine Prog.uses_bind ((closed_ordinary.executionLoop cfg planned.1 _ []).mono
    fun _ => Op.Ordinary.undeciding) fun _ => ?_
  refine Prog.uses_bind (undeciding_storeOrFail trivial) fun _ => ?_
  exact Prog.uses_bind (Prog.uses_ofOp trivial) fun _ => Prog.uses_ofOp trivial

theorem undeciding_runMissionTurn (cfg : Settings) (prompt : List Char) :
    Undeciding (runMissionTurn cfg prompt) := by
  refine Prog.uses_bind (Prog.uses_ofOp trivial) fun id => ?_
  refine Prog.uses_bind (undeciding_insertChatMessage _ _ _ _) fun _ => ?_
  exact undeciding_runMission cfg prompt

theorem undeciding_storeCredential (credential : Option (List Char × List Char)) :
    Undeciding (storeCredential credential) :=
  (records_storeCredential credential).mono fun _ => Op.Records.undeciding

theorem undeciding_resumeMissionTurn (cfg : Settings) (response : List Char)
    (credential : Option (List Char × List Char)) :
    Undeciding (resumeMissionTurn cfg response credential) := by
  refine Prog.uses_bind (Prog.uses_ofOp trivial) fun answer => ?_
  have hnone : Undeciding (Turn.fail "no pending ask for chat".toList : Turn Unit) :=
    undeciding_fail _
  match answer with
  | .error message => exact hnone
  | .ok none => exact hnone
  | .ok (some ask) =>
    refine Prog.uses_bind (undeciding_storeOrFail trivial) fun _ => ?_
    refine Prog.uses_bind (undeciding_storeCredential credential) fun note => ?_
    refine Prog.uses_bind (Prog.uses_ofOp trivial) fun id => ?_
    refine Prog.uses_bind (undeciding_insertChatMessage _ _ _ _) fun _ => ?_
    exact undeciding_runMissionTurn _ _

theorem undeciding_openGoal : Undeciding openGoal :=
  records_openGoal.mono fun _ => Op.Records.undeciding

/-! ### Turns that carry a decision out -/

/-- The turn answers a call: it runs one line at most, unless it has, and then writes the row that
answers the call. What comes after decides nothing. -/
def Carries (callId : List Char) : (mayRun : Bool) → Turn Unit → Prop
  | _, .done _ => True
  | _, .leave => True
  | mayRun, .perform op next =>
    (op.Undeciding ∧ op.toolContent = none ∧ ∀ answer, Carries callId mayRun (next answer)) ∨
      (op.isRunLine = true ∧ mayRun = true ∧ ∀ answer, Carries callId false (next answer)) ∨
      ((∃ body, op.toolContent = some (toolRow callId body)) ∧
        ∀ answer, Undeciding (next answer))

variable {callId : List Char}

theorem Carries.mono {turn : Turn Unit} (h : Carries callId false turn) (mayRun : Bool) :
    Carries callId mayRun turn := by
  induction turn with
  | done a => trivial
  | leave => trivial
  | perform op next ih =>
    obtain ⟨hop, hrow, hnext⟩ | ⟨-, hrun, -⟩ | hrow := h
    · exact .inl ⟨hop, hrow, fun answer => ih answer (hnext answer)⟩
    · cases hrun
    · exact .inr (.inr hrow)

theorem carries_bind {mayRun : Bool} {turn : Turn α} {f : α → Turn Unit} (h : turn.Uses Op.LooksUp)
    (hf : ∀ a, Carries callId mayRun (f a)) : Carries callId mayRun (turn >>= f) := by
  induction turn with
  | done a => exact hf a
  | leave => trivial
  | perform op next ih =>
    refine .inl ⟨?_, ?_, fun answer => ih answer (h.2 answer)⟩
    all_goals
      obtain ⟨hop, -⟩ := h
      cases op with
      | store call => cases call <;> trivial
      | _ => cases hop

variable {decision : CommandDecision}

theorem carries_carryOut {f : Except (List Char) (List Char) → Turn Unit}
    (hf : ∀ a, Carries callId false (f a)) :
    Carries callId true (carryOut decision >>= f) := by
  have hrun : ∀ text, Carries callId true (runApprovedCommand text >>= f) := by
    intro text
    rw [runApprovedCommand, Prog.bind_assoc]
    refine carries_bind (looksUp_expandCredentialRefs _ _) fun expanded => ?_
    cases expanded with
    | error message => exact (hf _).mono true
    | ok line => exact .inr (.inl ⟨rfl, rfl, hf⟩)
  cases decision with
  | reject reason => exact (hf _).mono true
  | approve text => exact hrun text
  | edit text => exact hrun text

theorem carries_recordCommandOutcome {messageId : Option Nat} {status : ToolCallStatus}
    {body : List Char} {f : Unit → Turn Unit} (hf : ∀ a, Undeciding (f a)) :
    Carries callId false (recordCommandOutcome messageId callId status body >>= f) := by
  refine .inl ⟨trivial, rfl, fun id => .inr (.inr ⟨⟨body, rfl⟩, fun answer => ?_⟩)⟩
  refine Prog.uses_bind ?_ hf
  refine Prog.uses_bind ?_ fun _ => ?_
  · cases answer with
    | ok result => exact undeciding_storeOrFail trivial
    | error message => exact undeciding_fail message
  · cases messageId with
    | none => exact Prog.uses_pure ()
    | some messageId =>
      refine Prog.uses_bind (undeciding_storeOrFail trivial) fun rows => ?_
      split
      · exact Prog.uses_pure ()
      · split
        · exact Prog.uses_pure ()
        · exact undeciding_storeOrFail trivial

theorem carries_decideCommand {pending : CommandRow} {f : Unit → Turn Unit}
    (hf : ∀ a, Undeciding (f a)) :
    Carries pending.callId true (decideCommand pending decision >>= f) := by
  rw [decideCommand, Prog.bind_assoc]
  refine carries_carryOut fun outcome => ?_
  cases outcome with
  | ok value =>
    change Carries _ _ ((recordCommandOutcome _ _ _ _ >>= fun _ => _) >>= f)
    rw [Prog.bind_assoc]
    exact carries_recordCommandOutcome fun _ => Prog.uses_bind (Prog.uses_ofOp trivial) hf
  | error message =>
    change Carries _ _ ((recordCommandOutcome _ _ _ _ >>= fun _ => _) >>= f)
    rw [Prog.bind_assoc]
    exact carries_recordCommandOutcome fun _ => Prog.uses_bind (Prog.uses_ofOp trivial) hf

theorem carries_answerCommand (cfg : Settings) (pending : CommandRow)
    (decision : CommandDecision) :
    Carries pending.callId true (do
      decideCommand pending decision
      let goal ← openGoal
      runMission cfg goal) :=
  carries_decideCommand fun _ =>
    Prog.uses_bind undeciding_openGoal fun goal => undeciding_runMission cfg goal

/-! ### The shapes of turns -/

def TurnThread.mayRun (thread : TurnThread) : Option (List Char) :=
  match thread.answering with
  | some (callId, true) => some callId
  | _ => none

inductive Shaped (decided : List (List Char × Option (List Char))) (thread : TurnThread) : Prop
  | undeciding (hanswering : thread.answering = none) (hturn : Undeciding thread.turn)
  | reading (cfg : Settings) (decision : CommandDecision) (hanswering : thread.answering = none)
    (hturn : thread.turn = resumeCommandTurn cfg decision)
  | resolving (cfg : Settings) (pending : CommandRow) (decision : CommandDecision)
    (hanswering : thread.answering = none) (hcard : thread.card = some pending.callId)
    (hturn : thread.turn = answerCommand cfg pending decision)
  | carrying (callId : List Char) (mayRun : Bool)
    (hanswering : thread.answering = some (callId, mayRun))
    (hdecided : (callId, some callId) ∈ decided) (hturn : Carries callId mayRun thread.turn)

theorem Shaped.mono {decided decided' : List (List Char × Option (List Char))}
    {thread : TurnThread} (h : Shaped decided thread) (hsub : ∀ d ∈ decided, d ∈ decided') :
    Shaped decided' thread := by
  cases h with
  | undeciding hanswering hturn => exact .undeciding hanswering hturn
  | reading cfg decision hanswering hturn => exact .reading cfg decision hanswering hturn
  | resolving cfg pending decision hanswering hcard hturn =>
    exact .resolving cfg pending decision hanswering hcard hturn
  | carrying callId mayRun hanswering hdecided hturn =>
    exact .carrying callId mayRun hanswering (hsub _ hdecided) hturn

theorem Op.Undeciding.resolves {op : Op} (h : op.Undeciding) : op.resolves = none := by
  cases op with
  | store call => cases call <;> trivial
  | _ => rfl

theorem Op.Undeciding.isRunLine {op : Op} (h : op.Undeciding) : op.isRunLine = false := by
  cases op <;> trivial

theorem resolves_of_undeciding {thread : TurnThread} (h : Undeciding thread.turn) :
    thread.resolves = none := by
  unfold TurnThread.resolves
  split
  · next op next hturn =>
    rw [hturn] at h
    exact h.1.resolves
  · rfl

theorem resolves_of_carries {thread : TurnThread} {mayRun : Bool}
    (h : Carries callId mayRun thread.turn) : thread.resolves = none := by
  unfold TurnThread.resolves
  split
  · next op next hturn =>
    rw [hturn] at h
    obtain ⟨hop, -, -⟩ | ⟨hrun, -, -⟩ | ⟨⟨body, hrow⟩, -⟩ := h
    · exact hop.resolves
    · cases op <;> first | rfl | cases hrun
    · cases op with
      | store call => cases call <;> first | rfl | cases hrow
      | _ => rfl
  · rfl

theorem TurnThread.goesOn_cases (thread : TurnThread) :
    thread.goesOn = some thread ∨ thread.goesOn = none ∧ thread.resolves = none := by
  unfold goesOn resolves
  cases thread.turn with
  | done a => exact .inr ⟨rfl, rfl⟩
  | leave => exact .inr ⟨rfl, rfl⟩
  | perform op next => exact .inl rfl

/-- What the steps keep. -/
structure Accounted (s : ChatState) : Prop where
  shaped : ∀ thread ∈ s.threads, Shaped s.shared.decided thread
  /-- What has been decided is not pending. -/
  closed : ∀ row ∈ s.shared.store.pendingCommands, row.pending = true →
    row.callId ∉ s.shared.decided.map Prod.fst
  known : ∀ callId ∈ s.threads.filterMap TurnThread.resolves ++ s.shared.decided.map Prod.fst,
    callId ∈ s.shared.store.pendingCommands.map CommandRow.callId
  cards : ∀ decision ∈ s.shared.decided, decision.2 = some decision.1
  /-- No two turns have decided a call or are about to. -/
  once : (s.threads.filterMap TurnThread.resolves ++ s.shared.decided.map Prod.fst).Nodup
  /-- No two turns have run the line of a call or may. -/
  ranOnce : (s.threads.filterMap TurnThread.mayRun ++ s.shared.ran).Nodup
  ran : ∀ callId ∈ s.threads.filterMap TurnThread.mayRun ++ s.shared.ran,
    callId ∈ s.shared.decided.map Prod.fst
  recorded : ∀ row ∈ s.shared.recorded,
    row.1 ∈ s.shared.decided.map Prod.fst ∧ ∃ body, row.2 = toolRow row.1 body

/-! ### Steps -/

theorem filterMap_mid {β : Type} (f : α → Option β) (before after : List α) (x : Option α) :
    (before ++ x.toList ++ after).filterMap f =
      before.filterMap f ++ (x.bind f).toList ++ after.filterMap f := by
  cases x with
  | none => simp
  | some a => cases h : f a <;> simp [h]

theorem filterMap_cons_mid {β : Type} (f : α → Option β) (before after : List α) (a : α) :
    (before ++ a :: after).filterMap f = before.filterMap f ++ (f a).toList ++ after.filterMap f := by
  cases h : f a <;> simp [h]

theorem perm_mid (P Q D : List α) (a : α) :
    (P ++ [a] ++ Q ++ D).Perm (a :: (P ++ Q ++ D)) := by
  simp only [List.append_assoc, List.singleton_append]
  exact List.perm_middle

namespace Accounted

variable {desk : Desk} {before after : List TurnThread} {thread : TurnThread}
  {goesOn : Option TurnThread}

theorem others (h : Accounted ⟨desk, before ++ thread :: after⟩)
    {decided' : List (List Char × Option (List Char))}
    (hsub : ∀ d ∈ desk.decided, d ∈ decided') (hshaped : ∀ u ∈ goesOn, Shaped decided' u) :
    ∀ u ∈ before ++ goesOn.toList ++ after, Shaped decided' u := by
  intro u hu
  obtain (hu | hu) | hu := by simpa only [List.mem_append] using hu
  · exact (h.shaped u (List.mem_append_left _ hu)).mono hsub
  · exact hshaped u (Option.mem_toList.mp hu)
  · exact (h.shaped u (List.mem_append_right _ (List.mem_cons_of_mem _ hu))).mono hsub

theorem claims_drop (h : Accounted ⟨desk, before ++ thread :: after⟩) :
    (before.filterMap TurnThread.resolves ++ after.filterMap TurnThread.resolves ++
        desk.decided.map Prod.fst).Nodup ∧
      before.filterMap TurnThread.resolves ++ after.filterMap TurnThread.resolves ⊆
        before.filterMap TurnThread.resolves ++ thread.resolves.toList ++
          after.filterMap TurnThread.resolves := by
  have hsub : (before.filterMap TurnThread.resolves ++
      after.filterMap TurnThread.resolves).Sublist (before.filterMap TurnThread.resolves ++
        thread.resolves.toList ++ after.filterMap TurnThread.resolves) :=
    List.Sublist.append_right (List.sublist_append_left _ _) _
  have honce := h.once
  rw [filterMap_cons_mid] at honce
  exact ⟨honce.sublist (hsub.append_right _), hsub.subset⟩

theorem plain (h : Accounted ⟨desk, before ++ thread :: after⟩) {store : Store}
    {recorded : List (List Char × List Char)}
    (hshaped : ∀ u ∈ goesOn, Shaped desk.decided u)
    (hresolves : goesOn.bind TurnThread.resolves = none)
    (hmay : goesOn.bind TurnThread.mayRun = none ∨
      goesOn.bind TurnThread.mayRun = thread.mayRun)
    (hclosed : ∀ row ∈ store.pendingCommands, row.pending = true →
      row.callId ∉ desk.decided.map Prod.fst)
    (hknown : ∀ callId ∈ desk.store.pendingCommands.map CommandRow.callId,
      callId ∈ store.pendingCommands.map CommandRow.callId)
    (hrecorded : ∀ row ∈ recorded,
      row.1 ∈ desk.decided.map Prod.fst ∧ ∃ body, row.2 = toolRow row.1 body) :
    Accounted ⟨⟨store, desk.decided, desk.ran, recorded⟩, before ++ goesOn.toList ++ after⟩ := by
  have hsub : (before.filterMap TurnThread.mayRun ++
      (goesOn.bind TurnThread.mayRun).toList ++ after.filterMap TurnThread.mayRun).Sublist
        ((before ++ thread :: after).filterMap TurnThread.mayRun) := by
    rw [filterMap_cons_mid]
    refine List.Sublist.append_right (List.Sublist.append_left ?_ _) _
    obtain hnone | hsame := hmay
    · rw [hnone]
      exact List.nil_sublist _
    · rw [hsame]
  have hclaims : (before.filterMap TurnThread.resolves ++
      (goesOn.bind TurnThread.resolves).toList ++ after.filterMap TurnThread.resolves).Sublist
        ((before ++ thread :: after).filterMap TurnThread.resolves) := by
    rw [filterMap_cons_mid, hresolves]
    exact List.Sublist.append_right (List.Sublist.append_left (List.nil_sublist _) _) _
  refine ⟨h.others (fun _ => id) hshaped, hclosed, fun callId hid => ?_, h.cards, ?_, ?_,
    fun callId hid => ?_, hrecorded⟩
  · rw [filterMap_mid] at hid
    exact hknown _ (h.known callId ((hclaims.append_right _).subset hid))
  · rw [filterMap_mid]
    exact h.once.sublist (hclaims.append_right _)
  · rw [filterMap_mid]
    exact h.ranOnce.sublist (hsub.append_right _)
  · rw [filterMap_mid] at hid
    exact h.ran callId ((hsub.append_right _).subset hid)

/-- The oldest proposal is read, which nobody else is about to resolve. -/
theorem reads (h : Accounted ⟨desk, before ++ thread :: after⟩) {pending : CommandRow}
    {next : TurnThread} (hpending : desk.store.getPendingCommand = some pending)
    (hshaped : Shaped desk.decided next) (hresolves : next.resolves = some pending.callId)
    (hmay : next.mayRun = none)
    (hothers : ∀ u ∈ before ++ thread :: after, u.resolves ≠ some pending.callId) :
    Accounted ⟨desk, before ++ (some next).toList ++ after⟩ := by
  have hmem : pending ∈ desk.store.pendingCommands := List.mem_of_find?_eq_some hpending
  have hfresh : pending.callId ∉ desk.decided.map Prod.fst :=
    h.closed pending hmem (List.find?_some hpending)
  have hunclaimed : pending.callId ∉ (before ++ thread :: after).filterMap TurnThread.resolves := by
    intro hclaimed
    obtain ⟨u, hu, hresolve⟩ := List.mem_filterMap.mp hclaimed
    exact hothers u hu hresolve
  have hmayRun : (before.filterMap TurnThread.mayRun ++
      ((some next).bind TurnThread.mayRun).toList ++ after.filterMap TurnThread.mayRun).Sublist
        ((before ++ thread :: after).filterMap TurnThread.mayRun) := by
    rw [filterMap_cons_mid, Option.bind_some, hmay]
    exact List.Sublist.append_right (List.Sublist.append_left (List.nil_sublist _) _) _
  have hknown := h.known
  rw [filterMap_cons_mid] at hknown hunclaimed
  refine ⟨h.others (fun _ => id) (fun u hu => ?_), h.closed, fun callId hid => ?_, h.cards, ?_, ?_,
    fun callId hid => ?_, h.recorded⟩
  · obtain rfl := Option.some.inj hu
    exact hshaped
  · rw [filterMap_mid, Option.bind_some, hresolves] at hid
    simp only [Option.toList_some, List.mem_append, List.mem_singleton] at hid hknown
    obtain ((hid | rfl) | hid) | hid := hid
    · exact hknown _ (.inl (.inl (.inl hid)))
    · exact List.mem_map_of_mem hmem
    · exact hknown _ (.inl (.inr hid))
    · exact hknown _ (.inr hid)
  · rw [filterMap_mid, Option.bind_some, hresolves]
    have hdrop := h.claims_drop
    refine (perm_mid _ _ _ _).nodup_iff.mpr (List.nodup_cons.mpr ⟨fun hid => ?_, hdrop.1⟩)
    obtain hid | hid := List.mem_append.mp hid
    · exact hunclaimed (hdrop.2 hid)
    · exact hfresh hid
  · rw [filterMap_mid]
    exact h.ranOnce.sublist (hmayRun.append_right _)
  · rw [filterMap_mid] at hid
    exact h.ran callId ((hmayRun.append_right _).subset hid)

theorem resolves (h : Accounted ⟨desk, before ++ thread :: after⟩) {next : TurnThread}
    (hresolves : thread.resolves = some callId) (hmay : thread.mayRun = none)
    (hran : next.mayRun = none ∨ next.mayRun = some callId)
    (hgoes : goesOn = some next ∨ goesOn = none)
    (hshaped : Shaped (desk.decided ++ [(callId, some callId)]) next)
    (hnext : goesOn.bind TurnThread.resolves = none) :
    Accounted ⟨⟨desk.store.resolvePendingCommand callId, desk.decided ++ [(callId, some callId)],
      desk.ran, desk.recorded⟩, before ++ goesOn.toList ++ after⟩ := by
  have honce := h.once
  have hknown := h.known
  rw [filterMap_cons_mid, hresolves] at honce hknown
  have hnew : callId ∉ desk.decided.map Prod.fst := by
    have hnodup := (perm_mid _ _ _ _).nodup_iff.mp honce
    exact fun hid => (List.nodup_cons.mp hnodup).1 (List.mem_append_right _ hid)
  -- nobody has run the line of the call, or may
  have hnotRan : callId ∉ before.filterMap TurnThread.mayRun ++
      after.filterMap TurnThread.mayRun ++ desk.ran := by
    intro hid
    refine hnew (h.ran callId ?_)
    rw [filterMap_cons_mid, hmay]
    simpa using hid
  have hranOnce := h.ranOnce
  rw [filterMap_cons_mid, hmay, Option.toList_none, List.append_nil] at hranOnce
  have hmayNext : goesOn.bind TurnThread.mayRun = none ∨
      goesOn.bind TurnThread.mayRun = some callId := by
    obtain rfl | rfl := hgoes
    · exact hran
    · exact .inl rfl
  have hids : (desk.decided ++ [(callId, some callId)]).map Prod.fst =
      desk.decided.map Prod.fst ++ [callId] := List.map_append
  refine ⟨h.others (fun _ => List.mem_append_left _) (fun u hu => ?_), fun row hrow hrowPending =>
    ?_, fun id hid => ?_, ?_, ?_, ?_, fun id hid => ?_, fun row hrow => ?_⟩
  · obtain rfl | rfl := hgoes
    · obtain rfl := Option.some.inj hu
      exact hshaped
    · cases hu
  · obtain ⟨old, hold, rfl⟩ := List.mem_map.mp hrow
    by_cases hid : old.callId = callId
    · rw [if_pos hid] at hrowPending
      cases hrowPending
    · rw [if_neg hid] at hrowPending ⊢
      rw [hids, List.mem_append, List.mem_singleton, not_or]
      exact ⟨h.closed old hold hrowPending, hid⟩
  · rw [callIds_resolvePendingCommand]
    refine hknown id ?_
    rw [filterMap_mid, hnext, hids] at hid
    simp only [Option.toList_none, Option.toList_some, List.append_nil, List.mem_append,
      List.mem_singleton] at hid ⊢
    tauto
  · exact List.forall_mem_append.mpr ⟨h.cards, List.forall_mem_singleton.mpr rfl⟩
  · rw [filterMap_mid, hnext, hids, Option.toList_none, List.append_nil, ← List.append_assoc]
    have hperm := (perm_mid _ _ _ _).nodup_iff.mp honce
    exact (List.perm_append_singleton callId _).nodup_iff.mpr hperm
  · rw [filterMap_mid]
    obtain hnone | hsome := hmayNext
    · rw [hnone, Option.toList_none, List.append_nil]
      exact hranOnce
    · rw [hsome]
      exact (perm_mid _ _ _ _).nodup_iff.mpr (List.nodup_cons.mpr ⟨hnotRan, hranOnce⟩)
  · rw [hids]
    have hold : ∀ id ∈ before.filterMap TurnThread.mayRun ++ after.filterMap TurnThread.mayRun ++
        desk.ran, id ∈ desk.decided.map Prod.fst := by
      intro id hid
      refine h.ran id ?_
      rw [filterMap_cons_mid, hmay]
      simpa using hid
    rw [filterMap_mid] at hid
    obtain hnone | hsome := hmayNext
    · rw [hnone, Option.toList_none, List.append_nil] at hid
      exact List.mem_append_left _ (hold id hid)
    · rw [hsome] at hid
      obtain rfl | hid := List.mem_cons.mp ((perm_mid _ _ _ _).mem_iff.mp hid)
      · exact List.mem_append_right _ List.mem_cons_self
      · exact List.mem_append_left _ (hold id hid)
  · obtain ⟨hdecided, hbody⟩ := h.recorded row hrow
    rw [hids]
    exact ⟨List.mem_append_left _ hdecided, hbody⟩

theorem runs (h : Accounted ⟨desk, before ++ thread :: after⟩) (hmay : thread.mayRun = some callId)
    (hshaped : ∀ u ∈ goesOn, Shaped desk.decided u)
    (hresolves : goesOn.bind TurnThread.resolves = none)
    (hran : goesOn.bind TurnThread.mayRun = none) {store : Store}
    (hstore : store.pendingCommands = desk.store.pendingCommands) :
    Accounted ⟨⟨store, desk.decided, desk.ran ++ [callId], desk.recorded⟩,
      before ++ goesOn.toList ++ after⟩ := by
  have honce := h.ranOnce
  have hold := h.ran
  rw [filterMap_cons_mid, hmay] at honce hold
  have hmem : callId ∈ desk.decided.map Prod.fst := hold callId (by simp)
  have hclaims : before.filterMap TurnThread.resolves ++ after.filterMap TurnThread.resolves ⊆
      (before ++ thread :: after).filterMap TurnThread.resolves := by
    rw [filterMap_cons_mid]
    exact h.claims_drop.2
  refine ⟨h.others (fun _ => id) hshaped, by rw [hstore]; exact h.closed, fun id hid => ?_, h.cards,
    ?_, ?_, fun id hid => ?_, h.recorded⟩
  · rw [filterMap_mid, hresolves, Option.toList_none, List.append_nil] at hid
    rw [hstore]
    refine h.known id ?_
    obtain hid | hid := List.mem_append.mp hid
    · exact List.mem_append_left _ (hclaims hid)
    · exact List.mem_append_right _ hid
  · rw [filterMap_mid, hresolves, Option.toList_none, List.append_nil]
    exact h.claims_drop.1
  · rw [filterMap_mid, hran, Option.toList_none, List.append_nil, ← List.append_assoc]
    have hperm := (perm_mid _ _ _ _).nodup_iff.mp honce
    exact (List.perm_append_singleton callId _).nodup_iff.mpr hperm
  · rw [filterMap_mid, hran, Option.toList_none, List.append_nil, ← List.append_assoc] at hid
    obtain hid | hid := List.mem_append.mp hid
    · exact hold id ((perm_mid _ _ _ _).mem_iff.mpr (List.mem_cons_of_mem _ hid))
    · rw [List.mem_singleton.mp hid]
      exact hmem

end Accounted

theorem next_perform {desk : Desk} {thread : TurnThread} {op : Op} {next : op.Answer → Turn Unit}
    (hturn : thread.turn = .perform op next) (choose : (op : Op) → op.Choice) :
    turnThreads.next desk thread choose =
      some ({ desk.note thread op (op.fails (choose op)) with
          store := (handler.handle op (choose op) ⟨desk.store, []⟩).2.store },
        TurnThread.goesOn ⟨thread.card, next (handler.handle op (choose op) ⟨desk.store, []⟩).1,
          op.answering (op.fails (choose op)) thread.answering⟩) := by
  simp only [turnThreads, hturn]

/-- What an operation that decides nothing does to the proposals: one is added, or none. -/
theorem rows_undeciding {op : Op} (hop : op.Undeciding) (choice : op.Choice) (store : Store)
    (hfresh : ∀ row, op = .store (.insertPendingCommand row) →
      ∀ other ∈ store.pendingCommands, other.callId ≠ row.callId) :
    (handler.handle op choice ⟨store, []⟩).2.store.pendingCommands = store.pendingCommands ∨
      ∃ row, (∀ other ∈ store.pendingCommands, other.callId ≠ row.callId) ∧
        (handler.handle op choice ⟨store, []⟩).2.store.pendingCommands =
          store.pendingCommands ++ [row] := by
  cases op with
  | store call =>
    cases choice with
    | some message => exact .inl rfl
    | none =>
      cases call with
      | insertPendingCommand row =>
        exact .inr ⟨row, hfresh row rfl, insertPendingCommand_of_new (hfresh row rfl)⟩
      | resolvePendingCommand callId => exact hop.elim
      | _ => exact .inl rfl
  | _ => exact .inl rfl

variable {s : ChatState}

theorem Accounted.rows (h : Accounted s) {op : Op} (hop : op.Undeciding) (choice : op.Choice)
    (hfresh : ∀ row, op = .store (.insertPendingCommand row) →
      ∀ other ∈ s.shared.store.pendingCommands, other.callId ≠ row.callId) :
    (∀ row ∈ (handler.handle op choice ⟨s.shared.store, []⟩).2.store.pendingCommands,
        row.pending = true → row.callId ∉ s.shared.decided.map Prod.fst) ∧
      ∀ callId ∈ s.shared.store.pendingCommands.map CommandRow.callId,
        callId ∈ (handler.handle op choice
          ⟨s.shared.store, []⟩).2.store.pendingCommands.map CommandRow.callId := by
  obtain hsame | ⟨row, hnew, happend⟩ := rows_undeciding hop choice s.shared.store hfresh
  · rw [hsame]
    exact ⟨h.closed, fun _ => id⟩
  · rw [happend]
    refine ⟨List.forall_mem_append.mpr ⟨h.closed, List.forall_mem_singleton.mpr fun _ hid => ?_⟩,
      fun callId hid => ?_⟩
    · obtain ⟨other, hother, he⟩ := List.mem_map.mp (h.known _ (List.mem_append_right _ hid))
      exact hnew other hother he
    · rw [List.map_append]
      exact List.mem_append_left _ hid

theorem TurnThread.bind_resolves_goesOn (thread : TurnThread) :
    thread.goesOn.bind TurnThread.resolves = thread.resolves := by
  obtain h | ⟨h, hnone⟩ := thread.goesOn_cases
  · rw [h]
    rfl
  · rw [h, hnone]
    rfl

theorem TurnThread.mem_goesOn {thread u : TurnThread} (h : u ∈ thread.goesOn) : u = thread := by
  obtain hsome | ⟨hnone, -⟩ := thread.goesOn_cases
  · rw [hsome] at h
    exact (Option.some.inj h).symm
  · rw [hnone] at h
    cases h

theorem TurnThread.bind_mayRun_goesOn (thread : TurnThread) :
    thread.goesOn.bind TurnThread.mayRun = none ∨
      thread.goesOn.bind TurnThread.mayRun = thread.mayRun := by
  obtain h | ⟨h, -⟩ := thread.goesOn_cases
  · rw [h]
    exact .inr rfl
  · rw [h]
    exact .inl rfl

theorem Accounted.undeciding_step {desk : Desk} {before after : List TurnThread} {thread : TurnThread}
    (h : Accounted ⟨desk, before ++ thread :: after⟩) {op : Op} (hop : op.Undeciding)
    (choice : op.Choice) (hfresh : ∀ row, op = .store (.insertPendingCommand row) →
      ∀ other ∈ desk.store.pendingCommands, other.callId ≠ row.callId)
    {next : TurnThread} {recorded : List (List Char × List Char)}
    (hshaped : Shaped desk.decided next) (hresolves : next.resolves = none)
    (hmay : next.mayRun = none ∨ next.mayRun = thread.mayRun)
    (hrecorded : ∀ row ∈ recorded,
      row.1 ∈ desk.decided.map Prod.fst ∧ ∃ body, row.2 = toolRow row.1 body) :
    Accounted ⟨⟨(handler.handle op choice ⟨desk.store, []⟩).2.store, desk.decided, desk.ran, recorded⟩,
      before ++ next.goesOn.toList ++ after⟩ := by
  obtain ⟨hclosed, hknown⟩ := h.rows hop choice hfresh
  refine h.plain (fun u hu => ?_) ?_ ?_ hclosed hknown hrecorded
  · rw [TurnThread.mem_goesOn hu]
    exact hshaped
  · rw [next.bind_resolves_goesOn]
    exact hresolves
  · obtain hnone | hsame := next.bind_mayRun_goesOn
    · exact .inl hnone
    · rw [hsame]
      exact hmay

theorem Op.Undeciding.answering_none {op : Op} (h : op.Undeciding) (failed : Bool) :
    op.answering failed none = none := by
  unfold Op.answering
  rw [h.resolves, h.isRunLine]
  simp

theorem Op.Undeciding.note {op : Op} (h : op.Undeciding) (desk : Desk) (thread : TurnThread)
    (failed : Bool) (store : Store) :
    { desk.note thread op failed with store := store } =
      (⟨store, desk.decided, desk.ran, (desk.note thread op failed).recorded⟩ : Desk) := by
  unfold Desk.note
  rw [h.resolves, h.isRunLine]
  simp

theorem Accounted.recorded_note (h : Accounted s) {thread : TurnThread} {op : Op} {failed : Bool}
    (hrow : ∀ content call, op.toolContent = some content →
      thread.answering = some call →
        call.1 ∈ s.shared.decided.map Prod.fst ∧ ∃ body, content = toolRow call.1 body) :
    ∀ row ∈ (s.shared.note thread op failed).recorded,
      row.1 ∈ s.shared.decided.map Prod.fst ∧ ∃ body, row.2 = toolRow row.1 body := by
  refine List.forall_mem_append.mpr ⟨h.recorded, fun row hmem => ?_⟩
  split at hmem
  · cases hmem
  · cases hcontent : op.toolContent with
    | none =>
      rw [hcontent] at hmem
      cases hmem
    | some content =>
      cases hcall : thread.answering with
      | none =>
        rw [hcontent, hcall] at hmem
        cases hmem
      | some call =>
        rw [hcontent, hcall] at hmem
        rw [List.mem_singleton.mp hmem]
        exact hrow content call hcontent hcall

theorem resumeCommandTurn_eq (cfg : Settings) (decision : CommandDecision) :
    resumeCommandTurn cfg decision = .perform (.store .getPendingCommand) fun answer =>
      match answer with
      | .ok (some pending) => answerCommand cfg pending decision
      | _ => Turn.fail "no pending command for chat".toList := rfl

theorem resumeCommandTurn_reads (cfg : Settings) (decision : CommandDecision) :
    ∃ next, resumeCommandTurn cfg decision = .perform (.store .getPendingCommand) next ∧
      (∀ message, next (.error message) = Turn.fail "no pending command for chat".toList) ∧
      next (.ok none) = Turn.fail "no pending command for chat".toList ∧
      ∀ pending, next (.ok (some pending)) = answerCommand cfg pending decision :=
  ⟨_, resumeCommandTurn_eq cfg decision, fun _ => rfl, rfl, fun _ => rfl⟩

theorem answerCommand_eq (cfg : Settings) (pending : CommandRow) (decision : CommandDecision) :
    ∃ next, answerCommand cfg pending decision =
        .perform (.store (.resolvePendingCommand pending.callId)) next ∧
      Carries pending.callId true (next (.ok ())) ∧
      ∀ message, Undeciding (next (.error message)) :=
  ⟨_, rfl, carries_answerCommand cfg pending decision, fun _ => ⟨trivial, fun _ => trivial⟩⟩

section Step

variable {desk desk' : Desk} {before after : List TurnThread} {thread : TurnThread}
  {goesOn : Option TurnThread} {choose : (op : Op) → op.Choice}

/-- A proposal that is made is a new one. -/
theorem fresh_of_paired {thread : TurnThread} {op : Op} (h : pairedOp s thread op = true) :
    ∀ row, op = .store (.insertPendingCommand row) →
      ∀ other ∈ s.shared.store.pendingCommands, other.callId ≠ row.callId := by
  rintro row rfl other hother
  have hall := List.all_eq_true.mp h other hother
  simpa using hall

theorem Accounted.step_undeciding (h : Accounted ⟨desk, before ++ thread :: after⟩)
    (hanswering : thread.answering = none) (hturn : Undeciding thread.turn)
    (hpaired : ∀ op next, thread.turn = .perform op next →
      pairedOp ⟨desk, before ++ thread :: after⟩ thread op = true)
    (hnext : turnThreads.next desk thread choose = some (desk', goesOn)) :
    Accounted ⟨desk', before ++ goesOn.toList ++ after⟩ := by
  cases hperform : thread.turn with
  | done a => simp [turnThreads, hperform] at hnext
  | leave => simp [turnThreads, hperform] at hnext
  | perform op next =>
    rw [next_perform hperform] at hnext
    obtain ⟨rfl, rfl⟩ := Prod.mk.inj (Option.some.inj hnext)
    rw [hperform] at hturn
    obtain ⟨hop, hrest⟩ := hturn
    rw [hop.note, hanswering, hop.answering_none]
    refine h.undeciding_step hop _ (fresh_of_paired (hpaired op next hperform))
      (.undeciding rfl (hrest _)) (resolves_of_undeciding (hrest _)) (.inl rfl)
      (h.recorded_note fun content call _ hcall => ?_)
    rw [hanswering] at hcall
    cases hcall

theorem Accounted.step_carrying (h : Accounted ⟨desk, before ++ thread :: after⟩) {mayRun : Bool}
    (hanswering : thread.answering = some (callId, mayRun))
    (hdecided : (callId, some callId) ∈ desk.decided) (hturn : Carries callId mayRun thread.turn)
    (hpaired : ∀ op next, thread.turn = .perform op next →
      pairedOp ⟨desk, before ++ thread :: after⟩ thread op = true)
    (hnext : turnThreads.next desk thread choose = some (desk', goesOn)) :
    Accounted ⟨desk', before ++ goesOn.toList ++ after⟩ := by
  have hmem : callId ∈ desk.decided.map Prod.fst := List.mem_map_of_mem hdecided
  cases hperform : thread.turn with
  | done a => simp [turnThreads, hperform] at hnext
  | leave => simp [turnThreads, hperform] at hnext
  | perform op next =>
    rw [next_perform hperform] at hnext
    obtain ⟨rfl, rfl⟩ := Prod.mk.inj (Option.some.inj hnext)
    rw [hperform] at hturn
    have hfresh := fresh_of_paired (hpaired op next hperform)
    obtain ⟨hop, hrow, hrest⟩ | ⟨hrun, rfl, hrest⟩ | ⟨⟨body, hrow⟩, hrest⟩ := hturn
    · -- it looks something up
      have hsame : op.answering (op.fails (choose op)) thread.answering =
          some (callId, mayRun) := by
        unfold Op.answering
        rw [hop.resolves, hrow, hop.isRunLine, hanswering]
        rfl
      rw [hop.note, hsame]
      refine h.undeciding_step hop _ hfresh (.carrying callId mayRun rfl hdecided (hrest _))
        (resolves_of_carries (hrest _)) (.inr ?_) (h.recorded_note fun content call hcontent _ => ?_)
      · unfold TurnThread.mayRun
        rw [hanswering]
      · rw [hrow] at hcontent
        cases hcontent
    · -- it runs the line
      obtain ⟨line, rfl⟩ : ∃ line, op = .runLine line := by
        cases op <;> first | exact ⟨_, rfl⟩ | cases hrun
      have hdesk : { desk.note thread (.runLine line) (Op.fails (.runLine line)
          (choose (.runLine line))) with store := desk.store } =
            (⟨desk.store, desk.decided, desk.ran ++ [callId], desk.recorded⟩ : Desk) := by
        simp [Desk.note, Op.resolves, Op.toolContent, Op.isRunLine, hanswering]
      change Accounted ⟨{ desk.note thread (.runLine line) _ with store := desk.store }, _⟩
      rw [hdesk]
      have hnextAnswering : Op.answering (.runLine line) (Op.fails (.runLine line)
          (choose (.runLine line))) thread.answering = some (callId, false) := by
        rw [hanswering]
        rfl
      rw [hnextAnswering]
      refine h.runs (by rw [TurnThread.mayRun, hanswering]) (fun u hu => ?_) ?_ ?_ rfl
      · rw [TurnThread.mem_goesOn hu]
        exact .carrying callId false rfl hdecided (hrest _)
      · rw [TurnThread.bind_resolves_goesOn]
        exact resolves_of_carries (hrest _)
      · obtain hnone | hsame := TurnThread.bind_mayRun_goesOn (TurnThread.mk thread.card
          (next (handler.handle (.runLine line) (choose (.runLine line)) ⟨desk.store, []⟩).1)
          (some (callId, false)))
        · exact hnone
        · exact hsame
    · -- it writes the row
      obtain ⟨id, records, rfl⟩ : ∃ id records,
          op = .store (.insertChatMessage id .tool (toolRow callId body) records) := by
        unfold Op.toolContent at hrow
        split at hrow
        · obtain rfl := Option.some.inj hrow
          exact ⟨_, _, rfl⟩
        · cases hrow
      have hop : Op.Undeciding
          (.store (.insertChatMessage id .tool (toolRow callId body) records)) := trivial
      rw [hop.note]
      refine h.undeciding_step hop _ hfresh (.undeciding rfl (hrest _))
        (resolves_of_undeciding (hrest _)) (.inl rfl)
        (h.recorded_note fun content call hcontent hcall => ?_)
      rw [hanswering] at hcall
      obtain rfl := Option.some.inj hcall
      exact ⟨hmem, body, (Option.some.inj hcontent).symm⟩

theorem Accounted.step_reading (h : Accounted ⟨desk, before ++ thread :: after⟩) {cfg : Settings}
    (hanswering : thread.answering = none) (hturn : thread.turn = resumeCommandTurn cfg decision)
    (hpaired : pairedOp ⟨desk, before ++ thread :: after⟩ thread (.store .getPendingCommand) = true)
    (hnext : turnThreads.next desk thread choose = some (desk', goesOn)) :
    Accounted ⟨desk', before ++ goesOn.toList ++ after⟩ := by
  obtain ⟨next, hreads, hfailed, hnone, hsome⟩ := resumeCommandTurn_reads cfg decision
  rw [hreads] at hturn
  rw [next_perform hturn] at hnext
  obtain ⟨rfl, rfl⟩ := Prod.mk.inj (Option.some.inj hnext)
  have hop : ∀ failed, Op.answering (.store .getPendingCommand) failed thread.answering = none := by
    intro failed
    rw [hanswering]
    rfl
  have hdesk : ∀ failed, { desk.note thread (.store .getPendingCommand) failed with
      store := desk.store } = desk := by
    intro failed
    cases failed <;> simp [Desk.note, Op.resolves, Op.toolContent, Op.isRunLine]
  -- without a proposal the turn is over
  have hends : ∀ message, Accounted ⟨desk, before ++ (TurnThread.goesOn ⟨thread.card,
      Turn.fail message, none⟩).toList ++ after⟩ := by
    intro message
    refine h.plain (fun u hu => ?_) ?_ ?_ h.closed (fun _ => id) h.recorded
    · rw [TurnThread.mem_goesOn hu]
      exact .undeciding rfl (undeciding_fail message)
    · rw [TurnThread.bind_resolves_goesOn]
      rfl
    · exact .inl (TurnThread.bind_mayRun_goesOn _ |>.elim id id)
  cases choose (.store .getPendingCommand) with
  | some message =>
    change Accounted ⟨{ desk.note thread _ _ with store := desk.store }, _⟩
    rw [hop, hdesk]
    change Accounted ⟨desk, before ++ (TurnThread.goesOn ⟨thread.card,
      next (.error message), none⟩).toList ++ after⟩
    rw [hfailed]
    exact hends _
  | none =>
    change Accounted ⟨{ desk.note thread _ _ with store := desk.store }, _⟩
    rw [hop, hdesk]
    change Accounted ⟨desk, before ++ (TurnThread.goesOn ⟨thread.card,
      next (.ok desk.store.getPendingCommand), none⟩).toList ++ after⟩
    cases hfound : desk.store.getPendingCommand with
    | none =>
      rw [hnone]
      exact hends _
    | some pending =>
      rw [hsome]
      rw [pairedOp, hfound, Option.all_some, Bool.and_eq_true, beq_iff_eq,
        List.all_eq_true] at hpaired
      obtain ⟨hcard, hothers⟩ := hpaired
      obtain ⟨next, heq, -, -⟩ := answerCommand_eq cfg pending decision
      refine h.reads hfound (.resolving cfg pending decision rfl hcard rfl) ?_ rfl ?_
      · rw [TurnThread.resolves, heq]
        rfl
      · exact fun u hu => by simpa using hothers u hu

theorem Accounted.step_resolving (h : Accounted ⟨desk, before ++ thread :: after⟩) {cfg : Settings}
    {pending : CommandRow} (hanswering : thread.answering = none)
    (hcard : thread.card = some pending.callId)
    (hturn : thread.turn = answerCommand cfg pending decision)
    (hnext : turnThreads.next desk thread choose = some (desk', goesOn)) :
    Accounted ⟨desk', before ++ goesOn.toList ++ after⟩ := by
  obtain ⟨next, heq, hcarries, hfails⟩ := answerCommand_eq cfg pending decision
  rw [heq] at hturn
  rw [next_perform hturn] at hnext
  obtain ⟨rfl, rfl⟩ := Prod.mk.inj (Option.some.inj hnext)
  cases choose (.store (.resolvePendingCommand pending.callId)) with
  | some message =>
    have hdesk : { desk.note thread (.store (.resolvePendingCommand pending.callId)) true with
        store := desk.store } = desk := by
      simp [Desk.note, Op.isRunLine]
    change Accounted ⟨{ desk.note thread _ true with store := desk.store }, before ++
      (TurnThread.goesOn ⟨thread.card, next (.error message), thread.answering⟩).toList ++ after⟩
    rw [hdesk, hanswering]
    refine h.plain (fun u hu => ?_) ?_ ?_ h.closed (fun _ => id) h.recorded
    · rw [TurnThread.mem_goesOn hu]
      exact .undeciding rfl (hfails message)
    · rw [TurnThread.bind_resolves_goesOn]
      exact resolves_of_undeciding (hfails message)
    · exact .inl (TurnThread.bind_mayRun_goesOn _ |>.elim id id)
  | none =>
    have hdesk : { desk.note thread (.store (.resolvePendingCommand pending.callId)) false with
        store := desk.store.resolvePendingCommand pending.callId } =
          (⟨desk.store.resolvePendingCommand pending.callId,
            desk.decided ++ [(pending.callId, some pending.callId)], desk.ran,
            desk.recorded⟩ : Desk) := by
      simp [Desk.note, Op.resolves, Op.toolContent, Op.isRunLine, hcard]
    change Accounted ⟨{ desk.note thread _ false with
        store := desk.store.resolvePendingCommand pending.callId }, before ++
      (TurnThread.goesOn ⟨thread.card, next (.ok ()), some (pending.callId, true)⟩).toList ++ after⟩
    rw [hdesk]
    have hshaped : Shaped (desk.decided ++ [(pending.callId, some pending.callId)])
        ⟨thread.card, next (.ok ()), some (pending.callId, true)⟩ :=
      .carrying pending.callId true rfl (List.mem_append_right _ List.mem_cons_self) hcarries
    refine h.resolves ?_ ?_ (.inr rfl) ((TurnThread.goesOn_cases _).imp_right And.left) hshaped ?_
    · rw [TurnThread.resolves, hturn]
      rfl
    · rw [TurnThread.mayRun, hanswering]
    · rw [TurnThread.bind_resolves_goesOn]
      exact resolves_of_carries hcarries

theorem Accounted.enter (h : Accounted s) (call : TurnCall) :
    Accounted ⟨s.shared, s.threads ++ (turnThreads.enter s.shared call).toList⟩ := by
  have hshaped : Shaped s.shared.decided ⟨call.card, call.request.program call.cfg, none⟩ := by
    cases hrequest : call.request with
    | prompt text => exact .undeciding rfl (undeciding_runMissionTurn _ _)
    | answer response credential =>
      exact .undeciding rfl (undeciding_resumeMissionTurn _ _ _)
    | decide decision => exact .reading call.cfg decision rfl rfl
  have hresolves : TurnThread.resolves ⟨call.card, call.request.program call.cfg, none⟩ = none := by
    cases call.request with
    | prompt text => exact resolves_of_undeciding (undeciding_runMissionTurn _ _)
    | answer response credential =>
      exact resolves_of_undeciding (undeciding_resumeMissionTurn _ _ _)
    | decide decision => rfl
  have hclaims : (s.threads ++ (turnThreads.enter s.shared call).toList).filterMap
      TurnThread.resolves = s.threads.filterMap TurnThread.resolves := by
    simp [turnThreads, hresolves]
  have hmay : (s.threads ++ (turnThreads.enter s.shared call).toList).filterMap
      TurnThread.mayRun = s.threads.filterMap TurnThread.mayRun := by
    simp [turnThreads, TurnThread.mayRun]
  refine ⟨List.forall_mem_append.mpr ⟨h.shaped, List.forall_mem_singleton.mpr hshaped⟩, h.closed,
    ?_, h.cards, ?_, ?_, ?_, h.recorded⟩
  · rw [hclaims]
    exact h.known
  · rw [hclaims]
    exact h.once
  · rw [hmay]
    exact h.ranOnce
  · rw [hmay]
    exact h.ran

end Step

theorem Accounted.step {s' : ChatState} {l : ChatLabel} (h : Accounted s)
    (hpaired : paired s l = true) (hstep : turnThreads.machine.step s l = some s') :
    Accounted s' := by
  obtain ⟨call, rfl, rfl⟩ |
    ⟨index, choose, thread, before, after, goesOn, rfl, hthread, hsplit, hnext, hthreads⟩ :=
    Threads.step_cases hstep
  · exact h.enter call
  · obtain ⟨desk, threads⟩ := s
    obtain ⟨desk', threads'⟩ := s'
    obtain rfl : threads = before ++ thread :: after := hsplit
    obtain rfl : threads' = before ++ goesOn.toList ++ after := hthreads
    have hop : ∀ op next, thread.turn = .perform op next →
        pairedOp ⟨desk, before ++ thread :: after⟩ thread op = true := by
      intro op next hturn
      rw [paired, hthread] at hpaired
      simpa only [hturn] using hpaired
    cases h.shaped thread (List.mem_append_right _ List.mem_cons_self) with
    | undeciding hanswering hturn => exact h.step_undeciding hanswering hturn hop hnext
    | reading cfg decision hanswering hturn =>
      exact h.step_reading hanswering hturn (hop _ _ (hturn.trans (resumeCommandTurn_eq ..))) hnext
    | resolving cfg pending decision hanswering hcard hturn =>
      exact h.step_resolving hanswering hcard hturn hnext
    | carrying callId mayRun hanswering hdecided hturn =>
      exact h.step_carrying hanswering hdecided hturn hop hnext

structure DecidedOnce (desk : Desk) : Prop where
  once : (desk.decided.map Prod.fst).Nodup
  cards : ∀ decision ∈ desk.decided, decision.2 = some decision.1
  ranOnce : desk.ran.Nodup
  ran : ∀ callId ∈ desk.ran, callId ∈ desk.decided.map Prod.fst
  recorded : ∀ row ∈ desk.recorded,
    row.1 ∈ desk.decided.map Prod.fst ∧ ∃ body, row.2 = toolRow row.1 body

/-- **A proposed command is decided once.** Turns of one chat take their operations in any order,
as many as there are. As long as the oldest proposal pending is the one of the card when an answer
reads it, and no other answer is about to resolve it, and no call is proposed that has been
proposed before, every call is decided once at most, in its own name. -/
theorem decided_once_of_run {run : List ChatLabel} {s : ChatState}
    (hpaired : turnThreads.machine.Along (fun s l => paired s l = true)
      turnThreads.machine.init run)
    (hrun : turnThreads.machine.exec turnThreads.machine.init run = some s) :
    DecidedOnce s.shared := by
  have htidy : Accounted s := by
    refine Machine.exec_invariant (fun _ _ _ h hl hstep => h.step hl hstep) ?_ hpaired hrun
    exact ⟨nofun, nofun, nofun, nofun, List.nodup_nil, List.nodup_nil, nofun, nofun⟩
  exact ⟨htidy.once.sublist (List.sublist_append_right _ _), htidy.cards,
    htidy.ranOnce.sublist (List.sublist_append_right _ _),
    fun callId hid => htidy.ran callId (List.mem_append_right _ hid), htidy.recorded⟩

/-- Commands wait for the user. -/
def manual : Settings := ⟨id, [], false, false⟩

def proposer (callId : List Char) : (op : Op) → op.Choice
  | .yield _ => ()
  | .cancelled _ => false
  | .store _ => none
  | .uuid => ()
  | .completeStream _ => .ok [.toolCalls [⟨callId, commandTool, .null⟩]]
  | .executeToolCall _ => .error []
  | .runLine _ => .ok []

/-- So many operations of the first turn under way. -/
def operations (n : Nat) : List ChatLabel := List.replicate n (.run 0 (proposer ['a']))

/-- A turn that ends with the proposal of a command. -/
def proposalRun (callId : List Char) : List ChatLabel :=
  .call ⟨manual, .prompt [], none⟩ :: List.replicate 21 (.run 0 (proposer callId))

/-- The user approves the command of a card. -/
def approval (callId : List Char) : ChatLabel :=
  .call ⟨manual, .decide (.approve "ls".toList), some callId⟩

def approvalRun : List ChatLabel := proposalRun ['a'] ++ [approval ['a']] ++ operations 6

theorem decided_once_of_run_approval :
    ∃ s, turnThreads.machine.exec turnThreads.machine.init approvalRun = some s ∧
      s.shared.ran = [['a']] ∧ s.shared.recorded = [(['a'], toolRow ['a'] [])] ∧
        DecidedOnce s.shared := by
  obtain ⟨s, hrun, hs⟩ := Option.map_eq_some_iff.mp (show
    (turnThreads.machine.exec turnThreads.machine.init approvalRun).map
      (fun s => (s.shared.ran, s.shared.recorded)) =
        some ([['a']], [(['a'], toolRow ['a'] [])]) by decide +kernel)
  obtain ⟨hran, hrecorded⟩ := Prod.mk.inj hs
  exact ⟨s, hrun, hran, hrecorded, decided_once_of_run (by decide +kernel) hrun⟩

/-- A second command is proposed while the first waits, and its card is answered. -/
def crossedRun : List ChatLabel :=
  proposalRun ['a'] ++ proposalRun ['b'] ++ [approval ['b']] ++ operations 2

/-- A card is answered twice, and both answers read before one of them resolves. -/
def doubledRun : List ChatLabel :=
  proposalRun ['a'] ++ [approval ['a'], approval ['a'], .run 0 (proposer ['a']),
    .run 1 (proposer ['a']), .run 0 (proposer ['a']), .run 1 (proposer ['a'])]

/-- The answer to the second card decides the first call; and a call is decided twice. -/
theorem not_decided_once :
    (∃ s, turnThreads.machine.exec turnThreads.machine.init crossedRun = some s ∧
      ¬ DecidedOnce s.shared) ∧
    ∃ s, turnThreads.machine.exec turnThreads.machine.init doubledRun = some s ∧
      ¬ DecidedOnce s.shared := by
  constructor
  · obtain ⟨s, hrun, hs⟩ := Option.map_eq_some_iff.mp (show
      (turnThreads.machine.exec turnThreads.machine.init crossedRun).map
        (fun s => s.shared.decided) = some [(['a'], some ['b'])] by decide +kernel)
    refine ⟨s, hrun, fun h => ?_⟩
    have hcard := h.cards (['a'], some ['b']) (by rw [hs]; exact List.mem_cons_self)
    exact absurd hcard (by decide)
  · obtain ⟨s, hrun, hs⟩ := Option.map_eq_some_iff.mp (show
      (turnThreads.machine.exec turnThreads.machine.init doubledRun).map
        (fun s => s.shared.decided) = some [(['a'], some ['a']), (['a'], some ['a'])] by
          decide +kernel)
    refine ⟨s, hrun, fun h => ?_⟩
    have honce := h.once
    rw [hs] at honce
    exact absurd honce (by decide)

end Goble.Mission
