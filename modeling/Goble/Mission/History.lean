import Goble.Mission.Calls
import Mathlib.Data.List.TakeWhile

/-!
# The history a provider accepts

A provider rejects a history in which an assistant message makes calls that the tool messages right
after it do not answer. `build_history` filters by id only, so it relies on the rows standing in the
right places: each reply followed by the answers to a beginning of its calls (`Threaded`).

Every change keeps them there but one. The decision on a command appends its tool row at the end of
the transcript, and a prompt may have been sent while the command waited. So the law holds in the
conversations in which the reply that made the call is still the last message when it is decided
(`LastReply`), with call ids that tool rows tell apart.
-/

namespace Goble.Mission

/-- Each message with calls is followed at once by tool messages that answer exactly these, one for
each. -/
def ProviderValid : List Message → Prop
  | [] => True
  | message :: rest => (∀ calls ∈ message.toolCalls,
      ((rest.takeWhile fun next => next.role = .tool).map Message.toolCallId).Perm
        (calls.map fun call => some call.id)) ∧ ProviderValid rest

instance decidableProviderValid : (history : List Message) → Decidable (ProviderValid history)
  | [] => isTrue trivial
  | _ :: rest => @instDecidableAnd _ _ inferInstance (decidableProviderValid rest)

def LastReply (s : Store) : Prop :=
  ∀ p ∈ s.getPendingCommand,
    p.messageId = (s.messages.reverse.find? fun row => row.role ≠ .tool).map ChatRow.id

instance (s : Store) : Decidable (LastReply s) :=
  inferInstanceAs (Decidable (∀ p ∈ s.getPendingCommand, _))

/-! ### Rows in their places -/

def AnswersId (row : ChatRow) (callId : List Char) : Prop := ∃ body, IsToolRow row callId body

/-- Each reply with calls is followed by the answers to the first of them. `done` are the calls that
are answered, `owed` the others. -/
inductive Threaded : List ChatRow → List (List Char) → List (List Char) → Prop
  | nil : Threaded [] [] []
  | plain {rows : List ChatRow} {done owed : List (List Char)} {row : ChatRow}
      (h : Threaded rows done owed) (hrole : row.role ≠ .tool) (hcalls : row.toolCalls = none) :
      Threaded (rows ++ [row]) done owed
  | batch {rows : List ChatRow} {done owed : List (List Char)} {row : ChatRow}
      {records : List ChatToolCall} {tools : List ChatRow} {answered rest : List (List Char)}
      (h : Threaded rows done owed) (hrole : row.role = .assistant)
      (hcalls : row.toolCalls = some records)
      (hids : records.map ChatToolCall.id = answered ++ rest)
      (htools : List.Forall₂ AnswersId tools answered) :
      Threaded (rows ++ row :: tools) (done ++ answered) (owed ++ rest)

variable {answered : List (List Char)} {tools : List ChatRow} {row : ChatRow}

section Threaded

variable {rows : List ChatRow} {done owed : List (List Char)}

theorem AnswersId.role {callId : List Char} (h : AnswersId row callId) :
    row.role = .tool := by
  obtain ⟨_, hrow⟩ := h
  exact hrow.role

theorem AnswersId.toolCalls {callId : List Char} (h : AnswersId row callId) :
    row.toolCalls = none := by
  obtain ⟨_, hrow⟩ := h
  exact hrow.toolCalls

theorem role_of_answers (h : List.Forall₂ AnswersId tools answered) :
    ∀ tool ∈ tools, tool.role = .tool := by
  intro tool htool
  obtain ⟨callId, -, hanswers⟩ := exists_mem_of_forall₂ h htool
  exact hanswers.role

theorem toolCalls_of_answers (h : List.Forall₂ AnswersId tools answered) :
    ∀ tool ∈ tools, tool.toolCalls = none := by
  intro tool htool
  obtain ⟨callId, -, hanswers⟩ := exists_mem_of_forall₂ h htool
  exact hanswers.toolCalls

/-- The ids on record are those of the calls that are answered and those that are not. -/
theorem Threaded.ids (h : Threaded rows done owed) : (recordIds rows).Perm (done ++ owed) := by
  induction h with
  | nil => exact List.Perm.nil
  | plain _ _ hcalls ih =>
    rw [recordIds, recordsOf_concat hcalls]
    exact ih
  | @batch rows done owed row records tools answered rest _ _ hcalls hids htools ih =>
    have hrecords : recordIds (rows ++ row :: tools) = recordIds rows ++ (answered ++ rest) := by
      rw [recordIds, recordsOf_append, recordsOf_cons,
        recordsOf_of_none (toolCalls_of_answers htools), hcalls, List.append_nil, List.map_append,
        ← hids]
      rfl
    rw [hrecords]
    refine (ih.append_right _).trans ?_
    rw [List.append_assoc, List.append_assoc]
    refine List.Perm.append_left done ?_
    rw [← List.append_assoc, ← List.append_assoc]
    exact List.perm_append_comm.append_right rest

theorem Threaded.calls (h : Threaded rows done owed) :
    ∀ row ∈ rows, row.role = .assistant ∨ row.toolCalls = none := by
  induction h with
  | nil => exact nofun
  | plain _ _ hcalls ih =>
    intro row hrow
    obtain hrow | hrow := List.mem_append.mp hrow
    · exact ih row hrow
    · exact .inr (List.mem_singleton.mp hrow ▸ hcalls)
  | batch _ hrole _ _ htools ih =>
    intro row hrow
    rw [List.mem_append, List.mem_cons] at hrow
    obtain hrow | rfl | hrow := hrow
    · exact ih row hrow
    · exact .inl hrole
    · exact .inr (toolCalls_of_answers htools row hrow)

theorem Threaded.toolRows (h : Threaded rows done owed) :
    List.Forall₂ AnswersId (rows.filter fun row => row.role = .tool) done := by
  induction h with
  | nil => exact .nil
  | @plain rows done owed row _ hrole _ ih =>
    rw [List.filter_append, List.filter_cons_of_neg (by simpa using hrole), List.filter_nil,
      List.append_nil]
    exact ih
  | @batch rows done owed row records tools answered rest _ hrole _ _ htools ih =>
    have hall : tools.filter (fun row => row.role = .tool) = tools :=
      List.filter_eq_self.mpr fun tool htool => by simpa using role_of_answers htools tool htool
    rw [List.filter_append, List.filter_cons_of_neg (by simp [hrole]), hall]
    exact List.rel_append ih htools

theorem answers_alike {tools' : List ChatRow} (h : List.Forall₂ AnswersId tools answered)
    (halike : List.Forall₂ Alike tools tools') :
    List.Forall₂ AnswersId tools' answered := by
  induction h generalizing tools' with
  | nil =>
    obtain rfl := List.forall₂_nil_left_iff.mp halike
    exact .nil
  | cons hanswers _ ih =>
    obtain ⟨tool', tools', htool, hrest, rfl⟩ := List.forall₂_cons_left_iff.mp halike
    obtain ⟨body, hbody⟩ := hanswers
    exact .cons ⟨body, htool.role.trans hbody.role, htool.toolCalls.trans hbody.toolCalls,
      (htool.content hbody.role).trans hbody.content⟩ (ih hrest)

theorem Threaded.alike (h : Threaded rows done owed) {rows' : List ChatRow}
    (halike : List.Forall₂ Alike rows rows') : Threaded rows' done owed := by
  induction h generalizing rows' with
  | nil =>
    obtain rfl := List.forall₂_nil_left_iff.mp halike
    exact .nil
  | plain _ hrole hcalls ih =>
    obtain ⟨first, last, rfl, hfirst, hlast⟩ := exists_of_forall₂_append halike
    obtain ⟨row', rest, hrow, hrest, rfl⟩ := List.forall₂_cons_left_iff.mp hlast
    obtain rfl := List.forall₂_nil_left_iff.mp hrest
    exact .plain (ih hfirst) (hrow.role ▸ hrole) (hrow.toolCalls.trans hcalls)
  | batch _ hrole hcalls hids htools ih =>
    obtain ⟨first, last, rfl, hfirst, hlast⟩ := exists_of_forall₂_append halike
    obtain ⟨row', tools', hrow, hrest, rfl⟩ := List.forall₂_cons_left_iff.mp hlast
    exact .batch (ih hfirst) (hrow.role.trans hrole) (hrow.toolCalls.trans hcalls) hids
      (answers_alike htools hrest)

theorem Threaded.decided (h : Threaded rows done owed) (p : CommandRow) (status : ToolCallStatus)
    (body : List Char) : Threaded (rows.map (settled p status body)) done owed := by
  induction h with
  | nil => exact .nil
  | plain _ hrole hcalls ih =>
    rw [List.map_append, List.map_singleton, settled_of_none hcalls]
    exact .plain ih hrole hcalls
  | @batch rows done owed row records tools answered rest _ hrole hcalls hids htools ih =>
    have hsame : tools.map (settled p status body) = tools := by
      refine (List.map_congr_left fun tool htool => ?_).trans (List.map_id _)
      exact settled_of_none (toolCalls_of_answers htools tool htool) ..
    have hrecords : recordIds [settled p status body row] = recordIds [row] :=
      recordIds_settled p status body [row]
    rw [List.map_append, List.map_cons, hsame]
    obtain ⟨records', hrecords'⟩ :
        ∃ records', (settled p status body row).toolCalls = some records' := by
      rw [Mission.settled]
      split
      · exact ⟨_, by rw [hcalls]; rfl⟩
      · exact ⟨records, hcalls⟩
    refine .batch ih ((settled_role ..).trans hrole) hrecords' ?_ htools
    simpa [recordIds, recordsOf, hrecords', hcalls, hids] using hrecords

theorem Threaded.of_concat (h : Threaded (rows ++ [row]) done owed) (hrole : row.role ≠ .tool)
    (hcalls : row.toolCalls = none) : Threaded rows done owed := by
  generalize hall : rows ++ [row] = all at h
  cases h with
  | nil => simp at hall
  | plain h _ _ =>
    obtain ⟨rfl, -⟩ := List.append_inj' hall rfl
    exact h
  | @batch before done owed reply records tools answered rest h _ hcalls' hids htools =>
    obtain rfl | ⟨tools, tool, rfl⟩ := List.eq_nil_or_concat' tools
    · obtain ⟨-, hrow⟩ := List.append_inj' hall rfl
      obtain rfl := (List.cons.inj hrow).1
      cases hcalls.symm.trans hcalls'
    · rw [← List.cons_append, ← List.append_assoc] at hall
      obtain ⟨-, hrow⟩ := List.append_inj' hall rfl
      obtain rfl := (List.cons.inj hrow).1
      exact absurd (role_of_answers htools row (by simp)) hrole

theorem Threaded.of_last {pre : List ChatRow} {records : List ChatToolCall}
    (h : Threaded (pre ++ row :: tools) done owed) (hcalls : row.toolCalls = some records)
    (htools : ∀ tool ∈ tools, tool.role = .tool) (hrole : row.role ≠ .tool) :
    ∃ done₀ owed₀ answered rest, Threaded pre done₀ owed₀ ∧ row.role = .assistant ∧
      records.map ChatToolCall.id = answered ++ rest ∧ List.Forall₂ AnswersId tools answered ∧
      done = done₀ ++ answered ∧ owed = owed₀ ++ rest := by
  generalize hall : pre ++ row :: tools = all at h
  cases h with
  | nil => simp at hall
  | @plain before done owed last h hlast hnone =>
    -- The last row is neither a tool row nor one with calls.
    obtain rfl | ⟨tools, tool, rfl⟩ := List.eq_nil_or_concat' tools
    · obtain ⟨-, hrow⟩ := List.append_inj' hall rfl
      obtain rfl := (List.cons.inj hrow).1
      cases hcalls.symm.trans hnone
    · rw [← List.cons_append, ← List.append_assoc] at hall
      obtain ⟨-, hrow⟩ := List.append_inj' hall rfl
      obtain rfl := (List.cons.inj hrow).1
      exact absurd (htools tool (by simp)) hlast
  | @batch before done owed reply records' tools' answered rest h hrole' hcalls' hids htools' =>
    have hreply : reply.role ≠ .tool := by rw [hrole']; exact nofun
    obtain ⟨rfl, rfl, rfl⟩ := last_inj hall htools (role_of_answers htools') hrole hreply
    obtain rfl := Option.some.inj (hcalls.symm.trans hcalls')
    exact ⟨_, _, _, _, h, hrole', hids, htools', rfl, rfl⟩

end Threaded

/-! ### From rows to messages -/

/-- The ids that `build_history` keeps. -/
def pairedIds (rows : List ChatRow) : List (List Char) :=
  let answered := (rows.filter fun row => row.role = .tool).filterMap fun row =>
    (Text.cutAt ['\n'] row.content).map Prod.fst
  ((rows.filter fun row => row.role = .assistant ∨ row.role = .toolCalls).flatMap
    fun row => row.toolCalls.getD []).map ChatToolCall.id |>.filter (· ∈ answered)

/-- What `build_history` makes of a row. -/
def messageOf (records : List ChatToolCall) (paired : List (List Char))
    (thoughts : List (Nat × List Char)) (row : ChatRow) : Option Message :=
  let thought := thoughts.lookup row.id
  match row.role with
  | .tool =>
    match Text.cutAt ['\n'] row.content with
    | some (id, body) =>
      if id ∈ paired then
        some ⟨.tool, body, none, some id,
          (records.reverse.find? fun record => record.id = id).map ChatToolCall.status, thought⟩
      else none
    | none => none
  | .user => some ⟨.user, row.content, none, none, none, thought⟩
  | .system => some ⟨.system, row.content, none, none, none, thought⟩
  | .assistant | .toolCalls =>
    match row.toolCalls.map fun records =>
      (records.map ChatToolCall.toCall).filter fun call => call.id ∈ paired with
    | some [] =>
      if row.content.isEmpty then none
      else some ⟨.assistant, row.content, none, none, none, thought⟩
    | calls => some ⟨.assistant, row.content, calls, none, none, thought⟩

theorem historyOf_eq (rows : List ChatRow) (thoughts : List (Nat × List Char)) :
    historyOf rows thoughts =
      rows.filterMap (messageOf (recordsOf rows) (pairedIds rows) thoughts) := rfl

theorem providerValid_append {first second : List Message} (h : ProviderValid first)
    (h' : ProviderValid second) (hhead : second.takeWhile (fun next => next.role = .tool) = []) :
    ProviderValid (first ++ second) := by
  have htake : ∀ rest : List Message, (rest ++ second).takeWhile (fun next => next.role = .tool) =
      rest.takeWhile fun next => next.role = .tool := by
    intro rest
    rw [List.takeWhile_append, hhead, List.append_nil]
    split
    · next hlength => exact (List.takeWhile_prefix _).eq_of_length hlength |>.symm
    · rfl
  induction first with
  | nil => exact h'
  | cons message rest ih =>
    refine ⟨fun calls hcalls => ?_, ih h.2⟩
    have hanswers := h.1 calls hcalls
    rw [← htake rest] at hanswers
    exact hanswers

theorem providerValid_of_none {history : List Message} (h : ∀ m ∈ history, m.toolCalls = none) :
    ProviderValid history := by
  induction history with
  | nil => trivial
  | cons message rest ih =>
    refine ⟨fun calls hcalls => ?_, ih fun m hm => h m (List.mem_cons_of_mem _ hm)⟩
    cases (h message (List.mem_cons_self ..)).symm.trans hcalls

section Messages

variable (records : List ChatToolCall) (paired : List (List Char))
  (thoughts : List (Nat × List Char)) {rows : List ChatRow} {done owed : List (List Char)}

theorem messageOf_plain (hrole : row.role ≠ .tool) (hcalls : row.toolCalls = none) :
    ∃ m, messageOf records paired thoughts row = some m ∧ m.role ≠ .tool ∧ m.toolCalls = none := by
  rw [messageOf, hcalls]
  cases hrow : row.role with
  | tool => exact absurd hrow hrole
  | _ => exact ⟨_, rfl, by simp, rfl⟩

theorem messageOf_answers {callId : List Char} (h : AnswersId row callId)
    (hpaired : ∀ id ∈ paired, ∀ body, callId ≠ toolRow id body)
    (hkept : '\n' ∉ callId → callId ∈ paired) (hbreak : '\n' ∈ callId → callId ∉ paired) :
    (callId ∈ paired → ∃ m, messageOf records paired thoughts row = some m ∧ m.role = .tool ∧
      m.toolCalls = none ∧ m.toolCallId = some callId) ∧
    (callId ∉ paired → messageOf records paired thoughts row = none) := by
  obtain ⟨body, hrow⟩ := h
  rw [messageOf, hrow.role, hrow.content]
  by_cases hmem : '\n' ∈ callId
  · obtain ⟨before, after, rfl, hfirst⟩ := List.eq_append_cons_of_mem hmem
    have hcut : Text.cutAt ['\n'] (toolRow (before ++ '\n' :: after) body) =
        some (before, after ++ '\n' :: body) := by
      refine Text.cutAt_singleton_eq_some.mpr ⟨hfirst, ?_⟩
      rw [toolRow, List.append_assoc, List.cons_append]
    have hdropped : before ∉ paired := fun hpair => hpaired before hpair after rfl
    rw [hcut]
    dsimp only
    rw [if_neg hdropped]
    exact ⟨fun hpair => absurd hpair (hbreak hmem), fun _ => rfl⟩
  · have hcut : Text.cutAt ['\n'] (toolRow callId body) = some (callId, body) :=
      Text.cutAt_singleton_eq_some.mpr ⟨hmem, rfl⟩
    rw [hcut]
    dsimp only
    rw [if_pos (hkept hmem)]
    exact ⟨fun _ => ⟨_, rfl, rfl, rfl, rfl⟩, fun hnot => absurd (hkept hmem) hnot⟩

theorem filterMap_answers (h : List.Forall₂ AnswersId tools answered)
    (hpaired : ∀ i ∈ answered, ∀ id ∈ paired, ∀ body, i ≠ toolRow id body)
    (hkept : ∀ i ∈ answered, '\n' ∉ i → i ∈ paired) (hbreak : ∀ id ∈ paired, '\n' ∉ id) :
    (∀ m ∈ tools.filterMap (messageOf records paired thoughts),
      m.role = .tool ∧ m.toolCalls = none) ∧
    (tools.filterMap (messageOf records paired thoughts)).map Message.toolCallId =
      (answered.filter (· ∈ paired)).map some := by
  induction h with
  | nil => exact ⟨nofun, rfl⟩
  | @cons tool i tools answered hanswers _ ih =>
    obtain ⟨hroles, hids⟩ := ih (fun j hj => hpaired j (List.mem_cons_of_mem _ hj))
      fun j hj => hkept j (List.mem_cons_of_mem _ hj)
    obtain ⟨hsome, hnone⟩ := messageOf_answers records paired thoughts hanswers
      (hpaired i (List.mem_cons_self ..)) (hkept i (List.mem_cons_self ..))
      fun hmem hpair => hbreak i hpair hmem
    by_cases hpair : i ∈ paired
    · obtain ⟨m, hm, hrole, hcalls, hcall⟩ := hsome hpair
      rw [List.filterMap_cons_some hm, List.filter_cons_of_pos (by simpa using hpair)]
      refine ⟨fun other hother => ?_, ?_⟩
      · obtain rfl | hother := List.mem_cons.mp hother
        · exact ⟨hrole, hcalls⟩
        · exact hroles other hother
      · rw [List.map_cons, List.map_cons, hcall, hids]
    · rw [List.filterMap_cons_none (hnone hpair), List.filter_cons_of_neg (by simpa using hpair)]
      exact ⟨hroles, hids⟩

theorem messageOf_reply {calls : List ChatToolCall} (hrole : row.role = .assistant)
    (hcalls : row.toolCalls = some calls) :
    (∃ m, messageOf records paired thoughts row = some m ∧ m.role = .assistant ∧
      ∃ kept, m.toolCalls = some kept ∧ kept.map LlmToolCall.id =
        (calls.map ChatToolCall.id).filter (· ∈ paired)) ∨
    ((calls.map ChatToolCall.id).filter (· ∈ paired) = [] ∧
      ∀ m ∈ messageOf records paired thoughts row, m.role = .assistant ∧ m.toolCalls = none) := by
  have hids : (((calls.map ChatToolCall.toCall).filter fun call => call.id ∈ paired).map
      LlmToolCall.id) = (calls.map ChatToolCall.id).filter (· ∈ paired) := by
    rw [List.filter_map, List.filter_map, List.map_map]
    rfl
  rw [messageOf, hrole, hcalls, Option.map_some]
  dsimp only
  cases hkept : (calls.map ChatToolCall.toCall).filter fun call => call.id ∈ paired with
  | nil =>
    refine .inr ⟨by rw [← hids, hkept]; rfl, fun m hm => ?_⟩
    by_cases hempty : row.content.isEmpty
    · rw [if_pos hempty] at hm
      cases hm
    · rw [if_neg hempty] at hm
      obtain rfl := Option.some.inj hm
      exact ⟨rfl, rfl⟩
  | cons call kept => exact .inl ⟨_, rfl, rfl, _, rfl, hkept ▸ hids⟩

theorem providerValid_batch {calls : List ChatToolCall} {rest : List (List Char)}
    (hrole : row.role = .assistant) (hcalls : row.toolCalls = some calls)
    (hids : calls.map ChatToolCall.id = answered ++ rest)
    (htools : List.Forall₂ AnswersId tools answered)
    (hpaired : ∀ i ∈ answered, ∀ id ∈ paired, ∀ body, i ≠ toolRow id body)
    (hkept : ∀ i ∈ answered, '\n' ∉ i → i ∈ paired) (hbreak : ∀ id ∈ paired, '\n' ∉ id)
    (hrest : ∀ i ∈ rest, i ∉ paired) :
    ProviderValid ((row :: tools).filterMap (messageOf records paired thoughts)) ∧
      ((row :: tools).filterMap (messageOf records paired thoughts)).takeWhile
        (fun next => next.role = .tool) = [] := by
  have hfilter : (calls.map ChatToolCall.id).filter (· ∈ paired) =
      answered.filter (· ∈ paired) := by
    have hdropped : rest.filter (· ∈ paired) = [] :=
      List.filter_eq_nil_iff.mpr fun i hi => by simpa using hrest i hi
    rw [hids, List.filter_append, hdropped, List.append_nil]
  obtain ⟨hroles, hanswers⟩ := filterMap_answers records paired thoughts htools hpaired
    hkept hbreak
  have hvalid := providerValid_of_none fun m hm => (hroles m hm).2
  obtain ⟨m, hm, hassistant, kept, htoolCalls, hkeptIds⟩ | ⟨hnone, hplain⟩ :=
    messageOf_reply records paired thoughts hrole hcalls
  · rw [List.filterMap_cons_some hm]
    refine ⟨⟨fun made hmade => ?_, hvalid⟩, List.takeWhile_cons_of_neg (by simp [hassistant])⟩
    obtain rfl : kept = made := Option.some.inj (htoolCalls.symm.trans hmade)
    have hall : (tools.filterMap (messageOf records paired thoughts)).takeWhile
        (fun next => next.role = .tool) = tools.filterMap (messageOf records paired thoughts) :=
      List.takeWhile_eq_self_iff.mpr fun m hm => by simpa using (hroles m hm).1
    rw [hall, hanswers, ← hfilter, ← hkeptIds, List.map_map]
    rfl
  · have hempty : tools.filterMap (messageOf records paired thoughts) = [] := by
      refine List.map_eq_nil_iff.mp (hanswers.trans ?_)
      rw [← hfilter, hnone]
      rfl
    cases hm : messageOf records paired thoughts row with
    | none =>
      rw [List.filterMap_cons_none hm, hempty]
      exact ⟨trivial, rfl⟩
    | some m =>
      obtain ⟨hassistant, hcalls⟩ := hplain m hm
      rw [List.filterMap_cons_some hm, hempty]
      refine ⟨⟨fun made hmade => ?_, trivial⟩, List.takeWhile_cons_of_neg (by simp [hassistant])⟩
      cases hcalls.symm.trans hmade

/-- The ids that are kept are those of the calls that are answered, if a tool row can tell them. -/
theorem Threaded.mem_pairedIds (h : Threaded rows done owed)
    (hseparate : (done ++ owed).Pairwise Separate) {id : List Char} :
    id ∈ pairedIds rows ↔ id ∈ done ∧ '\n' ∉ id := by
  simp only [pairedIds, List.mem_filter, List.mem_map, List.mem_flatMap, List.mem_filterMap,
    Option.map_eq_some_iff, decide_eq_true_eq]
  constructor
  · rintro ⟨⟨record, ⟨row, ⟨hrow, -⟩, hrecord⟩, rfl⟩, tool, htool, ⟨cut, after⟩, hcut, hid⟩
    obtain rfl : cut = record.id := hid
    obtain ⟨hbreak, hcontent⟩ := Text.cutAt_singleton_eq_some.mp hcut
    obtain ⟨j, hj, body, htoolRow⟩ := exists_mem_of_forall₂ h.toolRows
      (List.mem_filter.mpr ⟨htool.1, by simpa using htool.2⟩)
    have hknown : record.id ∈ done ++ owed :=
      h.ids.subset (List.mem_map_of_mem (mem_recordsOf.mpr ⟨row, hrow, hrecord⟩))
    have hsame : toolRow record.id after = toolRow j body := hcontent.symm.trans htoolRow.content
    have heq : record.id = j := by
      by_contra hne
      exact not_separate_of_toolRow_eq hsame
        (hseparate.forall hknown (List.mem_append_left _ hj) hne)
    exact ⟨heq ▸ hj, hbreak⟩
  · rintro ⟨hdone, hbreak⟩
    obtain ⟨tool, htool, body, hrow⟩ := exists_mem_of_forall₂ h.toolRows.flip hdone
    have hknown : id ∈ recordIds rows := h.ids.symm.subset (List.mem_append_left _ hdone)
    obtain ⟨record, hrecord, rfl⟩ := List.mem_map.mp hknown
    obtain ⟨row, hmem, hcall⟩ := mem_recordsOf.mp hrecord
    have hassistant : row.role = .assistant := by
      refine (h.calls row hmem).resolve_right fun hnone => ?_
      rw [hnone] at hcall
      cases hcall
    refine ⟨⟨record, ⟨row, ⟨hmem, .inl hassistant⟩, hcall⟩, rfl⟩, tool, ?_, (record.id, body), ?_,
      rfl⟩
    · simpa using List.mem_filter.mp htool
    · exact Text.cutAt_singleton_eq_some.mpr ⟨hbreak, hrow.content⟩

theorem Threaded.providerValid (h : Threaded rows done owed)
    (hseparate : (done ++ owed).Pairwise Separate) (thoughts : List (Nat × List Char)) :
    ProviderValid (historyOf rows thoughts) := by
  rw [historyOf_eq]
  have hpaired : ∀ id, id ∈ pairedIds rows ↔ id ∈ done ∧ '\n' ∉ id :=
    fun id => h.mem_pairedIds hseparate
  -- The ids kept are those of the whole transcript; the induction is on a beginning of it.
  generalize recordsOf rows = records
  generalize pairedIds rows = paired at hpaired
  have hnever : ∀ i ∈ done ++ owed, ∀ id ∈ paired, ∀ body, i ≠ toolRow id body := by
    intro i hi id hid body heq
    have hne : i ≠ id := by
      rintro rfl
      have hlength := congrArg List.length heq
      simp [toolRow] at hlength
    have hdone := ((hpaired id).mp hid).1
    exact (hseparate.forall hi (List.mem_append_left _ hdone) hne).left body heq
  have howed : ∀ i ∈ owed, i ∉ paired := by
    intro i hi hmem
    exact ((List.pairwise_append.mp hseparate).2.2 i ((hpaired i).mp hmem).1 i hi).ne rfl
  have hkept : ∀ i ∈ done, '\n' ∉ i → i ∈ paired := fun i hi hbreak =>
    (hpaired i).mpr ⟨hi, hbreak⟩
  have hbreak : ∀ id ∈ paired, '\n' ∉ id := fun id hid => ((hpaired id).mp hid).2
  clear hpaired hseparate
  induction h with
  | nil => trivial
  | plain _ hrole hcalls ih =>
    obtain ⟨m, hm, hmrole, hmcalls⟩ := messageOf_plain records paired thoughts hrole hcalls
    rw [List.filterMap_append, List.filterMap_cons_some hm]
    refine providerValid_append (ih hnever howed hkept) ?_ (List.takeWhile_cons_of_neg (by simpa))
    exact providerValid_of_none fun other hother => List.mem_singleton.mp hother ▸ hmcalls
  | batch _ hrole hcalls hids htools ih =>
    rw [List.filterMap_append]
    obtain ⟨hvalid, hhead⟩ := providerValid_batch records paired thoughts hrole hcalls hids
      htools (fun i hi => hnever i (by simp [hi]))
      (fun i hi => hkept i (by simp [hi])) hbreak fun i hi => howed i (by simp [hi])
    refine providerValid_append (ih (fun i hi => hnever i ?_) (fun i hi => howed i (by simp [hi]))
      fun i hi => hkept i (by simp [hi])) hvalid hhead
    obtain hi | hi := List.mem_append.mp hi <;> simp [hi]

end Messages

/-! ### The invariant of a conversation -/

/-- A pending command: the last call of its reply, the others being answered. -/
def Waits (s : Store) (done owed : List (List Char)) (p : CommandRow) : Prop :=
  p.callId ∈ owed ∧ ∃ row ∈ s.messages, p.messageId = some row.id ∧
    ∃ records before, row.toolCalls = some records ∧
      records.map ChatToolCall.id = before ++ [p.callId] ∧ ∀ i ∈ before, i ∈ done

/-- The rows stand in their places, with ids that tell the calls apart. -/
structure Woven (s : Store) (done owed : List (List Char)) : Prop where
  threaded : Threaded s.messages done owed
  separate : (done ++ owed).Pairwise Separate
  commands : ∀ p ∈ s.pendingCommands, p.callId ∈ done ++ owed ∧ (p.pending → Waits s done owed p)
  nodup : (s.pendingCommands.map CommandRow.callId).Nodup

theorem woven_empty : Woven .empty [] [] :=
  ⟨.nil, List.Pairwise.nil, nofun, List.nodup_nil⟩

section Woven

variable {s s' : Store} {done owed : List (List Char)}

theorem Waits.mono {done' owed' : List (List Char)} {p : CommandRow} (h : Waits s done owed p)
    (howed : p.callId ∈ owed') (hdone : ∀ i ∈ done, i ∈ done')
    (hrows : ∀ row ∈ s.messages, ∀ records, row.toolCalls = some records →
      ∃ row' ∈ s'.messages, row'.id = row.id ∧ ∃ records', row'.toolCalls = some records' ∧
        records'.map ChatToolCall.id = records.map ChatToolCall.id) :
    Waits s' done' owed' p := by
  obtain ⟨-, row, hrow, hid, records, before, hcalls, hids, hbefore⟩ := h
  obtain ⟨row', hrow', hid', records', hcalls', hids'⟩ := hrows row hrow records hcalls
  refine ⟨howed, row', hrow', hid'.symm ▸ hid, records', before, hcalls', hids'.trans hids, ?_⟩
  exact fun i hi => hdone i (hbefore i hi)

theorem Woven.rewrite (h : Woven s done owed) (hrows : List.Forall₂ Alike s.messages s'.messages)
    (hcommands : s'.pendingCommands = s.pendingCommands) : Woven s' done owed := by
  refine ⟨h.threaded.alike hrows, h.separate, fun p hp => ?_, hcommands ▸ h.nodup⟩
  obtain ⟨hknown, hwaits⟩ := h.commands p (hcommands ▸ hp)
  refine ⟨hknown, fun hpending => (hwaits hpending).mono (hwaits hpending).1 (fun _ hi => hi) ?_⟩
  intro row hrow records hcalls
  obtain ⟨row', hrow', halike⟩ := exists_mem_of_forall₂ hrows hrow
  exact ⟨row', hrow', halike.id, records, halike.toolCalls.trans hcalls, rfl⟩

theorem Woven.add (h : Woven s done owed) (hrole : row.role ≠ .tool) (hcalls : row.toolCalls = none)
    (hrows : s'.messages = s.messages ++ [row])
    (hcommands : s'.pendingCommands = s.pendingCommands) : Woven s' done owed := by
  refine ⟨hrows ▸ h.threaded.plain hrole hcalls, h.separate, fun p hp => ?_, hcommands ▸ h.nodup⟩
  obtain ⟨hknown, hwaits⟩ := h.commands p (hcommands ▸ hp)
  refine ⟨hknown, fun hpending => (hwaits hpending).mono (hwaits hpending).1 (fun _ hi => hi) ?_⟩
  intro other hother records hrecords
  exact ⟨other, hrows ▸ List.mem_append_left _ hother, rfl, records, hrecords, rfl⟩

theorem Woven.batch (h : Woven s done owed) {messageId : Nat} {made rest : List ChatToolCall}
    {late : List ChatRow} {left : List (List Char)}
    (hbatch : Batch Fresh s s' messageId made rest late)
    (hids : (made ++ rest).map ChatToolCall.id = answered ++ left)
    (hanswered : ∀ tools, List.Forall₂ Answers tools made →
      List.Forall₂ AnswersId (tools ++ late) answered)
    (hnodup : (s'.pendingCommands.map CommandRow.callId).Nodup)
    (hcommands : ∀ p ∈ s'.pendingCommands, p ∈ s.pendingCommands ∨
      p.callId ∈ left ∧ p.messageId = some messageId ∧ answered ++ left = answered ++ [p.callId]) :
    Woven s' (done ++ answered) (owed ++ left) := by
  obtain ⟨pre, row, tools, hrows, hid, hrole, hnone, htools, hrows'⟩ := hbatch.rows
  obtain ⟨calls, hbegin, hfresh⟩ := hbatch.ids
  have hpre : Threaded pre done owed := by
    have hthreaded := h.threaded
    rw [hrows] at hthreaded
    exact hthreaded.of_concat (by rw [hrole]; exact nofun) hnone
  have hseparate : ((done ++ answered) ++ (owed ++ left)).Pairwise Separate := by
    have hknown := hfresh.of_prefix hbegin
    have hperm : (recordIds s.messages ++ (answered ++ left)).Perm
        ((done ++ answered) ++ (owed ++ left)) := by
      refine (h.threaded.ids.append_right _).trans ?_
      rw [List.append_assoc, List.append_assoc]
      refine List.Perm.append_left done ?_
      rw [← List.append_assoc, ← List.append_assoc]
      exact List.perm_append_comm.append_right left
    refine (hperm.pairwise_iff (fun hsep => symm hsep)).mp ?_
    rw [← hids]
    exact hknown.append ((h.threaded.ids.pairwise_iff fun hsep => symm hsep).mpr h.separate)
  refine ⟨?_, hseparate, fun p hp => ?_, hnodup⟩
  · rw [hrows']
    exact hpre.batch hrole rfl hids (hanswered tools htools)
  · obtain hp | ⟨hleft, hmessage, hlast⟩ := hcommands p hp
    · obtain ⟨hknown, hwaits⟩ := h.commands p hp
      refine ⟨?_, fun hpending => (hwaits hpending).mono ?_ ?_ ?_⟩
      · obtain hi | hi := List.mem_append.mp hknown <;> simp [hi]
      · exact List.mem_append_left _ (hwaits hpending).1
      · exact fun i hi => List.mem_append_left _ hi
      · -- The reply had no calls before.
        intro other hother records hrecords
        refine ⟨other, ?_, rfl, records, hrecords, rfl⟩
        rw [hrows, List.mem_append, List.mem_singleton] at hother
        rw [hrows']
        refine List.mem_append_left _ (hother.resolve_right ?_)
        rintro rfl
        cases hnone.symm.trans hrecords
    · refine ⟨by simp [hleft], fun _ => ⟨List.mem_append_right _ hleft, ?_⟩⟩
      refine ⟨{ row with toolCalls := some (made ++ rest) }, ?_,
        hmessage.trans (congrArg some hid.symm), made ++ rest, answered, rfl, hids.trans hlast,
        fun i hi => List.mem_append_right _ hi⟩
      rw [hrows']
      exact List.mem_append_right _ (List.mem_cons_self ..)

theorem Woven.answer (h : Woven s done owed) (hnumbered : Numbered s) (hlast : LastReply s)
    {p : CommandRow} (hpending : s.getPendingCommand = some p) {tool : ChatRow}
    (htool : AnswersId tool p.callId) :
    ∃ owed', owed = owed' ++ [p.callId] ∧
      Threaded (s.messages ++ [tool]) (done ++ [p.callId]) owed' := by
  have hp : p ∈ s.pendingCommands := List.mem_of_find?_eq_some hpending
  obtain ⟨howed, row, hrow, hid, records, before, hcalls, hids, hbefore⟩ :=
    (h.commands p hp).2 (List.find?_some hpending)
  -- The reply that made the call, and the tool rows after it.
  have hfind := hlast p hpending
  rw [hid] at hfind
  obtain ⟨reply, hreply, hreplyId⟩ := Option.map_eq_some_iff.mp hfind.symm
  obtain ⟨hrole, after, earlier, hreverse, hafter⟩ := List.find?_eq_some_iff_append.mp hreply
  have hsplit : s.messages = earlier.reverse ++ reply :: after.reverse := by
    rw [← List.reverse_reverse s.messages, hreverse]
    simp
  have hmem : reply ∈ s.messages := by rw [hsplit]; simp
  obtain rfl : reply = row := List.inj_on_of_nodup_map hnumbered.nodup hmem hrow hreplyId
  have htools : ∀ other ∈ after.reverse, other.role = .tool := by
    intro other hother
    simpa using hafter other (List.mem_reverse.mp hother)
  obtain ⟨done₀, owed₀, answered, rest, hpre, hassistant, hsplitIds, hanswers, rfl, rfl⟩ :=
    (hsplit ▸ h.threaded).of_last hcalls htools (by simpa using hrole)
  have hdisjoint : ∀ i ∈ done₀ ++ answered, ∀ j ∈ owed₀ ++ rest, i ≠ j := fun i hi j hj =>
    ((List.pairwise_append.mp h.separate).2.2 i hi j hj).ne
  -- All calls of the reply but the last are answered.
  have hrest : rest = [p.callId] ∧ answered = before := by
    have hall : before ++ [p.callId] = answered ++ rest := hids.symm.trans hsplitIds
    obtain rfl | ⟨rest, last, rfl⟩ := List.eq_nil_or_concat' rest
    · rw [List.append_nil] at hall
      refine absurd rfl (hdisjoint p.callId ?_ p.callId howed)
      rw [← hall]
      simp
    · rw [← List.append_assoc] at hall
      obtain ⟨hbefore', hcall⟩ := List.append_inj' hall rfl
      obtain rfl := (List.cons.inj hcall).1
      cases rest with
      | nil => exact ⟨rfl, by rw [hbefore', List.append_nil]⟩
      | cons i rest =>
        have hi : i ∈ before := by rw [hbefore']; simp
        exact absurd rfl (hdisjoint i (hbefore i hi) i (by simp))
  obtain ⟨rfl, rfl⟩ := hrest
  refine ⟨owed₀, rfl, ?_⟩
  have hcallIds : records.map ChatToolCall.id = (answered ++ [p.callId]) ++ [] := by
    rw [List.append_nil]
    exact hsplitIds
  have hbatch := hpre.batch hassistant hcalls hcallIds (List.rel_append hanswers (.cons htool .nil))
  rw [List.append_nil, ← List.append_assoc] at hbatch
  rw [hsplit, List.append_assoc]
  exact hbatch

/-- What is left of the proposals once one is decided. -/
theorem Woven.resolve (h : Woven s done owed) {p : CommandRow} {owed' : List (List Char)}
    (howed : owed = owed' ++ [p.callId])
    (hthreaded : Threaded s'.messages (done ++ [p.callId]) owed')
    (hcommands : s'.pendingCommands = (s.resolvePendingCommand p.callId).pendingCommands)
    (hrows : ∀ row ∈ s.messages, ∀ records, row.toolCalls = some records →
      ∃ row' ∈ s'.messages, row'.id = row.id ∧ ∃ records', row'.toolCalls = some records' ∧
        records'.map ChatToolCall.id = records.map ChatToolCall.id) :
    Woven s' (done ++ [p.callId]) owed' := by
  subst howed
  have hperm : (done ++ (owed' ++ [p.callId])).Perm (done ++ [p.callId] ++ owed') := by
    rw [List.append_assoc]
    exact List.perm_append_comm.append_left done
  refine ⟨hthreaded, (hperm.pairwise_iff fun hsep => symm hsep).mp h.separate, ?_, ?_⟩
  · intro q' hq'
    rw [hcommands] at hq'
    obtain ⟨q, hq, rfl⟩ := List.mem_map.mp hq'
    obtain ⟨hknown, hwaits⟩ := h.commands q hq
    split
    · exact ⟨hperm.subset hknown, nofun⟩
    · next hne =>
      refine ⟨hperm.subset hknown, fun hpending => (hwaits hpending).mono ?_ ?_ hrows⟩
      · have hmem := (hwaits hpending).1
        rw [List.mem_append, List.mem_singleton] at hmem
        exact hmem.resolve_right hne
      · exact fun i hi => List.mem_append_left _ hi
  · rw [hcommands, callIds_resolvePendingCommand]
    exact h.nodup

theorem answersId_of_answers {made : List ChatToolCall} (h : List.Forall₂ Answers tools made) :
    List.Forall₂ AnswersId tools (made.map ChatToolCall.id) := by
  refine List.forall₂_map_right_iff.mpr (h.imp fun tool record hanswers => ?_)
  obtain ⟨body, -, hrow⟩ := hanswers.isToolRow
  exact ⟨body, hrow⟩

/-- Every change keeps the rows in their places, also when the store fails in the middle of it. -/
theorem Woven.change (h : Woven s done owed) (hnumbered : Numbered s)
    (hchange : Change True Fresh LastReply s s') : ∃ done' owed', Woven s' done' owed' := by
  cases hchange with
  | rewrite hrows hcommands => exact ⟨done, owed, h.rewrite hrows hcommands⟩
  | add row hrole hcalls hrows hcommands =>
    exact ⟨done, owed, h.add hrole hcalls hrows hcommands⟩
  | batch messageId made rest hbatch _ hcommands =>
    refine ⟨_, _, h.batch hbatch (List.map_append ..) (fun tools htools => ?_)
      (hcommands ▸ h.nodup) fun p hp => .inl (hcommands ▸ hp)⟩
    rw [List.append_nil]
    exact answersId_of_answers htools
  | cut _ messageId made rest record late hbatch hlate hcommands =>
    obtain rfl | ⟨tool, body, rfl, htool⟩ := hlate
    · refine ⟨_, _, h.batch hbatch (List.map_append ..) (fun tools htools => ?_)
        (hcommands ▸ h.nodup) fun p hp => .inl (hcommands ▸ hp)⟩
      rw [List.append_nil]
      exact answersId_of_answers htools
    · -- The call has its tool row; only its record does not say so.
      have hids : (made ++ record :: rest).map ChatToolCall.id =
          (made.map ChatToolCall.id ++ [record.id]) ++ rest.map ChatToolCall.id := by simp
      refine ⟨_, _, h.batch hbatch hids (fun tools htools => ?_) (hcommands ▸ h.nodup)
        fun p hp => .inl (hcommands ▸ hp)⟩
      exact List.rel_append (answersId_of_answers htools) (.cons ⟨body, htool⟩ .nil)
  | decide p tool status body hlast hpending htool _ hrows hcommands =>
    obtain ⟨owed', howed, hthreaded⟩ := h.answer hnumbered hlast hpending ⟨body, htool⟩
    refine ⟨_, _, h.resolve howed ?_ hcommands ?_⟩
    · rw [hrows]
      exact hthreaded.decided p status body
    · intro row hrow records hcalls
      have hids := recordIds_settled p status body [row]
      obtain ⟨records', hrecords'⟩ : ∃ records',
          (settled p status body row).toolCalls = some records' := by
        rw [settled]
        split
        · exact ⟨_, by rw [hcalls]; rfl⟩
        · exact ⟨records, hcalls⟩
      refine ⟨settled p status body row, ?_, settled_id .., records', hrecords', ?_⟩
      · rw [hrows]
        exact List.mem_map_of_mem (List.mem_append_left _ hrow)
      · simpa [recordIds, recordsOf, hrecords', hcalls] using hids
  | drop _ p late hlast hpending hlate hrows hcommands =>
    have hsame : ∀ row ∈ s.messages, ∀ records, row.toolCalls = some records →
        ∃ row' ∈ s'.messages, row'.id = row.id ∧ ∃ records', row'.toolCalls = some records' ∧
          records'.map ChatToolCall.id = records.map ChatToolCall.id := by
      intro row hrow records hcalls
      exact ⟨row, hrows ▸ List.mem_append_left _ hrow, rfl, records, hcalls, rfl⟩
    obtain rfl | ⟨tool, body, rfl, htool⟩ := hlate
    · rw [List.append_nil] at hrows
      refine ⟨done, owed, hrows ▸ h.threaded, h.separate, ?_, ?_⟩
      · intro q' hq'
        rw [hcommands] at hq'
        obtain ⟨q, hq, rfl⟩ := List.mem_map.mp hq'
        obtain ⟨hknown, hwaits⟩ := h.commands q hq
        split
        · refine ⟨hknown, fun hpending' => ?_⟩
          cases hpending'
        · exact ⟨hknown, fun hpending' =>
            (hwaits hpending').mono (hwaits hpending').1 (fun _ hi => hi) hsame⟩
      · rw [hcommands, callIds_resolvePendingCommand]
        exact h.nodup
    · obtain ⟨owed', howed, hthreaded⟩ := h.answer hnumbered hlast hpending ⟨body, htool⟩
      exact ⟨_, _, h.resolve howed (hrows ▸ hthreaded) hcommands hsame⟩

theorem Woven.proposal (h : Woven s done owed) (hproposal : Proposal Fresh s s') :
    ∃ done' owed', Woven s' done' owed' := by
  obtain ⟨messageId, made, record, candidates, cwd, hbatch, -, hcommands⟩ := hproposal.proposed
  obtain ⟨calls, hpre, hfresh⟩ := hbatch.ids
  have hnew : ∀ q ∈ s.pendingCommands, q.callId ≠ record.id := by
    intro q hq heq
    have hknown : q.callId ∈ recordIds s.messages :=
      h.threaded.ids.symm.subset (h.commands q hq).1
    have hcall : record.id ∈ calls := hpre.subset (List.mem_map_of_mem (by simp))
    exact (hfresh.unknown _ hknown _ hcall).ne heq
  rw [insertPendingCommand_of_new hnew] at hcommands
  refine ⟨_, _, h.batch hbatch (List.map_append ..) (fun tools htools => ?_) ?_ fun p hp => ?_⟩
  · rw [List.append_nil]
    exact answersId_of_answers htools
  · rw [hcommands, List.map_append, List.map_singleton]
    refine List.nodup_append.mpr ⟨h.nodup, List.nodup_singleton _, ?_⟩
    rintro a ha b hb rfl
    obtain ⟨q, hq, rfl⟩ := List.mem_map.mp ha
    exact hnew q hq (List.mem_singleton.mp hb)
  · rw [hcommands, List.mem_append, List.mem_singleton] at hp
    refine hp.imp id ?_
    rintro rfl
    exact ⟨by simp, rfl, rfl⟩

theorem Woven.moves {start : Store} (h : Woven start done owed) (hnumbered : Numbered start)
    (hmoves : Moves True Fresh LastReply start s) :
    ∃ done' owed', Woven s done' owed' ∧ Numbered s := by
  induction hmoves with
  | refl => exact ⟨done, owed, h, hnumbered⟩
  | tail _ hstep ih =>
    obtain ⟨done₁, owed₁, h₁, hnumbered₁⟩ := ih
    obtain ⟨done₂, owed₂, h₂⟩ := h₁.change hnumbered₁ hstep.1
    exact ⟨done₂, owed₂, h₂, hstep.2⟩

theorem Woven.leaves {start : Store} (h : Woven start done owed) (hnumbered : Numbered start)
    (hleaves : Leaves True Fresh LastReply start s) : ∃ done' owed', Woven s done' owed' := by
  obtain hmoves | ⟨before, hmoves, hproposal, -⟩ := hleaves
  · obtain ⟨done', owed', h', -⟩ := h.moves hnumbered hmoves
    exact ⟨done', owed', h'⟩
  · obtain ⟨done', owed', h', -⟩ := h.moves hnumbered hmoves
    exact h'.proposal hproposal

end Woven

/-! ### Every conversation -/

def InPlace (w : World) (l : TurnLabel) : Prop :=
  CallsMeet Fresh w l ∧ ∀ decision, l.request = .decide decision → LastReply w.store

theorem wrote_inPlace {w w' : World} {l : TurnLabel} (hnumbered : Numbered w.store)
    (hplace : InPlace w l) (hturn : chat.step w l = some w') :
    Wrote True Fresh LastReply w.store w' := wrote_turn hnumbered hplace.1 hplace.2 hturn

theorem woven_of_run {ls : List TurnLabel} {w : World} (hplace : chat.Along InPlace chat.init ls)
    (hrun : chat.exec chat.init ls = some w) : ∃ done owed, Woven w.store done owed := by
  suffices Numbered w.store ∧ ∃ done owed, Woven w.store done owed from this.2
  refine chat.invariant (I := fun w => Numbered w.store ∧ ∃ done owed, Woven w.store done owed)
    ⟨numbered_empty, _, _, woven_empty⟩ ?_ hplace hrun
  rintro w l w' ⟨hnumbered, done, owed, hwoven⟩ hplace hturn
  have hwrote := wrote_inPlace hnumbered hplace hturn
  exact ⟨hwrote.numbered, hwoven.leaves hnumbered hwrote.leaves⟩

def requests (trace : List Act) : List CompletionRequest :=
  trace.filterMap fun act =>
    match act.op with
    | .completeStream request => some request
    | _ => none

theorem mem_requests {trace : List Act} {request : CompletionRequest} :
    request ∈ requests trace ↔ ∃ act ∈ trace, act.op = .completeStream request := by
  rw [requests, List.mem_filterMap]
  refine exists_congr fun act => and_congr_right fun _ => ?_
  cases act.op <;> simp

/-- **Provider-valid history**, in every conversation whose commands are decided in place: each
message with calls is followed at once by the answers to exactly these. The store may fail. -/
theorem history_valid_of_inPlace {ls : List TurnLabel} {l : TurnLabel} {w w' : World}
    (hplace : chat.Along InPlace chat.init (ls ++ [l])) (hrun : chat.exec chat.init ls = some w)
    (hturn : chat.step w l = some w') :
    ∀ request ∈ requests w'.trace, ProviderValid request.history := by
  intro request hmem
  obtain ⟨act, hact, hrequest⟩ := mem_requests.mp hmem
  obtain ⟨done, owed, hwoven⟩ := woven_of_run hplace.of_append hrun
  have hnumbered := numbered_of_run hrun
  have hwrote := wrote_inPlace hnumbered (hplace.last hrun) hturn
  obtain hnil | ⟨s, hmoves, thoughts, hhistory⟩ := hwrote.asked act hact request hrequest
  · rw [hnil]
    trivial
  · obtain ⟨done', owed', h', -⟩ := hwoven.moves hnumbered hmoves
    rw [hhistory]
    exact h'.threaded.providerValid h'.separate thoughts

def listFiles : LlmToolCall :=
  ⟨"a".toList, "run_command".toList, .object [("command", .string "ls")]⟩

/-- A command is proposed, and approved at once: the output answers the call. -/
theorem history_valid_of_approval :
    let first : TurnLabel := ⟨plain, .prompt "hello".toList, caller listFiles false⟩
    let second : TurnLabel := ⟨plain, .decide (.approve "ls".toList), caller listFiles false⟩
    ∃ w w', chat.exec chat.init [first] = some w ∧ chat.step w second = some w' ∧
      ∀ request ∈ requests w'.trace, ProviderValid request.history := by
  intro first second
  have hmeets : ∀ request w, CallsMeet Fresh w ⟨plain, request, caller listFiles false⟩ :=
    callsMeet_caller fresh_first plain
  obtain ⟨w, hrun⟩ : ∃ w, chat.exec chat.init [first] = some w := ⟨_, rfl⟩
  have hlast : LastReply w.store := by
    have hdecided : (chat.exec chat.init [first]).all fun w => LastReply w.store := by
      decide +kernel
    simpa [hrun] using hdecided
  have hplace : chat.Along InPlace chat.init ([first] ++ [second]) := by
    refine ⟨⟨hmeets _ _, nofun⟩, fun w' hw' => ⟨⟨hmeets _ _, fun _ _ => ?_⟩, fun _ _ => trivial⟩⟩
    obtain rfl : w' = w := Option.some.inj (hw'.symm.trans hrun)
    exact hlast
  obtain ⟨w', hturn⟩ : ∃ w', chat.step w second = some w' := ⟨_, rfl⟩
  exact ⟨w, w', hrun, hturn, history_valid_of_inPlace hplace hrun hturn⟩

/-- A prompt is sent while the command waits: its tool row comes after the prompt. -/
theorem not_history_valid : ¬ ∀ (ls : List TurnLabel) (l : TurnLabel) (w w' : World),
    chat.Along (CallsMeet Fresh) chat.init (ls ++ [l]) → chat.exec chat.init ls = some w →
    chat.step w l = some w' → ∀ request ∈ requests w'.trace, ProviderValid request.history := by
  intro h
  let first : TurnLabel := ⟨plain, .prompt "hello".toList, caller listFiles false⟩
  let second : TurnLabel := ⟨plain, .prompt "again".toList, caller listFiles false⟩
  let third : TurnLabel := ⟨plain, .decide (.approve "ls".toList), caller listFiles false⟩
  have hmeets : ∀ request w, CallsMeet Fresh w ⟨plain, request, caller listFiles false⟩ :=
    callsMeet_caller fresh_first plain
  obtain ⟨w, hrun⟩ : ∃ w, chat.exec chat.init [first, second] = some w := ⟨_, rfl⟩
  obtain ⟨w', hturn⟩ : ∃ w', chat.step w third = some w' := ⟨_, rfl⟩
  have hvalid := h [first, second] third w w'
    ⟨hmeets _ _, fun _ _ => ⟨hmeets _ _, fun _ _ => ⟨hmeets _ _, fun _ _ => trivial⟩⟩⟩ hrun hturn
  have hinvalid : ((chat.exec chat.init [first, second]).bind (chat.step · third)).any (fun w =>
      (requests w.trace).any fun request => !decide (ProviderValid request.history)) = true := by
    decide +kernel
  rw [hrun, Option.bind_some, hturn, Option.any_some, List.any_eq_true] at hinvalid
  obtain ⟨request, hmem, hrequest⟩ := hinvalid
  simp only [Bool.not_eq_true', decide_eq_false_iff_not] at hrequest
  exact hrequest (hvalid request hmem)

end Goble.Mission
