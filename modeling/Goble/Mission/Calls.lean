import Goble.Mission.Endings
import Goble.Mission.Writes

/-!
# The life of a tool call

A call has a record in the row of the reply that made it, a tool row once it has run, and events.
The three agree: each call that starts has its outcome told before the next one starts; when a turn
ends, no record it made is `Running` but that of a command that awaits approval; and a record is
`Finished` or `Error` exactly when there is a tool row for it, with the same body.

The last is a law of whole conversations (`Matched`). It needs the ids of the calls to be new to the
chat: a batch that uses an id again and is cancelled leaves a `Pending` record beside the old tool
row.
-/

namespace Goble.Mission

def ChatToolCall.Final (record : ChatToolCall) : Prop :=
  record.status = .finished ∨ record.status = .error

def Awaits (s : Store) (row : ChatRow) (record : ChatToolCall) : Prop :=
  ∃ p ∈ s.pendingCommands, p.pending ∧ p.callId = record.id ∧ p.messageId = some row.id

structure RecordsAgree (s : Store) : Prop where
  answered : ∀ record ∈ recordsOf s.messages, record.Final →
    ∃ tool ∈ s.messages, ∃ body, record.result = some body ∧ IsToolRow tool record.id body
  owed : ∀ record ∈ recordsOf s.messages, ∀ tool ∈ s.messages, ∀ body, tool.role = .tool →
    tool.content = toolRow record.id body → record.Final ∧ record.result = some body

/-! ### Records of the turn -/

def Calm (start s : Store) : Prop :=
  ∀ row ∈ s.messages, (∀ old ∈ start.messages, old.id ≠ row.id) →
    ∀ record ∈ row.toolCalls.getD [], record.status ≠ .running

section Calm

variable {F : List (List Char) → List (List Char) → Prop} {G : Store → Prop} {start s s' : Store}

theorem Answers.not_running {tool : ChatRow} {record : ChatToolCall} (h : Answers tool record) :
    record.status ≠ .running := by
  intro hrunning
  obtain hfinished | herror := h.isFinal
  · cases hrunning.symm.trans hfinished
  · cases hrunning.symm.trans herror

theorem Batch.records {messageId : Nat} {done rest : List ChatToolCall}
    (h : Batch F s s' messageId done rest []) : ∀ row ∈ s'.messages, row ∈ s.messages ∨
      (row.id = messageId ∧ row.role = .assistant ∧ row.toolCalls = some (done ++ rest)) ∨
      ∃ record ∈ done, Answers row record := by
  obtain ⟨pre, row, tools, hrows, hid, hrole, -, htools, hrows'⟩ := h.rows
  intro other hother
  rw [hrows', List.append_nil, List.mem_append, List.mem_cons] at hother
  obtain hpre | rfl | htool := hother
  · left
    rw [hrows]
    exact List.mem_append_left _ hpre
  · exact .inr (.inl ⟨hid, hrole, rfl⟩)
  · exact .inr (.inr (exists_mem_of_forall₂ htools htool))

theorem Calm.batch {messageId : Nat} {done rest : List ChatToolCall} (h : Calm start s)
    (hbatch : Batch F s s' messageId done rest []) :
    ∀ row ∈ s'.messages, (∀ old ∈ start.messages, old.id ≠ row.id) →
      ∀ record ∈ row.toolCalls.getD [], record.status = .running →
        row.id = messageId ∧ record ∈ rest := by
  intro row hrow hnew record hrecord hrunning
  obtain hold | ⟨hid, -, hcalls⟩ | ⟨other, -, hanswers⟩ := hbatch.records row hrow
  · exact absurd hrunning (h row hold hnew record hrecord)
  · rw [hcalls, Option.getD_some, List.mem_append] at hrecord
    refine ⟨hid, hrecord.resolve_left fun hdone => ?_⟩
    obtain ⟨-, -, tools, -, -, -, -, htools, -⟩ := hbatch.rows
    obtain ⟨tool, -, hanswers⟩ := exists_mem_of_forall₂ htools.flip hdone
    exact hanswers.not_running hrunning
  · obtain ⟨body, -, htool⟩ := hanswers.isToolRow
    rw [htool.toolCalls] at hrecord
    cases hrecord

theorem Calm.change (h : Calm start s) (hchange : Change False F G s s') : Calm start s' := by
  intro row hrow hnew record hrecord hrunning
  cases hchange with
  | rewrite hrows _ =>
    obtain ⟨old, hold, halike⟩ := exists_mem_of_forall₂ hrows.flip hrow
    refine h old hold (fun other hother => ?_) record ?_ hrunning
    · rw [← halike.id]
      exact hnew other hother
    · rw [← halike.toolCalls]
      exact hrecord
  | add added _ hcalls hrows _ =>
    rw [hrows, List.mem_append, List.mem_singleton] at hrow
    obtain hold | rfl := hrow
    · exact h row hold hnew record hrecord hrunning
    · rw [hcalls] at hrecord
      cases hrecord
  | batch messageId done rest hbatch hrest _ =>
    obtain ⟨-, hmem⟩ := h.batch hbatch row hrow hnew record hrecord hrunning
    cases hrunning.symm.trans (hrest record hmem)
  | cut hfails => exact hfails
  | decide p tool status body _ _ htool hstatus hrows _ =>
    rw [hrows, List.mem_map] at hrow
    obtain ⟨old, hold, rfl⟩ := hrow
    obtain hrecord | ⟨found, -, -, rfl⟩ := mem_settled hrecord
    · rw [List.mem_append, List.mem_singleton] at hold
      obtain hold | rfl := hold
      · refine h old hold (fun other hother => ?_) record hrecord hrunning
        rw [← settled_id p status body old]
        exact hnew other hother
      · rw [htool.toolCalls] at hrecord
        cases hrecord
    · -- The record of the decided call is final.
      obtain rfl | rfl := hstatus <;> cases hrunning
  | drop hfails => exact hfails

/-- When a turn ends, the record it left `Running` is that of the proposed command. -/
theorem awaits_of_leaves (hleaves : Leaves False F G start s) (hstart : Calm start start) :
    ∀ row ∈ s.messages, (∀ old ∈ start.messages, old.id ≠ row.id) →
      ∀ record ∈ row.toolCalls.getD [], record.status = .running → Awaits s row record := by
  have hcalm : ∀ s, Moves False F G start s → Calm start s := by
    intro s hmoves
    induction hmoves with
    | refl => exact hstart
    | tail _ hstep ih => exact ih.change hstep.1
  intro row hrow hnew record hrecord hrunning
  obtain hmoves | ⟨before, hmoves, ⟨messageId, done, last, candidates, cwd, hbatch, -, hcommands⟩,
    -⟩ := hleaves
  · exact absurd hrunning (hcalm s hmoves row hrow hnew record hrecord)
  · obtain ⟨hid, hmem⟩ := (hcalm before hmoves).batch hbatch row hrow hnew record hrecord hrunning
    obtain rfl := List.mem_singleton.mp hmem
    refine ⟨⟨record.id, some messageId, candidates, cwd, true⟩, ?_, rfl, rfl,
      congrArg some hid.symm⟩
    rw [hcommands, mem_insertPendingCommand]
    exact .inl rfl

end Calm

/-! ### Records and tool rows -/

structure Matched (s : Store) : Prop where
  separate : (recordIds s.messages).Pairwise Separate
  answered : ∀ record ∈ recordsOf s.messages, record.Final → ∃ tool ∈ s.messages, Answers tool record
  owed : ∀ tool ∈ s.messages, tool.role = .tool → ∃ record ∈ recordsOf s.messages, Answers tool record
  commands : ∀ p ∈ s.pendingCommands, ∃ row ∈ s.messages, p.messageId = some row.id ∧
    ∃ record ∈ row.toolCalls.getD [], record.id = p.callId ∧ (p.pending → record.status = .running)
  nodup : (s.pendingCommands.map CommandRow.callId).Nodup

theorem matched_empty : Matched .empty :=
  ⟨List.Pairwise.nil, nofun, nofun, nofun, List.nodup_nil⟩

section Matched

variable {G : Store → Prop} {s s' : Store}

theorem Matched.recordsAgree (h : Matched s) : RecordsAgree s := by
  constructor
  · intro record hrecord hfinal
    obtain ⟨tool, htool, hanswers⟩ := h.answered record hrecord hfinal
    exact ⟨tool, htool, hanswers.isToolRow⟩
  · intro record hrecord tool htool body hrole hcontent
    obtain ⟨other, hother, hanswers⟩ := h.owed tool htool hrole
    obtain ⟨result, hresult, hrow⟩ := hanswers.isToolRow
    have hsame := hcontent.symm.trans hrow.content
    obtain rfl := record_eq_of_id h.separate hrecord hother (not_separate_of_toolRow_eq hsame)
    have hbody : body = result := List.tail_eq_of_cons_eq (List.append_cancel_left hsame)
    exact ⟨hanswers.isFinal, hbody ▸ hresult⟩

theorem Matched.rewrite (h : Matched s) (hrows : List.Forall₂ Alike s.messages s'.messages)
    (hcommands : s'.pendingCommands = s.pendingCommands) : Matched s' := by
  have hrecords := recordsOf_alike hrows
  have hanswers : ∀ {tool tool' record}, Alike tool tool' → Answers tool record →
      Answers tool' record := by
    intro tool tool' record halike hanswers
    obtain ⟨body, hresult, htool⟩ := hanswers.isToolRow
    refine ⟨hanswers.isFinal, body, hresult, halike.role.trans htool.role,
      halike.toolCalls.trans htool.toolCalls, (halike.content htool.role).trans htool.content⟩
  refine ⟨?_, ?_, ?_, ?_, hcommands ▸ h.nodup⟩
  · rw [recordIds, hrecords]
    exact h.separate
  · intro record hrecord hfinal
    obtain ⟨tool, htool, hrecord⟩ := h.answered record (hrecords ▸ hrecord) hfinal
    obtain ⟨tool', htool', halike⟩ := exists_mem_of_forall₂ hrows htool
    exact ⟨tool', htool', hanswers halike hrecord⟩
  · intro tool htool hrole
    obtain ⟨old, hold, halike⟩ := exists_mem_of_forall₂ hrows.flip htool
    obtain ⟨record, hrecord, hold⟩ := h.owed old hold (halike.role.symm.trans hrole)
    exact ⟨record, hrecords.symm ▸ hrecord, hanswers halike hold⟩
  · intro p hp
    obtain ⟨row, hrow, hid, record, hrecord, hcall⟩ := h.commands p (hcommands ▸ hp)
    obtain ⟨row', hrow', halike⟩ := exists_mem_of_forall₂ hrows hrow
    refine ⟨row', hrow', ?_, record, ?_, hcall⟩
    · rw [hid, halike.id]
    · rw [halike.toolCalls]
      exact hrecord

theorem Matched.add (h : Matched s) {row : ChatRow} (hrole : row.role ≠ .tool)
    (hcalls : row.toolCalls = none) (hrows : s'.messages = s.messages ++ [row])
    (hcommands : s'.pendingCommands = s.pendingCommands) : Matched s' := by
  have hrecords : recordsOf s'.messages = recordsOf s.messages := by
    rw [hrows, recordsOf_concat hcalls]
  have hold : ∀ other ∈ s.messages, other ∈ s'.messages := fun other hother =>
    hrows ▸ List.mem_append_left _ hother
  refine ⟨?_, ?_, ?_, ?_, hcommands ▸ h.nodup⟩
  · rw [recordIds, hrecords]
    exact h.separate
  · intro record hrecord hfinal
    obtain ⟨tool, htool, hanswers⟩ := h.answered record (hrecords ▸ hrecord) hfinal
    exact ⟨tool, hold tool htool, hanswers⟩
  · intro tool htool htoolRole
    rw [hrows, List.mem_append, List.mem_singleton] at htool
    obtain htool | rfl := htool
    · obtain ⟨record, hrecord, hanswers⟩ := h.owed tool htool htoolRole
      exact ⟨record, hrecords.symm ▸ hrecord, hanswers⟩
    · exact absurd htoolRole hrole
  · intro p hp
    obtain ⟨other, hother, hid, hrecord⟩ := h.commands p (hcommands ▸ hp)
    exact ⟨other, hold other hother, hid, hrecord⟩

theorem Matched.batch (h : Matched s) {messageId : Nat} {done rest : List ChatToolCall}
    (hbatch : Batch Fresh s s' messageId done rest []) (hrest : ∀ record ∈ rest, ¬ record.Final)
    (hnodup : (s'.pendingCommands.map CommandRow.callId).Nodup)
    (hcommands : ∀ p ∈ s'.pendingCommands, p ∈ s.pendingCommands ∨ p.messageId = some messageId ∧
      ∃ record ∈ done ++ rest, record.id = p.callId ∧ (p.pending → record.status = .running)) :
    Matched s' := by
  obtain ⟨pre, row, tools, hrows, hid, hrole, hnone, htools, hrows'⟩ := hbatch.rows
  obtain ⟨calls, hpre, hfresh⟩ := hbatch.ids
  rw [List.append_nil] at hrows'
  have htoolRow : ∀ tool ∈ tools, tool.toolCalls = none := by
    intro tool htool
    obtain ⟨record, -, hanswers⟩ := exists_mem_of_forall₂ htools htool
    obtain ⟨body, -, hisRow⟩ := hanswers.isToolRow
    exact hisRow.toolCalls
  have hrecords : recordsOf s.messages = recordsOf pre := by
    rw [hrows, recordsOf_concat hnone]
  have hrecords' : recordsOf s'.messages = recordsOf s.messages ++ (done ++ rest) := by
    rw [hrows', recordsOf_append, recordsOf_cons, recordsOf_of_none htoolRow, List.append_nil,
      hrecords]
    rfl
  -- A row that was there is there still, but for the reply that had no calls yet.
  have hold : ∀ other ∈ s.messages, other ≠ row → other ∈ s'.messages := by
    intro other hother hne
    rw [hrows, List.mem_append, List.mem_singleton] at hother
    rw [hrows']
    exact List.mem_append_left _ (hother.resolve_right hne)
  refine ⟨?_, ?_, ?_, ?_, hnodup⟩
  · rw [recordIds, hrecords', List.map_append]
    exact (hfresh.of_prefix hpre).append h.separate
  · intro record hrecord hfinal
    rw [hrecords', List.mem_append, List.mem_append] at hrecord
    obtain hrecord | hdone | hmem := hrecord
    · obtain ⟨tool, htool, hanswers⟩ := h.answered record hrecord hfinal
      refine ⟨tool, hold tool htool ?_, hanswers⟩
      rintro rfl
      obtain ⟨body, -, hisRow⟩ := hanswers.isToolRow
      cases hrole.symm.trans hisRow.role
    · obtain ⟨tool, htool, hanswers⟩ := exists_mem_of_forall₂ htools.flip hdone
      refine ⟨tool, ?_, hanswers⟩
      rw [hrows']
      exact List.mem_append_right _ (List.mem_cons_of_mem _ htool)
    · exact absurd hfinal (hrest record hmem)
  · intro tool htool htoolRole
    rw [hrecords']
    rw [hrows', List.mem_append, List.mem_cons] at htool
    obtain hpre | rfl | htool := htool
    · obtain ⟨record, hrecord, hanswers⟩ := h.owed tool (hrows ▸ List.mem_append_left _ hpre)
        htoolRole
      exact ⟨record, List.mem_append_left _ hrecord, hanswers⟩
    · cases hrole.symm.trans htoolRole
    · obtain ⟨record, hdone, hanswers⟩ := exists_mem_of_forall₂ htools htool
      exact ⟨record, List.mem_append_right _ (List.mem_append_left _ hdone), hanswers⟩
  · intro p hp
    obtain hp | ⟨hmessage, hrecord⟩ := hcommands p hp
    · obtain ⟨other, hother, hid, record, hrecord, hcall⟩ := h.commands p hp
      refine ⟨other, hold other hother ?_, hid, record, hrecord, hcall⟩
      rintro rfl
      rw [hnone] at hrecord
      cases hrecord
    · refine ⟨{ row with toolCalls := some (done ++ rest) }, ?_, ?_, hrecord⟩
      · rw [hrows']
        exact List.mem_append_right _ (List.mem_cons_self ..)
      · rw [hmessage, ← hid]

theorem Matched.decide (h : Matched s) {p : CommandRow} {tool : ChatRow}
    {status : ToolCallStatus} {body : List Char} (hpending : s.getPendingCommand = some p)
    (htool : IsToolRow tool p.callId body) (hstatus : status = .finished ∨ status = .error)
    (hrows : s'.messages = (s.messages ++ [tool]).map (settled p status body))
    (hcommands : s'.pendingCommands = (s.resolvePendingCommand p.callId).pendingCommands) :
    Matched s' := by
  have hp : p ∈ s.pendingCommands := List.mem_of_find?_eq_some hpending
  obtain ⟨row, hrow, hid, record, hrecord, hcall, hrunning⟩ := h.commands p hp
  have hrunning : record.status = .running := hrunning (List.find?_some hpending)
  have hmem : record ∈ recordsOf s.messages := mem_recordsOf.mpr ⟨row, hrow, hrecord⟩
  -- The record of the proposal is the only one with the id of the call.
  have honly : ∀ other ∈ recordsOf s.messages, other.id = p.callId → other = record := by
    intro other hother hsame
    refine record_eq_of_id h.separate hother hmem fun hsep => hsep.ne ?_
    rw [hsame, hcall]
  have htoolSame : settled p status body tool = tool := settled_of_none htool.toolCalls ..
  have hrows' : s'.messages = s.messages.map (settled p status body) ++ [tool] := by
    rw [hrows, List.map_append, List.map_singleton, htoolSame]
  have hnew : { record with status := status, result := some body } ∈ recordsOf s'.messages := by
    obtain ⟨old, hold, holdId, hsettled⟩ := settled_mem hrecord hcall hid status body
    obtain rfl := honly old (mem_recordsOf.mpr ⟨row, hrow, hold⟩) holdId
    refine mem_recordsOf.mpr ⟨_, ?_, hsettled⟩
    rw [hrows']
    exact List.mem_append_left _ (List.mem_map_of_mem hrow)
  have hkept : ∀ other ∈ recordsOf s.messages, other.id ≠ p.callId →
      other ∈ recordsOf s'.messages := by
    intro other hother hne
    obtain ⟨at_, hat, hother⟩ := mem_recordsOf.mp hother
    refine mem_recordsOf.mpr ⟨_, ?_, mem_settled_of_ne hother hne status body⟩
    rw [hrows']
    exact List.mem_append_left _ (List.mem_map_of_mem hat)
  have hsame : ∀ other ∈ s.messages, other.toolCalls = none → other ∈ s'.messages := by
    intro other hother hnone
    rw [hrows', ← settled_of_none hnone p status body]
    exact List.mem_append_left _ (List.mem_map_of_mem hother)
  have hanswers : Answers tool { record with status := status, result := some body } :=
    ⟨hstatus, body, rfl, hcall.symm ▸ htool⟩
  have hnewTool : tool ∈ s'.messages := hrows'.symm ▸ List.mem_append_right _ (.head _)
  refine ⟨?_, ?_, ?_, ?_, ?_⟩
  · rw [hrows, recordIds_settled, recordIds, recordsOf_concat htool.toolCalls]
    exact h.separate
  · intro other hother hfinal
    obtain ⟨at_, hat, hother⟩ := mem_recordsOf.mp hother
    rw [hrows', List.mem_append, List.mem_map, List.mem_singleton] at hat
    obtain ⟨old, hold, rfl⟩ | rfl := hat
    · obtain hother | ⟨found, hfound, hfoundId, rfl⟩ := mem_settled hother
      · obtain ⟨answer, hanswer, hrow'⟩ := h.answered other
          (mem_recordsOf.mpr ⟨old, hold, hother⟩) hfinal
        obtain ⟨_, -, hisRow⟩ := hrow'.isToolRow
        exact ⟨answer, hsame answer hanswer hisRow.toolCalls, hrow'⟩
      · obtain rfl := honly found (mem_recordsOf.mpr ⟨old, hold, hfound⟩) hfoundId
        exact ⟨tool, hnewTool, hanswers⟩
    · rw [htool.toolCalls] at hother
      cases hother
  · intro other hother hrole
    rw [hrows', List.mem_append, List.mem_map, List.mem_singleton] at hother
    obtain ⟨old, hold, rfl⟩ | rfl := hother
    · rw [settled_role] at hrole
      obtain ⟨answered, hanswered, hrow'⟩ := h.owed old hold hrole
      obtain ⟨_, -, hisRow⟩ := hrow'.isToolRow
      rw [settled_of_none hisRow.toolCalls]
      refine ⟨answered, hkept answered hanswered fun heq => ?_, hrow'⟩
      -- The call of the proposal has no tool row yet.
      rw [honly answered hanswered heq] at hrow'
      exact hrow'.not_running hrunning
    · exact ⟨_, hnew, hanswers⟩
  · intro q' hq'
    rw [hcommands] at hq'
    obtain ⟨q, hq, rfl⟩ := List.mem_map.mp hq'
    split
    · next heq =>
      obtain rfl : q = p := List.inj_on_of_nodup_map h.nodup hq hp heq
      obtain ⟨old, hold, holdId, hsettled⟩ := settled_mem hrecord hcall hid status body
      refine ⟨settled q status body row, ?_, ?_, _, hsettled, holdId, fun hpending => ?_⟩
      · rw [hrows']
        exact List.mem_append_left _ (List.mem_map_of_mem hrow)
      · rw [settled_id]
        exact hid
      · cases hpending
    · next hne =>
      obtain ⟨at_, hat, hatId, found, hfound, hfoundId, hfoundRunning⟩ := h.commands q hq
      refine ⟨settled p status body at_, ?_, ?_, found, ?_, hfoundId, hfoundRunning⟩
      · rw [hrows']
        exact List.mem_append_left _ (List.mem_map_of_mem hat)
      · rw [settled_id]
        exact hatId
      · exact mem_settled_of_ne hfound (hfoundId.trans_ne hne) status body
  · rw [hcommands, callIds_resolvePendingCommand]
    exact h.nodup

theorem Matched.change (h : Matched s) (hchange : Change False Fresh G s s') : Matched s' := by
  cases hchange with
  | rewrite hrows hcommands => exact h.rewrite hrows hcommands
  | add row hrole hcalls hrows hcommands => exact h.add hrole hcalls hrows hcommands
  | batch messageId done rest hbatch hrest hcommands =>
    refine h.batch hbatch (fun record hrecord hfinal => ?_) (hcommands ▸ h.nodup)
      fun p hp => .inl (hcommands ▸ hp)
    have hpending := hrest record hrecord
    obtain hfinished | herror := hfinal
    · cases hpending.symm.trans hfinished
    · cases hpending.symm.trans herror
  | cut hfails => exact hfails.elim
  | decide p tool status body _ hpending htool hstatus hrows hcommands =>
    exact h.decide hpending htool hstatus hrows hcommands
  | drop hfails => exact hfails.elim

theorem Matched.proposal (h : Matched s) (hproposal : Proposal Fresh s s') : Matched s' := by
  obtain ⟨messageId, done, record, candidates, cwd, hbatch, hrunning, hcommands⟩ := hproposal.proposed
  obtain ⟨calls, hpre, hfresh⟩ := hbatch.ids
  have hnew : ∀ q ∈ s.pendingCommands, q.callId ≠ record.id := by
    intro q hq heq
    obtain ⟨row, hrow, -, found, hfound, hid, -⟩ := h.commands q hq
    have hknown : found.id ∈ recordIds s.messages :=
      List.mem_map_of_mem (mem_recordsOf.mpr ⟨row, hrow, hfound⟩)
    have hcall : record.id ∈ calls := hpre.subset (List.mem_map_of_mem (by simp))
    exact (hfresh.unknown _ hknown _ hcall).ne (hid.trans heq)
  have hlist := insertPendingCommand_of_new
    (p := ⟨record.id, some messageId, candidates, cwd, true⟩) hnew
  rw [hlist] at hcommands
  refine h.batch hbatch (fun other hother hfinal => ?_) ?_ fun p hp => ?_
  · obtain rfl := List.mem_singleton.mp hother
    obtain hfinished | herror := hfinal
    · cases hrunning.symm.trans hfinished
    · cases hrunning.symm.trans herror
  · rw [hcommands, List.map_append, List.map_singleton]
    refine List.nodup_append.mpr ⟨h.nodup, List.nodup_singleton _, ?_⟩
    rintro a ha b hb rfl
    obtain ⟨q, hq, rfl⟩ := List.mem_map.mp ha
    exact hnew q hq (List.mem_singleton.mp hb)
  · rw [hcommands, List.mem_append, List.mem_singleton] at hp
    refine hp.imp id ?_
    rintro rfl
    exact ⟨rfl, record, by simp, rfl, fun _ => hrunning⟩

theorem Matched.leaves {start : Store} (h : Matched start)
    (hleaves : Leaves False Fresh G start s) : Matched s := by
  have hmatched : ∀ s, Moves False Fresh G start s → Matched s := by
    intro s hmoves
    induction hmoves with
    | refl => exact h
    | tail _ hstep ih => exact ih.change hstep.1
  obtain hmoves | ⟨before, hmoves, hproposal, -⟩ := hleaves
  · exact hmatched s hmoves
  · exact (hmatched before hmoves).proposal hproposal

end Matched

/-! ### Every conversation -/

theorem numbered_of_run {ls : List TurnLabel} {w : World}
    (hrun : chat.exec chat.init ls = some w) : Numbered w.store := by
  refine chat.invariant_of_step (I := fun w => Numbered w.store) numbered_empty ?_ hrun
  intro w l w' hnumbered hturn
  have hwrote : Wrote True (fun _ _ => True) (fun _ => True) w.store w' :=
    wrote_turn hnumbered (callsMeet_true w l) (fun _ _ => trivial) hturn
  exact hwrote.numbered

theorem matched_of_run {ls : List TurnLabel} {w : World}
    (hsteady : ∀ k ∈ ls, ∀ world call, k.env world (.store call) = none)
    (hfresh : chat.Along (CallsMeet Fresh) chat.init ls)
    (hrun : chat.exec chat.init ls = some w) : Matched w.store := by
  suffices Numbered w.store ∧ Matched w.store from this.2
  refine chat.invariant (I := fun w => Numbered w.store ∧ Matched w.store)
    ⟨numbered_empty, matched_empty⟩ ?_ (hfresh.and_labels hsteady) hrun
  rintro w l w' ⟨hnumbered, hmatched⟩ ⟨hmeets, hsteady⟩ hturn
  have hwrote : Wrote False Fresh (fun _ => True) w.store w' :=
    wrote_turn hnumbered (hmeets.steady hsteady) (fun _ _ => trivial) hturn
  exact ⟨hwrote.numbered, hmatched.leaves hwrote.leaves⟩

/-- **The life of a tool call**, in every conversation. Each call that a turn starts has its outcome
told before the next one starts; a record that the turn leaves `Running` is that of a command that
awaits approval; and, where the ids of the calls are new to the chat, a record is `Finished` or
`Error` exactly when a tool row with its id exists, with the same body. -/
theorem tool_calls_agree {ls : List TurnLabel} {l : TurnLabel} {w w' : World}
    (hsteady : ∀ k ∈ ls ++ [l], ∀ world call, k.env world (.store call) = none)
    (hrun : chat.exec chat.init ls = some w) (hturn : chat.step w l = some w') :
    Lifecycle (events w'.trace) ∧
    (∀ row ∈ w'.store.messages, (∀ old ∈ w.store.messages, old.id ≠ row.id) →
      ∀ record ∈ row.toolCalls.getD [], record.status = .running → Awaits w'.store row record) ∧
    (chat.Along (CallsMeet Fresh) chat.init (ls ++ [l]) → RecordsAgree w'.store) := by
  have hl := hsteady l (List.mem_append_right _ (List.mem_singleton_self l))
  have hnumbered := numbered_of_run hrun
  have hwrote : Wrote False (fun _ _ => True) (fun _ => True) w.store w' :=
    wrote_turn hnumbered ((callsMeet_true w l).steady hl) (fun _ _ => trivial) hturn
  refine ⟨hwrote.lifecycle id, awaits_of_leaves hwrote.leaves ?_, fun hfresh => ?_⟩
  · -- No row is new when the turn starts.
    exact fun row hrow hnew => absurd rfl (hnew row hrow)
  · have hall : chat.exec chat.init (ls ++ [l]) = some w' := by
      rw [chat.exec_append, hrun]
      exact (chat.exec_cons _ _ _).trans (by rw [hturn]; rfl)
    exact (matched_of_run hsteady hfresh hall).recordsAgree

/-- A model that makes this call if no call is on record. The user may cancel before the call runs,
and the model then makes one on top of those on record. -/
def caller (call : LlmToolCall) (cancels : Bool) : Env := fun w op =>
  match op with
  | .yield _ => ()
  | .store _ => none
  | .uuid => ()
  | .cancelled point => cancels && point = .toolCall
  | .completeStream _ =>
    if cancels && !(events w.trace).any HarnessEvent.endsTurn ||
        (recordsOf w.store.messages).isEmpty then .ok [.toolCalls [call], .done]
    else .ok [.assistantDelta "ok".toList, .done]
  | .executeToolCall _ => .ok ⟨"text".toList, none⟩
  | .runLine _ => .ok "out".toList

theorem callsMeet_caller {F : List (List Char) → List (List Char) → Prop} {call : LlmToolCall}
    {cancels : Bool} (hF : ∀ rows, cancels ∨ recordsOf rows = [] → F (recordIds rows) [call.id])
    (cfg : Settings) (request : Request) (w : World) :
    CallsMeet F w ⟨cfg, request, caller call cancels⟩ := by
  refine Prog.meets_of_forall (fun w op => ?_) _ _
  cases op with
  | store c => exact .inr trivial
  | completeStream asked =>
    intro _ stream hstream calls hcalls
    change caller call cancels w (.completeStream asked) = _ at hstream
    simp only [caller] at hstream
    split at hstream
    · next hmakes =>
      obtain rfl := Except.ok.inj hstream
      obtain rfl : calls = [call] := by simpa using hcalls
      refine hF _ ?_
      rw [Bool.or_eq_true, Bool.and_eq_true, List.isEmpty_iff] at hmakes
      exact hmakes.imp And.left id
    · obtain rfl := Except.ok.inj hstream
      simp at hcalls
  | _ => trivial

theorem fresh_first {call : LlmToolCall} (rows : List ChatRow)
    (h : false ∨ recordsOf rows = []) : Fresh (recordIds rows) [call.id] := by
  refine ⟨List.pairwise_singleton _ _, fun i hi => ?_⟩
  rw [recordIds, h.resolve_left Bool.false_ne_true] at hi
  cases hi

def readFile : LlmToolCall := ⟨"a".toList, "read_file".toList, .null⟩

/-- A call that runs, and a reply to its result. -/
theorem tool_call_of_reader :
    let l : TurnLabel := ⟨plain, .prompt "hello".toList, caller readFile false⟩
    ∃ w, chat.step chat.init l = some w ∧ Lifecycle (events w.trace) ∧ RecordsAgree w.store := by
  intro l
  have hsteady : ∀ k ∈ [] ++ [l], ∀ world call, k.env world (.store call) = none := by
    intro k hk world call
    obtain rfl := List.mem_singleton.mp hk
    rfl
  have hfresh : CallsMeet Fresh chat.init l := callsMeet_caller fresh_first plain _ _
  obtain ⟨w, hturn⟩ : ∃ w, chat.step chat.init l = some w := ⟨_, rfl⟩
  obtain ⟨hlifecycle, -, hagree⟩ := tool_calls_agree hsteady (chat.exec_nil _) hturn
  exact ⟨w, hturn, hlifecycle, hagree ⟨hfresh, fun _ _ => trivial⟩⟩

/-- The id of a call is used again, and the user cancels before the call runs: its record is
`Pending`, and there is a tool row with its id. -/
theorem not_recordsAgree : ¬ ∀ (ls : List TurnLabel) (w : World),
    (∀ k ∈ ls, ∀ world call, k.env world (.store call) = none) →
    chat.Along (CallsMeet fun _ calls => calls.Nodup) chat.init ls →
    chat.exec chat.init ls = some w → RecordsAgree w.store := by
  intro h
  let first : TurnLabel := ⟨plain, .prompt "hello".toList, caller readFile false⟩
  let second : TurnLabel := ⟨plain, .prompt "again".toList, caller readFile true⟩
  have hnodup : ∀ w (cancels : Bool) prompt, CallsMeet (fun _ calls => calls.Nodup) w
      ⟨plain, prompt, caller readFile cancels⟩ := fun w cancels prompt =>
    callsMeet_caller (fun _ _ => List.nodup_singleton _) plain prompt w
  obtain ⟨w, hrun⟩ : ∃ w, chat.exec chat.init [first, second] = some w := ⟨_, rfl⟩
  have hagree := h [first, second] w ?_ ⟨hnodup _ _ _, fun _ _ => ⟨hnodup _ _ _, fun _ _ => trivial⟩⟩
    hrun
  · have hstore : (chat.exec chat.init [first, second]).any (fun w =>
        (recordsOf w.store.messages).any (fun record =>
          record.id = "a".toList && record.status = .pending) &&
        w.store.messages.any fun row =>
          row.role = .tool && row.content = toolRow "a".toList "text".toList) = true := by
      decide +kernel
    rw [hrun, Option.any_some, Bool.and_eq_true, List.any_eq_true, List.any_eq_true] at hstore
    obtain ⟨⟨record, hrecord, hpending⟩, tool, htool, hrow⟩ := hstore
    simp only [Bool.and_eq_true, decide_eq_true_eq] at hpending hrow
    obtain ⟨hfinal, -⟩ := hagree.owed record hrecord tool htool _ hrow.1 (hpending.1.symm ▸ hrow.2)
    obtain hfinished | herror := hfinal
    · cases hpending.2.symm.trans hfinished
    · cases hpending.2.symm.trans herror
  · intro k hk world call
    obtain rfl | rfl : k = first ∨ k = second := by simpa using hk
    · rfl
    · rfl

end Goble.Mission
