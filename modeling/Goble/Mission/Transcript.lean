import Goble.Lib.Lists
import Goble.Mission.Runs
import Mathlib.Data.List.Pairwise

/-!
# What a turn writes to the transcript

The rows of a chat are written by several routines in many statements. Between two statements that
list them they change in few ways (`Change`): a row is added or its text grows, the calls of a reply
are recorded and answered, the decision on a command is recorded. A turn makes such changes one
after the other (`Moves`), and may end with a `Proposal`.

`fails` says whether the store may fail: then a turn can also stop in the middle of a batch or of a
decision. `F` is a condition on the ids of a batch, given those on record, and `G` one on the store
in which a command is decided; what they are is said where the changes are used.
-/

namespace Goble.Mission

def recordsOf (rows : List ChatRow) : List ChatToolCall :=
  rows.flatMap fun row => row.toolCalls.getD []

def recordIds (rows : List ChatRow) : List (List Char) := (recordsOf rows).map ChatToolCall.id

/-- Ids of messages are drawn, and no two messages share one. -/
structure Numbered (s : Store) : Prop where
  nodup : (s.messages.map ChatRow.id).Nodup
  below : ∀ row ∈ s.messages, row.id < s.nextId

/-- The row may have got more text and a chain of thought; a tool row is not rewritten. -/
structure Alike (a b : ChatRow) : Prop where
  id : b.id = a.id
  role : b.role = a.role
  toolCalls : b.toolCalls = a.toolCalls
  content : a.role = .tool → b.content = a.content

structure IsToolRow (row : ChatRow) (callId body : List Char) : Prop where
  role : row.role = .tool
  toolCalls : row.toolCalls = none
  content : row.content = toolRow callId body

structure Answers (row : ChatRow) (record : ChatToolCall) : Prop where
  isFinal : record.status = .finished ∨ record.status = .error
  isToolRow : ∃ body, record.result = some body ∧ IsToolRow row record.id body

section Changes

variable (fails : Prop) (F : List (List Char) → List (List Char) → Prop) (G : Store → Prop)

structure Batch (s s' : Store) (messageId : Nat) (done rest : List ChatToolCall)
    (late : List ChatRow) : Prop where
  rows : ∃ pre row tools, s.messages = pre ++ [row] ∧ row.id = messageId ∧
    row.role = .assistant ∧ row.toolCalls = none ∧ List.Forall₂ Answers tools done ∧
    s'.messages = pre ++ { row with toolCalls := some (done ++ rest) } :: (tools ++ late)
  /-- What is dropped from a batch is its end. -/
  ids : ∃ calls, (done ++ rest).map ChatToolCall.id <+: calls ∧ F (recordIds s.messages) calls

def settled (p : CommandRow) (status : ToolCallStatus) (body : List Char) (row : ChatRow) :
    ChatRow :=
  if some row.id = p.messageId then
    { row with
      toolCalls := row.toolCalls.map fun records =>
        records.modify (records.findIdx fun record => record.id = p.callId) fun record =>
          { record with status := status, result := some body } }
  else row

inductive Change (s s' : Store) : Prop
  | rewrite (hrows : List.Forall₂ Alike s.messages s'.messages)
      (hcommands : s'.pendingCommands = s.pendingCommands)
  | add (row : ChatRow) (hrole : row.role ≠ .tool) (hcalls : row.toolCalls = none)
      (hrows : s'.messages = s.messages ++ [row])
      (hcommands : s'.pendingCommands = s.pendingCommands)
  | batch (messageId : Nat) (done rest : List ChatToolCall)
      (hbatch : Batch F s s' messageId done rest [])
      (hrest : ∀ record ∈ rest, record.status = .pending)
      (hcommands : s'.pendingCommands = s.pendingCommands)
  /-- The store failed while a call was being run. -/
  | cut (hfails : fails) (messageId : Nat) (done rest : List ChatToolCall) (record : ChatToolCall)
      (late : List ChatRow) (hbatch : Batch F s s' messageId done (record :: rest) late)
      (hlate : late = [] ∨ ∃ tool body, late = [tool] ∧ IsToolRow tool record.id body)
      (hcommands : s'.pendingCommands = s.pendingCommands)
  | decide (p : CommandRow) (tool : ChatRow) (status : ToolCallStatus) (body : List Char)
      (hG : G s) (hpending : s.getPendingCommand = some p) (htool : IsToolRow tool p.callId body)
      (hstatus : status = .finished ∨ status = .error)
      (hrows : s'.messages = (s.messages ++ [tool]).map (settled p status body))
      (hcommands : s'.pendingCommands = (s.resolvePendingCommand p.callId).pendingCommands)
  /-- The store failed while a decision was being recorded. -/
  | drop (hfails : fails) (p : CommandRow) (late : List ChatRow) (hG : G s)
      (hpending : s.getPendingCommand = some p)
      (hlate : late = [] ∨ ∃ tool body, late = [tool] ∧ IsToolRow tool p.callId body)
      (hrows : s'.messages = s.messages ++ late)
      (hcommands : s'.pendingCommands = (s.resolvePendingCommand p.callId).pendingCommands)

/-- The last call of a batch waits for approval. -/
structure Proposal (s s' : Store) : Prop where
  proposed : ∃ messageId done record candidates cwd, Batch F s s' messageId done [record] [] ∧
    record.status = .running ∧ s'.pendingCommands =
      (s.insertPendingCommand ⟨record.id, some messageId, candidates, cwd, true⟩).pendingCommands

/-- Changes one after the other, the ids of the rows being drawn. -/
def Moves : Store → Store → Prop :=
  Relation.ReflTransGen fun s s' => Change fails F G s s' ∧ Numbered s'

/-- What a turn leaves behind. -/
def Leaves (start s : Store) : Prop :=
  Moves fails F G start s ∨ ∃ s', Moves fails F G start s' ∧ Proposal F s' s ∧ Numbered s

end Changes

/-! ### Rows and ids -/

theorem numbered_empty : Numbered .empty := ⟨List.nodup_nil, nofun⟩

theorem alike_refl (row : ChatRow) : Alike row row := ⟨rfl, rfl, rfl, fun _ => rfl⟩

variable {rows : List ChatRow}

theorem mem_recordsOf {record : ChatToolCall} :
    record ∈ recordsOf rows ↔ ∃ row ∈ rows, record ∈ row.toolCalls.getD [] := List.mem_flatMap

theorem recordsOf_append (first second : List ChatRow) :
    recordsOf (first ++ second) = recordsOf first ++ recordsOf second := List.flatMap_append

theorem recordsOf_cons (row : ChatRow) (rows : List ChatRow) :
    recordsOf (row :: rows) = row.toolCalls.getD [] ++ recordsOf rows := List.flatMap_cons

theorem recordsOf_of_none (h : ∀ row ∈ rows, row.toolCalls = none) :
    recordsOf rows = [] := by
  refine List.flatMap_eq_nil_iff.mpr fun row hrow => ?_
  rw [h row hrow]
  rfl

theorem recordsOf_concat {row : ChatRow} (h : row.toolCalls = none) (rows : List ChatRow) :
    recordsOf (rows ++ [row]) = recordsOf rows := by
  rw [recordsOf_append, recordsOf_cons, h]
  exact List.append_nil _

theorem recordsOf_alike {rows' : List ChatRow} (h : List.Forall₂ Alike rows rows') :
    recordsOf rows' = recordsOf rows := by
  induction h with
  | nil => rfl
  | cons hrow _ ih => rw [recordsOf_cons, recordsOf_cons, hrow.toolCalls, ih]

theorem map_id_alike {rows' : List ChatRow} (h : List.Forall₂ Alike rows rows') :
    rows'.map ChatRow.id = rows.map ChatRow.id := by
  induction h with
  | nil => rfl
  | cons hrow _ ih => rw [List.map_cons, List.map_cons, hrow.id, ih]

variable {s : Store}

/-- The proposals after one is made. -/
theorem mem_insertPendingCommand {p q : CommandRow} :
    q ∈ (s.insertPendingCommand p).pendingCommands ↔
      q = p ∨ q ∈ s.pendingCommands ∧ q.callId ≠ p.callId := by
  rw [Store.insertPendingCommand]
  split
  · next hany =>
    obtain ⟨old, hold, hid⟩ := List.any_eq_true.mp hany
    simp only [List.mem_map]
    constructor
    · rintro ⟨other, hother, rfl⟩
      split
      · exact .inl rfl
      · next hne => exact .inr ⟨hother, hne⟩
    · rintro (rfl | ⟨hq, hne⟩)
      · exact ⟨old, hold, if_pos (by simpa using hid)⟩
      · exact ⟨q, hq, if_neg hne⟩
  · next hany =>
    rw [List.mem_append, List.mem_singleton, or_comm]
    refine or_congr_right (iff_self_and.mpr fun hq hid => hany ?_)
    exact List.any_eq_true.mpr ⟨q, hq, by simpa using hid⟩

theorem insertPendingCommand_of_new {p : CommandRow}
    (h : ∀ q ∈ s.pendingCommands, q.callId ≠ p.callId) :
    (s.insertPendingCommand p).pendingCommands = s.pendingCommands ++ [p] := by
  rw [Store.insertPendingCommand, if_neg]
  simpa using h

theorem callIds_resolvePendingCommand (s : Store) (callId : List Char) :
    (s.resolvePendingCommand callId).pendingCommands.map CommandRow.callId =
      s.pendingCommands.map CommandRow.callId := by
  rw [Store.resolvePendingCommand, List.map_map]
  refine List.map_congr_left fun row _ => ?_
  rw [Function.comp_apply]
  split <;> rfl

theorem messages_modifyMessage {pre post : List ChatRow} {row : ChatRow}
    (hnodup : (s.messages.map ChatRow.id).Nodup) (hrows : s.messages = pre ++ row :: post)
    (f : ChatRow → ChatRow) : (s.modifyMessage row.id f).messages = pre ++ f row :: post := by
  have hother : ∀ other ∈ pre ++ post, other.id ≠ row.id := by
    rw [hrows, List.map_append, List.map_cons] at hnodup
    have hperm : (row.id :: (pre.map ChatRow.id ++ post.map ChatRow.id)).Nodup :=
      List.perm_middle.nodup_iff.mp hnodup
    intro other hmem heq
    refine (List.nodup_cons.mp hperm).1 ?_
    rw [← List.map_append, ← heq]
    exact List.mem_map_of_mem hmem
  have hsame : ∀ rows : List ChatRow, (∀ other ∈ rows, other.id ≠ row.id) →
      rows.map (fun other => if other.id = row.id then f other else other) = rows := by
    intro rows hne
    refine (List.map_congr_left fun other hmem => ?_).trans (List.map_id _)
    exact if_neg (hne other hmem)
  rw [Store.modifyMessage, hrows]
  simp only [List.map_append, List.map_cons, if_true]
  rw [hsame pre fun other hmem => hother other (List.mem_append_left _ hmem),
    hsame post fun other hmem => hother other (List.mem_append_right _ hmem)]

/-- An update that keeps the ids. -/
theorem numbered_of_map {s' : Store} (h : Numbered s)
    (hids : s'.messages.map ChatRow.id = s.messages.map ChatRow.id) (hnext : s.nextId ≤ s'.nextId) :
    Numbered s' := by
  refine ⟨hids ▸ h.nodup, fun row hrow => ?_⟩
  obtain ⟨old, hold, heq⟩ := List.mem_map.mp (hids ▸ List.mem_map_of_mem hrow)
  rw [← heq]
  exact (h.below old hold).trans_le hnext

theorem numbered_concat {s' : Store} (h : Numbered s) {row : ChatRow} (hid : row.id = s.nextId)
    (hrows : s'.messages = s.messages ++ [row]) (hnext : s'.nextId = s.nextId + 1) :
    Numbered s' := by
  refine ⟨?_, fun other hother => ?_⟩
  · rw [hrows, List.map_append, List.map_singleton]
    refine List.nodup_append.mpr ⟨h.nodup, List.nodup_singleton _, ?_⟩
    rintro a ha b hb rfl
    obtain ⟨old, hold, rfl⟩ := List.mem_map.mp ha
    have hlt := h.below old hold
    rw [List.mem_singleton.mp hb, hid] at hlt
    exact hlt.false
  · rw [hnext]
    rw [hrows, List.mem_append, List.mem_singleton] at hother
    obtain hold | rfl := hother
    · exact (h.below other hold).trans (Nat.lt_succ_self _)
    · rw [hid]
      exact Nat.lt_succ_self _

/-- Changing an entry after the first ones. -/
theorem modify_append_cons {α : Type} (pre : List α) (x : α) (post : List α) (f : α → α) :
    (pre ++ x :: post).modify pre.length f = pre ++ f x :: post := by
  rw [List.modify_eq_take_cons_drop (by simp)]
  simp

theorem map_settled (hnodup : (rows.map ChatRow.id).Nodup) {p : CommandRow} {id : Nat}
    (hid : p.messageId = some id) (status : ToolCallStatus) (body : List Char) :
    rows.map (settled p status body) =
      match (rows.find? fun row => row.id = id).bind ChatRow.toolCalls with
      | none => rows
      | some records =>
        match records.findIdx? fun record => record.id = p.callId with
        | none => rows
        | some index => rows.map fun row =>
          if row.id = id then
            { row with toolCalls := some (records.modify index fun record =>
              { record with status := status, result := some body }) }
          else row := by
  have hsettled : ∀ row : ChatRow, row.id ≠ id → settled p status body row = row := fun row hne =>
    if_neg (by rw [hid]; exact fun heq => hne (Option.some.inj heq))
  have hsame : (∀ row ∈ rows, row.id = id → settled p status body row = row) →
      rows.map (settled p status body) = rows := by
    intro h
    refine (List.map_congr_left fun row hrow => ?_).trans (List.map_id _)
    by_cases hrow' : row.id = id
    · exact h row hrow hrow'
    · exact hsettled row hrow'
  -- Only one row has the id.
  have honly : ∀ row ∈ rows, row.id = id → rows.find? (fun row => row.id = id) = some row :=
    fun row hrow heq => (find?_key_eq_some hnodup).mpr ⟨hrow, heq⟩
  have hhere : ∀ row : ChatRow, row.id = id → settled p status body row =
      { row with
        toolCalls := row.toolCalls.map fun records =>
          records.modify (records.findIdx fun record => record.id = p.callId) fun record =>
            { record with status := status, result := some body } } := fun row heq =>
    if_pos (by rw [hid, heq])
  cases hfind : (rows.find? fun row => row.id = id).bind ChatRow.toolCalls with
  | none =>
    refine hsame fun row hrow heq => ?_
    have hcalls : row.toolCalls = none := by simpa [honly row hrow heq] using hfind
    rw [hhere row heq, hcalls, Option.map_none, ← hcalls]
  | some records =>
    dsimp only
    cases hindex : records.findIdx? fun record => record.id = p.callId with
    | none =>
      refine hsame fun row hrow heq => ?_
      have hcalls : row.toolCalls = some records := by simpa [honly row hrow heq] using hfind
      have hlength : records.findIdx (fun record => record.id = p.callId) = records.length :=
        List.findIdx_eq_length.mpr (List.findIdx?_eq_none_iff.mp hindex)
      rw [hhere row heq, hcalls, Option.map_some, List.modify_eq_self hlength.ge, ← hcalls]
    | some index =>
      refine List.map_congr_left fun row hrow => ?_
      split
      · next heq =>
        have hcalls : row.toolCalls = some records := by simpa [honly row hrow heq] using hfind
        have hindex' : records.findIdx (fun record => record.id = p.callId) = index :=
          (List.findIdx?_eq_some_iff_findIdx_eq.mp hindex).2
        rw [hhere row heq, hcalls, Option.map_some, hindex']
      · next hne => exact hsettled row hne

theorem map_settled_of_none {p : CommandRow} (hid : p.messageId = none) (status : ToolCallStatus)
    (body : List Char) (rows : List ChatRow) : rows.map (settled p status body) = rows := by
  refine (List.map_congr_left fun row _ => ?_).trans (List.map_id _)
  exact if_neg (by rw [hid]; exact nofun)

theorem settled_id (p : CommandRow) (status : ToolCallStatus) (body : List Char) (row : ChatRow) :
    (settled p status body row).id = row.id := by
  rw [settled]
  split <;> rfl

theorem settled_role (p : CommandRow) (status : ToolCallStatus) (body : List Char)
    (row : ChatRow) : (settled p status body row).role = row.role := by
  rw [settled]
  split <;> rfl

theorem settled_of_none {row : ChatRow} (h : row.toolCalls = none) (p : CommandRow)
    (status : ToolCallStatus) (body : List Char) : settled p status body row = row := by
  rw [settled]
  split
  · rw [h, Option.map_none, ← h]
  · rfl

section Settled

variable {p : CommandRow} {status : ToolCallStatus} {body : List Char} {row : ChatRow}
  {record : ChatToolCall}

theorem mem_settled (h : record ∈ (settled p status body row).toolCalls.getD []) :
    record ∈ row.toolCalls.getD [] ∨ ∃ old ∈ row.toolCalls.getD [], old.id = p.callId ∧
      record = { old with status := status, result := some body } := by
  rw [settled] at h
  split at h
  · cases hcalls : row.toolCalls with
    | none => simp [hcalls] at h
    | some records =>
      simp only [hcalls, Option.map_some, Option.getD_some] at h
      obtain ⟨j, -, hj⟩ | ⟨old, hold, rfl⟩ := mem_modify.mp h
      · exact .inl (List.mem_of_getElem? hj)
      · obtain ⟨hlt, rfl⟩ := List.getElem?_eq_some_iff.mp hold
        have hid := List.findIdx_getElem (w := hlt)
        exact .inr ⟨_, List.getElem_mem hlt, by simpa using hid, rfl⟩
  · exact .inl h

theorem mem_settled_of_ne (h : record ∈ row.toolCalls.getD []) (hne : record.id ≠ p.callId)
    (status : ToolCallStatus) (body : List Char) :
    record ∈ (settled p status body row).toolCalls.getD [] := by
  rw [settled]
  split
  · cases hcalls : row.toolCalls with
    | none => simp [hcalls] at h
    | some records =>
      simp only [hcalls, Option.map_some, Option.getD_some] at h ⊢
      obtain ⟨j, hj⟩ := List.mem_iff_getElem?.mp h
      refine mem_modify.mpr (.inl ⟨j, ?_, hj⟩)
      rintro rfl
      -- What is found has the id of the call.
      obtain ⟨hlt, heq⟩ := List.getElem?_eq_some_iff.mp hj
      have hid := List.findIdx_getElem (w := hlt)
      rw [heq] at hid
      exact hne (by simpa using hid)
  · exact h

theorem settled_mem (h : record ∈ row.toolCalls.getD []) (hid : record.id = p.callId)
    (hrow : p.messageId = some row.id) (status : ToolCallStatus) (body : List Char) :
    ∃ old ∈ row.toolCalls.getD [], old.id = p.callId ∧
      { old with status := status, result := some body } ∈
        (settled p status body row).toolCalls.getD [] := by
  rw [settled, if_pos hrow.symm]
  cases hcalls : row.toolCalls with
  | none => simp [hcalls] at h
  | some records =>
    simp only [hcalls, Option.map_some, Option.getD_some] at h ⊢
    have hlt : records.findIdx (fun record => record.id = p.callId) < records.length :=
      List.findIdx_lt_length_of_exists ⟨record, h, by simpa using hid⟩
    have hfound := List.findIdx_getElem (w := hlt)
    refine ⟨_, List.getElem_mem hlt, by simpa using hfound, mem_modify.mpr (.inr ⟨_, ?_, rfl⟩)⟩
    exact List.getElem?_eq_getElem hlt

end Settled

theorem recordIds_settled (p : CommandRow) (status : ToolCallStatus) (body : List Char)
    (rows : List ChatRow) : recordIds (rows.map (settled p status body)) = recordIds rows := by
  rw [recordIds, recordIds, recordsOf, recordsOf, List.map_flatMap, List.map_flatMap,
    List.flatMap_map]
  refine List.flatMap_congr fun row _ => ?_
  rw [settled]
  split
  · cases row.toolCalls with
    | none => rfl
    | some records => exact map_modify_eq_map ChatToolCall.id fun _ => rfl
  · rfl

/-! ### Ids of calls -/

/-- Two ids that tool rows tell apart: neither is the other, or the other with a line break and
more. -/
structure Separate (i j : List Char) : Prop where
  ne : i ≠ j
  left : ∀ body, i ≠ toolRow j body
  right : ∀ body, j ≠ toolRow i body

/-- The ids of a batch are separate from one another and from those on record. -/
structure Fresh (known calls : List (List Char)) : Prop where
  distinct : calls.Pairwise Separate
  unknown : ∀ i ∈ known, ∀ j ∈ calls, Separate i j

instance : Std.Symm Separate := ⟨fun _ _ h => ⟨h.ne.symm, h.right, h.left⟩⟩

theorem not_separate_of_toolRow_eq {i j b c : List Char} (h : toolRow i b = toolRow j c) :
    ¬ Separate i j := by
  intro hsep
  obtain ⟨t, ht, hrest⟩ | ⟨t, ht, hrest⟩ := List.append_eq_append_iff.mp h
  · -- The first id is the shorter one.
    cases t with
    | nil => exact hsep.ne (by rw [ht, List.append_nil])
    | cons c t =>
      obtain rfl : '\n' = c := (List.cons.inj hrest).1
      exact hsep.right t ht
  · cases t with
    | nil => exact hsep.ne (by rw [ht, List.append_nil])
    | cons c t =>
      obtain rfl : '\n' = c := (List.cons.inj hrest).1
      exact hsep.left t ht

theorem Fresh.of_prefix {known ids calls : List (List Char)} (h : Fresh known calls)
    (hpre : ids <+: calls) : Fresh known ids :=
  ⟨h.distinct.sublist hpre.sublist, fun i hi j hj => h.unknown i hi j (hpre.subset hj)⟩

theorem Fresh.append {known calls : List (List Char)} (h : Fresh known calls)
    (hknown : known.Pairwise Separate) : (known ++ calls).Pairwise Separate :=
  List.pairwise_append.mpr ⟨hknown, h.distinct, h.unknown⟩

theorem record_eq_of_id (h : (recordIds rows).Pairwise Separate) {a b : ChatToolCall}
    (ha : a ∈ recordsOf rows) (hb : b ∈ recordsOf rows) (hid : ¬ Separate a.id b.id) : a = b := by
  have hids : a.id = b.id := by
    by_contra hne
    exact hid (h.forall (List.mem_map_of_mem ha) (List.mem_map_of_mem hb) hne)
  have hnodup : (recordIds rows).Nodup := h.imp Separate.ne
  exact List.inj_on_of_nodup_map hnodup ha hb hids

end Goble.Mission
