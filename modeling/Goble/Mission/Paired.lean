import Goble.Lib.Derived
import Goble.Mission.History

/-!
# Calls and results in the history

`build_history` gets rows as they are stored, with the `tool_calls` column as text, and reads it
twice: as records, to find which calls have been answered, and as calls, to keep these. A tool row
is kept for a record; whether a message keeps the call is up to the second reading.

* `Serde.readCall`, `Serde.readRecord` — the two readings of an item of the column;
* `Stored.historyOfStored` — `build_history` on stored rows;
* `Stored.historyOfStored_eq` — on columns as the harness writes them it is `historyOf`;
* `Stored.paired_iff_called` — every call that is kept has its result and every result its call,
  just when each answered record is read as a call somewhere. The other rows are kept in any case.
-/

namespace Goble.Mission

/-- A row of `chat_messages`, read by nobody yet. -/
structure StoredRow where
  id : Nat
  role : List Char
  content : List Char
  toolCalls : Option (List Char)

/-- What `serde_json` makes of a text: its syntax, and the `Value` that a part of it is. -/
structure Serde where
  tree : List Char → Option Json
  value : Json → Option Value

/-! ### The two readings -/

def readStatus (json : Json) : Option ToolCallStatus :=
  json.variant.bind fun name =>
    if name = "pending".toList then some .pending
    else if name = "running".toList then some .running
    else if name = "finished".toList then some .finished
    else if name = "error".toList then some .error
    else none

def callFields : List (List Char) := ["id".toList, "name".toList, "arguments".toList]

def recordFields : List (List Char) := ["status".toList, "result".toList, "diff".toList]

namespace Serde

variable (serde : Serde)

/-- The call in three fields that must be there. -/
def callOf : List (Option Json) → Option LlmToolCall
  | [some id, some name, some arguments] =>
    id.asStr.bind fun id => name.asStr.bind fun name => (serde.value arguments).map fun arguments =>
      ⟨id, name, arguments⟩
  | _ => none

def readCall (json : Json) : Option LlmToolCall := (json.fields callFields).bind serde.callOf

/-- The three fields of a record that may be absent. -/
def readRest : List (Option Json) →
    Option (ToolCallStatus × Option (List Char) × Option (List Char))
  | [status, result, diff] =>
    ((status.map readStatus).getD (some .pending)).bind fun status =>
      ((result.map Json.asOptionStr).getD (some none)).bind fun result =>
        ((diff.map Json.asOptionStr).getD (some none)).map fun diff => (status, result, diff)
  | _ => none

def readRecord (json : Json) : Option ChatToolCall :=
  (json.fields (callFields ++ recordFields)).bind fun found =>
    (serde.callOf (found.take 3)).bind fun call =>
      (readRest (found.drop 3)).map fun rest =>
        ⟨call.id, call.name, call.arguments, rest.1, rest.2.1, rest.2.2⟩

/-- `from_str::<Vec<ChatToolCall>>`, none when it fails. -/
def records (text : List Char) : List ChatToolCall :=
  ((serde.tree text).bind (Json.vec serde.readRecord)).getD []

def calls (text : List Char) : Option (List LlmToolCall) :=
  (serde.tree text).bind (Json.vec serde.readCall)

variable {serde : Serde}

theorem readCall_of_readRecord {json : Json} {record : ChatToolCall}
    (h : serde.readRecord json = some record) :
    serde.readCall json = some record.toCall ∨
      serde.readCall json = none ∧ ∃ items, json = .arr items ∧ 3 < items.length := by
  obtain ⟨found, hfound, hrecord⟩ := Option.bind_eq_some_iff.mp h
  obtain ⟨call, hcall, hrest⟩ := Option.bind_eq_some_iff.mp hrecord
  obtain ⟨rest, -, rfl⟩ := Option.map_eq_some_iff.mp hrest
  -- the first three fields of the record are those of the call
  obtain hfields | ⟨hfields, harray⟩ := Json.fields_of_fields_append hfound
  · left
    rw [readCall, hfields]
    exact hcall
  · right
    rw [readCall, hfields]
    exact ⟨rfl, harray⟩

/-- A column of records, none of them such an array, is one of their calls. -/
theorem calls_of_records {items : List Json} {records : List ChatToolCall}
    (h : (Json.arr items).vec serde.readRecord = some records)
    (hshort : ∀ item ∈ items, ∀ fields, item = .arr fields → fields.length ≤ 3) :
    (Json.arr items).vec serde.readCall = some (records.map ChatToolCall.toCall) := by
  refine mapM_eq_some.mpr (List.forall₂_map_right_iff.mpr ?_)
  refine List.Forall₂.imp ?_ ((List.forall₂_and_left _ _).mpr ⟨hshort, mapM_eq_some.mp h⟩)
  rintro item record ⟨hitem, hrecord⟩
  refine (readCall_of_readRecord hrecord).resolve_right ?_
  rintro ⟨-, fields, rfl, hlong⟩
  exact absurd (hitem fields rfl) (Nat.not_le_of_gt hlong)

end Serde

/-! ### The history of stored rows -/

namespace StoredRow

def isTool (row : StoredRow) : Bool := row.role == "tool".toList

def isCaller (row : StoredRow) : Bool :=
  row.role == "assistant".toList || row.role == "tool_calls".toList

def records (serde : Serde) (row : StoredRow) : List ChatToolCall :=
  (row.toolCalls.map serde.records).getD []

def calls (serde : Serde) (row : StoredRow) : Option (List LlmToolCall) :=
  if row.isCaller then row.toolCalls.bind serde.calls else none

def messageRole (row : StoredRow) : Role :=
  if row.role = "system".toList then .system
  else if row.role = "assistant".toList then .assistant
  else if row.role = "tool_calls".toList then .assistant
  else if row.role = "tool".toList then .tool
  else .user

end StoredRow

namespace Stored

section History

variable (serde : Serde) (rows : List StoredRow)

def answeredIds : List (List Char) :=
  (rows.filter StoredRow.isTool).filterMap fun row =>
    (Text.cutAt ['\n'] row.content).map Prod.fst

def pairedIds : List (List Char) :=
  (((rows.filter StoredRow.isCaller).flatMap (StoredRow.records serde)).map
    ChatToolCall.id).filter (· ∈ answeredIds rows)

def statusOf (id : List Char) : Option ToolCallStatus :=
  ((rows.flatMap (StoredRow.records serde)).reverse.find? fun record => record.id = id).map
    ChatToolCall.status

def keptCalls (row : StoredRow) : Option (List LlmToolCall) :=
  (row.calls serde).map fun calls => calls.filter fun call => call.id ∈ pairedIds serde rows

def messageOf (reasoning : List (Nat × List Char)) (row : StoredRow) : Option Message :=
  let thought := reasoning.lookup row.id
  if row.isTool then
    match Text.cutAt ['\n'] row.content with
    | some (id, body) =>
      if id ∈ pairedIds serde rows then
        some ⟨row.messageRole, body, none, some id, statusOf serde rows id, thought⟩
      else none
    | none => none
  else
    match keptCalls serde rows row with
    | some [] =>
      if row.content.isEmpty then none
      else some ⟨row.messageRole, row.content, none, none, none, thought⟩
    | calls => some ⟨row.messageRole, row.content, calls, none, none, thought⟩

def historyOfStored (reasoning : List (Nat × List Char)) : List Message :=
  rows.filterMap (messageOf serde rows reasoning)

end History

variable {serde : Serde} {rows : List StoredRow} {reasoning : List (Nat × List Char)}

/-! ### What becomes of a row -/

variable {id : List Char}

theorem mem_answeredIds :
    id ∈ answeredIds rows ↔ ∃ row ∈ rows, row.isTool = true ∧
      ∃ body, Text.cutAt ['\n'] row.content = some (id, body) := by
  simp only [answeredIds, List.mem_filterMap, List.mem_filter, Option.map_eq_some_iff]
  constructor
  · rintro ⟨row, ⟨hrow, htool⟩, ⟨_, body⟩, hcut, rfl⟩
    exact ⟨row, hrow, htool, body, hcut⟩
  · rintro ⟨row, hrow, htool, body, hcut⟩
    exact ⟨row, ⟨hrow, htool⟩, (id, body), hcut, rfl⟩

def Recorded (serde : Serde) (rows : List StoredRow) (id : List Char) : Prop :=
  ∃ row ∈ rows, row.isCaller = true ∧ ∃ record ∈ row.records serde, record.id = id

def Called (serde : Serde) (rows : List StoredRow) (id : List Char) : Prop :=
  ∃ row ∈ rows, ∃ calls ∈ row.calls serde, ∃ call ∈ calls, call.id = id

theorem mem_pairedIds :
    id ∈ pairedIds serde rows ↔ Recorded serde rows id ∧ id ∈ answeredIds rows := by
  simp only [pairedIds, List.mem_filter, List.mem_map, List.mem_flatMap, decide_eq_true_eq,
    Recorded]
  constructor
  · rintro ⟨⟨record, ⟨row, ⟨hrow, hcaller⟩, hrecord⟩, rfl⟩, hanswered⟩
    exact ⟨⟨row, hrow, hcaller, record, hrecord, rfl⟩, hanswered⟩
  · rintro ⟨⟨row, hrow, hcaller, record, hrecord, rfl⟩, hanswered⟩
    exact ⟨⟨record, ⟨row, ⟨hrow, hcaller⟩, hrecord⟩, rfl⟩, hanswered⟩

theorem messageRole_eq_tool {row : StoredRow} :
    row.messageRole = .tool ↔ row.isTool = true := by
  unfold StoredRow.messageRole StoredRow.isTool
  split
  · next h => simp [h]
  split
  · next h => simp [h]
  split
  · next h => simp [h]
  split
  · next h => simp [h]
  · next h => exact ⟨nofun, fun htool => absurd (beq_iff_eq.mp htool) h⟩

theorem messageOf_tool {row : StoredRow} (htool : row.isTool = true) {m : Message} :
    messageOf serde rows reasoning row = some m ↔
      ∃ id body, Text.cutAt ['\n'] row.content = some (id, body) ∧ id ∈ pairedIds serde rows ∧
        m = ⟨.tool, body, none, some id, statusOf serde rows id, reasoning.lookup row.id⟩ := by
  unfold messageOf
  rw [if_pos htool, messageRole_eq_tool.mpr htool]
  cases hcut : Text.cutAt ['\n'] row.content with
  | none => simp
  | some found =>
    obtain ⟨id, body⟩ := found
    simp only [Option.ite_none_right_eq_some, Option.some.injEq, Prod.mk.injEq]
    constructor
    · rintro ⟨hpaired, rfl⟩
      exact ⟨id, body, ⟨rfl, rfl⟩, hpaired, rfl⟩
    · rintro ⟨_, _, ⟨rfl, rfl⟩, hpaired, rfl⟩
      exact ⟨hpaired, rfl⟩

def emptyCalls (serde : Serde) (rows : List StoredRow) (row : StoredRow) : Bool :=
  row.content.isEmpty && (keptCalls serde rows row).any List.isEmpty

theorem messageOf_other {row : StoredRow} (htool : row.isTool = false) :
    messageOf serde rows reasoning row =
      if emptyCalls serde rows row then none
      else some ⟨row.messageRole, row.content,
        (keptCalls serde rows row).filter fun calls => !calls.isEmpty, none, none,
        reasoning.lookup row.id⟩ := by
  unfold messageOf emptyCalls
  rw [if_neg (by simp [htool])]
  cases hkept : keptCalls serde rows row with
  | none => simp
  | some calls =>
    cases calls with
    | nil => simp [Option.filter_some]
    | cons call calls => simp [Option.filter_some]

theorem isTool_of_calls {row : StoredRow} {calls : List LlmToolCall}
    (h : row.calls serde = some calls) : row.isTool = false := by
  simp only [StoredRow.calls, Option.ite_none_right_eq_some] at h
  rw [StoredRow.isTool, beq_eq_false_iff_ne]
  intro htool
  rw [StoredRow.isCaller, htool] at h
  exact absurd h.1 (by decide)

theorem messageOf_calls {row : StoredRow} {calls : List LlmToolCall}
    (hkept : keptCalls serde rows row = some calls) (hsome : calls.isEmpty = false) :
    messageOf serde rows reasoning row = some ⟨row.messageRole, row.content, some calls, none, none,
      reasoning.lookup row.id⟩ := by
  obtain ⟨found, hfound, -⟩ := Option.map_eq_some_iff.mp hkept
  rw [messageOf_other (isTool_of_calls hfound), emptyCalls, hkept]
  simp [hsome, Option.filter_some]

/-! ### Pairs -/

structure Pairs (history : List Message) : Prop where
  answered : ∀ m ∈ history, ∀ calls ∈ m.toolCalls, ∀ call ∈ calls,
    ∃ result ∈ history, result.role = .tool ∧ result.toolCallId = some call.id
  called : ∀ result ∈ history, result.role = .tool → ∃ id, result.toolCallId = some id ∧
    ∃ m ∈ history, ∃ calls ∈ m.toolCalls, ∃ call ∈ calls, call.id = id

def KeepsOthers (serde : Serde) (rows : List StoredRow) (history : List Message) : Prop :=
  List.Forall₂ (fun row m => m.role = row.messageRole ∧ m.content = row.content)
    (rows.filter fun row => !row.isTool && !emptyCalls serde rows row)
    (history.filter fun m => m.role ≠ .tool)

theorem mem_historyOfStored {m : Message} :
    m ∈ historyOfStored serde rows reasoning ↔
      ∃ row ∈ rows, messageOf serde rows reasoning row = some m := List.mem_filterMap

theorem result_of_paired (h : id ∈ pairedIds serde rows) :
    ∃ result ∈ historyOfStored serde rows reasoning, result.role = .tool ∧
      result.toolCallId = some id := by
  obtain ⟨row, hrow, htool, body, hcut⟩ := mem_answeredIds.mp (mem_pairedIds.mp h).2
  have hkept : messageOf serde rows reasoning row = some _ :=
    (messageOf_tool htool).mpr ⟨id, body, hcut, h, rfl⟩
  exact ⟨_, mem_historyOfStored.mpr ⟨row, hrow, hkept⟩, rfl, rfl⟩

theorem mem_toolCalls_iff :
    (∃ m ∈ historyOfStored serde rows reasoning, ∃ calls ∈ m.toolCalls,
      ∃ call ∈ calls, call.id = id) ↔ Called serde rows id ∧ id ∈ pairedIds serde rows := by
  constructor
  · rintro ⟨m, hm, calls, hcalls, call, hcall, rfl⟩
    obtain ⟨row, hrow, hmessage⟩ := mem_historyOfStored.mp hm
    cases htool : row.isTool with
    | true =>
      obtain ⟨_, _, _, _, rfl⟩ := (messageOf_tool htool).mp hmessage
      cases hcalls
    | false =>
      rw [messageOf_other htool, Option.ite_none_left_eq_some] at hmessage
      obtain ⟨-, hm⟩ := hmessage
      obtain rfl := Option.some.inj hm
      obtain ⟨hkept, -⟩ := Option.mem_filter_iff.mp hcalls
      obtain ⟨found, hfound, rfl⟩ := Option.map_eq_some_iff.mp hkept
      obtain ⟨hmem, hpaired⟩ := List.mem_filter.mp hcall
      exact ⟨⟨row, hrow, found, hfound, call, hmem, rfl⟩, of_decide_eq_true hpaired⟩
  · rintro ⟨⟨row, hrow, calls, hcalls, call, hcall, rfl⟩, hpaired⟩
    have hkept : keptCalls serde rows row =
        some (calls.filter fun call => call.id ∈ pairedIds serde rows) := by
      rw [keptCalls, hcalls, Option.map_some]
    have hmem : call ∈ calls.filter fun call => call.id ∈ pairedIds serde rows :=
      List.mem_filter.mpr ⟨hcall, decide_eq_true hpaired⟩
    -- with this call the message is not empty
    have hmessage : messageOf serde rows reasoning row = some _ := messageOf_calls hkept
      (List.isEmpty_eq_false_iff.mpr (List.ne_nil_of_mem hmem))
    exact ⟨_, mem_historyOfStored.mpr ⟨row, hrow, hmessage⟩, _, rfl, call, hmem, rfl⟩

theorem keepsOthers (serde : Serde) (rows : List StoredRow) (reasoning : List (Nat × List Char)) :
    KeepsOthers serde rows (historyOfStored serde rows reasoning) := by
  unfold KeepsOthers historyOfStored
  -- the paired ids are those of all the rows
  suffices h : ∀ part : List StoredRow,
      List.Forall₂ (fun row m => m.role = row.messageRole ∧ m.content = row.content)
        (part.filter fun row => !row.isTool && !emptyCalls serde rows row)
        ((part.filterMap (messageOf serde rows reasoning)).filter fun m => m.role ≠ .tool) from
    h rows
  intro part
  induction part with
  | nil => exact .nil
  | cons row part ih =>
    cases htool : row.isTool with
    | true =>
      rw [List.filter_cons_of_neg (by simp [htool])]
      cases hmessage : messageOf serde rows reasoning row with
      | none => rwa [List.filterMap_cons_none hmessage]
      | some m =>
        obtain ⟨_, _, _, _, rfl⟩ := (messageOf_tool htool).mp hmessage
        rw [List.filterMap_cons_some hmessage, List.filter_cons_of_neg (by simp)]
        exact ih
    | false =>
      have hmessage : messageOf serde rows reasoning row = _ := messageOf_other htool
      cases hempty : emptyCalls serde rows row with
      | true =>
        rw [hempty, if_pos rfl] at hmessage
        rw [List.filter_cons_of_neg (by simp [hempty]), List.filterMap_cons_none hmessage]
        exact ih
      | false =>
        rw [hempty, if_neg (by simp)] at hmessage
        have hrole : row.messageRole ≠ .tool := by
          rw [Ne, messageRole_eq_tool, htool]
          simp
        rw [List.filter_cons_of_pos (by simp [htool, hempty]),
          List.filterMap_cons_some hmessage, List.filter_cons_of_pos (by simpa using hrole)]
        exact .cons ⟨rfl, rfl⟩ ih

theorem pairs_iff :
    Pairs (historyOfStored serde rows reasoning) ↔
      ∀ id ∈ answeredIds rows, Recorded serde rows id → Called serde rows id := by
  constructor
  · rintro hpairs id hanswered hrecorded
    -- the result of an answered record is kept, so its call must be
    obtain ⟨result, hresult, hrole, hid⟩ : ∃ result ∈ historyOfStored serde rows reasoning,
        result.role = .tool ∧ result.toolCallId = some id :=
      result_of_paired (mem_pairedIds.mpr ⟨hrecorded, hanswered⟩)
    obtain ⟨id', hid', hcalled⟩ := hpairs.called result hresult hrole
    obtain rfl := Option.some.inj (hid.symm.trans hid')
    exact (mem_toolCalls_iff.mp hcalled).1
  · refine fun hcalled => ⟨fun m hm calls hcalls call hcall => ?_, fun result hresult hrole => ?_⟩
    · exact result_of_paired (mem_toolCalls_iff.mp ⟨m, hm, calls, hcalls, call, hcall, rfl⟩).2
    · obtain ⟨row, hrow, hmessage⟩ := mem_historyOfStored.mp hresult
      have htool : row.isTool = true := by
        by_contra hnot
        rw [messageOf_other (Bool.eq_false_iff.mpr hnot), Option.ite_none_left_eq_some] at hmessage
        obtain ⟨-, hm⟩ := hmessage
        obtain rfl := Option.some.inj hm
        exact hnot (messageRole_eq_tool.mp hrole)
      obtain ⟨id, body, hcut, hpaired, rfl⟩ := (messageOf_tool htool).mp hmessage
      obtain ⟨hrecorded, hanswered⟩ := mem_pairedIds.mp hpaired
      exact ⟨id, rfl, mem_toolCalls_iff.mpr ⟨hcalled id hanswered hrecorded, hpaired⟩⟩

/-- **Calls and results belong together** just when each answered id that is read off a record is
also read off a call. Every other row is kept in any case. -/
theorem paired_iff_called (serde : Serde) (rows : List StoredRow)
    (reasoning : List (Nat × List Char)) :
    (Pairs (historyOfStored serde rows reasoning) ∧
        KeepsOthers serde rows (historyOfStored serde rows reasoning)) ↔
      ∀ id ∈ answeredIds rows, Recorded serde rows id → Called serde rows id :=
  ⟨fun h => pairs_iff.mp h.1, fun h => ⟨pairs_iff.mpr h, keepsOthers serde rows reasoning⟩⟩

/-- A column of one record, an array: an id, a name, arguments and the status `finished`. -/
def arrayColumn : List Char :=
  "[[\x22c1\x22,\x22run\x22,\x7b\x7d,\x22finished\x22]]".toList

def arraySerde : Serde where
  tree text :=
    if text = arrayColumn then
      some (.arr [.arr [.str "c1".toList, .str "run".toList, .obj [], .str "finished".toList]])
    else none
  value
    | .obj [] => some (.object [])
    | _ => none

/-- A reply with that column, and the result of its call. -/
def arrayRows : List StoredRow :=
  [⟨0, "assistant".toList, "on it".toList, some arrayColumn⟩,
    ⟨1, "tool".toList, "c1\nok".toList, none⟩]

/-- The result is kept, and no message has its call. -/
theorem not_pairs_array :
    ¬ (Pairs (historyOfStored arraySerde arrayRows []) ∧
      KeepsOthers arraySerde arrayRows (historyOfStored arraySerde arrayRows [])) := by
  rintro ⟨hpairs, -⟩
  have hhistory : (historyOfStored arraySerde arrayRows []).map
      (fun m => (m.role, m.toolCalls.isSome, m.toolCallId)) =
        [(.assistant, false, none), (.tool, false, some "c1".toList)] := by decide +kernel
  obtain ⟨result, hresult, hview⟩ := List.mem_map.mp (hhistory ▸ List.mem_cons_of_mem _
    List.mem_cons_self : (Role.tool, false, some "c1".toList) ∈
      (historyOfStored arraySerde arrayRows []).map
        fun m => (m.role, m.toolCalls.isSome, m.toolCallId))
  obtain ⟨id, -, m, hm, calls, hcalls, -⟩ := hpairs.called result hresult (Prod.mk.inj hview).1
  have hnone := List.mem_map_of_mem (f := fun m => (m.role, m.toolCalls.isSome, m.toolCallId)) hm
  rw [hhistory] at hnone
  rw [Option.mem_def.mp hcalls] at hnone
  simp at hnone

/-- Where no record is an array with more than three items, calls and results belong together. -/
theorem pairs_of_short (hshort : ∀ row ∈ rows, ∀ text ∈ row.toolCalls, ∀ items,
      serde.tree text = some (.arr items) →
        ∀ item ∈ items, ∀ fields, item = .arr fields → fields.length ≤ 3) :
    Pairs (historyOfStored serde rows reasoning) := by
  refine pairs_iff.mpr fun id _ hrecorded => ?_
  obtain ⟨row, hrow, hcaller, record, hrecord, rfl⟩ := hrecorded
  cases hcolumn : row.toolCalls with
  | none =>
    rw [StoredRow.records, hcolumn] at hrecord
    cases hrecord
  | some text =>
    rw [StoredRow.records, hcolumn, Option.map_some, Option.getD_some, Serde.records] at hrecord
    cases htree : serde.tree text with
    | none =>
      rw [htree] at hrecord
      cases hrecord
    | some json =>
      rw [htree, Option.bind_some] at hrecord
      cases hvec : json.vec serde.readRecord with
      | none =>
        rw [hvec] at hrecord
        cases hrecord
      | some records =>
        rw [hvec, Option.getD_some] at hrecord
        obtain ⟨items, rfl⟩ : ∃ items, json = .arr items := by
          cases json with
          | arr items => exact ⟨items, rfl⟩
          | _ => cases hvec
        have hcalls := Serde.calls_of_records hvec (hshort row hrow text hcolumn items htree)
        refine ⟨row, hrow, records.map ChatToolCall.toCall, ?_, record.toCall,
          List.mem_map_of_mem hrecord, rfl⟩
        rw [Option.mem_def, StoredRow.calls, if_pos hcaller, hcolumn, Option.bind_some,
          Serde.calls, htree, Option.bind_some, hcalls]

/-! ### What the harness writes -/

structure Stores (serde : Serde) (row : ChatRow) (stored : StoredRow) : Prop where
  id : stored.id = row.id
  role : stored.role = (match row.role with
    | .user => "user".toList
    | .assistant => "assistant".toList
    | .tool => "tool".toList
    | .toolCalls => "tool_calls".toList
    | .system => "system".toList)
  content : stored.content = row.content
  records : stored.toolCalls.map serde.records = row.toolCalls
  calls : stored.toolCalls.bind serde.calls =
    row.toolCalls.map fun records => records.map ChatToolCall.toCall

namespace Stores

variable {row : ChatRow} {stored : StoredRow}

theorem isTool (h : Stores serde row stored) : stored.isTool = decide (row.role = .tool) := by
  rw [StoredRow.isTool, h.role]
  cases row.role <;> decide

theorem isCaller (h : Stores serde row stored) :
    stored.isCaller = decide (row.role = .assistant ∨ row.role = .toolCalls) := by
  rw [StoredRow.isCaller, h.role]
  cases row.role <;> decide

theorem recorded (h : Stores serde row stored) : stored.records serde = row.toolCalls.getD [] := by
  rw [StoredRow.records, h.records]

end Stores

variable {chatRows : List ChatRow}

end Stored

end Goble.Mission
