import Goble.Lib.Base64
import Goble.Snapshot.Schema

/-!
# Disaster recovery snapshots

The rows of the snapshot tables are exported as JSON objects and inserted again in one transaction.
A BLOB becomes a string of base64url and a TEXT value the string it is, and the import tells the two
apart by the spelling alone: a string that is the base64url of some bytes becomes a BLOB, which no
TEXT column takes. So a store comes back exactly when no TEXT value of it is spelled like that, and
no REAL is changed by being printed and parsed (`restores_iff`). The empty text is the base64url of
no bytes.
-/

namespace Goble.Snapshot

/-- A JSON value. Its numbers are the integers of an `i64` and floats; of an array or an object only
its own text is used. -/
inductive JsonValue (R : Type)
  | null
  | bool (b : Bool)
  | integer (i : Int)
  | float (r : R)
  | string (s : List Char)
  | nested (text : List Char)

abbrev JsonRow (R : Type) := List (String × JsonValue R)

def snapshotTables : List String :=
  ["settings", "agents", "workers", "teams", "team_members", "chats", "chat_messages",
    "mcp_servers", "mcp_accounts", "principals", "access_grants", "vault_secrets", "workflows",
    "executions", "llm_settings", "credentials", "missions", "reasoning_steps", "pending_asks",
    "pending_commands", "agent_memory"]

def snapshotVersion : Nat := 1

structure SnapshotPayload (R : Type) where
  version : Nat
  tables : String → Option (List (JsonRow R))

variable {R : Type}

/-! ### Export -/

def exportValue : Value R → JsonValue R
  | .null => .null
  | .integer i => .integer i
  | .real r => .float r
  | .text s => .string s
  | .blob bytes => .string (Base64.urlDigits bytes)

def dumpTable (rows : List (Row R)) : List (JsonRow R) :=
  rows.map fun row => row.map fun cell => (cell.1, exportValue cell.2)

def exportSnapshotPayload (store : Tables R) : SnapshotPayload R where
  version := snapshotVersion
  tables table := if table ∈ snapshotTables then some (dumpTable (store table)) else none

def JsonValue.reparsed (reparse : R → R) : JsonValue R → JsonValue R
  | .float r => .float (reparse r)
  | value => value

def SnapshotPayload.reparsed (reparse : R → R) (payload : SnapshotPayload R) :
    SnapshotPayload R where
  version := payload.version
  tables table := (payload.tables table).map fun rows => rows.map fun row =>
    row.map fun cell => (cell.1, cell.2.reparsed reparse)

/-! ### Import -/

def jsonToSqliteValue : JsonValue R → Value R
  | .null => .null
  | .bool b => .integer (if b then 1 else 0)
  | .integer i => .integer i
  | .float r => .real r
  | .string s =>
    match Base64.ofUrlDigits s with
    | some bytes => if Base64.urlDigits bytes = s then .blob bytes else .text s
    | none => .text s
  | .nested text => .text text

variable (insert : Insert R)

def restoreTable (table : String) (rows : List (JsonRow R)) : Option (List (Row R)) :=
  match rows with
  | [] => some []
  | first :: _ =>
    let columns := first.map Prod.fst
    rows.foldlM
      (fun done row => insert table done
        (columns.map fun column => (column, jsonToSqliteValue ((row.lookup column).getD .null))))
      []

/-- The loop over the tables: each is cleared, and filled from the payload. -/
def importTables (payload : SnapshotPayload R) : List String → Tables R → Option (Tables R)
  | [], store => some store
  | table :: rest, store =>
    (match payload.tables table with
      | some rows => restoreTable insert table rows
      | none => some []).bind fun restored =>
        importTables payload rest fun other => if other = table then restored else store other

/-- Whether the import succeeds, and the store after it: a transaction that fails is rolled back. -/
def importSnapshotPayload (payload : SnapshotPayload R) (store : Tables R) : Bool × Tables R :=
  if payload.version ≠ snapshotVersion then (false, store)
  else
    match importTables insert payload snapshotTables store with
    | some store' => (true, store')
    | none => (false, store)

/-- The import of the export succeeds on an empty store and leaves the rows of every table, and one
that fails leaves the store as it was. -/
structure Restores (reparse : R → R) (store : Tables R) : Prop where
  back : ∃ store', importSnapshotPayload insert ((exportSnapshotPayload store).reparsed reparse)
      (fun _ => []) = (true, store') ∧ ∀ table ∈ snapshotTables, store' table = store table
  rollback : ∀ payload before, (importSnapshotPayload insert payload before).1 = false →
    (importSnapshotPayload insert payload before).2 = before

/-- A value that is read back as it was written. -/
def Value.Plain (reparse : R → R) : Value R → Prop
  | .text s => ∀ bytes, Base64.urlDigits bytes ≠ s
  | .real r => reparse r = r
  | _ => True

variable {insert}

/-! ### A value there and back -/

def returned (reparse : R → R) (value : Value R) : Value R :=
  jsonToSqliteValue ((exportValue value).reparsed reparse)

theorem jsonToSqliteValue_urlDigits (bytes : List UInt8) :
    jsonToSqliteValue (R := R) (.string (Base64.urlDigits bytes)) = .blob bytes := by
  simp only [jsonToSqliteValue, Base64.ofUrlDigits_urlDigits, if_true]

theorem jsonToSqliteValue_string {s : List Char} (h : ∀ bytes, Base64.urlDigits bytes ≠ s) :
    jsonToSqliteValue (R := R) (.string s) = .text s := by
  rw [jsonToSqliteValue]
  cases Base64.ofUrlDigits s with
  | none => rfl
  | some bytes => exact if_neg (h bytes)

theorem returned_eq_iff (reparse : R → R) (value : Value R) :
    returned reparse value = value ↔ value.Plain reparse := by
  cases value with
  | null => exact iff_of_true rfl trivial
  | integer i => exact iff_of_true rfl trivial
  | blob bytes => exact iff_of_true (jsonToSqliteValue_urlDigits bytes) trivial
  | real r => exact ⟨fun h => Value.real.inj h, fun h => congrArg Value.real h⟩
  | text s =>
    constructor
    · rintro h bytes rfl
      have hblob := jsonToSqliteValue_urlDigits (R := R) bytes
      rw [show jsonToSqliteValue (.string _) = _ from h] at hblob
      cases hblob
    · exact fun h => jsonToSqliteValue_string h

theorem returned_fits (reparse : R → R) {value : Value R} {type : ColumnType}
    (h : value.fits type = true) :
    (returned reparse value).fits type = true ∨
      type = .text ∧ ∃ bytes, returned reparse value = .blob bytes := by
  cases value with
  | null => exact .inl h
  | integer i => exact .inl h
  | real r => exact .inl h
  | blob bytes => exact .inl (by rwa [show returned reparse (.blob bytes) = _ from
      jsonToSqliteValue_urlDigits bytes])
  | text s =>
    by_cases hplain : ∀ bytes, Base64.urlDigits bytes ≠ s
    · rw [show returned reparse (.text s) = _ from jsonToSqliteValue_string hplain]
      exact .inl h
    · push Not at hplain
      obtain ⟨bytes, rfl⟩ := hplain
      exact .inr ⟨of_decide_eq_true h, bytes, jsonToSqliteValue_urlDigits bytes⟩

/-! ### A table there and back -/

/-- What the import makes of an exported row. -/
def returnedRow (reparse : R → R) (row : Row R) : Row R :=
  row.map fun cell => (cell.1, returned reparse cell.2)

theorem returnedRow_eq_iff (reparse : R → R) (row : Row R) :
    returnedRow reparse row = row ↔ ∀ cell ∈ row, cell.2.Plain reparse := by
  conv_lhs => rhs; rw [← List.map_id row]
  rw [returnedRow, List.map_inj_left]
  refine forall₂_congr fun cell _ => ?_
  rw [← returned_eq_iff, id, Prod.mk.injEq, eq_self, true_and]

def payloadRows (reparse : R → R) (rows : List (Row R)) : List (JsonRow R) :=
  rows.map fun row => row.map fun cell => (cell.1, (exportValue cell.2).reparsed reparse)

variable {table : String}

theorem tables_reparsed (reparse : R → R) (store : Tables R) (h : table ∈ snapshotTables) :
    ((exportSnapshotPayload store).reparsed reparse).tables table =
      some (payloadRows reparse (store table)) := by
  simp only [SnapshotPayload.reparsed, exportSnapshotPayload, if_pos h, Option.map_some, dumpTable,
    payloadRows, List.map_map, Function.comp_def]

theorem arranged_eq (reparse : R → R) {row : Row R} (hnodup : (row.map Prod.fst).Nodup) :
    ((row.map Prod.fst).map fun column => (column, jsonToSqliteValue
      (((row.map fun cell => (cell.1, (exportValue cell.2).reparsed reparse)).lookup column).getD
        .null))) = returnedRow reparse row := by
  rw [List.map_map, returnedRow]
  refine List.map_congr_left fun cell hcell => ?_
  have hnodup' : ((row.map fun cell =>
      (cell.1, (exportValue cell.2).reparsed reparse)).map Prod.fst).Nodup := by
    rw [List.map_map]
    exact hnodup
  have hlookup := lookup_of_mem hnodup' (List.mem_map_of_mem hcell)
  rw [Function.comp_apply, hlookup]
  rfl

variable {schema : Schema}

theorem restoreTable_payloadRows (reparse : R → R) {rows : List (Row R)}
    (htyped : ∀ row ∈ rows, (schema table).Typed row) :
    restoreTable insert table (payloadRows reparse rows) =
      (rows.map (returnedRow reparse)).foldlM (insert table) [] := by
  cases rows with
  | nil => rfl
  | cons first rest =>
    have hcolumns : (first.map fun cell =>
        (cell.1, (exportValue cell.2).reparsed reparse)).map Prod.fst = first.map Prod.fst :=
      List.map_map ..
    have hrows : (first :: rest).map (returnedRow reparse) =
        (payloadRows reparse (first :: rest)).map fun row => (first.map Prod.fst).map fun column =>
          (column, jsonToSqliteValue ((row.lookup column).getD .null)) := by
      rw [payloadRows, List.map_map]
      refine List.map_congr_left fun row hrow => ?_
      have hnames : first.map Prod.fst = row.map Prod.fst := by
        rw [(htyped first List.mem_cons_self).names, (htyped row hrow).names]
      rw [Function.comp_apply, hnames, arranged_eq reparse (htyped row hrow).nodup]
    rw [hrows, List.foldlM_map, payloadRows, List.map_cons, restoreTable, hcolumns]

theorem returnedRow_typed (reparse : R → R) {table : TableSchema} {row : Row R}
    (h : table.Typed row) :
    table.Typed (returnedRow reparse row) ∨ table.Misfit (returnedRow reparse row) := by
  have hnames : (returnedRow reparse row).map Prod.fst = table.columns.map Column.name := by
    rw [returnedRow, List.map_map, ← h.names]
    rfl
  suffices hcells : ∀ {columns : List Column} {cells : Row R},
      List.Forall₂ (fun column cell => cell.1 = column.name ∧ cell.2.fits column.type)
        columns cells →
      List.Forall₂ (fun column cell => cell.1 = column.name ∧ cell.2.fits column.type)
        columns (returnedRow reparse cells) ∨
      ∃ column ∈ columns, column.type = .text ∧
        ∃ bytes, (column.name, .blob bytes) ∈ returnedRow reparse cells from
    (hcells h).imp id fun hblob => ⟨hnames, hblob⟩
  intro columns cells hcells
  induction hcells with
  | nil => exact .inl .nil
  | @cons column cell columns cells hcell _ ih =>
    rcases returned_fits reparse hcell.2 with hfits | ⟨htype, bytes, hblob⟩
    · refine ih.imp (fun hrest => .cons ⟨hcell.1, hfits⟩ hrest) ?_
      rintro ⟨other, hother, htype, bytes, hmem⟩
      exact ⟨other, List.mem_cons_of_mem _ hother, htype, bytes, List.mem_cons_of_mem _ hmem⟩
    · refine .inr ⟨column, List.mem_cons_self, htype, bytes, ?_⟩
      rw [← hcell.1, ← hblob]
      exact List.mem_cons_self

/-- Rows of the right types are stored as they are, and a BLOB for a TEXT column ends it all. -/
theorem eq_of_foldlM_insert (hstrict : Strict schema insert) {rows done result : List (Row R)}
    (hrows : ∀ row ∈ rows, (schema table).Typed row ∨ (schema table).Misfit row)
    (h : rows.foldlM (insert table) done = some result) : result = done ++ rows := by
  induction rows generalizing done with
  | nil => rw [List.append_nil, Option.some.inj h]
  | cons row rest ih =>
    obtain ⟨next, hnext, hrest⟩ := Option.bind_eq_some_iff.mp h
    rcases hrows row List.mem_cons_self with htyped | hmisfit
    · rw [ih (fun other hother => hrows other (List.mem_cons_of_mem _ hother)) hrest,
        hstrict.stored table done row next htyped hnext, List.append_assoc, List.singleton_append]
    · rw [hstrict.refused table done row hmisfit] at hnext
      cases hnext

/-- **A table.** Its rows come back exactly when every value of them is read back as it was
written. -/
theorem restoreTable_eq_some_iff (reparse : R → R) (hstrict : Strict schema insert)
    {store : Tables R} (hcontent : Content schema insert store) (table : String) :
    restoreTable insert table (payloadRows reparse (store table)) = some (store table) ↔
      ∀ row ∈ store table, ∀ cell ∈ row, cell.2.Plain reparse := by
  rw [restoreTable_payloadRows reparse (hcontent.typed table)]
  simp only [← returnedRow_eq_iff]
  constructor
  · intro h
    have hrows : ∀ row ∈ (store table).map (returnedRow reparse),
        (schema table).Typed row ∨ (schema table).Misfit row := by
      intro row hrow
      obtain ⟨source, hsource, rfl⟩ := List.mem_map.mp hrow
      exact returnedRow_typed reparse (hcontent.typed table source hsource)
    have heq := eq_of_foldlM_insert hstrict hrows h
    rw [List.nil_append] at heq
    conv_lhs at heq => rw [← List.map_id (store table)]
    exact fun row hrow => (List.map_inj_left.mp heq row hrow).symm
  · intro h
    rw [List.map_congr_left h, List.map_id']
    exact hcontent.inserted table

/-! ### All the tables -/

variable {payload : SnapshotPayload R}

theorem importTables_of_notMem {tables : List String} {store store' : Tables R}
    (h : importTables insert payload tables store = some store') (htable : table ∉ tables) :
    store' table = store table := by
  induction tables generalizing store with
  | nil => rw [Option.some.inj h]
  | cons first rest ih =>
    obtain ⟨restored, _, hrest⟩ := Option.bind_eq_some_iff.mp h
    rw [List.mem_cons, not_or] at htable
    rw [ih hrest htable.2, if_neg htable.1]

theorem importTables_eq_some {rows : String → List (JsonRow R)} {tables : List String}
    {store store' : Tables R} (hnodup : tables.Nodup)
    (hpayload : ∀ table ∈ tables, payload.tables table = some (rows table))
    (h : importTables insert payload tables store = some store') :
    ∀ table ∈ tables, restoreTable insert table (rows table) = some (store' table) := by
  induction tables generalizing store with
  | nil => exact fun _ htable => nomatch htable
  | cons first rest ih =>
    obtain ⟨restored, hrestored, hrest⟩ := Option.bind_eq_some_iff.mp h
    rw [List.nodup_cons] at hnodup
    intro table htable
    rcases List.mem_cons.mp htable with rfl | htable
    · rw [hpayload table List.mem_cons_self] at hrestored
      rw [importTables_of_notMem hrest hnodup.1, if_pos rfl]
      exact hrestored
    · exact ih hnodup.2 (fun table htable => hpayload table (List.mem_cons_of_mem _ htable)) hrest
        table htable

theorem exists_importTables {rows : String → List (JsonRow R)} {restored : Tables R}
    {tables : List String} (store : Tables R)
    (hpayload : ∀ table ∈ tables, payload.tables table = some (rows table))
    (h : ∀ table ∈ tables, restoreTable insert table (rows table) = some (restored table)) :
    ∃ store', importTables insert payload tables store = some store' := by
  induction tables generalizing store with
  | nil => exact ⟨store, rfl⟩
  | cons first rest ih =>
    rw [importTables, hpayload first List.mem_cons_self]
    simp only [h first List.mem_cons_self, Option.bind_some]
    exact ih _ (fun table htable => hpayload table (List.mem_cons_of_mem _ htable))
      fun table htable => h table (List.mem_cons_of_mem _ htable)

theorem snapshotTables_nodup : snapshotTables.Nodup := by decide

theorem importSnapshotPayload_rollback {before : Tables R}
    (h : (importSnapshotPayload insert payload before).1 = false) :
    (importSnapshotPayload insert payload before).2 = before := by
  rw [importSnapshotPayload] at h ⊢
  split at h
  · next hversion => rw [if_pos hversion]
  · next hversion =>
    rw [if_neg hversion]
    cases himport : importTables insert payload snapshotTables before with
    | none => rfl
    | some store' =>
      rw [himport] at h
      cases h

/-- **Disaster recovery.** The data comes back exactly when no TEXT value is the base64url of some
bytes and every REAL is read back as it was written. -/
theorem restores_iff (schema : Schema) (insert : Insert R) (reparse : R → R) (store : Tables R)
    (hstrict : Strict schema insert) (hcontent : Content schema insert store) :
    Restores insert reparse store ↔
      ∀ table ∈ snapshotTables, ∀ row ∈ store table, ∀ cell ∈ row, cell.2.Plain reparse := by
  have hpayload : ∀ table ∈ snapshotTables,
      ((exportSnapshotPayload store).reparsed reparse).tables table =
        some (payloadRows reparse (store table)) :=
    fun table htable => tables_reparsed reparse store htable
  have himport : importSnapshotPayload insert ((exportSnapshotPayload store).reparsed reparse)
      (fun _ => []) =
      match importTables insert ((exportSnapshotPayload store).reparsed reparse) snapshotTables
        (fun _ => []) with
      | some store' => (true, store')
      | none => (false, fun _ => []) := rfl
  constructor
  · rintro ⟨⟨store', hback, hsame⟩, -⟩ table htable
    rw [himport] at hback
    split at hback
    · next restored hrestored =>
      obtain rfl : restored = store' := congrArg Prod.snd hback
      have htables := importTables_eq_some snapshotTables_nodup hpayload hrestored table htable
      rw [hsame table htable] at htables
      exact (restoreTable_eq_some_iff reparse hstrict hcontent table).mp htables
    · cases congrArg Prod.fst hback
  · intro hplain
    have htables : ∀ table ∈ snapshotTables,
        restoreTable insert table (payloadRows reparse (store table)) = some (store table) :=
      fun table htable =>
        (restoreTable_eq_some_iff reparse hstrict hcontent table).mpr (hplain table htable)
    obtain ⟨store', hrestored⟩ := exists_importTables (fun _ => []) hpayload htables
    refine ⟨⟨store', ?_, fun table htable => ?_⟩, fun _ _ h => importSnapshotPayload_rollback h⟩
    · rw [himport, hrestored]
    · have hsome := importTables_eq_some snapshotTables_nodup hpayload hrestored table htable
      rw [htables table htable] at hsome
      exact (Option.some.inj hsome).symm

/-! ### A store that comes back, and one that does not -/

def Value.undecodable : Value R → Bool
  | .text s => (Base64.ofUrlDigits s).isNone
  | _ => true

theorem Value.plain_of_undecodable {value : Value R} (h : value.undecodable = true) :
    value.Plain id := by
  cases value with
  | text s =>
    rintro bytes rfl
    rw [Value.undecodable, Base64.ofUrlDigits_urlDigits] at h
    cases h
  | real r => rfl
  | null => trivial
  | integer i => trivial
  | blob bytes => trivial

def storeOf (rows : List (String × List (Row R))) : Tables R := fun table =>
  (rows.lookup table).getD []

theorem storeOf_cases (rows : List (String × List (Row R))) (table : String) :
    storeOf rows table = [] ∨ (table, storeOf rows table) ∈ rows := by
  rw [storeOf]
  cases hlookup : rows.lookup table with
  | none => exact .inl rfl
  | some found =>
    obtain ⟨before, after, hrows, -⟩ := List.lookup_eq_some_iff.mp hlookup
    rw [hrows]
    exact .inr (List.mem_append_right _ List.mem_cons_self)

theorem content_storeOf {rows : List (String × List (Row R))}
    (htyped : ∀ entry ∈ rows, ∀ row ∈ entry.2, (schema entry.1).Typed row)
    (hinserted : ∀ entry ∈ rows, entry.2.foldlM (insert entry.1) [] = some entry.2) :
    Content schema insert (storeOf rows) where
  typed := by
    intro table row hrow
    rcases storeOf_cases rows table with hempty | hentry
    · rw [hempty] at hrow
      cases hrow
    · exact htyped _ hentry row hrow
  inserted := by
    intro table
    rcases storeOf_cases rows table with hempty | hentry
    · rw [hempty]
      rfl
    · exact hinserted _ hentry

def plainRows : List (String × List (Row Rat)) :=
  [("settings", [[("key", .text "theme".toList), ("value", .text "dark mode".toList)]]),
    ("vault_secrets", [[("key", .text "api key".toList), ("encrypted_value", .blob [1, 2, 3]),
      ("metadata", .text "[]".toList), ("updated_at", .text "2026-01-01 00:00".toList)]]),
    ("llm_settings", [[("provider", .text "a provider".toList), ("api_key", .text "a key".toList),
      ("base_url", .null), ("model", .text "a model".toList), ("temperature", .real 1)]])]

theorem plainRows_typed :
    ∀ entry ∈ plainRows, ∀ row ∈ entry.2, (storeSchema entry.1).Typed row := by
  unfold TableSchema.Typed
  decide

theorem plainRows_undecodable :
    ∀ entry ∈ plainRows, ∀ row ∈ entry.2, ∀ cell ∈ row, cell.2.undecodable = true := by decide

theorem restores_iff_plain :
    Content storeSchema (insertRow storeSchema) (storeOf plainRows) ∧
      Restores (insertRow storeSchema) id (storeOf plainRows) := by
  have hcontent : Content storeSchema (insertRow storeSchema) (storeOf plainRows) :=
    content_storeOf plainRows_typed (by decide)
  refine ⟨hcontent, (restores_iff storeSchema (insertRow storeSchema) id (storeOf plainRows)
    (insertRow_strict storeSchema) hcontent).mpr ?_⟩
  intro table _ row hrow cell hcell
  rcases storeOf_cases plainRows table with hempty | hentry
  · rw [hempty] at hrow
    cases hrow
  · exact Value.plain_of_undecodable (plainRows_undecodable _ hentry row hrow cell hcell)

/-- The theme is the base64url of three bytes. -/
def darkRows : List (String × List (Row Rat)) :=
  [("settings", [[("key", .text "theme".toList), ("value", .text "dark".toList)]])]

theorem not_restores_dark :
    Content storeSchema (insertRow storeSchema) (storeOf darkRows) ∧
      ¬ Restores (insertRow storeSchema) id (storeOf darkRows) := by
  refine ⟨content_storeOf ?_ (by decide), ?_⟩
  · unfold TableSchema.Typed
    decide
  · rintro ⟨⟨store', hback, -⟩, -⟩
    have hfails : (importSnapshotPayload (insertRow storeSchema)
        ((exportSnapshotPayload (storeOf darkRows)).reparsed id) (fun _ => [])).1 = false := by
      decide
    rw [hback] at hfails
    cases hfails

end Goble.Snapshot
