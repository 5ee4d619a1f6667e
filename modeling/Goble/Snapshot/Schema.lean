import Goble.Lib.Lists

/-!
# STRICT tables

The tables of the store that a snapshot holds, as the migration creates them, and what STRICT tables
promise of an INSERT (`Strict`): a row of values that fit their columns is stored as it is, if it is
stored, and a TEXT column takes no BLOB. `insertRow` is an INSERT without the conversions, with NOT
NULL and the primary key checked.

A row is its values with the names of their columns, in the order of the columns.
-/

namespace Goble.Snapshot

/-- A value of SQLite; `R` are the finite floats. -/
inductive Value (R : Type)
  | null
  | integer (i : Int)
  | real (r : R)
  | text (s : List Char)
  | blob (bytes : List UInt8)
deriving DecidableEq

inductive ColumnType
  | text | integer | real | blob
deriving DecidableEq

structure Column where
  name : String
  type : ColumnType
  notNull : Bool

structure TableSchema where
  columns : List Column
  primaryKey : List String
  nodup : (columns.map Column.name).Nodup := by decide

abbrev Schema := String → TableSchema

abbrev Row (R : Type) := List (String × Value R)

abbrev Tables (R : Type) := String → List (Row R)

/-! ### The migration -/

/-- A column declared `NOT NULL`, and the primary key. -/
def Column.required (name : String) (type : ColumnType) : Column := ⟨name, type, true⟩

def Column.optional (name : String) (type : ColumnType) : Column := ⟨name, type, false⟩

open Column in
/-- The tables of the snapshot as `Store::migrate` creates them. -/
def migrate : List (String × TableSchema) :=
  [("settings", { columns := [required "key" .text, required "value" .text]
                  primaryKey := ["key"] }),
    ("agents", { columns := [required "id" .text, required "name" .text, required "spec" .text,
                   required "created_at" .text, required "updated_at" .text]
                 primaryKey := ["id"] }),
    ("workers", { columns := [required "id" .text, required "name" .text, optional "host" .text,
                    required "pairing_status" .text, optional "public_key" .text,
                    optional "config" .text, required "created_at" .text,
                    required "updated_at" .text]
                  primaryKey := ["id"] }),
    ("teams", { columns := [required "id" .text, required "name" .text, required "metadata" .text,
                  required "created_at" .text]
                primaryKey := ["id"] }),
    ("team_members", { columns := [required "team_id" .text, required "agent_id" .text]
                       primaryKey := ["team_id", "agent_id"] }),
    ("chats", { columns := [required "id" .text, required "title" .text, optional "provider" .text,
                  optional "model" .text, optional "agent_id" .text, optional "worker_id" .text,
                  optional "workspace_routing" .text, optional "medium_id" .text,
                  optional "parent_chat_id" .text, optional "working_dir" .text,
                  required "usage_input" .integer, required "usage_output" .integer,
                  optional "usage_cached" .integer, required "created_at" .text,
                  required "updated_at" .text]
                primaryKey := ["id"] }),
    ("chat_messages", { columns := [required "id" .text, required "chat_id" .text,
                          required "role" .text, required "content" .text,
                          optional "tool_calls" .text, optional "reasoning_content" .text,
                          required "created_at" .text]
                        primaryKey := ["id"] }),
    ("mcp_servers", { columns := [required "id" .text, required "name" .text,
                        required "source" .text, optional "source_value" .text,
                        required "manifest" .text, optional "credentials_key" .text,
                        required "secret_ids" .text, required "enabled_tools" .text,
                        required "installed_at" .text, required "updated_at" .text]
                      primaryKey := ["id"] }),
    ("mcp_accounts", { columns := [required "id" .text, required "server_id" .text,
                         required "principal_id" .text, required "name" .text,
                         required "secret_ids" .text, required "created_at" .text,
                         required "updated_at" .text]
                       primaryKey := ["id"] }),
    ("principals", { columns := [required "id" .text, required "kind" .text,
                       required "name" .text, required "created_at" .text]
                     primaryKey := ["id"] }),
    ("access_grants", { columns := [required "id" .text, required "principal_id" .text,
                          required "grant" .text, optional "scope" .text,
                          required "created_at" .text]
                        primaryKey := ["id"] }),
    ("vault_secrets", { columns := [required "key" .text, required "encrypted_value" .blob,
                          required "metadata" .text, required "updated_at" .text]
                        primaryKey := ["key"] }),
    ("workflows", { columns := [required "id" .text, required "name" .text,
                      required "description" .text, required "spec" .text,
                      required "trigger" .text, required "enabled" .integer,
                      required "created_at" .text, required "updated_at" .text]
                    primaryKey := ["id"] }),
    ("executions", { columns := [required "id" .text, optional "agent_id" .text,
                       optional "worker_id" .text, required "status" .text,
                       required "trace" .text, required "started_at" .text,
                       optional "finished_at" .text]
                     primaryKey := ["id"] }),
    ("llm_settings", { columns := [required "provider" .text, required "api_key" .text,
                         optional "base_url" .text, required "model" .text,
                         optional "temperature" .real]
                       primaryKey := ["provider"] }),
    ("credentials", { columns := [required "name" .text, required "value" .text]
                      primaryKey := ["name"] }),
    ("missions", { columns := [required "id" .text, required "chat_id" .text,
                     required "goal" .text, required "status" .text, optional "plan" .text,
                     optional "workflow_id" .text, required "created_at" .text,
                     required "updated_at" .text]
                   primaryKey := ["id"] }),
    ("reasoning_steps", { columns := [required "id" .text, required "mission_id" .text,
                            required "step_index" .integer, required "mode" .text,
                            required "content" .text, optional "decision" .text,
                            optional "tool_calls" .text, required "created_at" .text]
                          primaryKey := ["id"] }),
    ("pending_asks", { columns := [required "id" .text, required "chat_id" .text,
                         optional "mission_id" .text, required "question" .text,
                         required "quick_replies" .text, required "status" .text,
                         required "created_at" .text, required "updated_at" .text]
                       primaryKey := ["id"] }),
    ("pending_commands", { columns := [required "call_id" .text, required "chat_id" .text,
                             required "message_id" .text, required "candidates" .text,
                             required "cwd" .text, required "status" .text,
                             required "created_at" .text, required "updated_at" .text]
                           primaryKey := ["call_id"] }),
    ("agent_memory", { columns := [required "agent_id" .text, required "version" .integer,
                         required "memory" .text, required "updated_at" .text]
                       primaryKey := ["agent_id"] })]

def storeSchema : Schema := fun table =>
  (migrate.lookup table).getD { columns := [], primaryKey := [] }

/-! ### What fits, and what is stored -/

variable {R : Type}

/-- A value a column holds without a conversion. -/
def Value.fits : Value R → ColumnType → Bool
  | .null, _ => true
  | .integer _, type => type = .integer
  | .real _, type => type = .real
  | .text _, type => type = .text
  | .blob _, type => type = .blob

def TableSchema.Typed (table : TableSchema) (row : Row R) : Prop :=
  List.Forall₂ (fun column cell => cell.1 = column.name ∧ cell.2.fits column.type)
    table.columns row

def TableSchema.Misfit (table : TableSchema) (row : Row R) : Prop :=
  row.map Prod.fst = table.columns.map Column.name ∧
    ∃ column ∈ table.columns, column.type = .text ∧ ∃ bytes, (column.name, .blob bytes) ∈ row

abbrev Insert (R : Type) := String → List (Row R) → Row R → Option (List (Row R))

structure Strict (schema : Schema) (insert : Insert R) : Prop where
  stored : ∀ table done row rows, (schema table).Typed row → insert table done row = some rows →
    rows = done ++ [row]
  refused : ∀ table done row, (schema table).Misfit row → insert table done row = none

structure Content (schema : Schema) (insert : Insert R) (store : Tables R) : Prop where
  typed : ∀ table, ∀ row ∈ store table, (schema table).Typed row
  inserted : ∀ table, (store table).foldlM (insert table) [] = some (store table)

namespace TableSchema

theorem Typed.names {table : TableSchema} {row : Row R} (h : table.Typed row) :
    row.map Prod.fst = table.columns.map Column.name := by
  have hcells : List.Forall₂ (fun column cell => cell.1 = column.name) table.columns row :=
    h.imp fun _ _ hcell => hcell.1
  rw [← List.forall₂_eq_eq_eq, List.forall₂_map_left_iff, List.forall₂_map_right_iff]
  exact hcells.flip

theorem Typed.nodup {table : TableSchema} {row : Row R} (h : table.Typed row) :
    (row.map Prod.fst).Nodup := by
  rw [h.names]
  exact table.nodup

def arrange (table : TableSchema) (row : Row R) : Row R :=
  table.columns.map fun column => (column.name, (row.lookup column.name).getD .null)

theorem Typed.arrange {table : TableSchema} {row : Row R} (h : table.Typed row) :
    table.arrange row = row := by
  have hnames : table.arrange row =
      (row.map Prod.fst).map fun name => (name, (row.lookup name).getD .null) := by
    rw [h.names, List.map_map]
    rfl
  rw [hnames, List.map_map]
  conv_rhs => rw [← List.map_id row]
  refine List.map_congr_left fun cell hcell => ?_
  simp only [Function.comp_apply, lookup_of_mem h.nodup hcell, Option.getD_some, id]

end TableSchema

/-! ### An INSERT without conversions -/

section InsertRow

variable [DecidableEq R]

def TableSchema.accepts (table : TableSchema) (row : Row R) : Bool :=
  table.columns.all fun column =>
    let value := (row.lookup column.name).getD .null
    value.fits column.type && !(column.notNull && value == .null)

def TableSchema.key (table : TableSchema) (row : Row R) : List (Option (Value R)) :=
  table.primaryKey.map fun column => row.lookup column

def insertRow (schema : Schema) : Insert R := fun name done row =>
  let table := schema name
  let stored := table.arrange row
  if table.accepts row && done.all fun other => table.key other != table.key stored then
    some (done ++ [stored])
  else none

theorem insertRow_strict (schema : Schema) : Strict schema (insertRow (R := R) schema) where
  stored := by
    intro name done row rows hrow h
    simp only [insertRow] at h
    split at h
    · rw [← Option.some.inj h, hrow.arrange]
    · cases h
  refused := by
    rintro name done row ⟨hnames, column, hcolumn, htype, bytes, hcell⟩
    have hnodup : (row.map Prod.fst).Nodup := hnames ▸ (schema name).nodup
    have hlookup : row.lookup column.name = some (.blob bytes) := lookup_of_mem hnodup hcell
    have haccepts : (schema name).accepts row = false := by
      refine List.all_eq_false.mpr ⟨column, hcolumn, ?_⟩
      rw [hlookup, htype]
      exact Bool.false_ne_true
    simp only [insertRow, haccepts, Bool.false_and, Bool.false_eq_true, if_false]

end InsertRow

end Goble.Snapshot
