/-
  Storage/Table.lean --- `storage/src/table.cpp`: rows, validation, index hooks.

  The state of an operation is the table together with the index objects that its
  bindings point to; nothing is rolled back when an operation throws.
-/
import CwDb.Storage.Index
import CwDb.Storage.Schema

set_option autoImplicit false

namespace CwDb.Storage

open CwDb.Cpp
open CwDb.Foundation

/-- `struct Row`. -/
abbrev Row (σ : Type) : Type := List (Value σ)

/-- `class Table`. -/
structure Table (σ ι : Type) where
  name : ByteString
  schema : TableSchema σ
  rows : UnorderedMap RowId (Row σ) := .empty
  order : List RowId := []
  indexes : UnorderedMap Nat ι := .empty
  nextId : RowId := 1

/-- A table and the state of the index objects. -/
structure TableState (ι ω : Type) where
  table : Table ByteString ι
  world : ω

abbrev TableM (ι ω α : Type) : Type := EStateM Fault (TableState ι ω) α

namespace Table

/-- `Table(name, schema)`. -/
def ofSchema {σ ι : Type} (name : ByteString) (schema : TableSchema σ) : Table σ ι :=
  { name, schema }

variable {ι ω : Type}

/-- `rows_.at(id)`. -/
def rowAt (t : Table ByteString ι) (id : RowId) : Except Fault (Row ByteString) :=
  match t.rows.find? id with
  | some row => .ok row
  | none => raise .outOfRange (text "unordered_map::at")

/-- `Table::require_column`. -/
def requireColumn (t : Table ByteString ι) (name : ByteString) : Except Fault Nat :=
  match t.schema.findIndex name with
  | some i => .ok i
  | none =>
      raise .runtimeError (text "Table::require_column: unknown column '" ++ name ++ text "'")

/-- The loop of `Table::materialize`: `row` so far and the columns `assigned`. -/
def materializeLoop (count : Nat) :
    List (Nat × Value ByteString) → Row ByteString → List Nat → Except Fault (Row ByteString)
  | [], row, _ => .ok row
  | (pos, value) :: rest, row, assigned =>
      if count ≤ pos then
        raise .outOfRange (text "Table::materialize: column index out of range")
      else if pos ∈ assigned then
        raise .invalidArgument (text "Table::materialize: duplicate column index")
      else materializeLoop count rest (row.set pos value) (pos :: assigned)

/-- `Table::materialize`. -/
def materialize (t : Table ByteString ι) (columnPositions : List Nat)
    (values : List (Value ByteString)) : Except Fault (Row ByteString) :=
  if columnPositions.length ≠ values.length then
    raise .invalidArgument (text "Table::materialize: columns and values count mismatch")
  else
    materializeLoop t.schema.columnCount (columnPositions.zip values)
      (List.replicate t.schema.columnCount .null) []

variable [IIndex ι ω]

/-! ## Validation -/

/-- `Table::value_exists_in_column`. -/
def valueExistsInColumn (t : Table ByteString ι) (w : ω) (column : Nat)
    (value : Value ByteString) (excludeId : Option RowId) : Except Fault Bool :=
  match t.indexes.find? column with
  | some index => do
      match ← IIndex.find index value w with
      | none => pure false
      | some found => pure (excludeId != some found)
  | none =>
      t.rows.entries.anyM fun (rowId, row) => do
        if excludeId = some rowId then pure false
        else
          let stored ← vectorAt row column
          pure (stored.compare value == some .eq)

/-- One round of the loop of `Table::validate`. -/
def validateColumn (t : Table ByteString ι) (w : ω) (row : Row ByteString)
    (existingId : Option RowId) (i : Nat) : Except Fault Unit := do
  let col ← t.schema.at i
  let value ← vectorAt row i
  if value.isNull then
    if col.notNull || col.indexed then
      raise .invalidArgument
        (text "Table::validate: NULL not allowed in column '" ++ col.name ++ text "'")
    else pure ()
  else if !value.matches col.type then
    raise .invalidArgument
      (text "Table::validate: type mismatch for column '" ++ col.name ++ text "'")
  else if col.indexed then do
    if ← t.valueExistsInColumn w i value existingId then
      raise .invalidArgument
        (text "Table::validate: duplicate value in indexed column '" ++ col.name ++ text "'")
    else pure ()
  else pure ()

/-- `Table::validate`. -/
def validate (t : Table ByteString ι) (w : ω) (row : Row ByteString)
    (existingId : Option RowId) : Except Fault Unit :=
  if row.length ≠ t.schema.columnCount then
    raise .invalidArgument (text "Table::validate: row arity mismatch")
  else (List.range t.schema.columnCount).forM (t.validateColumn w row existingId)

/-! ## Index hooks -/

/-- A call on an index object. -/
def onWorld {α : Type} (m : EStateM Fault ω α) : TableM ι ω α :=
  zoom TableState.world (fun s w => { s with world := w }) m

/-- `Table::notify_indexes_insert`. -/
def notifyIndexesInsert (rowId : RowId) (row : Row ByteString) : TableM ι ω PUnit := do
  let s ← get
  s.table.indexes.entries.forM fun (column, index) =>
    match row[column]? with
    | some value => onWorld (IIndex.insert index value rowId)
    | none => pure ⟨⟩

/-- `Table::notify_indexes_update`. -/
def notifyIndexesUpdate (rowId : RowId) (column : Nat) (oldValue newValue : Value ByteString) :
    TableM ι ω PUnit := do
  let s ← get
  match s.table.indexes.find? column with
  | none => pure ⟨⟩
  | some index => do
      let _ ← onWorld (IIndex.erase index oldValue)
      onWorld (IIndex.insert index newValue rowId)

/-- `Table::notify_indexes_erase`. -/
def notifyIndexesErase (row : Row ByteString) : TableM ι ω PUnit := do
  let s ← get
  s.table.indexes.entries.forM fun (column, index) =>
    match row[column]? with
    | some value => do
        let _ ← onWorld (IIndex.erase index value)
        pure ⟨⟩
    | none => pure ⟨⟩

/-! ## Operations -/

/-- `modify` on the table. -/
def modifyTable (f : Table ByteString ι → Table ByteString ι) : TableM ι ω PUnit :=
  modify fun s => { s with table := f s.table }

/-- `Table::insert`. -/
def insert (row : Row ByteString) : TableM ι ω RowId := do
  let s ← get
  fromExcept (s.table.validate s.world row none)
  let rowId := s.table.nextId
  modifyTable fun t =>
    { t with nextId := t.nextId + 1, rows := t.rows.emplace rowId row,
             order := t.order ++ [rowId] }
  let s ← get
  let stored ← fromExcept (s.table.rowAt rowId)
  notifyIndexesInsert rowId stored
  pure rowId

/-- `Table::update`. -/
def update (id : RowId) (column : Nat) (newValue : Value ByteString) : TableM ι ω PUnit := do
  let s ← get
  match s.table.rows.find? id with
  | none => throw (.throws .outOfRange (text "Table::update: row id not found"))
  | some row =>
      if s.table.schema.columnCount ≤ column then
        throw (.throws .outOfRange (text "Table::update: column out of range"))
      else do
        let oldValue ← fromExcept (vectorAt row column)
        let updated := row.set column newValue
        fromExcept (s.table.validate s.world updated (some id))
        notifyIndexesUpdate id column oldValue newValue
        modifyTable fun t => { t with rows := t.rows.replace id updated }

/-- `Table::erase`. -/
def erase (id : RowId) : TableM ι ω PUnit := do
  let s ← get
  match s.table.rows.find? id with
  | none => throw (.throws .outOfRange (text "Table::erase: row id not found"))
  | some row => do
      notifyIndexesErase row
      modifyTable fun t => { t with rows := t.rows.erase id, order := t.order.erase id }

/-- The value `Table::insert_row` gives a column. -/
def rowValue (values : List (Option (Value ByteString))) (col : ColumnDef ByteString) (i : Nat) :
    Except Fault (Value ByteString) :=
  match values[i]? with
  | some (some value) => .ok value
  | _ =>
      match col.defaultValue with
      | some value => .ok value
      | none =>
          if col.notNull then
            raise .invalidArgument
              (text "Table::insert_row: missing NOT_NULL value for column '" ++ col.name ++
                text "'")
          else .ok .null

/-- `Table::insert_row`. -/
def insertRow (values : List (Option (Value ByteString))) : TableM ι ω PUnit := do
  let s ← get
  if s.table.schema.columnCount < values.length then
    throw (.throws .invalidArgument (text "Table::insert_row: too many values"))
  else do
    let row ← fromExcept
      (s.table.schema.columns.zipIdx.mapM fun (col, i) => rowValue values col i)
    let _ ← insert row
    pure ⟨⟩

/-- `Table::attach_index`; `none` is the null pointer. -/
def attachIndex (column : Nat) (index : Option ι) (rebuild : Bool) : TableM ι ω PUnit := do
  let s ← get
  if s.table.schema.columnCount ≤ column then
    throw (.throws .outOfRange (text "Table::attach_index: column out of range"))
  else
    match index with
    | none => throw (.throws .invalidArgument (text "Table::attach_index: index must not be null"))
    | some index => do
        modifyTable fun t => { t with indexes := t.indexes.assign column index }
        if rebuild then
          s.table.order.forM fun rowId => do
            let row ← fromExcept (s.table.rowAt rowId)
            let value ← fromExcept (vectorAt row column)
            onWorld (IIndex.insert index value rowId)
        else pure ⟨⟩

/-- `Table::detach_index`. -/
def detachIndex (column : Nat) : TableM ι ω PUnit :=
  modifyTable fun t => { t with indexes := t.indexes.erase column }

omit [IIndex ι ω] in
/-- `Table::has_index`. -/
def hasIndex (t : Table ByteString ι) (column : Nat) : Bool := t.indexes.contains column

end Table
end CwDb.Storage
