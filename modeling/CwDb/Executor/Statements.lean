/-
  Executor/Statements.lean --- what `query_engine.cpp` does to the table of an INSERT,
  an UPDATE or a DELETE, once the table has been resolved.
-/
import CwDb.Executor.Conditions

set_option autoImplicit false

namespace CwDb.Executor

open CwDb.Cpp
open CwDb.Foundation
open CwDb.Sql
open CwDb.Storage

/-! ## From the parser to the storage -/

/-- `DbmsQueryEngine::parser_value_to_storage`. -/
def parserValueToStorage : ParserValue → Value ByteString
  | .null => .null
  | .int n => .int n.toInt64
  | .str s => .str s

/-- `DbmsQueryEngine::parser_type_to_storage`. -/
def parserTypeToStorage : ColumnType → DataType
  | .int => .int
  | .string => .str

/-- One round of the loop of `DbmsQueryEngine::build_schema`. -/
def buildColumn (c : ParserColumnDef) : Storage.ColumnDef ByteString :=
  { name := c.name,
    type := parserTypeToStorage c.type,
    notNull := c.modifier = .notNull || c.modifier = .indexed,
    indexed := c.modifier = .indexed,
    defaultValue := c.defaultValue.map parserValueToStorage }

/-- `DbmsQueryEngine::build_schema`. -/
def buildSchema (columns : List ParserColumnDef) : Except Fault (TableSchema ByteString) :=
  TableSchema.ofColumns (columns.map buildColumn)

variable {ι ω : Type} [IIndex ι ω]

/-! ## INSERT -/

/-- One round of the loop of `execute_insert`. -/
def insertParserRow (columns : List ByteString) (positions : List Nat)
    (parserRow : List (Option ParserValue)) : TableM ι ω PUnit :=
  if columns.isEmpty then
    Table.insertRow (parserRow.map fun v => v.map parserValueToStorage)
  else do
    let provided := parserRow.map fun v => (v.map parserValueToStorage).getD .null
    let s ← get
    let row ← fromExcept (s.table.materialize positions provided)
    let _ ← Table.insert row
    pure ⟨⟩

/-- `DbmsQueryEngine::execute_insert` on its table. -/
def insertRows (columns : List ByteString) (rows : List (List (Option ParserValue))) :
    TableM ι ω PUnit := do
  let s ← get
  let positions ← fromExcept (columns.mapM s.table.requireColumn)
  rows.forM (insertParserRow columns positions)

/-! ## UPDATE -/

/-- One assignment to the row `id`. -/
def assignColumn (id : RowId) (assignment : Assignment) : TableM ι ω PUnit := do
  let s ← get
  let col ← fromExcept (s.table.requireColumn assignment.column)
  Table.update id col (parserValueToStorage assignment.value)

/-- One round of the loop of `execute_update`. -/
def updateRow (regexMatch : RegexMatch) (assignments : List Assignment)
    (where_ : Option Condition) (id : RowId) : TableM ι ω PUnit := do
  let s ← get
  match s.table.rows.find? id with
  | none => pure ⟨⟩
  | some row => do
      let kept ← fromExcept (passes regexMatch s.table row where_)
      if kept then assignments.forM (assignColumn id) else pure ⟨⟩

/-- `DbmsQueryEngine::execute_update` on its table. -/
def updateRows (regexMatch : RegexMatch) (assignments : List Assignment)
    (where_ : Option Condition) : TableM ι ω PUnit := do
  let s ← get
  let (candidates, _) ← fromExcept (collectCandidateRows s.table s.world where_)
  candidates.forM (updateRow regexMatch assignments where_)

/-! ## DELETE -/

/-- `DbmsQueryEngine::execute_delete` on its table. -/
def deleteRows (regexMatch : RegexMatch) (where_ : Option Condition) : TableM ι ω PUnit := do
  let s ← get
  let (candidates, _) ← fromExcept (collectCandidateRows s.table s.world where_)
  let toDelete ← fromExcept (filterRows regexMatch s.table where_ candidates)
  toDelete.forM Table.erase

end CwDb.Executor
