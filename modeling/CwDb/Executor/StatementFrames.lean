/-
  Executor/StatementFrames.lean --- what the rows of a statement cannot break.

  The statements reach the table through three changes of its rows, and the world through the
  insertions and erasures of its indexes.  What these maintain the statements maintain,
  whether they return or throw.
-/
import CwDb.Executor.Engine
import CwDb.Foundation.Invariants

set_option autoImplicit false

namespace CwDb.Executor

open CwDb.Cpp
open CwDb.Foundation
open CwDb.Sql
open CwDb.Storage

variable {ι ω : Type} [IIndex ι ω]

/-- The tables `P` and the worlds `I` are closed under what is done to the rows there are. -/
structure ClosedUnderChanges (P : Table ByteString ι → Prop) (I : ω → Prop) : Prop where
  update : ∀ t id row, P t → P { t with rows := t.rows.replace id row }
  erase : ∀ t id, P t → P { t with rows := t.rows.erase id, order := t.order.erase id }
  indexInsert : ∀ (i : ι) k id, Maintains I (IIndex.insert i k id)
  indexErase : ∀ (i : ι) k, Maintains I (IIndex.erase i k)

/-- They are closed under new rows as well. -/
structure ClosedUnderRows (P : Table ByteString ι → Prop) (I : ω → Prop) : Prop extends
    ClosedUnderChanges P I where
  insert : ∀ t id row, P t → P { t with
    nextId := t.nextId + 1, rows := t.rows.emplace id row, order := t.order ++ [id] }

/-- A table of `P` in a world of `I`. -/
def Within (P : Table ByteString ι → Prop) (I : ω → Prop) (s : TableState ι ω) : Prop :=
  P s.table ∧ I s.world

variable {P : Table ByteString ι → Prop} {I : ω → Prop} {regexMatch : RegexMatch}

namespace ClosedUnderChanges

/-! ## The operations of a table -/

omit [IIndex ι ω] in
theorem onWorld {α : Type} {m : EStateM Fault ω α} (h : Maintains I m) :
    Maintains (Within P I) (Table.onWorld m : TableM ι ω α) := by
  refine .zoom fun s hs => (h s.world hs.2).mono ?_ ?_
  · exact fun _ _ hw => ⟨hs.1, hw⟩
  · exact fun _ _ hw => ⟨hs.1, hw⟩

omit [IIndex ι ω] in
theorem modifyTable {f : Table ByteString ι → Table ByteString ι} (keeps : ∀ t, P t → P (f t)) :
    Maintains (Within P I) (Table.modifyTable f : TableM ι ω PUnit) :=
  .modify fun s hs => ⟨keeps s.table hs.1, hs.2⟩

theorem notifyIndexesInsert (c : ClosedUnderChanges P I) (rowId : RowId) (row : Row ByteString) :
    Maintains (Within P I) (Table.notifyIndexesInsert rowId row) := by
  refine .get_bind fun s _ => .forM ?_
  rintro ⟨column, index⟩ -
  dsimp only
  cases row[column]? with
  | none => exact .pure _
  | some value => exact onWorld (c.indexInsert index value rowId)

theorem notifyIndexesUpdate (c : ClosedUnderChanges P I) (rowId : RowId) (column : Nat)
    (oldValue newValue : Value ByteString) :
    Maintains (Within P I) (Table.notifyIndexesUpdate rowId column oldValue newValue) := by
  refine .get_bind fun s _ => ?_
  cases s.table.indexes.find? column with
  | none => exact .pure _
  | some index =>
      refine (onWorld (c.indexErase index oldValue)).bind fun _ => ?_
      exact onWorld (c.indexInsert index newValue rowId)

theorem notifyIndexesErase (c : ClosedUnderChanges P I) (row : Row ByteString) :
    Maintains (Within P I) (Table.notifyIndexesErase row) := by
  refine .get_bind fun s _ => .forM ?_
  rintro ⟨column, index⟩ -
  dsimp only
  cases row[column]? with
  | none => exact .pure _
  | some value => exact (onWorld (c.indexErase index value)).bind fun _ => .pure _

theorem update_row (c : ClosedUnderChanges P I) (id : RowId) (column : Nat)
    (newValue : Value ByteString) : Maintains (Within P I) (Table.update id column newValue) := by
  refine .get_bind fun s _ => ?_
  cases s.table.rows.find? id with
  | none => exact .throw _
  | some row =>
      refine .ite (fun _ => .throw _) fun _ => (Maintains.fromExcept _).bind fun oldValue => ?_
      refine (Maintains.fromExcept _).bind fun _ => ?_
      refine (c.notifyIndexesUpdate id column oldValue newValue).bind fun _ => ?_
      exact modifyTable fun t => c.update t id _

theorem erase_row (c : ClosedUnderChanges P I) (id : RowId) :
    Maintains (Within P I) (Table.erase id) := by
  refine .get_bind fun s _ => ?_
  cases s.table.rows.find? id with
  | none => exact .throw _
  | some row =>
      exact (c.notifyIndexesErase row).bind fun _ => modifyTable fun t => c.erase t id

/-! ## UPDATE and DELETE -/

theorem updateRows (c : ClosedUnderChanges P I) (assignments : List Assignment)
    (where_ : Option Condition) :
    Maintains (Within P I) (updateRows regexMatch assignments where_) := by
  refine .get_bind fun s _ => (Maintains.fromExcept _).bind fun candidates => .forM fun id _ => ?_
  refine .get_bind fun s _ => ?_
  cases s.table.rows.find? id with
  | none => exact .pure _
  | some row =>
      refine (Maintains.fromExcept _).bind fun kept => .ite (fun _ => ?_) fun _ => .pure _
      refine .forM fun assignment _ => .get_bind fun s _ => ?_
      exact (Maintains.fromExcept _).bind fun col => c.update_row id col _

theorem deleteRows (c : ClosedUnderChanges P I) (where_ : Option Condition) :
    Maintains (Within P I) (deleteRows regexMatch where_) := by
  refine .get_bind fun s _ => (Maintains.fromExcept _).bind fun candidates => ?_
  exact (Maintains.fromExcept _).bind fun toDelete => .forM fun id _ => c.erase_row id

end ClosedUnderChanges

namespace ClosedUnderRows

/-! ## INSERT -/

theorem insert_row (c : ClosedUnderRows P I) (row : Row ByteString) :
    Maintains (Within P I) (Table.insert row) := by
  refine .get_bind fun s _ => (Maintains.fromExcept _).bind fun _ => ?_
  refine (ClosedUnderChanges.modifyTable fun t => c.insert t _ row).bind fun _ => ?_
  refine .get_bind fun s _ => ?_
  refine (Maintains.fromExcept _).bind fun stored => ?_
  exact (c.notifyIndexesInsert _ stored).bind fun _ => .pure _

theorem insertRow (c : ClosedUnderRows P I) (values : List (Option (Value ByteString))) :
    Maintains (Within P I) (Table.insertRow values) := by
  refine .get_bind fun s _ => .ite (fun _ => .throw _) fun _ => ?_
  refine (Maintains.fromExcept _).bind fun row => ?_
  exact (c.insert_row row).bind fun _ => .pure _

theorem insertRows (c : ClosedUnderRows P I) (columns : List ByteString)
    (rows : List (List (Option ParserValue))) :
    Maintains (Within P I) (insertRows columns rows) := by
  refine .get_bind fun s _ => (Maintains.fromExcept _).bind fun positions => .forM fun row _ => ?_
  refine .ite (fun _ => c.insertRow _) fun _ => .get_bind fun s _ => ?_
  refine (Maintains.fromExcept _).bind fun row => ?_
  exact (c.insert_row row).bind fun _ => .pure _

end ClosedUnderRows
end CwDb.Executor
