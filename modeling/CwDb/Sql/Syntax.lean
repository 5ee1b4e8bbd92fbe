/-
  Sql/Syntax.lean --- the commands that `server/parser/include/parser.h` declares.
-/
import CwDb.Cpp.Text

set_option autoImplicit false

namespace CwDb.Sql

open CwDb.Cpp

/-- The parser's `Value`: `std::variant<int, std::string, std::monostate>`. -/
inductive ParserValue where
  | int (n : Int32)
  | str (s : ByteString)
  | null
  deriving DecidableEq, Repr, Inhabited

/-! ## Conditions -/

/-- `Condition::Op`. -/
inductive CompareOp where
  | eq | neq | lt | gt | lte | gte | between | like
  deriving DecidableEq, Repr, Inhabited

/-- `Condition::LogicalOp`. -/
inductive LogicalOp where
  | none | and | or
  deriving DecidableEq, Repr, Inhabited

/-- The fields of `Condition` that hold one comparison.  A node built with
`leftTree` leaves them unset in the source and never reads them. -/
structure SimpleCondition where
  left : ByteString := []
  leftIsColumn : Bool := false
  op : CompareOp := .eq
  right : ByteString := []
  rightIsColumn : Bool := false
  /-- The upper bound, for BETWEEN only. -/
  right2 : ByteString := []
  right2IsColumn : Bool := false
  deriving DecidableEq, Repr, Inhabited

/-- `struct Condition`: one comparison (`simple`), the operator that joins it to
`next`, and the subtree that takes the place of the comparison when set. -/
inductive Condition where
  | mk (simple : SimpleCondition) (logicalOp : LogicalOp) (next : Option Condition)
      (leftTree : Option Condition) (isParenthesized : Bool)
  deriving Repr, Inhabited

namespace Condition

def simple : Condition → SimpleCondition
  | mk simple _ _ _ _ => simple

def logicalOp : Condition → LogicalOp
  | mk _ logicalOp _ _ _ => logicalOp

def next : Condition → Option Condition
  | mk _ _ next _ _ => next

def leftTree : Condition → Option Condition
  | mk _ _ _ leftTree _ => leftTree

def isParenthesized : Condition → Bool
  | mk _ _ _ _ isParenthesized => isParenthesized

/-- A fresh `Condition` holding one comparison. -/
def ofSimple (simple : SimpleCondition) : Condition := mk simple .none none none false

end Condition

/-! ## Commands -/

/-- `ColumnDef::Type`. -/
inductive ColumnType where
  | int | string
  deriving DecidableEq, Repr, Inhabited

/-- `ColumnDef::Modifier`. -/
inductive Modifier where
  | none | notNull | indexed
  deriving DecidableEq, Repr, Inhabited

/-- The parser's `ColumnDef`. -/
structure ParserColumnDef where
  name : ByteString
  type : ColumnType
  modifier : Modifier
  defaultValue : Option ParserValue
  deriving DecidableEq, Repr, Inhabited

/-- The function around a column of a SELECT list. -/
inductive AggregateFunc where
  | none | sum | count | avg
  deriving DecidableEq, Repr, Inhabited

/-- CREATE TABLE with the columns of the new table. -/
structure CreateTableCmd where
  /-- Empty when the USE context applies; so in every command below. -/
  dbName : ByteString
  tableName : ByteString
  columns : List ParserColumnDef
  deriving DecidableEq, Repr, Inhabited

/-- DROP TABLE. -/
structure DropTableCmd where
  dbName : ByteString
  tableName : ByteString
  deriving DecidableEq, Repr, Inhabited

/-- INSERT: the listed columns and the rows of values, `none` where a value is left out. -/
structure InsertCmd where
  dbName : ByteString
  tableName : ByteString
  columns : List ByteString
  rows : List (List (Option ParserValue))
  deriving DecidableEq, Repr, Inhabited

/-- `column = value` in the SET list of an UPDATE. -/
structure Assignment where
  column : ByteString
  value : ParserValue
  deriving DecidableEq, Repr, Inhabited

/-- UPDATE: the assignments, and the rows they are made in. -/
structure UpdateCmd where
  dbName : ByteString
  tableName : ByteString
  assignments : List Assignment
  where_ : Option Condition
  deriving Repr, Inhabited

/-- DELETE, with the rows to delete. -/
structure DeleteCmd where
  dbName : ByteString
  tableName : ByteString
  where_ : Option Condition
  deriving Repr, Inhabited

/-- A column of a SELECT list. -/
structure SelectColumn where
  name : ByteString
  /-- Empty without AS. -/
  alias_ : ByteString
  aggregateFunc : AggregateFunc
  deriving DecidableEq, Repr, Inhabited

/-- SELECT: the printed columns, or all of them for `*`. -/
structure SelectCmd where
  dbName : ByteString
  tableName : ByteString
  star : Bool
  columns : List SelectColumn
  where_ : Option Condition
  deriving Repr, Inhabited

/-- `using Command = std::variant<...>`. -/
inductive Command where
  | createDatabase (dbName : ByteString)
  | dropDatabase (dbName : ByteString)
  | useDatabase (dbName : ByteString)
  | createTable (cmd : CreateTableCmd)
  | dropTable (cmd : DropTableCmd)
  | insert (cmd : InsertCmd)
  | update (cmd : UpdateCmd)
  | delete (cmd : DeleteCmd)
  | select (cmd : SelectCmd)
  deriving Repr, Inhabited

end CwDb.Sql
