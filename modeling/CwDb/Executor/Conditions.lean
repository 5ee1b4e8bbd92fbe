/-
  Executor/Conditions.lean --- how `query_engine.cpp` evaluates a WHERE condition on a
  row, and how it chooses the rows to evaluate it on.

  `std::regex` is a parameter: the text of a pattern and a subject give a match, or the
  construction of the pattern throws.
-/
import CwDb.Executor.ConditionTree
import CwDb.Storage.Table

set_option autoImplicit false

namespace CwDb.Executor

open CwDb.Cpp
open CwDb.Sql
open CwDb.Storage

/-- `std::regex_match(subject, std::regex(pattern))`. -/
abbrev RegexMatch : Type := (pattern subject : ByteString) → Except Fault Bool

variable {ι ω : Type}

/-- What `resolve_operand` makes of a literal. -/
def resolveLiteral (literal : ByteString) : Value ByteString :=
  if literal = text "NULL" then .null
  else
    match stoll literal with
    | .ok (n, pos) => if pos = literal.length then .int n else .str literal
    | .error _ => .str literal

/-- `DbmsQueryEngine::resolve_operand`. -/
def resolveOperand (operand : ByteString) (isColumn : Bool) (table : Table ByteString ι)
    (row : Row ByteString) : Except Fault (Value ByteString) :=
  if isColumn then do
    let idx ← table.requireColumn operand
    vectorAt row idx
  else .ok (resolveLiteral operand)

/-- `DbmsQueryEngine::parse_literal_for_column`. -/
def parseLiteralForColumn (literal : ByteString) (expectedType : DataType) :
    Except Fault (Value ByteString) :=
  if literal = text "NULL" then .ok .null
  else
    match expectedType with
    | .int => do
        let (n, _) ← stoll literal
        pure (.int n)
    | .str => .ok (.str literal)

/-- The comparison of `evaluate_simple_condition` on its operands; `right2` is looked at
for BETWEEN only. -/
def compareOperands (regexMatch : RegexMatch) (op : CompareOp)
    (left right right2 : Value ByteString) : Except Fault Bool :=
  match op with
  | .between =>
      .ok ((left.compare right == some .gt || left.compare right == some .eq) &&
        left.compare right2 == some .lt)
  | .like =>
      match left, right with
      | .str subject, .str pattern => regexMatch pattern subject
      | _, _ => .ok false
  | .eq => .ok (left.compare right == some .eq)
  | .neq => .ok (left.compare right == some .lt || left.compare right == some .gt)
  | .lt => .ok (left.compare right == some .lt)
  | .gt => .ok (left.compare right == some .gt)
  | .lte => .ok (left.compare right == some .lt || left.compare right == some .eq)
  | .gte => .ok (left.compare right == some .gt || left.compare right == some .eq)

/-- `DbmsQueryEngine::evaluate_simple_condition`. -/
def evaluateSimpleCondition (regexMatch : RegexMatch) (table : Table ByteString ι)
    (row : Row ByteString) (condition : SimpleCondition) : Except Fault Bool := do
  let left ← resolveOperand condition.left condition.leftIsColumn table row
  let right ← resolveOperand condition.right condition.rightIsColumn table row
  if condition.op = .between then
    let right2 ← resolveOperand condition.right2 condition.right2IsColumn table row
    compareOperands regexMatch .between left right right2
  else compareOperands regexMatch condition.op left right .null

/-- `DbmsQueryEngine::evaluate_condition`. -/
def evaluateCondition (regexMatch : RegexMatch) (table : Table ByteString ι)
    (row : Row ByteString) (condition : Condition) : Except Fault Bool :=
  evaluateConditionWith (evaluateSimpleCondition regexMatch table row) condition

/-- `cmd.where && !evaluate_condition(...)`, negated: whether a row passes the filter. -/
def passes (regexMatch : RegexMatch) (table : Table ByteString ι) (row : Row ByteString)
    (where_ : Option Condition) : Except Fault Bool :=
  match where_ with
  | none => .ok true
  | some condition => evaluateCondition regexMatch table row condition

/-- The rows of `candidates` that `execute_delete` and `execute_select` keep; an id that
is not stored is passed over. -/
def filterRows (regexMatch : RegexMatch) (table : Table ByteString ι)
    (where_ : Option Condition) : (candidates : List RowId) → Except Fault (List RowId)
  | [] => .ok []
  | id :: rest =>
      match table.rows.find? id with
      | none => filterRows regexMatch table where_ rest
      | some row => do
          let kept ← passes regexMatch table row where_
          let more ← filterRows regexMatch table where_ rest
          pure (if kept then id :: more else more)

variable [IIndex ι ω]

/-- `DbmsQueryEngine::collect_candidate_rows`: the row ids, and `usedIndex`. -/
def collectCandidateRows (table : Table ByteString ι) (w : ω) (where_ : Option Condition) :
    Except Fault (List RowId × Bool) :=
  match where_ with
  | none => .ok (table.order, false)
  | some condition =>
      let c := condition.simple
      if condition.leftTree.isNone && condition.next.isNone && c.leftIsColumn &&
          !c.rightIsColumn then do
        let col ← table.requireColumn c.left
        match table.indexes.find? col with
        | none => pure (table.order, false)
        | some index => do
            let def_ ← table.schema.at col
            if c.op = .eq then
              let key ← parseLiteralForColumn c.right def_.type
              let found ← IIndex.find index key w
              pure (found.toList, true)
            else if c.op = .between then
              let low ← parseLiteralForColumn c.right def_.type
              let high ← parseLiteralForColumn c.right2 def_.type
              let ids ← IIndex.rangeSearch index low high w
              pure (ids, true)
            else pure (table.order, false)
      else .ok (table.order, false)

end CwDb.Executor
