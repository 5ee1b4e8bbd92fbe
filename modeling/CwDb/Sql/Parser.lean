/-
  Sql/Parser.lean --- the recursive-descent parser of
  `server/parser/src/parser.cpp`.

  `_pos` only moves forward, so the parser's state is the list of tokens from
  `_pos` on.  The loops of the source carry fuel: every round of one of them
  reads a token, and every nested condition follows a parenthesis that has been
  read, so the number of unread tokens is enough.
-/
import CwDb.Foundation.Effect
import CwDb.Sql.Lexer
import CwDb.Sql.Syntax

set_option autoImplicit false

namespace CwDb.Sql

open CwDb.Cpp
open CwDb.Foundation

/-- A parsing function: it reads a prefix of the tokens or throws. -/
abbrev Parser (α : Type) : Type := EStateM Fault (List Token) α

namespace Parser

variable {α : Type}

/-- `throw ParseError(msg)`. -/
def fail (msg : ByteString) : Parser α := throw (.throws .parseError msg)

/-! ## The token stream -/

/-- `Parser::isEnd`. -/
def isEnd (tokens : List Token) : Bool :=
  match tokens with
  | [] => true
  | token :: _ => token.type == .end_

/-- `Parser::peek`. -/
def peek : Parser Token := do
  match ← get with
  | [] => fail (text "Unexpected end of input")
  | token :: _ =>
      if token.type = .end_ then fail (text "Unexpected end of input") else pure token

/-- `Parser::advance`. -/
def advance : Parser Token := do
  match ← get with
  | [] => fail (text "Unexpected end of input")
  | token :: rest =>
      if token.type = .end_ then fail (text "Unexpected end of input")
      else
        set rest
        pure token

/-- `Parser::check`. -/
def check (type : TokenType) : Parser Bool := do
  match ← get with
  | [] => pure false
  | token :: _ => pure (token.type != .end_ && token.type == type)

/-- `Parser::match`: eats the token when it has the type. -/
def matchToken (type : TokenType) : Parser Bool := do
  match ← get with
  | [] => pure false
  | token :: rest =>
      if token.type ≠ .end_ ∧ token.type = type then
        set rest
        pure true
      else pure false

/-- `Parser::isKeyword`: the enumerators from `KW_CREATE` to `KW_AVG`. -/
def isKeyword (type : TokenType) : Bool :=
  TokenType.kwCreate.ctorIdx ≤ type.ctorIdx && type.ctorIdx ≤ TokenType.kwAvg.ctorIdx

/-- `Parser::expect`. -/
def expect (type : TokenType) (context : ByteString) : Parser Token := do
  if ← check type then advance
  else
    let tokens ← get
    if type = .identifier && !isEnd tokens && isKeyword (tokens.headD default).type then advance
    else
      let current ← peek
      fail (text "Expected " ++ context ++ text " at line " ++ decimal current.line ++
        text ", got '" ++ current.value ++ text "'")

/-! ## Loops -/

/-- `do item while (match(COMMA))`, the items pushed onto `acc`. -/
def commaLoop (item : Parser α) : Nat → List α → Parser (List α)
  | 0, _ => throw .diverges
  | fuel + 1, acc => do
      let x ← item
      if ← matchToken .comma then commaLoop item fuel (acc ++ [x])
      else pure (acc ++ [x])

/-- `commaLoop` with a round for every unread token. -/
def commaList (item : Parser α) : Parser (List α) := do
  commaLoop item ((← get).length + 1) []

/-! ## Names and values -/

/-- `Parser::parseTableRef`: `dbName` and `tableName`. -/
def parseTableRef : Parser (ByteString × ByteString) := do
  let first ← expect .identifier (text "table name")
  if ← matchToken .dot then
    let second ← expect .identifier (text "table name after dot")
    pure (first.value, second.value)
  else pure ([], first.value)

/-- `Parser::parseValue`. -/
def parseValue : Parser ParserValue := do
  if ← matchToken .kwNull then pure .null
  else if ← check .intLiteral then
    let token ← advance
    let n ← fromExcept (stoi token.value)
    pure (.int n)
  else if ← check .strLiteral then
    let token ← advance
    pure (.str token.value)
  else
    let current ← peek
    fail (text "Expected value at line " ++ decimal current.line)

/-- `Parser::parseOperand`: the text, and whether it names a column. -/
def parseOperand : Parser (ByteString × Bool) := do
  let token ← peek
  if token.type = .identifier then
    let token ← advance
    pure (token.value, true)
  else if token.type = .intLiteral ∨ token.type = .strLiteral then
    let token ← advance
    pure (token.value, false)
  else if token.type = .kwNull then
    let _ ← advance
    pure (text "NULL", false)
  else
    fail (text "Expected operand at line " ++ decimal token.line ++ text ", got '" ++
      token.value ++ text "'")

/-! ## Conditions -/

/-- The operator a token stands for in `parsePrimaryCondition`. -/
def compareOp? : TokenType → Option CompareOp
  | .opEq => some .eq
  | .opNeq => some .neq
  | .opLt => some .lt
  | .opGt => some .gt
  | .opLte => some .lte
  | .opGte => some .gte
  | .kwBetween => some .between
  | .kwLike => some .like
  | _ => none

/-- The part of `Parser::parsePrimaryCondition` that reads one comparison. -/
def parseSimpleCondition : Parser Condition := do
  let (left, leftIsColumn) ← parseOperand
  let opToken ← peek
  match compareOp? opToken.type with
  | none =>
      fail (text "Expected comparison operator at line " ++ decimal opToken.line ++
        text ", got '" ++ opToken.value ++ text "'")
  | some op =>
      let _ ← advance
      let (right, rightIsColumn) ← parseOperand
      if op = .between then
        let _ ← expect .kwAnd (text "AND in BETWEEN")
        let (right2, right2IsColumn) ← parseOperand
        pure (.ofSimple { left, leftIsColumn, op, right, rightIsColumn, right2, right2IsColumn })
      else pure (.ofSimple { left, leftIsColumn, op, right, rightIsColumn })

/-- The walk of `combineConditions` to the last condition of a `next` chain, and
the two assignments made there. -/
def appendLast (op : LogicalOp) (right : Condition) : Condition → Condition
  | .mk simple _ none leftTree paren => .mk simple op (some right) leftTree paren
  | .mk simple logicalOp (some next) leftTree paren =>
      .mk simple logicalOp (some (appendLast op right next)) leftTree paren

/-- `Parser::combineConditions`. -/
def combineConditions (left right : Condition) (op : LogicalOp) : Condition :=
  if left.next.isNone && left.leftTree.isNone && !left.isParenthesized then
    .mk left.simple op (some right) none false
  else if !left.isParenthesized && left.leftTree.isNone && left.next.isSome &&
      left.logicalOp == op then
    appendLast op right left
  else .mk {} op (some right) (some left) false

/-- The loop `while (match(sep)) cond = combineConditions(cond, operand(), op)`
of `parseOrCondition` and `parseAndCondition`. -/
def conditionLoop (sep : TokenType) (op : LogicalOp) (operand : Parser Condition) :
    Nat → Condition → Parser Condition
  | 0, _ => throw .diverges
  | fuel + 1, cond => do
      if ← matchToken sep then
        let right ← operand
        conditionLoop sep op operand fuel (combineConditions cond right op)
      else pure cond

/-- `Parser::parsePrimaryCondition`; `nested` parses the condition inside
parentheses. -/
def parsePrimaryCondition (nested : Parser Condition) : Parser Condition := do
  if ← matchToken .lparen then
    let cond ← nested
    let _ ← expect .rparen (text "')'")
    pure (.mk cond.simple cond.logicalOp cond.next cond.leftTree true)
  else parseSimpleCondition

/-- `Parser::parseAndCondition`. -/
def parseAndCondition (nested : Parser Condition) : Parser Condition := do
  let cond ← parsePrimaryCondition nested
  conditionLoop .kwAnd .and (parsePrimaryCondition nested) ((← get).length + 1) cond

/-- `Parser::parseOrCondition`. -/
def parseOrCondition (nested : Parser Condition) : Parser Condition := do
  let cond ← parseAndCondition nested
  conditionLoop .kwOr .or (parseAndCondition nested) ((← get).length + 1) cond

/-- `Parser::parseCondition` for conditions of at most `depth` nested pairs of
parentheses. -/
def parseConditionWithin : Nat → Parser Condition
  | 0 => throw .diverges
  | depth + 1 => parseOrCondition (parseConditionWithin depth)

/-- `Parser::parseCondition`. -/
def parseCondition : Parser Condition := do
  parseConditionWithin ((← get).length + 1)

/-- The optional `WHERE` tail of UPDATE, DELETE and SELECT. -/
def parseWhere : Parser (Option Condition) := do
  if ← matchToken .kwWhere then
    let cond ← parseCondition
    pure (some cond)
  else pure none

/-! ## Commands -/

/-- The column types of `parseCreate`, by the upper-cased word. -/
def columnType? (typeStr : ByteString) : Option ColumnType :=
  if typeStr = text "INT" ∨ typeStr = text "INTEGER" then some .int
  else if typeStr = text "STR" ∨ typeStr = text "STRING" ∨ typeStr = text "TEXT" then
    some .string
  else none

/-- What the modifier loop of `parseCreate` has seen. -/
structure ColumnModifiers where
  hasNotNull : Bool := false
  hasIndexed : Bool := false
  defaultValue : Option ParserValue := none
  deriving DecidableEq, Repr, Inhabited

/-- The modifier of the column: INDEXED wins over NOT_NULL. -/
def ColumnModifiers.modifier (m : ColumnModifiers) : Modifier :=
  if m.hasIndexed then .indexed else if m.hasNotNull then .notNull else .none

/-- The modifier loop of `parseCreate`. -/
def columnModifierLoop : Nat → ColumnModifiers → Parser ColumnModifiers
  | 0, _ => throw .diverges
  | fuel + 1, seen => do
      if ← matchToken .kwNotNull then columnModifierLoop fuel { seen with hasNotNull := true }
      else if ← matchToken .kwIndexed then
        columnModifierLoop fuel { seen with hasIndexed := true }
      else if ← matchToken .kwDefault then
        let value ← parseValue
        columnModifierLoop fuel { seen with defaultValue := some value }
      else if ← matchToken .kwNull then columnModifierLoop fuel seen
      else pure seen

/-- One column of `CREATE TABLE`. -/
def parseColumnDef : Parser ParserColumnDef := do
  let colName ← expect .identifier (text "column name")
  let typeToken ← expect .identifier (text "column type")
  let typeStr := typeToken.value.map toUpper
  match columnType? typeStr with
  | none =>
      fail (text "Unknown column type: " ++ typeStr ++ text " at line " ++
        decimal typeToken.line)
  | some type =>
      let seen ← columnModifierLoop ((← get).length + 1) {}
      pure { name := colName.value, type, modifier := seen.modifier,
             defaultValue := seen.defaultValue }

/-- `Parser::parseCreate`. -/
def parseCreate : Parser Command := do
  let _ ← expect .kwCreate (text "CREATE")
  if ← matchToken .kwDatabase then
    let name ← expect .identifier (text "database name")
    pure (.createDatabase name.value)
  else if ← matchToken .kwTable then
    let (dbName, tableName) ← parseTableRef
    let _ ← expect .lparen (text "'('")
    let columns ← commaList parseColumnDef
    let _ ← expect .rparen (text "')'")
    pure (.createTable { dbName, tableName, columns })
  else
    let current ← peek
    fail (text "Expected DATABASE or TABLE after CREATE at line " ++ decimal current.line)

/-- `Parser::parseDrop`. -/
def parseDrop : Parser Command := do
  let _ ← expect .kwDrop (text "DROP")
  if ← matchToken .kwDatabase then
    let name ← expect .identifier (text "database name")
    pure (.dropDatabase name.value)
  else if ← matchToken .kwTable then
    let (dbName, tableName) ← parseTableRef
    pure (.dropTable { dbName, tableName })
  else
    let current ← peek
    fail (text "Expected DATABASE or TABLE after DROP at line " ++ decimal current.line)

/-- `Parser::parseUse`. -/
def parseUse : Parser Command := do
  let _ ← expect .kwUse (text "USE")
  let name ← expect .identifier (text "database name")
  pure (.useDatabase name.value)

/-- One column name of an INSERT column list. -/
def parseColumnName : Parser ByteString := do
  let col ← expect .identifier (text "column name")
  pure col.value

/-- One value of a row: nothing between two commas, or before the closing
parenthesis, is a missing value. -/
def parseRowValue : Parser (Option ParserValue) := do
  if (← check .comma) || (← check .rparen) then pure none
  else
    let value ← parseValue
    pure (some value)

/-- One parenthesised row of an INSERT. -/
def parseRow : Parser (List (Option ParserValue)) := do
  let _ ← expect .lparen (text "'('")
  let row ← commaList parseRowValue
  let _ ← expect .rparen (text "')'")
  pure row

/-- The optional column list of an INSERT. -/
def parseInsertColumns : Parser (List ByteString) := do
  if ← matchToken .lparen then
    let columns ← commaList parseColumnName
    let _ ← expect .rparen (text "')'")
    pure columns
  else pure []

/-- `Parser::parseInsert`. -/
def parseInsert : Parser Command := do
  let _ ← expect .kwInsert (text "INSERT")
  let _ ← expect .kwInto (text "INTO")
  let (dbName, tableName) ← parseTableRef
  let columns ← parseInsertColumns
  let _ ← expect .kwValue (text "VALUE or VALUES")
  let rows ← commaList parseRow
  pure (.insert { dbName, tableName, columns, rows })

/-- One assignment of an UPDATE. -/
def parseAssignment : Parser Assignment := do
  let col ← expect .identifier (text "column name")
  let _ ← expect .opAssign (text "'='")
  let value ← parseValue
  pure { column := col.value, value }

/-- `Parser::parseUpdate`. -/
def parseUpdate : Parser Command := do
  let _ ← expect .kwUpdate (text "UPDATE")
  let (dbName, tableName) ← parseTableRef
  let _ ← expect .kwSet (text "SET")
  let assignments ← commaList parseAssignment
  let where_ ← parseWhere
  pure (.update { dbName, tableName, assignments, where_ })

/-- `Parser::parseDelete`. -/
def parseDelete : Parser Command := do
  let _ ← expect .kwDelete (text "DELETE")
  let _ ← expect .kwFrom (text "FROM")
  let (dbName, tableName) ← parseTableRef
  let where_ ← parseWhere
  pure (.delete { dbName, tableName, where_ })

/-- The aggregate a token names in a select list. -/
def aggregate? : TokenType → Option AggregateFunc
  | .kwCount => some .count
  | .kwSum => some .sum
  | .kwAvg => some .avg
  | _ => none

/-- The optional `AS alias` of a select column. -/
def parseAlias : Parser ByteString := do
  if ← matchToken .kwAs then
    let alias_ ← expect .identifier (text "alias name")
    pure alias_.value
  else pure []

/-- The argument of an aggregate: `*` for COUNT only. -/
def parseAggregateArgument (aggregateFunc : AggregateFunc) : Parser ByteString := do
  let star ← if aggregateFunc = .count then matchToken .star else pure false
  if star then pure (text "*")
  else
    let token ← expect .identifier (text "column name")
    pure token.value

/-- The name of a plain select column, between backticks or not. -/
def parseSelectName : Parser ByteString := do
  if ← matchToken .backtick then
    if isEnd (← get) then fail (text "Unexpected end of input in backtick identifier")
    else
      let token ← advance
      let _ ← expect .backtick (text "closing backtick")
      pure token.value
  else
    let token ← expect .identifier (text "column name")
    pure token.value

/-- One column of a select list. -/
def parseSelectColumn : Parser SelectColumn := do
  match aggregate? ((← get).headD default).type with
  | some aggregateFunc =>
      let _ ← advance
      let _ ← expect .lparen (text "'('")
      let name ← parseAggregateArgument aggregateFunc
      let _ ← expect .rparen (text "')'")
      let alias_ ← parseAlias
      pure { name, alias_, aggregateFunc }
  | none =>
      let name ← parseSelectName
      let alias_ ← parseAlias
      pure { name, alias_, aggregateFunc := .none }

/-- The select list: `star` and `columns`. -/
def parseSelectList : Parser (Bool × List SelectColumn) := do
  if ← matchToken .star then pure (true, [])
  else
    let columns ← commaList parseSelectColumn
    pure (false, columns)

/-- `Parser::parseSelect`. -/
def parseSelect : Parser Command := do
  let _ ← expect .kwSelect (text "SELECT")
  let (star, columns) ← parseSelectList
  let _ ← expect .kwFrom (text "FROM")
  let (dbName, tableName) ← parseTableRef
  let where_ ← parseWhere
  pure (.select { dbName, tableName, star, columns, where_ })

/-- The switch of `Parser::parse` on the first token. -/
def statementParser (token : Token) : Parser Command :=
  match token.type with
  | .kwCreate => parseCreate
  | .kwDrop => parseDrop
  | .kwUse => parseUse
  | .kwInsert => parseInsert
  | .kwUpdate => parseUpdate
  | .kwDelete => parseDelete
  | .kwSelect => parseSelect
  | _ =>
      fail (text "Unexpected token: " ++ token.value ++ text " at line " ++ decimal token.line)

/-- `Parser::parse`. -/
def parse : Parser Command := do
  if isEnd (← get) then fail (text "Empty input")
  else
    let token ← peek
    statementParser token

end Parser

end CwDb.Sql
