/-
  Executor/Engine.lean --- `DbmsQueryEngine::execute`.

  `mutex_` is held for the whole of a call, so a call is one step of the engine.  An
  exception leaves the state as it is at the throw.
-/
import CwDb.Executor.SelectOutput
import CwDb.Executor.Statements
import CwDb.Sql.Parser
import CwDb.Storage.Dbms

set_option autoImplicit false

namespace CwDb.Executor

open CwDb.Cpp
open CwDb.Foundation
open CwDb.Sql
open CwDb.Storage

/-! ## From the query to the command -/

/-- `has_terminal_semicolon`. -/
def hasTerminalSemicolon (s : ByteString) : Bool :=
  (s.rdropWhile isSpace).getLast? == some 0x3b

/-- `with_semicolon_if_missing`. -/
def withSemicolonIfMissing (query : ByteString) : ByteString :=
  if hasTerminalSemicolon query then query else query ++ text ";"

/-- The first lines of `DbmsQueryEngine::execute`. -/
def parseQuery (query : ByteString) : Except Fault Command := do
  let tokens ← tokenize (withSemicolonIfMissing query)
  match Parser.parse tokens with
  | .ok command _ => .ok command
  | .error fault _ => .error fault

theorem parseQuery_eq_ok_iff {query : ByteString} {command : Command} :
    parseQuery query = .ok command ↔ ∃ l rest,
      tokenize (withSemicolonIfMissing query) = .ok l ∧ Parser.parse l = .ok command rest := by
  unfold parseQuery
  cases htokens : tokenize (withSemicolonIfMissing query) with
  | error fault => simp [bind, Except.bind]
  | ok l =>
      cases hparse : Parser.parse l with
      | error fault rest => simp [bind, Except.bind, hparse]
      | ok command' rest => simp [bind, Except.bind, hparse]

theorem parseQuery_ok {query : ByteString} {l rest : List Token} {command : Command}
    (tokenized : tokenize (withSemicolonIfMissing query) = .ok l)
    (parsed : Parser.parse l = .ok command rest) : parseQuery query = .ok command :=
  parseQuery_eq_ok_iff.mpr ⟨l, rest, tokenized, parsed⟩

/-! ## The engine -/

/-- `class DbmsQueryEngine`. -/
structure EngineState (ι ω : Type) extends DbmsState ι ω where
  lastSelectUsedIndex : Bool := false

abbrev EngineM (ι ω α : Type) : Type := EStateM Fault (EngineState ι ω) α

namespace Engine

variable {ι ω : Type}

/-- A call on `dbms_`. -/
def onDbms {α : Type} (m : DbmsM ι ω α) : EngineM ι ω α :=
  zoom EngineState.toDbmsState (fun e st => { e with toDbmsState := st }) m

/-- `DbmsQueryEngine::resolve_database`, with the name under which the database is kept. -/
def resolveDatabase (dbms : Dbms ι) (explicitDbName : ByteString) :
    Except Fault (ByteString × Database ι) :=
  if explicitDbName.isEmpty then do
    let db ← dbms.activeDb
    pure (dbms.active, db)
  else do
    let db ← dbms.requireDatabase explicitDbName
    pure (explicitDbName, db)

/-- `DbmsQueryEngine::resolve_table`, with the name under which its database is kept. -/
def resolveTable (dbms : Dbms ι) (explicitDbName tableName : ByteString) :
    Except Fault (ByteString × Table ByteString ι) := do
  let (dbName, db) ← resolveDatabase dbms explicitDbName
  let table ← db.requireTable tableName
  pure (dbName, table)

variable [IIndex ι ω] [DataRoot ι ω]

/-- `DbmsQueryEngine::attach_indexes_for_table`. -/
def attachIndexesForTable (dbName tableName : ByteString) : TableM ι ω PUnit := do
  let s ← get
  s.table.schema.columns.zipIdx.forM fun (col, i) => do
    let s ← get
    if col.indexed then
      if s.table.hasIndex i then pure ⟨⟩
      else do
        let index ← Table.onWorld (DataRoot.makeIndexForColumn dbName tableName col)
        Table.attachIndex i (some index) true
    else pure ⟨⟩

/-- `DbmsQueryEngine::attach_indexes_for_loaded_data`; the pointers of the maps lead to the
tables as they are when their turn comes. -/
def attachIndexesForLoadedData : DbmsM ι ω PUnit := do
  let st ← get
  st.dbms.databases.entries.forM fun (dbName, db) =>
    db.tables.keys.forM fun tableName => do
      let st ← get
      match st.dbms.table? dbName tableName with
      | some table =>
          Dbms.onTable dbName tableName table (attachIndexesForTable dbName tableName)
      | none => pure ⟨⟩

/-- `DbmsQueryEngine::DbmsQueryEngine`, from the data directory it finds. -/
def construct : EngineM ι ω PUnit := onDbms do
  Dbms.loadAll
  attachIndexesForLoadedData

/-- `DbmsQueryEngine::execute_create_database`. -/
def executeCreateDatabase (dbName : ByteString) : EngineM ι ω ByteString := onDbms do
  Dbms.createDatabase dbName
  Dbms.saveAll
  pure (text "OK")

/-- `DbmsQueryEngine::execute_drop_database`. -/
def executeDropDatabase (dbName : ByteString) : EngineM ι ω ByteString := onDbms do
  Dbms.dropDatabase dbName
  Dbms.saveAll
  pure (text "OK")

/-- `DbmsQueryEngine::execute_use_database`. -/
def executeUseDatabase (dbName : ByteString) : EngineM ι ω ByteString := onDbms do
  Dbms.useDatabase dbName
  pure (text "OK")

/-- `DbmsQueryEngine::execute_create_table`. -/
def executeCreateTable (cmd : CreateTableCmd) : EngineM ι ω ByteString := onDbms do
  let st ← get
  let (dbName, db) ← fromExcept (resolveDatabase st.dbms cmd.dbName)
  let schema ← fromExcept (buildSchema cmd.columns)
  let db' ← fromExcept (db.createTable cmd.tableName schema)
  Dbms.modifyDbms fun dbms => dbms.setDatabase dbName db'
  Dbms.onTable dbName cmd.tableName (Table.ofSchema cmd.tableName schema)
    (attachIndexesForTable db.name cmd.tableName)
  Dbms.saveAll
  pure (text "OK")

/-- `DbmsQueryEngine::execute_drop_table`. -/
def executeDropTable (cmd : DropTableCmd) : EngineM ι ω ByteString := onDbms do
  let st ← get
  let (dbName, db) ← fromExcept (resolveDatabase st.dbms cmd.dbName)
  let db' ← fromExcept (db.dropTable cmd.tableName)
  Dbms.modifyDbms fun dbms => dbms.setDatabase dbName db'
  Dbms.saveAll
  pure (text "OK")

/-- What `execute_insert`, `execute_update` and `execute_delete` have in common: the table
is resolved, the rows are changed by `m`, and everything is saved. -/
def executeOnTable (explicitDbName tableName : ByteString) (m : TableM ι ω PUnit) :
    EngineM ι ω ByteString := onDbms do
  let st ← get
  let (dbName, table) ← fromExcept (resolveTable st.dbms explicitDbName tableName)
  Dbms.onTable dbName tableName table m
  Dbms.saveAll
  pure (text "OK")

/-- `DbmsQueryEngine::execute_insert`. -/
def executeInsert (cmd : InsertCmd) : EngineM ι ω ByteString :=
  executeOnTable cmd.dbName cmd.tableName (insertRows cmd.columns cmd.rows)

/-- `DbmsQueryEngine::execute_update`. -/
def executeUpdate (regexMatch : RegexMatch) (cmd : UpdateCmd) : EngineM ι ω ByteString :=
  executeOnTable cmd.dbName cmd.tableName (updateRows regexMatch cmd.assignments cmd.where_)

/-- `DbmsQueryEngine::execute_delete`. -/
def executeDelete (regexMatch : RegexMatch) (cmd : DeleteCmd) : EngineM ι ω ByteString :=
  executeOnTable cmd.dbName cmd.tableName (deleteRows regexMatch cmd.where_)

omit [DataRoot ι ω] in
/-- `DbmsQueryEngine::execute_select`. -/
def executeSelect (regexMatch : RegexMatch) (cmd : SelectCmd) : EngineM ι ω ByteString := do
  let e ← get
  let (_, table) ← fromExcept (resolveTable e.dbms cmd.dbName cmd.tableName)
  let (candidates, usedIndex) ← fromExcept (collectCandidateRows table e.world cmd.where_)
  modify fun e => { e with lastSelectUsedIndex := usedIndex }
  let objects ← fromExcept (selectObjects regexMatch table cmd candidates)
  pure (text "[" ++ commaLoop true objects ++ text "]")

/-- The visitor of `DbmsQueryEngine::execute`. -/
def executeCommand (regexMatch : RegexMatch) : Command → EngineM ι ω ByteString
  | .createDatabase dbName => executeCreateDatabase dbName
  | .dropDatabase dbName => executeDropDatabase dbName
  | .useDatabase dbName => executeUseDatabase dbName
  | .createTable cmd => executeCreateTable cmd
  | .dropTable cmd => executeDropTable cmd
  | .insert cmd => executeInsert cmd
  | .update cmd => executeUpdate regexMatch cmd
  | .delete cmd => executeDelete regexMatch cmd
  | .select cmd => executeSelect regexMatch cmd

/-- `DbmsQueryEngine::execute`. -/
def execute (regexMatch : RegexMatch) (query : ByteString) : EngineM ι ω ByteString := do
  let command ← fromExcept (parseQuery query)
  executeCommand regexMatch command

end Engine
end CwDb.Executor
