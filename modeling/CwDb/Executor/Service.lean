/-
  Executor/Service.lean --- `ExecutorService` over one engine, for any number of clients.

  SELECT and USE are executed where they are submitted; CREATE, DROP, INSERT, UPDATE and
  DELETE wait for the worker.  The handler gets the text of a query and not the client it
  comes from, so the database that USE selects is one for all.
-/
import CwDb.Executor.AsyncExecutor
import CwDb.Executor.Engine
import CwDb.Executor.RequestApi

set_option autoImplicit false

namespace CwDb.Executor

open CwDb.Cpp
open CwDb.Foundation
open CwDb.Sql
open CwDb.Storage

/-! ## Classification -/

/-- `enum class ExecutionMode`. -/
inductive ExecutionMode where
  | sync | async
  deriving DecidableEq, Repr, Inhabited

/-- `firstToken`. -/
def firstToken (upperQuery : ByteString) : ByteString := upperQuery.takeWhile isAlpha

/-- `classifyExecutionMode`. -/
def classifyExecutionMode (query : ByteString) : ExecutionMode :=
  let normalized := toUpperAscii (trim query)
  if normalized.isEmpty then .sync
  else
    let keyword := firstToken normalized
    if keyword = text "CREATE" ∨ keyword = text "DROP" ∨ keyword = text "INSERT" ∨
        keyword = text "UPDATE" ∨ keyword = text "DELETE" then .async
    else .sync

/-! ## The service -/

/-- `class ExecutorService`, with the engine that its handler calls. -/
structure ExecutorService (ι ω : Type) where
  executor : AsyncExecutor
  engine : EngineState ι ω

namespace ExecutorService

variable {ι ω : Type} [IIndex ι ω] [DataRoot ι ω]

omit [IIndex ι ω] [DataRoot ι ω] in
/-- The text that a call returns or the `what()` of what it throws, and the engine
afterwards. -/
def answer : EStateM.Result Fault (EngineState ι ω) ByteString →
    Option (Outcome × EngineState ι ω)
  | .ok response e => some (.ok response, e)
  | .error (.throws _ what) e => some (.error what, e)
  | .error .diverges _ => none
  | .error .outOfBounds _ => none

/-- `handler_(query)`. -/
def handler (regexMatch : RegexMatch) (query : ByteString) (e : EngineState ι ω) :
    Option (Outcome × EngineState ι ω) :=
  answer (Engine.execute regexMatch query e)

/-- What a step did: a command was queued, a query of a client was executed, or neither. -/
inductive Event where
  | queued (job : Job)
  | executed (clientId query : ByteString) (outcome : Outcome)
  | quiet
  deriving DecidableEq, Repr

/-- The events of `AsyncExecutor` that neither queue nor execute anything. -/
def Quiet : AsyncExecutor.Event → Prop
  | .submit _ => False
  | .runHandler _ _ => False
  | _ => True

/-- One step of a client or of the worker. -/
inductive Step (regexMatch : RegexMatch) :
    ExecutorService ι ω → Event → ExecutorService ι ω → Prop where
  /-- `submit`, for a query that is put into the queue. -/
  | submit {s : ExecutorService ι ω} {x : AsyncExecutor} (job : Job)
      (async : classifyExecutionMode job.query = .async)
      (step : AsyncExecutor.Step s.executor (.submit job) x) :
      Step regexMatch s (.queued job) { s with executor := x }
  /-- `submit`, for a query that `executeSync` hands on at once. -/
  | executeSync {s : ExecutorService ι ω} {e : EngineState ι ω} {outcome : Outcome}
      (clientId query : ByteString) (sync : classifyExecutionMode query = .sync)
      (run : handler regexMatch query s.engine = some (outcome, e)) :
      Step regexMatch s (.executed clientId query outcome) { s with engine := e }
  /-- The worker calls the handler. -/
  | work {s : ExecutorService ι ω} {x : AsyncExecutor} {e : EngineState ι ω} {outcome : Outcome}
      (job : Job) (step : AsyncExecutor.Step s.executor (.runHandler job outcome) x)
      (run : handler regexMatch job.query s.engine = some (outcome, e)) :
      Step regexMatch s (.executed job.clientId job.query outcome) { executor := x, engine := e }
  /-- The other steps of the worker, GET STATUS and GET RESULT, and the destructor. -/
  | quiet {s : ExecutorService ι ω} {x : AsyncExecutor} {event : AsyncExecutor.Event}
      (other : Quiet event) (step : AsyncExecutor.Step s.executor event x) :
      Step regexMatch s .quiet { s with executor := x }

/-- A run of the server from its start. -/
inductive Run (regexMatch : RegexMatch) : List Event → ExecutorService ι ω → Prop where
  | start {w : ω} {e : EngineState ι ω} (maxStoredRequests : Nat)
      (constructed : Engine.construct { dbms := {}, world := w } = .ok ⟨⟩ e) :
      Run regexMatch [] { executor := { maxStoredRequests }, engine := e }
  | step {events : List Event} {s s' : ExecutorService ι ω} {event : Event}
      (run : Run regexMatch events s) (step : Step regexMatch s event s') :
      Run regexMatch (events ++ [event]) s'

/-! ## The database that is selected -/

/-- The database selected after a command, which has returned if `returned`. -/
def selectedAfter (selected : ByteString) (command : Command) (returned : Bool) : ByteString :=
  match command with
  | .useDatabase dbName => if returned then dbName else selected
  | .dropDatabase dbName => if selected = dbName then [] else selected
  | _ => selected

/-- One event of the history: only an executed command that parses counts. -/
def selectedByEvent (selected : ByteString) : Event → ByteString
  | .executed _ query outcome =>
      match parseQuery query with
      | .ok command => selectedAfter selected command outcome.isOk
      | .error _ => selected
  | _ => selected

/-- The database of the last USE in the history, whoever sent it, which no DROP DATABASE has
dropped since; empty if there is none. -/
def lastSelected (events : List Event) : ByteString := events.foldl selectedByEvent []

/-- The database of the last USE that a client itself has sent. -/
def ownSelected (clientId : ByteString) (events : List Event) : ByteString :=
  lastSelected (events.filter fun
    | .executed client _ _ => client = clientId
    | _ => false)

/-! ## Commands without a database -/

/-- The database that a command on a table names; empty when the USE context applies. -/
def commandDatabase : Command → Option ByteString
  | .createTable cmd => some cmd.dbName
  | .dropTable cmd => some cmd.dbName
  | .insert cmd => some cmd.dbName
  | .update cmd => some cmd.dbName
  | .delete cmd => some cmd.dbName
  | .select cmd => some cmd.dbName
  | _ => none

/-- The same command on a table of a named database. -/
def inDatabase (dbName : ByteString) : Command → Command
  | .createTable cmd => .createTable { cmd with dbName }
  | .dropTable cmd => .dropTable { cmd with dbName }
  | .insert cmd => .insert { cmd with dbName }
  | .update cmd => .update { cmd with dbName }
  | .delete cmd => .delete { cmd with dbName }
  | .select cmd => .select { cmd with dbName }
  | command => command

/-- What a command that names no database gets where none is selected. -/
def noDatabase : Fault := .throws .runtimeError (text "No database selected (use USE first)")

section Resolve

omit [IIndex ι ω] [DataRoot ι ω]

theorem resolveDatabase_nil {dbms : Dbms ι} (unselected : dbms.active = []) :
    Engine.resolveDatabase dbms [] = .error noDatabase := by
  unfold Engine.resolveDatabase Dbms.activeDb
  rw [unselected]
  rfl

theorem resolveDatabase_active {dbms : Dbms ι} (selected : dbms.active ≠ []) :
    Engine.resolveDatabase dbms [] = Engine.resolveDatabase dbms dbms.active := by
  have hactive : dbms.active.isEmpty = false := by simpa using selected
  unfold Engine.resolveDatabase Dbms.activeDb
  rw [hactive]
  rfl

theorem resolveTable_nil {dbms : Dbms ι} (unselected : dbms.active = []) (tableName : ByteString) :
    Engine.resolveTable dbms [] tableName = .error noDatabase := by
  unfold Engine.resolveTable
  rw [resolveDatabase_nil unselected]
  rfl

theorem resolveTable_active {dbms : Dbms ι} (selected : dbms.active ≠ [])
    (tableName : ByteString) :
    Engine.resolveTable dbms [] tableName = Engine.resolveTable dbms dbms.active tableName := by
  unfold Engine.resolveTable
  rw [resolveDatabase_active selected]

/-- The text of a SELECT does not depend on how its database is named. -/
theorem selectObjects_inDatabase {regexMatch : RegexMatch} {table : Table ByteString ι}
    {cmd : SelectCmd} (dbName : ByteString) (ids : List RowId) :
    selectObjects regexMatch table { cmd with dbName } ids =
      selectObjects regexMatch table cmd ids := by
  induction ids with
  | nil => rfl
  | cons id ids ih =>
      unfold selectObjects
      rw [ih]
      rfl

theorem onDbms_get {α : Type} (f : DbmsState ι ω → DbmsM ι ω α) (e : EngineState ι ω) :
    Engine.onDbms (get >>= f) e = Engine.onDbms (f e.toDbmsState) e := rfl

end Resolve

omit [IIndex ι ω] in
theorem executeOnTable_active {e : EngineState ι ω} (selected : e.dbms.active ≠ [])
    (tableName : ByteString) (m : TableM ι ω PUnit) :
    Engine.executeOnTable [] tableName m e =
      Engine.executeOnTable e.dbms.active tableName m e := by
  unfold Engine.executeOnTable
  rw [onDbms_get, onDbms_get, resolveTable_active selected]

omit [IIndex ι ω] in
theorem executeOnTable_nil {e : EngineState ι ω} (unselected : e.dbms.active = [])
    (tableName : ByteString) (m : TableM ι ω PUnit) :
    Engine.executeOnTable [] tableName m e = .error noDatabase e := by
  unfold Engine.executeOnTable
  rw [onDbms_get, resolveTable_nil unselected]
  rfl

/-- A command that names no database is the command on the selected one. -/
theorem executeCommand_inDatabase {regexMatch : RegexMatch} {command : Command}
    {e : EngineState ι ω} (unqualified : commandDatabase command = some [])
    (selected : e.dbms.active ≠ []) :
    Engine.executeCommand regexMatch command e =
      Engine.executeCommand regexMatch (inDatabase e.dbms.active command) e := by
  cases command with
  | createDatabase dbName => cases unqualified
  | dropDatabase dbName => cases unqualified
  | useDatabase dbName => cases unqualified
  | createTable cmd =>
      have hnil : cmd.dbName = [] := Option.some.inj unqualified
      change Engine.executeCreateTable cmd e =
        Engine.executeCreateTable { cmd with dbName := e.dbms.active } e
      unfold Engine.executeCreateTable
      rw [onDbms_get, onDbms_get, hnil, resolveDatabase_active selected]
  | dropTable cmd =>
      have hnil : cmd.dbName = [] := Option.some.inj unqualified
      change Engine.executeDropTable cmd e =
        Engine.executeDropTable { cmd with dbName := e.dbms.active } e
      unfold Engine.executeDropTable
      rw [onDbms_get, onDbms_get, hnil, resolveDatabase_active selected]
  | insert cmd =>
      have hnil : cmd.dbName = [] := Option.some.inj unqualified
      change Engine.executeOnTable cmd.dbName _ _ e = Engine.executeOnTable e.dbms.active _ _ e
      rw [hnil, executeOnTable_active selected]
  | update cmd =>
      have hnil : cmd.dbName = [] := Option.some.inj unqualified
      change Engine.executeOnTable cmd.dbName _ _ e = Engine.executeOnTable e.dbms.active _ _ e
      rw [hnil, executeOnTable_active selected]
  | delete cmd =>
      have hnil : cmd.dbName = [] := Option.some.inj unqualified
      change Engine.executeOnTable cmd.dbName _ _ e = Engine.executeOnTable e.dbms.active _ _ e
      rw [hnil, executeOnTable_active selected]
  | select cmd =>
      have hnil : cmd.dbName = [] := Option.some.inj unqualified
      change Engine.executeSelect regexMatch cmd e =
        Engine.executeSelect regexMatch { cmd with dbName := e.dbms.active } e
      unfold Engine.executeSelect
      rw [bind_ok get_run, bind_ok get_run, hnil, resolveTable_active selected]
      simp only [selectObjects_inDatabase]

/-- A command that names no database fails where none is selected, and changes nothing. -/
theorem executeCommand_noDatabase {regexMatch : RegexMatch} {command : Command}
    {e : EngineState ι ω} (unqualified : commandDatabase command = some [])
    (unselected : e.dbms.active = []) :
    Engine.executeCommand regexMatch command e = .error noDatabase e := by
  cases command with
  | createDatabase dbName => cases unqualified
  | dropDatabase dbName => cases unqualified
  | useDatabase dbName => cases unqualified
  | createTable cmd =>
      have hnil : cmd.dbName = [] := Option.some.inj unqualified
      change Engine.executeCreateTable cmd e = _
      unfold Engine.executeCreateTable
      rw [onDbms_get, hnil, resolveDatabase_nil unselected]
      rfl
  | dropTable cmd =>
      have hnil : cmd.dbName = [] := Option.some.inj unqualified
      change Engine.executeDropTable cmd e = _
      unfold Engine.executeDropTable
      rw [onDbms_get, hnil, resolveDatabase_nil unselected]
      rfl
  | insert cmd =>
      have hnil : cmd.dbName = [] := Option.some.inj unqualified
      change Engine.executeOnTable cmd.dbName _ _ e = _
      rw [hnil, executeOnTable_nil unselected]
  | update cmd =>
      have hnil : cmd.dbName = [] := Option.some.inj unqualified
      change Engine.executeOnTable cmd.dbName _ _ e = _
      rw [hnil, executeOnTable_nil unselected]
  | delete cmd =>
      have hnil : cmd.dbName = [] := Option.some.inj unqualified
      change Engine.executeOnTable cmd.dbName _ _ e = _
      rw [hnil, executeOnTable_nil unselected]
  | select cmd =>
      have hnil : cmd.dbName = [] := Option.some.inj unqualified
      change Engine.executeSelect regexMatch cmd e = _
      unfold Engine.executeSelect
      rw [bind_ok get_run, hnil, resolveTable_nil unselected]
      rfl

/-! ## What the active database follows -/

/-- The active database is one of the databases. -/
def ActiveKnown (dbms : Dbms ι) : Prop :=
  dbms.active ≠ [] → dbms.active ∈ dbms.databases.keys

/-- The databases stay, or more come, and the active one is the same. -/
structure SameActive (dbms dbms' : Dbms ι) : Prop where
  active : dbms'.active = dbms.active
  databases : ∀ name ∈ dbms.databases.keys, name ∈ dbms'.databases.keys

section Active

omit [IIndex ι ω] [DataRoot ι ω]

namespace SameActive

variable {dbms dbms' dbms'' : Dbms ι}

theorem refl (dbms : Dbms ι) : SameActive dbms dbms := ⟨rfl, fun _ h => h⟩

theorem trans (h : SameActive dbms dbms') (h' : SameActive dbms' dbms'') :
    SameActive dbms dbms'' :=
  ⟨h'.active.trans h.active, fun name hname => h'.databases name (h.databases name hname)⟩

theorem known (h : SameActive dbms dbms') (known : ActiveKnown dbms) : ActiveKnown dbms' := by
  unfold ActiveKnown
  rw [h.active]
  exact fun hne => h.databases _ (known hne)

theorem setDatabase (dbName : ByteString) (db : Database ι) :
    SameActive dbms (dbms.setDatabase dbName db) := by
  refine ⟨rfl, fun name hname => ?_⟩
  have hkeys : (dbms.setDatabase dbName db).databases.keys = dbms.databases.keys :=
    UnorderedMap.keys_replace
  rwa [hkeys]

end SameActive

/-- Neither the work on a table nor that on the files selects a database. -/
theorem ends_onTable_sameActive {α : Type} {st : DbmsState ι ω} (dbName tableName : ByteString)
    (table : Table ByteString ι) (m : TableM ι ω α) :
    Ends (Dbms.onTable dbName tableName table m) st
      (fun _ st' => SameActive st.dbms st'.dbms) (fun _ st' => SameActive st.dbms st'.dbms) := by
  have hset : ∀ t, SameActive st.dbms (st.dbms.setTable dbName tableName t) := by
    refine fun t => ⟨Dbms.keys_setTable.2, fun name hname => ?_⟩
    rwa [Dbms.keys_setTable.1]
  rw [Dbms.onTable, ends_zoom]
  unfold Ends
  cases m ⟨table, st.world⟩ with
  | ok a s' => exact hset s'.table
  | error e s' => exact hset s'.table

theorem ends_onWorld_sameActive {α : Type} {st : DbmsState ι ω} (m : EStateM Fault ω α) :
    Ends (Dbms.onWorld m : DbmsM ι ω α) st (fun _ st' => st'.dbms = st.dbms)
      (fun _ st' => st'.dbms = st.dbms) := by
  rw [Dbms.onWorld, ends_zoom]
  unfold Ends
  cases m st.world <;> rfl

end Active

omit [IIndex ι ω] in
/-- The work of a statement between the calls that select databases. -/
theorem ends_saveAll_sameActive (st : DbmsState ι ω) :
    Ends (do
        Dbms.saveAll
        pure (text "OK") : DbmsM ι ω ByteString) st (fun _ st' => st'.dbms = st.dbms)
      (fun _ st' => st'.dbms = st.dbms) := by
  rw [ends_bind]
  unfold Dbms.saveAll
  rw [ends_bind, ends_get]
  refine ends_forM (I := fun _ (st' : DbmsState ι ω) => st'.dbms = st.dbms) rfl ?_
  rintro - ⟨name, db⟩ - t - ht
  exact (ends_onWorld_sameActive _).mono (fun _ _ h => h.trans ht) fun _ _ h => h.trans ht

omit [IIndex ι ω] in
theorem ends_executeOnTable_sameActive (explicitDbName tableName : ByteString)
    (m : TableM ι ω PUnit) (e : EngineState ι ω) :
    Ends (Engine.executeOnTable explicitDbName tableName m) e
      (fun _ e' => SameActive e.dbms e'.dbms) (fun _ e' => SameActive e.dbms e'.dbms) := by
  unfold Engine.executeOnTable
  rw [Engine.onDbms, ends_zoom, ends_bind, ends_get, ends_bind, ends_fromExcept]
  refine ⟨?_, fun _ _ => .refl _⟩
  rintro ⟨dbName, table⟩ -
  rw [ends_bind]
  refine (ends_onTable_sameActive dbName tableName table m).mono (fun _ st' h => ?_)
    fun _ _ h => h
  exact (ends_saveAll_sameActive st').mono (fun _ _ h' => h'.symm ▸ h) fun _ _ h' => h'.symm ▸ h

/-- What a command selects, and that the selected database exists. -/
theorem ends_executeCommand_active {regexMatch : RegexMatch} {e : EngineState ι ω}
    (known : ActiveKnown e.dbms) (command : Command) :
    Ends (Engine.executeCommand regexMatch command) e
      (fun _ e' => e'.dbms.active = selectedAfter e.dbms.active command true ∧
        ActiveKnown e'.dbms)
      (fun _ e' => e'.dbms.active = selectedAfter e.dbms.active command false ∧
        ActiveKnown e'.dbms) := by
  have hsame : ∀ dbms', SameActive e.dbms dbms' →
      dbms'.active = e.dbms.active ∧ ActiveKnown dbms' := fun dbms' h => ⟨h.active, h.known known⟩
  cases command with
  | createDatabase dbName =>
      change Ends (Engine.executeCreateDatabase dbName) e _ _
      unfold Engine.executeCreateDatabase Dbms.createDatabase
      rw [Engine.onDbms, ends_zoom, ends_bind, ends_bind, ends_get, ends_ite]
      split
      · exact ⟨rfl, known⟩
      rw [Dbms.modifyDbms, ends_bind, ends_modify]
      have hmore : SameActive e.dbms
          ⟨e.dbms.databases.emplace dbName ⟨dbName, .empty⟩, e.dbms.active⟩ :=
        ⟨rfl, fun name hname => UnorderedMap.mem_keys_emplace.mpr (.inr hname)⟩
      refine (ends_onWorld_sameActive _).mono (fun _ st' h => ?_) fun _ st' h => ?_
      · exact (ends_saveAll_sameActive st').mono (fun _ _ h' => hsame _ ((h'.trans h).symm ▸ hmore))
          fun _ _ h' => hsame _ ((h'.trans h).symm ▸ hmore)
      · exact hsame _ (h.symm ▸ hmore)
  | dropDatabase dbName =>
      change Ends (Engine.executeDropDatabase dbName) e _ _
      unfold Engine.executeDropDatabase Dbms.dropDatabase
      rw [Engine.onDbms, ends_zoom, ends_bind, ends_bind, ends_get, ends_ite]
      split
      · rw [ends_modify]
        have hafter : ∀ dbms' : Dbms ι, dbms' = ⟨e.dbms.databases.erase dbName,
            if e.dbms.active = dbName then [] else e.dbms.active⟩ →
            dbms'.active = (if e.dbms.active = dbName then [] else e.dbms.active) ∧
              ActiveKnown dbms' := by
          rintro _ rfl
          refine ⟨rfl, fun hne => ?_⟩
          change (if e.dbms.active = dbName then [] else e.dbms.active) ∈
            (e.dbms.databases.erase dbName).keys
          by_cases h : e.dbms.active = dbName
          · exact absurd (if_pos h) hne
          · rw [if_neg h]
            have hactive : e.dbms.active ≠ [] := fun hnil => hne (by simp [hnil])
            exact UnorderedMap.mem_keys_erase.mpr ⟨h, known hactive⟩
        exact (ends_saveAll_sameActive _).mono (fun _ _ h => hafter _ h) fun _ _ h => hafter _ h
      · next hmissing =>
          -- the active database is not the one that is missing
          refine ⟨?_, known⟩
          change e.dbms.active = if e.dbms.active = dbName then [] else e.dbms.active
          split
          · next h =>
              by_contra hne
              have hmem := known hne
              rw [h] at hmem
              exact hmissing (by simpa [UnorderedMap.contains, Option.isSome_iff_exists] using
                UnorderedMap.mem_keys_iff.mp hmem)
          · rfl
  | useDatabase dbName =>
      change Ends (Engine.executeUseDatabase dbName) e _ _
      unfold Engine.executeUseDatabase Dbms.useDatabase
      rw [Engine.onDbms, ends_zoom, ends_bind, ends_bind, ends_get, ends_bind, ends_fromExcept]
      refine ⟨fun db hdb => ?_, fun _ _ => ⟨rfl, known⟩⟩
      refine ⟨rfl, fun _ => ?_⟩
      unfold Dbms.requireDatabase at hdb
      split at hdb
      · next db' hfound => exact UnorderedMap.mem_keys_iff.mpr ⟨db', hfound⟩
      · simp [raise] at hdb
  | createTable cmd =>
      change Ends (Engine.executeCreateTable cmd) e _ _
      unfold Engine.executeCreateTable
      rw [Engine.onDbms, ends_zoom, ends_bind, ends_get, ends_bind, ends_fromExcept]
      refine ⟨?_, fun _ _ => ⟨rfl, known⟩⟩
      rintro ⟨dbName, db⟩ -
      rw [ends_bind, ends_fromExcept]
      refine ⟨fun schema _ => ?_, fun _ _ => ⟨rfl, known⟩⟩
      rw [ends_bind, ends_fromExcept]
      refine ⟨fun db' _ => ?_, fun _ _ => ⟨rfl, known⟩⟩
      rw [Dbms.modifyDbms, ends_bind, ends_modify, ends_bind]
      have hdb : SameActive e.dbms _ := .setDatabase dbName db'
      refine (ends_onTable_sameActive dbName cmd.tableName _ _).mono (fun _ st' h => ?_)
        fun _ st' h => hsame _ (hdb.trans h)
      exact (ends_saveAll_sameActive st').mono (fun _ _ h' => hsame _ (h'.symm ▸ hdb.trans h))
        fun _ _ h' => hsame _ (h'.symm ▸ hdb.trans h)
  | dropTable cmd =>
      change Ends (Engine.executeDropTable cmd) e _ _
      unfold Engine.executeDropTable
      rw [Engine.onDbms, ends_zoom, ends_bind, ends_get, ends_bind, ends_fromExcept]
      refine ⟨?_, fun _ _ => ⟨rfl, known⟩⟩
      rintro ⟨dbName, db⟩ -
      rw [ends_bind, ends_fromExcept]
      refine ⟨fun db' _ => ?_, fun _ _ => ⟨rfl, known⟩⟩
      rw [Dbms.modifyDbms, ends_bind, ends_modify]
      have hdb : SameActive e.dbms _ := .setDatabase dbName db'
      exact (ends_saveAll_sameActive _).mono (fun _ _ h => hsame _ (h.symm ▸ hdb))
        fun _ _ h => hsame _ (h.symm ▸ hdb)
  | insert cmd =>
      exact (ends_executeOnTable_sameActive _ _ _ e).mono (fun _ _ h => hsame _ h)
        fun _ _ h => hsame _ h
  | update cmd =>
      exact (ends_executeOnTable_sameActive _ _ _ e).mono (fun _ _ h => hsame _ h)
        fun _ _ h => hsame _ h
  | delete cmd =>
      exact (ends_executeOnTable_sameActive _ _ _ e).mono (fun _ _ h => hsame _ h)
        fun _ _ h => hsame _ h
  | select cmd =>
      change Ends (Engine.executeSelect regexMatch cmd) e _ _
      unfold Engine.executeSelect
      rw [ends_bind, ends_get, ends_bind, ends_fromExcept]
      refine ⟨fun resolved _ => ?_, fun _ _ => ⟨rfl, known⟩⟩
      rw [ends_bind, ends_fromExcept]
      refine ⟨fun candidates _ => ?_, fun _ _ => ⟨rfl, known⟩⟩
      rw [ends_bind, ends_modify, ends_bind, ends_fromExcept]
      exact ⟨fun _ _ => ⟨rfl, known⟩, fun _ _ => ⟨rfl, known⟩⟩

/-- A new engine has no database selected. -/
theorem ends_construct_active (w : ω) :
    Ends (Engine.construct : EngineM ι ω PUnit) { dbms := {}, world := w }
      (fun _ e => e.dbms.active = []) (fun _ _ => True) := by
  unfold Engine.construct
  rw [Engine.onDbms, ends_zoom, ends_bind]
  unfold Dbms.loadAll
  rw [ends_bind]
  refine (ends_onWorld_sameActive _).mono (fun databases st hst => ?_) fun _ _ _ => trivial
  rw [Dbms.modifyDbms, ends_modify]
  unfold Engine.attachIndexesForLoadedData
  rw [ends_bind, ends_get]
  refine ends_forM (I := fun _ (st' : DbmsState ι ω) => st'.dbms.active = []) (by rw [hst]) ?_
  rintro - ⟨dbName, db⟩ - t - ht
  refine ends_forM (I := fun _ (st' : DbmsState ι ω) => st'.dbms.active = []) ht ?_
  rintro - tableName - t - ht
  rw [ends_bind, ends_get]
  cases t.dbms.table? dbName tableName with
  | none => exact ht
  | some table =>
      exact (ends_onTable_sameActive dbName tableName table _).mono
        (fun _ _ h => h.active.trans ht) fun _ _ _ => trivial

omit [IIndex ι ω] [DataRoot ι ω] in
theorem selectedByEvent_executed {selected clientId query : ByteString} {outcome : Outcome} :
    selectedByEvent selected (.executed clientId query outcome) =
      match parseQuery query with
      | .ok command => selectedAfter selected command outcome.isOk
      | .error _ => selected := rfl

/-- One execution moves the selection as `selectedByEvent` says. -/
theorem active_handler {regexMatch : RegexMatch} {e e' : EngineState ι ω} {query : ByteString}
    {outcome : Outcome} (known : ActiveKnown e.dbms)
    (run : handler regexMatch query e = some (outcome, e')) (clientId : ByteString) :
    e'.dbms.active = selectedByEvent e.dbms.active (.executed clientId query outcome) ∧
      ActiveKnown e'.dbms := by
  unfold handler Engine.execute at run
  rw [selectedByEvent_executed]
  cases hparse : parseQuery query with
  | error fault =>
      rw [hparse] at run
      cases fault with
      | diverges => cases run
      | outOfBounds => cases run
      | throws cls what =>
          cases run
          exact ⟨rfl, known⟩
  | ok command =>
      rw [hparse, fromExcept_ok, pure_bind] at run
      have hends : Ends (Engine.executeCommand regexMatch command) e _ _ :=
        ends_executeCommand_active known command
      cases hexec : Engine.executeCommand regexMatch command e with
      | ok response e'' =>
          rw [hexec] at run
          obtain ⟨rfl, rfl⟩ := Prod.mk.inj (Option.some.inj run)
          exact hends.of_ok hexec
      | error fault e'' =>
          rw [hexec] at run
          cases fault with
          | diverges => cases run
          | outOfBounds => cases run
          | throws cls what =>
              obtain ⟨rfl, rfl⟩ := Prod.mk.inj (Option.some.inj run)
              exact hends.of_error hexec

/-- In every run the active database is the one selected last, by whichever client. -/
theorem Run.active {regexMatch : RegexMatch} {events : List Event} {s : ExecutorService ι ω}
    (run : Run regexMatch events s) :
    s.engine.dbms.active = lastSelected events ∧ ActiveKnown s.engine.dbms := by
  induction run with
  | @start w e maxStoredRequests constructed =>
      have hactive : e.dbms.active = [] := (ends_construct_active w).of_ok constructed
      exact ⟨hactive, fun hne => absurd hactive hne⟩
  | @step events s s' event run step ih =>
      have hlast : lastSelected (events ++ [event]) =
          selectedByEvent (lastSelected events) event := by
        unfold lastSelected
        rw [List.foldl_append, List.foldl_cons, List.foldl_nil]
      rw [hlast, ← ih.1]
      cases step with
      | submit job async step => exact ⟨rfl, ih.2⟩
      | executeSync clientId query sync run => exact active_handler ih.2 run clientId
      | work job step run => exact active_handler ih.2 run job.clientId
      | quiet other step => exact ⟨rfl, ih.2⟩

/-- A command that names no database is executed on the one selected last before its own
execution, by whichever client, and fails where that one has been dropped. -/
theorem unqualified_runs_in_last_selected {regexMatch : RegexMatch} {events : List Event}
    {s s' : ExecutorService ι ω} {clientId query : ByteString} {outcome : Outcome}
    {command : Command} (run : Run regexMatch events s)
    (step : Step regexMatch s (.executed clientId query outcome) s')
    (parsed : parseQuery query = .ok command)
    (unqualified : commandDatabase command = some []) :
    (lastSelected events = [] →
      outcome = .error (text "No database selected (use USE first)") ∧ s'.engine = s.engine) ∧
    (lastSelected events ≠ [] →
      lastSelected events ∈ s.engine.dbms.databases.keys ∧
      answer (Engine.executeCommand regexMatch (inDatabase (lastSelected events) command)
        s.engine) = some (outcome, s'.engine)) := by
  obtain ⟨hactive, known⟩ := run.active
  have hexec : answer (Engine.executeCommand regexMatch command s.engine) =
      some (outcome, s'.engine) := by
    have hhandler : handler regexMatch query s.engine = some (outcome, s'.engine) := by
      cases step with
      | executeSync _ _ _ run => exact run
      | work _ _ run => exact run
    unfold handler Engine.execute at hhandler
    rwa [parsed, fromExcept_ok, pure_bind] at hhandler
  rw [← hactive]
  constructor
  · intro hnil
    rw [executeCommand_noDatabase unqualified hnil] at hexec
    obtain ⟨rfl, hengine⟩ := Prod.mk.inj (Option.some.inj hexec)
    exact ⟨rfl, hengine.symm⟩
  · intro hne
    exact ⟨known hne, executeCommand_inDatabase unqualified hne ▸ hexec⟩

section Instances

private def neverMatches : RegexMatch := fun _ _ => .ok false

/-- The engine after a query that returns. -/
private def answered? (e : EngineState Nat MapStore) (query : ByteString) :
    Option (EngineState Nat MapStore) :=
  (handler neverMatches query e).bind fun (outcome, e') =>
    if outcome.isOk then some e' else none

/-- A query that is queued, popped, executed and recorded while nothing else happens. -/
private theorem run_worked {events : List Event} {s : ExecutorService Nat MapStore}
    (run : Run neverMatches events s) (idle : s.executor.worker = .waiting)
    (drained : s.executor.queue = []) (job : Job)
    (async : classifyExecutionMode job.query = .async) {e : EngineState Nat MapStore}
    (exec : answered? s.engine job.query = some e) :
    ∃ events' s', Run neverMatches events' s' ∧ s'.executor.worker = .waiting ∧
      s'.executor.queue = [] ∧ s'.engine = e := by
  obtain ⟨⟨outcome, e'⟩, hhandler, hok⟩ := Option.bind_eq_some_iff.mp exec
  have hsame : e' = e := by
    dsimp only at hok
    split at hok
    · exact Option.some.inj hok
    · cases hok
  subst hsame
  have submitted := run.step (.submit job async (.submit job 0 _ (.refl _)))
  have popped := submitted.step (.quiet (show Quiet (.pop job) from trivial)
    (.pop idle (by rw [drained]; rfl)))
  have marked := popped.step (.quiet (show Quiet (.markRunning job) from trivial) (.markRunning 0 rfl))
  have worked := marked.step (.work job (.runHandler outcome rfl) hhandler)
  have recorded := worked.step (.quiet (show Quiet (.record job outcome) from trivial) (.record 0 rfl))
  exact ⟨_, _, recorded, rfl, rfl, rfl⟩

/-- Two databases with a table of one name. -/
private def setup : List ByteString :=
  [text "CREATE DATABASE a", text "CREATE DATABASE b", text "CREATE TABLE a.t (n INT)",
    text "CREATE TABLE b.t (n INT)"]

private def bareEngine : EngineState Nat MapStore := { dbms := {}, world := [] }

private theorem run_setup : ∃ events s e, Run neverMatches events s ∧
    s.executor.worker = .waiting ∧ s.executor.queue = [] ∧ s.engine = e ∧
    setup.foldlM answered? bareEngine = some e := by
  have async : ∀ q ∈ setup, classifyExecutionMode q = .async := by decide +kernel
  have all : ∀ (qs : List ByteString), (∀ q ∈ qs, classifyExecutionMode q = .async) →
      ∀ (events : List Event) (s : ExecutorService Nat MapStore) (e : EngineState Nat MapStore),
      Run neverMatches events s → s.executor.worker = .waiting → s.executor.queue = [] →
      qs.foldlM answered? s.engine = some e → ∃ events' s', Run neverMatches events' s' ∧
        s'.executor.worker = .waiting ∧ s'.executor.queue = [] ∧ s'.engine = e := by
    intro qs
    induction qs with
    | nil =>
        intro _ events s e run idle drained h
        exact ⟨events, s, run, idle, drained, Option.some.inj h⟩
    | cons q qs ih =>
        intro hasync events s e run idle drained h
        rw [List.foldlM_cons, Option.bind_eq_bind, Option.bind_eq_some_iff] at h
        obtain ⟨e₁, h₁, h⟩ := h
        obtain ⟨events', s', run', idle', drained', rfl⟩ := run_worked run idle drained
          ⟨[], text "client_1", q⟩ (hasync q List.mem_cons_self) h₁
        exact ih (fun q' hq' => hasync q' (List.mem_cons_of_mem q hq')) events' s' e run' idle'
          drained' h
  have exec : (setup.foldlM answered? bareEngine).isSome = true := by decide +kernel
  obtain ⟨e, he⟩ := Option.isSome_iff_exists.mp exec
  obtain ⟨events, s, run, idle, drained, hengine⟩ := all setup async [] ⟨{ maxStoredRequests := 10 },
    bareEngine⟩ e (.start (w := []) 10 rfl) rfl rfl he
  exact ⟨events, s, e, run, idle, drained, hengine, he⟩

private def useTokens (name : ByteString) : List Token :=
  [⟨.kwUse, text "USE", 1⟩, ⟨.identifier, name, 1⟩, ⟨.semicolon, text ";", 1⟩, ⟨.end_, [], 1⟩]

private def dropTokens : List Token :=
  [⟨.kwDrop, text "DROP", 1⟩, ⟨.kwTable, text "TABLE", 1⟩, ⟨.identifier, text "t", 1⟩,
    ⟨.semicolon, text ";", 1⟩, ⟨.end_, [], 1⟩]

private theorem parsed_use_a : parseQuery (text "USE a") = .ok (.useDatabase (text "a")) :=
  parseQuery_ok (l := useTokens (text "a")) (by decide +kernel) rfl

private theorem parsed_drop : parseQuery (text "DROP TABLE t") = .ok (.dropTable ⟨[], text "t"⟩) :=
  parseQuery_ok (l := dropTokens) (by decide +kernel) rfl

/-- The table `a.t` is there. -/
private def hasTable : Option (Outcome × EngineState Nat MapStore) → Bool
  | some (_, e) => (e.dbms.table? (text "a") (text "t")).isSome
  | none => false

/-- One client selects `a` and queues a DROP TABLE; before the worker comes to it, another
client selects `b`, and the table of `b` is dropped. -/
theorem queued_command_follows_other_client : ∃ (before later : List Event)
    (s s' : ExecutorService Nat MapStore) (job : Job) (command : Command) (outcome : Outcome),
    Run neverMatches (before ++ .queued job :: later) s ∧
    ownSelected job.clientId before = text "a" ∧
    (∀ query o, .executed job.clientId query o ∉ later) ∧
    Step neverMatches s (.executed job.clientId job.query outcome) s' ∧
    parseQuery job.query = .ok command ∧ commandDatabase command = some [] ∧
    answer (Engine.executeCommand neverMatches (inDatabase (text "a") command) s.engine) ≠
      some (outcome, s'.engine) := by
  obtain ⟨events, s₀, e₀, run₀, idle, drained, rfl, hsetup⟩ := run_setup
  -- the engine after both USE and after the DROP TABLE, and how `a.t` fares
  have exec : ((setup.foldlM answered? bareEngine).bind fun e =>
      (handler neverMatches (text "USE a") e).bind fun a =>
      (handler neverMatches (text "USE b") a.2).bind fun b =>
      (handler neverMatches (text "DROP TABLE t") b.2).map fun c => (a.1.isOk,
        hasTable (some c),
        hasTable (answer (Engine.executeCommand neverMatches
          (inDatabase (text "a") (.dropTable ⟨[], text "t"⟩)) b.2)))) =
      some (true, true, false) := by decide +kernel
  rw [hsetup, Option.bind_some] at exec
  obtain ⟨⟨outcomeA, a⟩, hA, exec⟩ := Option.bind_eq_some_iff.mp exec
  obtain ⟨⟨outcomeB, b⟩, hB, exec⟩ := Option.bind_eq_some_iff.mp exec
  obtain ⟨⟨outcome, c⟩, hC, exec⟩ := Option.map_eq_some_iff.mp exec
  simp only [Prod.mk.injEq] at exec
  obtain ⟨hok, hkept, hdropped⟩ := exec
  let job : Job := ⟨text "id", text "client_1", text "DROP TABLE t"⟩
  have syncA : classifyExecutionMode (text "USE a") = .sync := by decide +kernel
  have syncB : classifyExecutionMode (text "USE b") = .sync := by decide +kernel
  have async : classifyExecutionMode job.query = .async := by decide +kernel
  have runA := run₀.step (.executeSync (text "client_1") (text "USE a") syncA hA)
  have queued := runA.step (.submit job async (.submit job 0 _ (.refl _)))
  have runB := queued.step (.executeSync (text "client_2") (text "USE b") syncB hB)
  have popped := runB.step (.quiet (show Quiet (.pop job) from trivial)
    (.pop idle (congrArg (· ++ [job]) drained)))
  have marked := popped.step (.quiet (show Quiet (.markRunning job) from trivial) (.markRunning 0 rfl))
  obtain ⟨s, run, hworker, rfl⟩ : ∃ s, Run neverMatches
      ((events ++ [.executed (text "client_1") (text "USE a") outcomeA]) ++ .queued job ::
        [.executed (text "client_2") (text "USE b") outcomeB, .quiet, .quiet]) s ∧
      s.executor.worker = .marked job ∧ s.engine = b := by
    simp only [List.append_assoc, List.cons_append, List.nil_append] at marked ⊢
    exact ⟨_, marked, rfl, rfl⟩
  refine ⟨_, _, s, _, job, .dropTable ⟨[], text "t"⟩, outcome, run, ?_, ?_,
    .work job (.runHandler outcome hworker) hC, parsed_drop, rfl, fun hsame => ?_⟩
  · unfold ownSelected lastSelected
    rw [List.filter_append, List.foldl_append]
    rw [List.filter_cons_of_pos (by simp [job]), List.filter_nil, List.foldl_cons, List.foldl_nil,
      selectedByEvent_executed, parsed_use_a]
    exact if_pos hok
  · intro query o
    simp only [List.mem_cons, Event.executed.injEq, reduceCtorEq, List.not_mem_nil, or_false,
      not_and]
    intro hclient
    exact absurd hclient (by decide)
  · rw [hsame] at hdropped
    rw [hdropped] at hkept
    cases hkept

private def selectTokens : List Token :=
  [⟨.kwSelect, text "SELECT", 1⟩, ⟨.star, text "*", 1⟩, ⟨.kwFrom, text "FROM", 1⟩,
    ⟨.identifier, text "t", 1⟩, ⟨.semicolon, text ";", 1⟩, ⟨.end_, [], 1⟩]

private def selectT (dbName : ByteString) : SelectCmd := ⟨dbName, text "t", true, [], none⟩

private theorem parsed_select : parseQuery (text "SELECT * FROM t") = .ok (.select (selectT [])) :=
  parseQuery_ok (l := selectTokens) (by decide +kernel) rfl

/-- A client reads from the database that another client has selected. -/
theorem unqualified_runs_in_database_of_other_client : ∃ (events : List Event)
    (s s' : ExecutorService Nat MapStore) (outcome : Outcome),
    Run neverMatches events s ∧ lastSelected events = text "a" ∧
    Step neverMatches s (.executed (text "client_2") (text "SELECT * FROM t") outcome) s' ∧
    answer (Engine.executeCommand neverMatches (.select (selectT (text "a"))) s.engine) =
      some (outcome, s'.engine) := by
  obtain ⟨events, s₀, e₀, run₀, -, -, rfl, hsetup⟩ := run_setup
  have exec : ((setup.foldlM answered? bareEngine).bind fun e =>
      (handler neverMatches (text "USE a") e).bind fun a =>
      (handler neverMatches (text "SELECT * FROM t") a.2).map fun _ => a.1.isOk) =
      some true := by decide +kernel
  rw [hsetup, Option.bind_some] at exec
  obtain ⟨⟨outcomeA, a⟩, hA, exec⟩ := Option.bind_eq_some_iff.mp exec
  obtain ⟨⟨outcome, b⟩, hB, hok⟩ := Option.map_eq_some_iff.mp exec
  have syncA : classifyExecutionMode (text "USE a") = .sync := by decide +kernel
  have syncB : classifyExecutionMode (text "SELECT * FROM t") = .sync := by decide +kernel
  have run := run₀.step (.executeSync (text "client_1") (text "USE a") syncA hA)
  have step : Step neverMatches { s₀ with engine := a }
      (.executed (text "client_2") (text "SELECT * FROM t") outcome) { s₀ with engine := b } :=
    .executeSync (text "client_2") (text "SELECT * FROM t") syncB hB
  have selected : lastSelected (events ++ [.executed (text "client_1") (text "USE a") outcomeA]) =
      text "a" := by
    unfold lastSelected
    rw [List.foldl_append, List.foldl_cons, List.foldl_nil, selectedByEvent_executed, parsed_use_a]
    exact if_pos hok
  have hsame := (unqualified_runs_in_last_selected run step parsed_select rfl).2 (by
    rw [selected]
    decide)
  rw [selected] at hsame
  exact ⟨_, _, _, outcome, run, selected, step, hsame.2⟩

end Instances

end ExecutorService
end CwDb.Executor
