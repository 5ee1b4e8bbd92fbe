/-
  Executor/Durability.lean --- what the table files hold after a statement.

  A statement that changes data saves all databases before it answers; one that throws has
  saved nothing, so the files hold what the last one saved that answered OK.
-/
import CwDb.Executor.EngineRuns
import CwDb.Executor.IndexFiles
import CwDb.Executor.Routing
import CwDb.Executor.StatementFrames
import CwDb.Storage.SavedTables

set_option autoImplicit false

namespace CwDb.Executor

open CwDb.Cpp
open CwDb.Foundation
open CwDb.Sql
open CwDb.Storage

variable {ι ω : Type}

/-! ## The invariant -/

/-- Every database has its directory, and every table lists its rows. -/
structure Orderly (dirs : Directories) (dbms : Dbms ι) : Prop where
  houses : dirs.Houses dbms
  filed : ∀ dbName tableName table, dbms.table? dbName tableName = some table → table.Filed

namespace Orderly

variable {dirs dirs' : Directories} {dbms : Dbms ι} {dbName tableName : ByteString}

theorem congr (h : Orderly dirs dbms) (same : Directories.SameFiles dirs dirs') :
    Orderly dirs' dbms := ⟨h.houses.congr same, h.filed⟩

theorem setTable (h : Orderly dirs dbms) {old table : Table ByteString ι}
    (found : dbms.table? dbName tableName = some old) (filed : table.Filed) :
    Orderly dirs (dbms.setTable dbName tableName table) := by
  refine ⟨h.houses.setTable dbName tableName table, fun d t other hother => ?_⟩
  rw [Dbms.table?_setTable ⟨old, found⟩] at hother
  split at hother
  · cases hother
    exact filed
  · exact h.filed d t other hother

/-- A database with other tables, of which those that are new have no rows to list. -/
theorem setDatabase (h : Orderly dirs dbms) {db db' : Database ι}
    (found : dbms.databases.find? dbName = some db) (named : db'.name = db.name)
    (filed : ∀ t table, db'.tables.find? t = some table →
      db.tables.find? t = some table ∨ table.Filed) :
    Orderly dirs (dbms.setDatabase dbName db') := by
  refine ⟨h.houses.setDatabase found named, fun d t table htable => ?_⟩
  rw [Dbms.table?_setDatabase found] at htable
  split at htable
  · next hname =>
      subst hname
      rcases filed t table htable with hold | hfiled
      · exact h.filed d t table ((Dbms.table?_of_find? found).trans hold)
      · exact hfiled
  · exact h.filed d t table htable

end Orderly

/-! ## Statements -/

section Statements

variable [x : IIndex ι ω] [d : DataRoot ι ω] {get : ω → Directories}
  {set : ω → Directories → ω} {st : DbmsState ι ω}

/-- A statement has saved what it did. -/
def Saves (get : ω → Directories) (st' : DbmsState ι ω) : Prop :=
  Orderly (get st'.world) st'.dbms ∧ (get st'.world).Keeps st'.dbms

/-- A statement has thrown, and saved nothing unless there is a table that cannot be saved. -/
def SavesNothing (get : ω → Directories) (dirs : Directories) (st' : DbmsState ι ω) : Prop :=
  Orderly (get st'.world) st'.dbms ∧ (dirs.SameFiles (get st'.world) ∨ ¬ st'.dbms.Listed)

theorem ends_saved_files (layered : OverDirectories x d get set)
    (orderly : Orderly (get st.world) st.dbms) (dirs : Directories) :
    Ends (do
        Dbms.saveAll
        pure (text "OK") : DbmsM ι ω ByteString) st
      (fun _ st' => Saves get st') (fun _ st' => SavesNothing get dirs st') := by
  rw [ends_bind]
  refine (layered.ends_saveAll orderly.houses).mono ?_ ?_
  · rintro - st' ⟨dirs', rfl, hkeeps, hhouses, -⟩
    unfold Saves
    rw [ends_pure, layered.get_set]
    exact ⟨⟨hhouses, orderly.filed⟩, hkeeps⟩
  · rintro - st' ⟨dirs', rfl, hhouses, -, hunlisted⟩
    unfold SavesNothing
    rw [layered.get_set]
    exact ⟨⟨hhouses, orderly.filed⟩, .inr hunlisted⟩

/-- INSERT, UPDATE and DELETE. -/
theorem ends_executeOnTable_files (layered : OverDirectories x d get set) {e : EngineState ι ω}
    (orderly : Orderly (get e.world) e.dbms) (explicitDbName tableName : ByteString)
    {m : TableM ι ω PUnit}
    (maintains : Maintains (Within Table.Filed fun w => get w = get e.world) m) :
    Ends (Engine.executeOnTable explicitDbName tableName m) e
      (fun _ e' => Saves get e'.toDbmsState)
      (fun _ e' => SavesNothing get (get e.world) e'.toDbmsState) := by
  have hunchanged : SavesNothing get (get e.world) e.toDbmsState := ⟨orderly, .inl (.refl _)⟩
  unfold Engine.executeOnTable
  rw [Engine.onDbms, ends_zoom, ends_bind, ends_get, ends_bind, ends_fromExcept]
  refine ⟨?_, fun _ _ => hunchanged⟩
  rintro ⟨dbName, table⟩ hresolve
  have hfound := resolveTable_ok hresolve
  have hset : ∀ s' : TableState ι ω, Within Table.Filed (fun w => get w = get e.world) s' →
      Orderly (get s'.world) (e.dbms.setTable dbName tableName s'.table) := by
    rintro s' ⟨hfiled, hsame⟩
    rw [hsame]
    exact orderly.setTable hfound hfiled
  rw [ends_bind]
  change Ends (Dbms.onTable dbName tableName table m) e.toDbmsState _ _
  rw [Dbms.onTable, ends_zoom]
  refine (maintains ⟨table, e.world⟩ ⟨orderly.filed _ _ _ hfound, rfl⟩).mono ?_ ?_
  · intro _ s' hs'
    exact ends_saved_files layered (hset s' hs') _
  · intro _ s' hs'
    refine ⟨hset s' hs', .inl ?_⟩
    change Directories.SameFiles _ (get s'.world)
    rw [hs'.2]
    exact .refl _

/-- CREATE DATABASE. -/
theorem ends_executeCreateDatabase_files (layered : OverDirectories x d get set)
    {e : EngineState ι ω} (orderly : Orderly (get e.world) e.dbms) (name : ByteString) :
    Ends (Engine.executeCreateDatabase name) e (fun _ e' => Saves get e'.toDbmsState)
      (fun _ e' => SavesNothing get (get e.world) e'.toDbmsState) := by
  have hunchanged : SavesNothing get (get e.world) e.toDbmsState := ⟨orderly, .inl (.refl _)⟩
  unfold Engine.executeCreateDatabase Dbms.createDatabase
  rw [Engine.onDbms, ends_zoom, ends_bind, ends_bind, ends_get, ends_ite]
  split
  · exact hunchanged
  · next hfree =>
      have hfree : e.dbms.databases.find? name = none := by
        simpa [UnorderedMap.contains] using hfree
      rw [ends_bind, Dbms.modifyDbms, ends_modify, Dbms.onWorld, ends_zoom,
        layered.createDirectories, ends_zoom]
      refine ends_saved_files layered ?_ _
      change Orderly (get (set e.world ((get e.world).emplace name {}))) _
      rw [layered.get_set]
      refine ⟨orderly.houses.createDatabase name, fun k tableName table htable => ?_⟩
      change ((e.dbms.databases.emplace name ⟨name, .empty⟩).find? k).bind _ = _ at htable
      rw [UnorderedMap.find?_emplace, hfree] at htable
      split at htable
      · cases htable
      · exact orderly.filed k tableName table htable

/-- DROP DATABASE. -/
theorem ends_executeDropDatabase_files (layered : OverDirectories x d get set)
    {e : EngineState ι ω} (orderly : Orderly (get e.world) e.dbms) (name : ByteString) :
    Ends (Engine.executeDropDatabase name) e (fun _ e' => Saves get e'.toDbmsState)
      (fun _ e' => SavesNothing get (get e.world) e'.toDbmsState) := by
  have hunchanged : SavesNothing get (get e.world) e.toDbmsState := ⟨orderly, .inl (.refl _)⟩
  unfold Engine.executeDropDatabase Dbms.dropDatabase
  rw [Engine.onDbms, ends_zoom, ends_bind, ends_bind, ends_get, ends_ite]
  split
  · rw [ends_modify]
    refine ends_saved_files layered ?_ _
    change Orderly (get (d.removeAll name e.world)) _
    rw [layered.removeAll, layered.get_set]
    refine ⟨orderly.houses.dropDatabase name _, fun k tableName table htable => ?_⟩
    change ((e.dbms.databases.erase name).find? k).bind _ = _ at htable
    rw [UnorderedMap.find?_erase] at htable
    split at htable
    · cases htable
    · exact orderly.filed k tableName table htable
  · exact hunchanged

/-- DROP TABLE. -/
theorem ends_executeDropTable_files (layered : OverDirectories x d get set) {e : EngineState ι ω}
    (orderly : Orderly (get e.world) e.dbms) (cmd : DropTableCmd) :
    Ends (Engine.executeDropTable cmd) e (fun _ e' => Saves get e'.toDbmsState)
      (fun _ e' => SavesNothing get (get e.world) e'.toDbmsState) := by
  have hunchanged : SavesNothing get (get e.world) e.toDbmsState := ⟨orderly, .inl (.refl _)⟩
  unfold Engine.executeDropTable
  rw [Engine.onDbms, ends_zoom, ends_bind, ends_get, ends_bind, ends_fromExcept]
  refine ⟨?_, fun _ _ => hunchanged⟩
  rintro ⟨dbName, db⟩ hresolve
  have hfound := resolveDatabase_ok hresolve
  rw [ends_bind, ends_fromExcept]
  refine ⟨fun db' hdrop => ?_, fun _ _ => hunchanged⟩
  rw [ends_bind, Dbms.modifyDbms, ends_modify]
  refine ends_saved_files layered ?_ _
  obtain ⟨hnamed, htables⟩ := Database.dropTable_ok hdrop
  refine orderly.setDatabase hfound hnamed fun t table htable => ?_
  rw [htables] at htable
  split at htable
  · cases htable
  · exact .inl htable

/-- Indexes are made and attached behind the backs of the table files, and with them only the
indexes of the table change. -/
theorem maintains_attachIndexesForTable (layered : OverDirectories x d get set) {dirs : Directories}
    {P : Table ByteString ι → Prop} (closed : ∀ t indexes, P t → P { t with indexes })
    {dbName : ByteString} {dir : Directory} (here : dirs.find? dbName = some dir)
    (tableName : ByteString) :
    Maintains (Within P fun w => dirs.SameFiles (get w))
      (Engine.attachIndexesForTable dbName tableName : TableM ι ω PUnit) := by
  refine .get_bind fun s _ => .forM ?_
  rintro ⟨column, i⟩ -
  refine .get_bind fun s _ => .ite (fun _ => .ite (fun _ => .pure _) fun _ => ?_) fun _ => .pure _
  refine (ClosedUnderChanges.onWorld fun w same => ?_).bind fun index => ?_
  · have hsame := same dbName
    rw [here] at hsame
    obtain ⟨dir', hdir', -⟩ := Option.map_eq_some_iff.mp hsame
    exact (layered.makeIndexForColumn dbName tableName column w dir' hdir').mono
      (fun _ _ h => same.trans h) fun _ _ h => same.trans h
  · refine .get_bind fun s _ => .ite (fun _ => .throw _) fun _ => ?_
    refine (ClosedUnderChanges.modifyTable ?_).bind fun _ => ?_
    · exact fun t => closed t _
    refine .ite (fun _ => .forM fun rowId _ => ?_) fun _ => .pure _
    refine (Maintains.fromExcept _).bind fun row => (Maintains.fromExcept _).bind fun value => ?_
    refine ClosedUnderChanges.onWorld fun w same => ?_
    refine (layered.insert (get w) index value rowId w rfl).mono ?_ ?_
    · rintro - w' hw'
      rwa [hw']
    · rintro - w' hw'
      rwa [hw']

/-- CREATE TABLE. -/
theorem ends_executeCreateTable_files (layered : OverDirectories x d get set) {e : EngineState ι ω}
    (orderly : Orderly (get e.world) e.dbms) (cmd : CreateTableCmd) :
    Ends (Engine.executeCreateTable cmd) e (fun _ e' => Saves get e'.toDbmsState)
      (fun _ e' => SavesNothing get (get e.world) e'.toDbmsState) := by
  have hunchanged : SavesNothing get (get e.world) e.toDbmsState := ⟨orderly, .inl (.refl _)⟩
  unfold Engine.executeCreateTable
  rw [Engine.onDbms, ends_zoom, ends_bind, ends_get, ends_bind, ends_fromExcept]
  refine ⟨?_, fun _ _ => hunchanged⟩
  rintro ⟨dbName, db⟩ hresolve
  have hfound := resolveDatabase_ok hresolve
  rw [ends_bind, ends_fromExcept]
  refine ⟨fun schema _ => ?_, fun _ _ => hunchanged⟩
  rw [ends_bind, ends_fromExcept]
  refine ⟨fun db' hcreate => ?_, fun _ _ => hunchanged⟩
  let new : Table ByteString ι := Table.ofSchema cmd.tableName schema
  have hnew : new.Filed := fun _ hid => absurd hid List.not_mem_nil
  obtain ⟨hnamed, -, htables⟩ := Database.createTable_ok hcreate
  have hst : Orderly (get e.world) (e.dbms.setDatabase dbName db') := by
    refine orderly.setDatabase hfound hnamed fun t table htable => ?_
    rw [htables] at htable
    split at htable
    · cases htable
      exact .inr hnew
    · exact .inl htable
  have hself : (e.dbms.setDatabase dbName db').table? dbName cmd.tableName = some new := by
    rw [Dbms.table?_setDatabase hfound, if_pos rfl, htables, if_pos rfl]
  have hset : ∀ s' : TableState ι ω,
      Within Table.Filed (fun w => (get e.world).SameFiles (get w)) s' →
      Orderly (get s'.world)
        ((e.dbms.setDatabase dbName db').setTable dbName cmd.tableName s'.table) :=
    fun s' hs' => (hst.setTable hself hs'.1).congr hs'.2
  obtain ⟨hname, dir, hdir⟩ := orderly.houses.name_eq hfound
  rw [Dbms.modifyDbms, ends_bind, ends_modify, ends_bind]
  change Ends (Dbms.onTable dbName cmd.tableName new _)
    { e.toDbmsState with dbms := e.dbms.setDatabase dbName db' } _ _
  rw [Dbms.onTable, ends_zoom, hname]
  refine (maintains_attachIndexesForTable layered (fun _ _ filed => filed) hdir cmd.tableName ⟨new, e.world⟩
    ⟨hnew, .refl _⟩).mono ?_ ?_
  · intro _ s' hs'
    exact ends_saved_files layered (hset s' hs') _
  · exact fun _ s' hs' => ⟨hset s' hs', .inl hs'.2⟩

/-- What the operations on rows keep: every row is listed, and the directories stay. -/
theorem closedUnderRows_filed (layered : OverDirectories x d get set) (dirs : Directories) :
    ClosedUnderRows (ι := ι) Table.Filed fun w => get w = dirs where
  insert t id row filed := by
    intro j hj
    rcases UnorderedMap.mem_keys_emplace.mp hj with rfl | hj
    · exact List.mem_append_right _ (List.mem_singleton_self _)
    · exact List.mem_append_left _ (filed j hj)
  update t id row filed := by
    intro j hj
    change j ∈ (t.rows.replace id row).keys at hj
    rw [UnorderedMap.keys_replace] at hj
    exact filed j hj
  erase t id filed := by
    intro j hj
    obtain ⟨hne, hj⟩ := UnorderedMap.mem_keys_erase.mp hj
    exact (List.mem_erase_of_ne hne).mpr (filed j hj)
  indexInsert := layered.insert dirs
  indexErase := layered.erase dirs

/-- The databases and the world are as they were. -/
def Unchanged (st st' : DbmsState ι ω) : Prop :=
  st'.dbms.databases = st.dbms.databases ∧ st'.world = st.world

omit x d in
theorem Orderly.unchanged {st' : DbmsState ι ω} (orderly : Orderly (get st.world) st.dbms)
    (same : Unchanged st st') : Orderly (get st'.world) st'.dbms := by
  obtain ⟨hdatabases, hworld⟩ := same
  rw [hworld]
  refine ⟨fun k => hdatabases ▸ orderly.houses k, fun dbName tableName table htable => ?_⟩
  unfold Dbms.table? at htable
  rw [hdatabases] at htable
  exact orderly.filed dbName tableName table htable

/-- USE and SELECT. -/
theorem ends_executeCommand_unchanged {e : EngineState ι ω} (regexMatch : RegexMatch)
    {command : Command} (reads : changesData command = false) :
    Ends (Engine.executeCommand regexMatch command) e
      (fun _ e' => Unchanged e.toDbmsState e'.toDbmsState)
      (fun _ e' => Unchanged e.toDbmsState e'.toDbmsState) := by
  have hsame : Unchanged e.toDbmsState e.toDbmsState := ⟨rfl, rfl⟩
  cases command with
  | useDatabase dbName =>
      change Ends (Engine.executeUseDatabase dbName) e _ _
      unfold Engine.executeUseDatabase Dbms.useDatabase
      rw [Engine.onDbms, ends_zoom, ends_bind, ends_bind, ends_get, ends_bind, ends_fromExcept]
      exact ⟨fun _ _ => hsame, fun _ _ => hsame⟩
  | select cmd =>
      change Ends (Engine.executeSelect regexMatch cmd) e _ _
      unfold Engine.executeSelect
      rw [ends_bind, ends_get, ends_bind, ends_fromExcept]
      refine ⟨?_, fun _ _ => hsame⟩
      rintro ⟨dbName, table⟩ -
      rw [ends_bind, ends_fromExcept]
      refine ⟨?_, fun _ _ => hsame⟩
      rintro ⟨candidates, usedIndex⟩ -
      rw [ends_bind, ends_modify, ends_bind, ends_fromExcept]
      exact ⟨fun _ _ => hsame, fun _ _ => hsame⟩
  | _ => cases reads

/-- A statement that changes data has saved it when it returns, and nothing when it throws. -/
theorem ends_executeCommand_files (layered : OverDirectories x d get set) {e : EngineState ι ω}
    (orderly : Orderly (get e.world) e.dbms) (regexMatch : RegexMatch) {command : Command}
    (changes : changesData command = true) :
    Ends (Engine.executeCommand regexMatch command) e (fun _ e' => Saves get e'.toDbmsState)
      (fun _ e' => SavesNothing get (get e.world) e'.toDbmsState) := by
  have hrows := closedUnderRows_filed layered (get e.world)
  cases command with
  | createDatabase dbName => exact ends_executeCreateDatabase_files layered orderly dbName
  | dropDatabase dbName => exact ends_executeDropDatabase_files layered orderly dbName
  | createTable cmd => exact ends_executeCreateTable_files layered orderly cmd
  | dropTable cmd => exact ends_executeDropTable_files layered orderly cmd
  | insert cmd => exact ends_executeOnTable_files layered orderly _ _ (hrows.insertRows _ _)
  | update cmd => exact ends_executeOnTable_files layered orderly _ _ (hrows.updateRows _ _)
  | delete cmd => exact ends_executeOnTable_files layered orderly _ _ (hrows.deleteRows _)
  | _ => cases changes

/-- A query is its command. -/
theorem execute_parsed {regexMatch : RegexMatch} {query : ByteString} {command : Command}
    (parsed : parseQuery query = .ok command) (e : EngineState ι ω) :
    Engine.execute regexMatch query e = Engine.executeCommand regexMatch command e := by
  unfold Engine.execute
  rw [parsed]
  rfl

end Statements

/-! ## Runs -/

open Engine

variable {regexMatch : RegexMatch}

/-- The query changes data and is answered OK. -/
def commits (regexMatch : RegexMatch) (query : ByteString)
    (e : EngineState IndexRef DataDirectory) : Bool :=
  match parseQuery query, (onFiles regexMatch query e).1 with
  | .ok command, .ok _ => changesData command
  | _, _ => false

/-- The databases as they were behind the last query that changed data and was answered OK. -/
def committed (regexMatch : RegexMatch) : List ByteString → EngineState IndexRef DataDirectory →
    Dbms IndexRef → Dbms IndexRef
  | [], _, saved => saved
  | query :: queries, e, saved =>
      let e' := (onFiles regexMatch query e).2
      committed regexMatch queries e' (if commits regexMatch query e then e'.dbms else saved)

/-- One query: it commits, or the table files stay as they are. -/
theorem step_onFiles (query : ByteString) {e : EngineState IndexRef DataDirectory}
    (orderly : Orderly e.world.directories e.dbms) :
    let e' := (onFiles regexMatch query e).2
    Orderly e'.world.directories e'.dbms ∧
      if commits regexMatch query e then e'.world.directories.Keeps e'.dbms
      else e.world.directories.SameFiles e'.world.directories ∨ ¬ e'.dbms.Listed := by
  unfold commits onFiles answerOf
  have hsame : Directories.SameFiles e.world.directories e.world.directories := .refl _
  cases hparse : parseQuery query with
  | error fault =>
      have hrun : @execute _ _ DataDirectory.index DataDirectory.root regexMatch query e =
          .error fault e := by
        unfold execute
        rw [hparse]
        rfl
      rw [hrun]
      exact ⟨orderly, .inl hsame⟩
  | ok command =>
      rw [@execute_parsed _ _ DataDirectory.index DataDirectory.root regexMatch query command
        hparse e]
      cases hdata : changesData command with
      | true =>
          have hends := @ends_executeCommand_files _ _ DataDirectory.index DataDirectory.root _ _
            overDirectories_files e orderly regexMatch command hdata
          cases hcommand : @executeCommand _ _ DataDirectory.index DataDirectory.root regexMatch
            command e with
          | ok response e' =>
              dsimp only
              rw [if_pos hdata]
              exact hends.of_ok hcommand
          | error fault e' => exact hends.of_error hcommand
      | false =>
          have hends := @ends_executeCommand_unchanged _ _ DataDirectory.index DataDirectory.root
            e regexMatch command hdata
          cases hcommand : @executeCommand _ _ DataDirectory.index DataDirectory.root regexMatch
            command e with
          | ok response e' =>
              have hunchanged := hends.of_ok hcommand
              dsimp only
              rw [if_neg fun h => Bool.false_ne_true (hdata.symm.trans h)]
              exact ⟨orderly.unchanged hunchanged, .inl (by rw [hunchanged.2]; exact hsame)⟩
          | error fault e' =>
              have hunchanged := hends.of_error hcommand
              dsimp only
              rw [if_neg Bool.false_ne_true]
              exact ⟨orderly.unchanged hunchanged, .inl (by rw [hunchanged.2]; exact hsame)⟩

theorem keeps_committed : ∀ (queries : List ByteString)
    {e : EngineState IndexRef DataDirectory} {saved : Dbms IndexRef},
    Orderly e.world.directories e.dbms → Orderly e.world.directories saved →
    e.world.directories.Keeps saved →
    StaysIn (fun e => e.dbms.Listed) (onFiles regexMatch) queries e →
    Orderly (runMachine (onFiles regexMatch) queries e).2.world.directories
        (committed regexMatch queries e saved) ∧
      (runMachine (onFiles regexMatch) queries e).2.world.directories.Keeps
        (committed regexMatch queries e saved)
  | [], _, _, _, horderly, hkeeps, _ => ⟨horderly, hkeeps⟩
  | query :: queries, e, saved, orderly, horderly, hkeeps, listed => by
      rw [committed, runMachine]
      obtain ⟨hnext, hsaved⟩ := step_onFiles query orderly
      split at hsaved
      · next hcommits =>
          rw [if_pos hcommits]
          exact keeps_committed queries hnext hnext hsaved listed.tail
      · next hcommits =>
          rw [if_neg hcommits]
          have hsame := hsaved.resolve_right (not_not.mpr listed.head)
          exact keeps_committed queries hnext (horderly.congr hsame) (hkeeps.congr hsame)
            listed.tail

/-- What is acknowledged is durable: after any queries the table files, loaded again, are the
databases as they were behind the last query that changed data and was answered OK, whatever
failed since, if their names and strings fit the files; no table has come to list an id without a
row. -/
theorem table_files_durable (queries : List ByteString)
    (listed : StaysIn (fun e => e.dbms.Listed) (onFiles regexMatch) queries (start {}))
    (fits : (committed regexMatch queries (start {}) {}).FitsFiles) :
    ∃ databases, (Directories.loadAll :
        EStateM Fault Directories (UnorderedMap ByteString (Database IndexRef)))
        (runMachine (onFiles regexMatch) queries (start {})).2.world.directories =
          .ok databases (runMachine (onFiles regexMatch) queries (start {})).2.world.directories ∧
      Directories.Restores (committed regexMatch queries (start {}) {}) databases := by
  have hstart : Orderly (ι := IndexRef) .empty {} := ⟨fun _ => .none, nofun⟩
  obtain ⟨horderly, hkeeps⟩ := keeps_committed queries hstart hstart (fun _ => .none) listed
  exact hkeeps.restores horderly.filed fits

/-! ## A duplicate -/

theorem listed_of_all {dbms : Dbms IndexRef}
    (h : (dbms.databases.entries.all fun db => db.2.tables.entries.all fun table =>
      table.2.order.all table.2.rows.contains) = true) : dbms.Listed := by
  intro dbName tableName table htable id hid
  obtain ⟨db, hdb, htable⟩ := Option.bind_eq_some_iff.mp htable
  have hdb := List.all_eq_true.mp h _ (UnorderedMap.find?_eq_some_iff.mp hdb)
  have htable := List.all_eq_true.mp hdb _ (UnorderedMap.find?_eq_some_iff.mp htable)
  have hfound := List.all_eq_true.mp htable id hid
  exact UnorderedMap.mem_keys_iff.mpr (Option.isSome_iff_exists.mp hfound)

/-- A string that goes into a file. -/
def isShort : Value ByteString → Bool
  | .str s => s.length < 2 ^ 32
  | _ => true

theorem length_lt_of_isShort {s : ByteString} (h : isShort (.str s) = true) : s.length < 2 ^ 32 := by
  simpa [isShort] using h

theorem fitsFiles_of_all {dbms : Dbms IndexRef}
    (h : (dbms.databases.entries.all fun db => db.2.tables.entries.all fun table =>
      decide (table.2.name.length < 2 ^ 16 ∧ table.2.schema.columnCount < 2 ^ 32) &&
        (table.2.schema.columns.all fun c =>
          decide (c.name.length < 2 ^ 16) && c.defaultValue.all isShort) &&
        table.2.rows.entries.all fun row => row.2.all isShort) = true) : dbms.FitsFiles := by
  intro dbName tableName table htable
  obtain ⟨db, hdb, htable⟩ := Option.bind_eq_some_iff.mp htable
  have hdb := List.all_eq_true.mp h _ (UnorderedMap.find?_eq_some_iff.mp hdb)
  have htable := List.all_eq_true.mp hdb _ (UnorderedMap.find?_eq_some_iff.mp htable)
  rw [Bool.and_eq_true, Bool.and_eq_true, decide_eq_true_iff] at htable
  obtain ⟨⟨⟨hname, hcount⟩, hcolumns⟩, hrows⟩ := htable
  have hcolumn : ∀ c ∈ table.schema.columns,
      c.name.length < 2 ^ 16 ∧ c.defaultValue.all isShort = true := by
    intro c hc
    have hc := List.all_eq_true.mp hcolumns c hc
    rwa [Bool.and_eq_true, decide_eq_true_iff] at hc
  refine ⟨hname, hcount, fun c hc => (hcolumn c hc).1, fun c hc s hs => ?_,
    fun id row hrow s hs => ?_⟩
  · have hdefault := (hcolumn c hc).2
    rw [hs] at hdefault
    exact length_lt_of_isShort hdefault
  · have hrow := List.all_eq_true.mp hrows _ (UnorderedMap.find?_eq_some_iff.mp hrow)
    exact length_lt_of_isShort (List.all_eq_true.mp hrow _ hs)

/-- The row that was inserted is there again, the one that was refused is not. -/
theorem table_files_durable_of_duplicate : ∃ databases,
    (Directories.loadAll :
        EStateM Fault Directories (UnorderedMap ByteString (Database IndexRef)))
        (runMachine (onFiles fun _ _ => .ok false) insertedTwice (start {})).2.world.directories =
      .ok databases
        (runMachine (onFiles fun _ _ => .ok false) insertedTwice (start {})).2.world.directories ∧
    ∃ db table, databases.find? (text "d") = some db ∧ db.tables.find? (text "t") = some table ∧
      table.order = [1] := by
  have listed : StaysIn (fun e => e.dbms.Listed) (onFiles fun _ _ => .ok false) insertedTwice
      (start {}) := by
    refine staysIn_of_le fun n hn => listed_of_all ?_
    revert n
    decide +kernel
  have fits : (committed (fun _ _ => .ok false) insertedTwice (start {}) {}).FitsFiles :=
    fitsFiles_of_all (by decide +kernel)
  obtain ⟨databases, hload, hrestores⟩ := table_files_durable insertedTwice listed fits
  have hrow : ((committed (fun _ _ => .ok false) insertedTwice (start {}) {}).table? (text "d")
      (text "t")).map Table.order = some [1] := by decide +kernel
  obtain ⟨table, htable, horder⟩ := Option.map_eq_some_iff.mp hrow
  obtain ⟨db, hdb, htable⟩ := Option.bind_eq_some_iff.mp htable
  have hrel := hrestores (text "d")
  rw [hdb] at hrel
  refine ⟨databases, hload, ?_⟩
  generalize databases.find? (text "d") = found at hrel
  cases hrel with
  | @some _ db' hsame =>
      have htables := hsame.2 (text "t")
      rw [htable] at htables
      refine ⟨db', ?_⟩
      generalize db'.tables.find? (text "t") = found at htables
      cases htables with
      | some hsame => exact ⟨_, rfl, rfl, hsame.order.trans horder⟩

end CwDb.Executor
