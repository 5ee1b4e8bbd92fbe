/-
  Storage/Dbms.lean --- `storage/src/dbms.cpp` and `storage/include/storage/database.h`.

  What the databases need of the data directory is the interface `DataRoot`: the table
  files, the directories, and the index objects, which keep files of their own.
-/
import CwDb.Storage.TableRuns

set_option autoImplicit false

namespace CwDb.Storage

open CwDb.Cpp
open CwDb.Foundation

/-! ## Database -/

/-- `class Database`. -/
structure Database (ι : Type) where
  name : ByteString
  tables : UnorderedMap ByteString (Table ByteString ι) := .empty

namespace Database

variable {ι : Type}

/-- `Database::require_table`. -/
def requireTable (db : Database ι) (name : ByteString) : Except Fault (Table ByteString ι) :=
  match db.tables.find? name with
  | some table => .ok table
  | none => raise .runtimeError (text "Unknown table '" ++ name ++ text "'")

/-- `Database::create_table`: the database with the new table. -/
def createTable (db : Database ι) (name : ByteString) (schema : TableSchema ByteString) :
    Except Fault (Database ι) :=
  if db.tables.contains name then
    raise .runtimeError (text "Table '" ++ name ++ text "' already exists")
  else .ok { db with tables := db.tables.emplace name (Table.ofSchema name schema) }

/-- `Database::drop_table`. -/
def dropTable (db : Database ι) (name : ByteString) : Except Fault (Database ι) :=
  if db.tables.contains name then .ok { db with tables := db.tables.erase name }
  else raise .runtimeError (text "Unknown table '" ++ name ++ text "'")

variable {db db' : Database ι} {name : ByteString} {schema : TableSchema ByteString}

theorem createTable_ok (h : db.createTable name schema = .ok db') : db'.name = db.name ∧
    db.tables.find? name = none ∧ ∀ t, db'.tables.find? t =
      if t = name then some (Table.ofSchema name schema) else db.tables.find? t := by
  unfold createTable at h
  split at h
  · cases h
  · next hfree =>
      obtain rfl := Except.ok.inj h
      have hnone : db.tables.find? name = none := by
        simpa [UnorderedMap.contains] using hfree
      refine ⟨rfl, hnone, fun t => ?_⟩
      change (db.tables.emplace name (Table.ofSchema name schema)).find? t = _
      rw [UnorderedMap.find?_emplace, hnone, Option.none_or]

theorem dropTable_ok (h : db.dropTable name = .ok db') : db'.name = db.name ∧
    ∀ t, db'.tables.find? t = if t = name then none else db.tables.find? t := by
  unfold dropTable at h
  split at h
  · obtain rfl := Except.ok.inj h
    exact ⟨rfl, fun t => UnorderedMap.find?_erase⟩
  · cases h

end Database

/-! ## The data directory -/

/-- The data directory `root_`. -/
class DataRoot (ι : Type) (ω : outParam Type) where
  /-- `std::filesystem::create_directories(root_ / name)`. -/
  createDirectories : ByteString → EStateM Fault ω PUnit
  /-- `std::filesystem::remove_all(root_ / name, ec)`. -/
  removeAll : ByteString → ω → ω
  /-- `Database::save_to(root_ / name)`. -/
  saveTo : ByteString → Database ι → EStateM Fault ω PUnit
  /-- The databases that `Dbms::load_all` reads. -/
  loadAll : EStateM Fault ω (UnorderedMap ByteString (Database ι))
  /-- `DbmsQueryEngine::make_index_for_column`. -/
  makeIndexForColumn : (dbName tableName : ByteString) → ColumnDef ByteString →
    EStateM Fault ω ι

/-- The world has changed, if at all, without an index losing what it holds. -/
def KeepsIndexes {ι ω : Type} [IIndex ι ω] [LawfulIndex ι ω] (w w' : ω) : Prop :=
  ∀ (i : ι) m, LawfulIndex.Holds w i m → LawfulIndex.Holds w' i m

namespace KeepsIndexes

variable {ι ω : Type} [IIndex ι ω] [LawfulIndex ι ω]

theorem tableSound {table : Table ByteString ι} {w w' : ω}
    (keeps : KeepsIndexes (ι := ι) w w') (sound : TableSound (⟨table, w⟩ : TableState ι ω)) :
    TableSound (⟨table, w'⟩ : TableState ι ω) := by
  refine ⟨sound.rows, sound.flagged, fun column index hindex => ?_, sound.readable,
    sound.admitted, sound.apart⟩
  obtain ⟨m, hholds, htracks⟩ := sound.tracked column index hindex
  exact ⟨m, keeps index m hholds, htracks⟩

theorem refl (w : ω) : KeepsIndexes (ι := ι) w w := fun _ _ h => h

theorem trans {w w' w'' : ω} (h : KeepsIndexes (ι := ι) w w')
    (h' : KeepsIndexes (ι := ι) w' w'') : KeepsIndexes (ι := ι) w w'' :=
  fun i m hi => h' i m (h i m hi)

end KeepsIndexes

/-- The data directory of lawful indexes: an index made for a column takes the values of the
column, and where the index would be `Clear` it holds nothing and is not one in use; nothing else
touches an index. -/
class LawfulDataRoot (ι : Type) (ω : outParam Type) [IIndex ι ω] [LawfulIndex ι ω]
    [DataRoot ι ω] where
  /-- What an index of the table on the column would be made of holds nothing, and none of the
  indexes in `used` is made of it. -/
  Clear : (used : ι → Prop) → ω → (dbName tableName : ByteString) → ColumnDef ByteString → Prop
  createDirectories_spec : ∀ {w : ω} {name : ByteString},
    Ends (DataRoot.createDirectories (ι := ι) name) w (fun _ w' => KeepsIndexes (ι := ι) w w')
      (fun _ w' => KeepsIndexes (ι := ι) w w')
  removeAll_spec : ∀ {w : ω} {name : ByteString},
    KeepsIndexes (ι := ι) w (DataRoot.removeAll ι name w)
  saveTo_spec : ∀ {w : ω} {name : ByteString} {db : Database ι},
    Ends (DataRoot.saveTo name db) w (fun _ w' => KeepsIndexes (ι := ι) w w')
      (fun _ w' => KeepsIndexes (ι := ι) w w')
  makeIndexForColumn_spec : ∀ {used : ι → Prop} {w : ω} {dbName tableName : ByteString}
    {c : ColumnDef ByteString}, (∀ j, used j → ∃ m, LawfulIndex.Holds w j m) →
    Clear used w dbName tableName c →
    Ends (DataRoot.makeIndexForColumn (ι := ι) dbName tableName c) w
      (fun i w' => KeepsIndexes (ι := ι) w w' ∧ LawfulIndex.Holds w' i (fun _ => none) ∧
        (∀ j, used j → LawfulIndex.Apart i j) ∧
        (∀ v, v ≠ .null → v.matches c.type = true → LawfulIndex.Admits i v) ∧
        ∀ c', c'.name ≠ c.name → Clear used w dbName tableName c' →
          Clear (fun j => used j ∨ j = i) w' dbName tableName c')
      (fun _ w' => KeepsIndexes (ι := ι) w w')

/-! ## Dbms -/

/-- `class Dbms`; an empty `active` selects no database. -/
structure Dbms (ι : Type) where
  databases : UnorderedMap ByteString (Database ι) := .empty
  active : ByteString := []

namespace Dbms

variable {ι : Type}

/-- `Dbms::require_database`. -/
def requireDatabase (dbms : Dbms ι) (name : ByteString) : Except Fault (Database ι) :=
  match dbms.databases.find? name with
  | some db => .ok db
  | none => raise .runtimeError (text "Unknown database '" ++ name ++ text "'")

/-- `Dbms::active_db`. -/
def activeDb (dbms : Dbms ι) : Except Fault (Database ι) :=
  if dbms.active.isEmpty then
    raise .runtimeError (text "No database selected (use USE first)")
  else dbms.requireDatabase dbms.active

/-- The table of a database. -/
def table? (dbms : Dbms ι) (dbName tableName : ByteString) : Option (Table ByteString ι) :=
  (dbms.databases.find? dbName).bind fun db => db.tables.find? tableName

/-- The databases with another one under a name. -/
def setDatabase (dbms : Dbms ι) (dbName : ByteString) (db : Database ι) : Dbms ι :=
  { dbms with databases := dbms.databases.replace dbName db }

/-- A write through the reference to a table. -/
def setTable (dbms : Dbms ι) (dbName tableName : ByteString) (table : Table ByteString ι) :
    Dbms ι :=
  match dbms.databases.find? dbName with
  | some db => dbms.setDatabase dbName { db with tables := db.tables.replace tableName table }
  | none => dbms

variable {dbms : Dbms ι} {dbName tableName : ByteString} {db : Database ι}

theorem table?_of_find? (found : dbms.databases.find? dbName = some db) :
    dbms.table? dbName tableName = db.tables.find? tableName := by
  rw [table?, found, Option.bind_some]

theorem table?_setDatabase (found : dbms.databases.find? dbName = some db) {db' : Database ι}
    (dbName' tableName' : ByteString) :
    (dbms.setDatabase dbName db').table? dbName' tableName' =
      if dbName' = dbName then db'.tables.find? tableName' else dbms.table? dbName' tableName' := by
  rw [table?, setDatabase, UnorderedMap.find?_replace, found, Option.map_some]
  split
  · rw [Option.bind_some]
  · rfl

theorem table?_setTable {table : Table ByteString ι}
    (here : ∃ old, dbms.table? dbName tableName = some old) (dbName' tableName' : ByteString) :
    (dbms.setTable dbName tableName table).table? dbName' tableName' =
      if dbName' = dbName ∧ tableName' = tableName then some table
      else dbms.table? dbName' tableName' := by
  obtain ⟨old, hold⟩ := here
  obtain ⟨db, hdb, htable⟩ := Option.bind_eq_some_iff.mp hold
  unfold setTable
  simp only [hdb]
  rw [table?_setDatabase hdb, UnorderedMap.find?_replace, htable, Option.map_some]
  by_cases hname : dbName' = dbName
  · subst hname
    by_cases htab : tableName' = tableName
    · simp [htab]
    · simp [htab, table?_of_find? hdb]
  · simp [hname]

/-- A table that is written back as it was. -/
theorem setTable_self {table : Table ByteString ι}
    (here : dbms.table? dbName tableName = some table) :
    dbms.setTable dbName tableName table = dbms := by
  obtain ⟨db, hdb, htable⟩ := Option.bind_eq_some_iff.mp here
  unfold setTable
  simp only [hdb]
  rw [UnorderedMap.replace_self htable, setDatabase, UnorderedMap.replace_self hdb]

/-- The names of the databases stay. -/
theorem keys_setTable {table : Table ByteString ι} :
    (dbms.setTable dbName tableName table).databases.keys = dbms.databases.keys ∧
      (dbms.setTable dbName tableName table).active = dbms.active := by
  unfold setTable
  split
  · exact ⟨UnorderedMap.keys_replace, rfl⟩
  · exact ⟨rfl, rfl⟩

end Dbms

/-- The databases and the data directory. -/
structure DbmsState (ι ω : Type) where
  dbms : Dbms ι
  world : ω

abbrev DbmsM (ι ω α : Type) : Type := EStateM Fault (DbmsState ι ω) α

namespace Dbms

variable {ι ω : Type}

/-- A call that leaves the databases alone. -/
def onWorld {α : Type} (m : EStateM Fault ω α) : DbmsM ι ω α :=
  zoom DbmsState.world (fun st w => { st with world := w }) m

/-- A call on the table that `dbName` and `tableName` lead to. -/
def onTable {α : Type} (dbName tableName : ByteString) (table : Table ByteString ι)
    (m : TableM ι ω α) : DbmsM ι ω α :=
  zoom (fun st => ⟨table, st.world⟩)
    (fun st s => { dbms := st.dbms.setTable dbName tableName s.table, world := s.world }) m

/-- `modify` on the databases. -/
def modifyDbms (f : Dbms ι → Dbms ι) : DbmsM ι ω PUnit :=
  modify fun st => { st with dbms := f st.dbms }

/-- `Dbms::use_database`. -/
def useDatabase (name : ByteString) : DbmsM ι ω PUnit := do
  let st ← get
  let _ ← fromExcept (st.dbms.requireDatabase name)
  modifyDbms fun dbms => { dbms with active := name }

variable [DataRoot ι ω]

/-- `Dbms::create_database`. -/
def createDatabase (name : ByteString) : DbmsM ι ω PUnit := do
  let st ← get
  if st.dbms.databases.contains name then
    throw (.throws .runtimeError (text "Database '" ++ name ++ text "' already exists"))
  else do
    modifyDbms fun dbms => { dbms with databases := dbms.databases.emplace name ⟨name, .empty⟩ }
    onWorld (DataRoot.createDirectories (ι := ι) name)

/-- `Dbms::drop_database`. -/
def dropDatabase (name : ByteString) : DbmsM ι ω PUnit := do
  let st ← get
  if st.dbms.databases.contains name then
    modify fun st =>
      { dbms :=
          { databases := st.dbms.databases.erase name
            active := if st.dbms.active = name then [] else st.dbms.active }
        world := DataRoot.removeAll ι name st.world }
  else throw (.throws .runtimeError (text "Unknown database '" ++ name ++ text "'"))

/-- `Dbms::save_all`. -/
def saveAll : DbmsM ι ω PUnit := do
  let st ← get
  st.dbms.databases.entries.forM fun (name, db) => onWorld (DataRoot.saveTo name db)

/-- `Dbms::load_all`. -/
def loadAll : DbmsM ι ω PUnit := do
  let databases ← onWorld (DataRoot.loadAll (ι := ι))
  modifyDbms fun dbms => { dbms with databases }

end Dbms

/-! ## Indexes in memory -/

/-- The reference indexes, with a data directory that keeps no files. -/
instance : DataRoot Nat MapStore where
  createDirectories _ := pure ⟨⟩
  removeAll _ w := w
  saveTo _ _ := pure ⟨⟩
  loadAll := pure .empty
  makeIndexForColumn _ _ _ := do
    let w ← get
    set (w ++ [.empty])
    pure w.length

/-- A new index leaves the others where they are. -/
theorem keepsIndexes_append (w : MapStore) (m : UnorderedMap (Value ByteString) RowId) :
    KeepsIndexes (ι := Nat) w (w ++ [m]) := by
  rintro i m' ⟨hi, hm⟩
  refine ⟨by simpa using Nat.lt_succ_of_lt hi, fun k => ?_⟩
  rw [hm k, MapStore.get, MapStore.get, List.getD_eq_getElem?_getD, List.getD_eq_getElem?_getD,
    List.getElem?_append_left hi]

/-- Every index is a new one. -/
instance : LawfulDataRoot Nat MapStore where
  Clear _ _ _ _ _ := True
  createDirectories_spec := fun _ _ h => h
  removeAll_spec := fun _ _ h => h
  saveTo_spec := fun _ _ h => h
  makeIndexForColumn_spec := by
    intro used w dbName tableName c holds _
    change Ends (get >>= fun w => set (w ++ [.empty]) >>= fun _ => pure w.length) w _ _
    rw [ends_bind, ends_get, ends_bind, ends_set, ends_pure]
    refine ⟨keepsIndexes_append w _, ⟨by simp, fun k => ?_⟩, fun j hj => ?_, fun v hv _ => hv,
      fun _ _ h => h⟩
    · simp [MapStore.get]
    · obtain ⟨m, hm⟩ := holds j hj
      exact Nat.ne_of_gt hm.1

end CwDb.Storage
