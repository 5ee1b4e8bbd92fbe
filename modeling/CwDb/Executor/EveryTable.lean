/-
  Executor/EveryTable.lean --- what holds of every table.

  A property of the tables under their names is kept by every command if the changes of rows
  keep it, the making of indexes, and what is done to the directories.
-/
import CwDb.Executor.Durability

set_option autoImplicit false

namespace CwDb.Executor

open CwDb.Cpp
open CwDb.Foundation
open CwDb.Sql
open CwDb.Storage

variable {ι ω : Type}

/-! ## Properties of tables -/

/-- A property of the table of a database, in a world. -/
abbrev TableProperty (ι ω : Type) : Type :=
  (dbName tableName : ByteString) → Table ByteString ι → ω → Prop

/-- `I` holds of the world and `P` of every table in it. -/
structure EveryTable (I : ω → Prop) (P : TableProperty ι ω) (st : DbmsState ι ω) : Prop where
  world : I st.world
  tables : ∀ dbName tableName table, st.dbms.table? dbName tableName = some table →
    P dbName tableName table st.world

/-- One table has come to `P'`, and so have the others by having been of `P` in `w`. -/
structure AmongOthers (I : ω → Prop) (P P' : TableProperty ι ω) (dbName tableName : ByteString)
    (w : ω) (s : TableState ι ω) : Prop where
  world : I s.world
  table : P' dbName tableName s.table s.world
  others : ∀ d t other, (d, t) ≠ (dbName, tableName) → P d t other w → P' d t other s.world

/-- Directories with the same index files are as good, and so are fewer directories for the
tables of the others. -/
structure KeptByDirectories (get : ω → Directories) (set : ω → Directories → ω) (I : ω → Prop)
    (P : TableProperty ι ω) : Prop where
  same : ∀ {w dirs}, (∀ d f, dirs.indexFile? d f = (get w).indexFile? d f) → I w → I (set w dirs)
  sameTable : ∀ {w dirs d t table}, (∀ d f, dirs.indexFile? d f = (get w).indexFile? d f) →
    P d t table w → P d t table (set w dirs)
  erase : ∀ {w} name, I w → I (set w ((get w).erase name))
  eraseTable : ∀ {w name d t table}, d ≠ name → P d t table w →
    P d t table (set w ((get w).erase name))

section EveryTable

variable {I : ω → Prop} {P P' : TableProperty ι ω} {st : DbmsState ι ω}
  {dbName tableName : ByteString}

theorem EveryTable.mono (h : EveryTable I P st) (weaker : ∀ d t table, P d t table st.world →
    P' d t table st.world) : EveryTable I P' st :=
  ⟨h.world, fun d t table found => weaker d t table (h.tables d t table found)⟩

theorem EveryTable.setTable (h : EveryTable I P st) {old : Table ByteString ι}
    (found : st.dbms.table? dbName tableName = some old) {s : TableState ι ω}
    (among : AmongOthers I P P' dbName tableName st.world s) :
    EveryTable I P' ⟨st.dbms.setTable dbName tableName s.table, s.world⟩ := by
  refine ⟨among.world, fun d t table htable => ?_⟩
  change (st.dbms.setTable dbName tableName s.table).table? d t = some table at htable
  rw [Dbms.table?_setTable ⟨old, found⟩] at htable
  split at htable
  · next hname =>
      obtain ⟨rfl, rfl⟩ := hname
      cases htable
      exact among.table
  · next hname =>
      exact among.others d t table (fun heq => hname (Prod.mk.inj heq)) (h.tables d t table htable)

/-- A database of which the tables that are new are of the property. -/
theorem EveryTable.setDatabase (h : EveryTable I P st) {db db' : Database ι}
    (found : st.dbms.databases.find? dbName = some db)
    (tables : ∀ t table, db'.tables.find? t = some table →
      db.tables.find? t = some table ∨ P dbName t table st.world) :
    EveryTable I P { st with dbms := st.dbms.setDatabase dbName db' } := by
  refine ⟨h.world, fun d t table htable => ?_⟩
  change (st.dbms.setDatabase dbName db').table? d t = some table at htable
  rw [Dbms.table?_setDatabase found] at htable
  split at htable
  · next hname =>
      subst hname
      rcases tables t table htable with hold | hnew
      · exact h.tables d t table ((Dbms.table?_of_find? found).trans hold)
      · exact hnew
  · exact h.tables d t table htable

end EveryTable

/-! ## Commands -/

section Commands

/-- The property of a table is kept while the table gets its indexes. -/
def AttachingKeeps [IIndex ι ω] [DataRoot ι ω] (get : ω → Directories) (I : ω → Prop)
    (P : TableProperty ι ω) : Prop :=
  ∀ w dbName tableName dir table, I w → (get w).find? dbName = some dir →
    P dbName tableName table w →
    Ends (Engine.attachIndexesForTable dbName tableName) ⟨table, w⟩
      (fun _ s' => AmongOthers I P P dbName tableName w s')
      (fun _ s' => AmongOthers I P P dbName tableName w s')

variable [x : IIndex ι ω] [d : DataRoot ι ω] {get : ω → Directories}
  {set : ω → Directories → ω} {I : ω → Prop} {P P' : TableProperty ι ω} {st : DbmsState ι ω}
  {e : EngineState ι ω}

omit x d in
theorem EveryTable.unchanged {st' : DbmsState ι ω} (h : EveryTable I P st)
    (same : Unchanged st st') : EveryTable I P st' := by
  obtain ⟨hdatabases, hworld⟩ := same
  refine ⟨hworld ▸ h.world, fun dbName tableName table htable => ?_⟩
  unfold Dbms.table? at htable
  rw [hdatabases] at htable
  exact hworld ▸ h.tables dbName tableName table htable

theorem EveryTable.ends_saved (h : EveryTable I P st) (layered : OverDirectories x d get set)
    (kept : KeptByDirectories get set I P) (houses : (get st.world).Houses st.dbms) :
    Ends (do
        Dbms.saveAll
        pure (text "OK") : DbmsM ι ω ByteString) st
      (fun _ st' => EveryTable I P st') (fun _ st' => EveryTable I P st') := by
  have hset : ∀ dirs, (∀ dbName fileName, dirs.indexFile? dbName fileName =
      (get st.world).indexFile? dbName fileName) →
      EveryTable I P { st with world := set st.world dirs } := fun dirs hsame =>
    ⟨kept.same hsame h.world, fun d t table htable =>
      kept.sameTable hsame (h.tables d t table htable)⟩
  rw [ends_bind]
  refine (layered.ends_saveAll houses).mono ?_ ?_
  · rintro - - ⟨dirs, rfl, -, -, hsame⟩
    exact hset dirs hsame
  · rintro - - ⟨dirs, rfl, -, hsame, -⟩
    exact hset dirs hsame

/-- INSERT, UPDATE and DELETE lead to `P'` as their rows do. -/
theorem EveryTable.ends_executeOnTable (h : EveryTable I P e.toDbmsState)
    (layered : OverDirectories x d get set) (kept : KeptByDirectories get set I P')
    (houses : (get e.world).Houses e.dbms)
    (weaker : ∀ d t table, P d t table e.world → P' d t table e.world)
    (explicitDbName tableName : ByteString) {m : TableM ι ω PUnit}
    (rows : ∀ dbName table, P dbName tableName table e.world →
      Ends m ⟨table, e.world⟩
        (fun _ s' => AmongOthers I P P' dbName tableName e.world s' ∧
          get s'.world = get e.world)
        (fun _ s' => AmongOthers I P P' dbName tableName e.world s')) :
    Ends (Engine.executeOnTable explicitDbName tableName m) e
      (fun _ e' => EveryTable I P' e'.toDbmsState)
      (fun _ e' => EveryTable I P' e'.toDbmsState) := by
  unfold Engine.executeOnTable
  rw [Engine.onDbms, ends_zoom, ends_bind, ends_get, ends_bind, ends_fromExcept]
  refine ⟨?_, fun _ _ => h.mono weaker⟩
  rintro ⟨dbName, table⟩ hresolve
  have hfound := resolveTable_ok hresolve
  rw [ends_bind]
  change Ends (Dbms.onTable dbName tableName table m) e.toDbmsState _ _
  rw [Dbms.onTable, ends_zoom]
  refine (rows dbName table (h.tables dbName tableName table hfound)).mono ?_
    fun _ _ among => h.setTable hfound among
  rintro - s' ⟨among, hdirs⟩
  refine (h.setTable hfound among).ends_saved layered kept ?_
  change (get s'.world).Houses _
  rw [hdirs]
  exact houses.setTable dbName tableName s'.table

/-- CREATE DATABASE. -/
theorem EveryTable.ends_executeCreateDatabase (h : EveryTable I P e.toDbmsState)
    (layered : OverDirectories x d get set) (kept : KeptByDirectories get set I P)
    (houses : (get e.world).Houses e.dbms) (name : ByteString) :
    Ends (Engine.executeCreateDatabase name) e (fun _ e' => EveryTable I P e'.toDbmsState)
      (fun _ e' => EveryTable I P e'.toDbmsState) := by
  unfold Engine.executeCreateDatabase Dbms.createDatabase
  rw [Engine.onDbms, ends_zoom, ends_bind, ends_bind, ends_get, ends_ite]
  split
  · exact h
  · next hfree =>
      have hfree : e.dbms.databases.find? name = none := by
        simpa [UnorderedMap.contains] using hfree
      rw [ends_bind, Dbms.modifyDbms, ends_modify, Dbms.onWorld, ends_zoom,
        layered.createDirectories, ends_zoom]
      have hsame : ∀ d f, Directories.indexFile? ((get e.world).emplace name {}) d f =
          (get e.world).indexFile? d f := Directories.indexFile?_emplace _ _
      refine EveryTable.ends_saved ⟨kept.same hsame h.world, fun k tableName table htable => ?_⟩
        layered kept ?_
      · change ((e.dbms.databases.emplace name ⟨name, .empty⟩).find? k).bind _ = _ at htable
        rw [UnorderedMap.find?_emplace, hfree] at htable
        split at htable
        · cases htable
        · exact kept.sameTable hsame (h.tables k tableName table htable)
      · change (get (set e.world ((get e.world).emplace name {}))).Houses _
        rw [layered.get_set]
        exact houses.createDatabase name

/-- DROP DATABASE. -/
theorem EveryTable.ends_executeDropDatabase (h : EveryTable I P e.toDbmsState)
    (layered : OverDirectories x d get set) (kept : KeptByDirectories get set I P)
    (houses : (get e.world).Houses e.dbms) (name : ByteString) :
    Ends (Engine.executeDropDatabase name) e (fun _ e' => EveryTable I P e'.toDbmsState)
      (fun _ e' => EveryTable I P e'.toDbmsState) := by
  unfold Engine.executeDropDatabase Dbms.dropDatabase
  rw [Engine.onDbms, ends_zoom, ends_bind, ends_bind, ends_get, ends_ite]
  split
  · rw [ends_modify]
    refine EveryTable.ends_saved ⟨?_, fun k tableName table htable => ?_⟩ layered kept ?_
    · change I (d.removeAll name e.world)
      rw [layered.removeAll]
      exact kept.erase name h.world
    · change ((e.dbms.databases.erase name).find? k).bind _ = _ at htable
      rw [UnorderedMap.find?_erase] at htable
      split at htable
      · cases htable
      · next hk =>
          change P k tableName table (d.removeAll name e.world)
          rw [layered.removeAll]
          exact kept.eraseTable hk (h.tables k tableName table htable)
    · change (get (d.removeAll name e.world)).Houses _
      rw [layered.removeAll, layered.get_set]
      exact houses.dropDatabase name _
  · exact h

/-- DROP TABLE. -/
theorem EveryTable.ends_executeDropTable (h : EveryTable I P e.toDbmsState)
    (layered : OverDirectories x d get set) (kept : KeptByDirectories get set I P)
    (houses : (get e.world).Houses e.dbms) (cmd : DropTableCmd) :
    Ends (Engine.executeDropTable cmd) e (fun _ e' => EveryTable I P e'.toDbmsState)
      (fun _ e' => EveryTable I P e'.toDbmsState) := by
  unfold Engine.executeDropTable
  rw [Engine.onDbms, ends_zoom, ends_bind, ends_get, ends_bind, ends_fromExcept]
  refine ⟨?_, fun _ _ => h⟩
  rintro ⟨dbName, db⟩ hresolve
  have hfound := resolveDatabase_ok hresolve
  rw [ends_bind, ends_fromExcept]
  refine ⟨fun db' hdrop => ?_, fun _ _ => h⟩
  rw [ends_bind, Dbms.modifyDbms, ends_modify]
  obtain ⟨hnamed, htables⟩ := Database.dropTable_ok hdrop
  refine (h.setDatabase hfound fun t table htable => ?_).ends_saved layered kept
    (houses.setDatabase hfound hnamed)
  rw [htables] at htable
  split at htable
  · cases htable
  · exact .inl htable

/-- CREATE TABLE, if the new table is of the property and stays so while it gets its indexes. -/
theorem EveryTable.ends_executeCreateTable (h : EveryTable I P e.toDbmsState)
    (layered : OverDirectories x d get set) (kept : KeptByDirectories get set I P)
    (houses : (get e.world).Houses e.dbms)
    (new : ∀ dbName tableName schema, P dbName tableName (Table.ofSchema tableName schema) e.world)
    (attach : AttachingKeeps get I P) (cmd : CreateTableCmd) :
    Ends (Engine.executeCreateTable cmd) e (fun _ e' => EveryTable I P e'.toDbmsState)
      (fun _ e' => EveryTable I P e'.toDbmsState) := by
  unfold Engine.executeCreateTable
  rw [Engine.onDbms, ends_zoom, ends_bind, ends_get, ends_bind, ends_fromExcept]
  refine ⟨?_, fun _ _ => h⟩
  rintro ⟨dbName, db⟩ hresolve
  have hfound := resolveDatabase_ok hresolve
  rw [ends_bind, ends_fromExcept]
  refine ⟨fun schema _ => ?_, fun _ _ => h⟩
  rw [ends_bind, ends_fromExcept]
  refine ⟨fun db' hcreate => ?_, fun _ _ => h⟩
  let table : Table ByteString ι := Table.ofSchema cmd.tableName schema
  obtain ⟨hnamed, -, htables⟩ := Database.createTable_ok hcreate
  have hcreated : EveryTable I P { e.toDbmsState with dbms := e.dbms.setDatabase dbName db' } := by
    refine h.setDatabase hfound fun t other hother => ?_
    rw [htables] at hother
    split at hother
    · next ht =>
        cases hother
        exact .inr (ht ▸ new dbName t schema)
    · exact .inl hother
  have hself : (e.dbms.setDatabase dbName db').table? dbName cmd.tableName = some table := by
    rw [Dbms.table?_setDatabase hfound, if_pos rfl, htables, if_pos rfl]
  obtain ⟨hname, dir, hdir⟩ := houses.name_eq hfound
  rw [Dbms.modifyDbms, ends_bind, ends_modify, ends_bind]
  change Ends (Dbms.onTable dbName cmd.tableName table _)
    { e.toDbmsState with dbms := e.dbms.setDatabase dbName db' } _ _
  rw [Dbms.onTable, ends_zoom, hname]
  refine ((attach e.world dbName cmd.tableName dir table h.world hdir
    (new dbName cmd.tableName schema)).and
    (maintains_attachIndexesForTable layered (P := fun _ => True) (fun _ _ h => h) hdir
      cmd.tableName ⟨table, e.world⟩ ⟨trivial, .refl _⟩)).mono ?_
    fun _ _ hs => hcreated.setTable hself hs.1
  rintro - s' ⟨among, -, hfiles⟩
  refine (hcreated.setTable hself among).ends_saved layered kept ?_
  exact ((houses.setDatabase hfound hnamed).setTable dbName cmd.tableName s'.table).congr hfiles

/-- What INSERT, UPDATE and DELETE do to the rows of their tables. -/
def rowsOf (regexMatch : RegexMatch) : Command → Option (TableM ι ω PUnit)
  | .insert cmd => some (insertRows cmd.columns cmd.rows)
  | .update cmd => some (updateRows regexMatch cmd.assignments cmd.where_)
  | .delete cmd => some (deleteRows regexMatch cmd.where_)
  | _ => none

/-- Every command leads from `P` to `P'` if its rows do. -/
theorem EveryTable.ends_executeCommand (h : EveryTable I P e.toDbmsState)
    (layered : OverDirectories x d get set) (kept : KeptByDirectories get set I P)
    (kept' : KeptByDirectories get set I P') (houses : (get e.world).Houses e.dbms)
    (weaker : ∀ d t table w, P d t table w → P' d t table w)
    (new : ∀ dbName tableName schema, P dbName tableName (Table.ofSchema tableName schema) e.world)
    (attach : AttachingKeeps get I P) {regexMatch : RegexMatch} {command : Command}
    (rows : ∀ m, rowsOf regexMatch command = some m → ∀ dbName tableName table,
      P dbName tableName table e.world →
      Ends m ⟨table, e.world⟩
        (fun _ s' => AmongOthers I P P' dbName tableName e.world s' ∧
          get s'.world = get e.world)
        (fun _ s' => AmongOthers I P P' dbName tableName e.world s')) :
    Ends (Engine.executeCommand regexMatch command) e
      (fun _ e' => EveryTable I P' e'.toDbmsState)
      (fun _ e' => EveryTable I P' e'.toDbmsState) := by
  have hweaker : ∀ {m : EngineM ι ω ByteString},
      Ends m e (fun _ e' => EveryTable I P e'.toDbmsState)
        (fun _ e' => EveryTable I P e'.toDbmsState) →
      Ends m e (fun _ e' => EveryTable I P' e'.toDbmsState)
        (fun _ e' => EveryTable I P' e'.toDbmsState) := fun h =>
    h.mono (fun _ e' h => h.mono fun d t table => weaker d t table e'.world)
      fun _ e' h => h.mono fun d t table => weaker d t table e'.world
  have hsame : ∀ {m : TableM ι ω PUnit} {explicitDbName tableName : ByteString},
      rowsOf regexMatch command = some m →
      Ends (Engine.executeOnTable explicitDbName tableName m) e
        (fun _ e' => EveryTable I P' e'.toDbmsState)
        (fun _ e' => EveryTable I P' e'.toDbmsState) := fun hm =>
    h.ends_executeOnTable layered kept' houses (fun d t table => weaker d t table e.world) _ _
      fun dbName table => rows _ hm dbName _ table
  cases command with
  | createDatabase dbName =>
      exact hweaker (h.ends_executeCreateDatabase layered kept houses dbName)
  | dropDatabase dbName => exact hweaker (h.ends_executeDropDatabase layered kept houses dbName)
  | createTable cmd => exact hweaker (h.ends_executeCreateTable layered kept houses new attach cmd)
  | dropTable cmd => exact hweaker (h.ends_executeDropTable layered kept houses cmd)
  | insert cmd => exact hsame rfl
  | update cmd => exact hsame rfl
  | delete cmd => exact hsame rfl
  | useDatabase dbName =>
      exact hweaker ((ends_executeCommand_unchanged regexMatch rfl).mono
        (fun _ _ same => h.unchanged same) fun _ _ same => h.unchanged same)
  | select cmd =>
      exact hweaker ((ends_executeCommand_unchanged regexMatch rfl).mono
        (fun _ _ same => h.unchanged same) fun _ _ same => h.unchanged same)

/-- The tables of an engine that has loaded them get their indexes. -/
theorem EveryTable.ends_attachIndexesForLoadedData (h : EveryTable I P st)
    (layered : OverDirectories x d get set) (orderly : Orderly (get st.world) st.dbms)
    (attach : AttachingKeeps get I P) :
    Ends Engine.attachIndexesForLoadedData st
      (fun _ st' => EveryTable I P st' ∧ Orderly (get st'.world) st'.dbms ∧
        (get st.world).SameFiles (get st'.world))
      (fun _ _ => True) := by
  unfold Engine.attachIndexesForLoadedData
  rw [ends_bind, ends_get]
  have hstart : EveryTable I P st ∧ Orderly (get st.world) st.dbms ∧
      (get st.world).SameFiles (get st.world) := ⟨h, orderly, .refl _⟩
  refine ends_forM (I := fun _ st' => EveryTable I P st' ∧ Orderly (get st'.world) st'.dbms ∧
    (get st.world).SameFiles (get st'.world)) hstart ?_
  rintro - ⟨dbName, db⟩ - t - ht
  refine ends_forM (I := fun _ st' => EveryTable I P st' ∧ Orderly (get st'.world) st'.dbms ∧
    (get st.world).SameFiles (get st'.world)) ht ?_
  rintro - tableName - t - ⟨ht, horderly, hsame⟩
  rw [ends_bind, ends_get]
  cases hfound : t.dbms.table? dbName tableName with
  | none => exact ⟨ht, horderly, hsame⟩
  | some table =>
      obtain ⟨db', hdb', -⟩ := Option.bind_eq_some_iff.mp hfound
      obtain ⟨-, dir, hdir⟩ := horderly.houses.name_eq hdb'
      dsimp only
      rw [Dbms.onTable, ends_zoom]
      refine ((attach t.world dbName tableName dir table ht.world hdir
        (ht.tables dbName tableName table hfound)).and
        (maintains_attachIndexesForTable layered (fun _ _ filed => filed) hdir tableName
          ⟨table, t.world⟩ ⟨horderly.filed dbName tableName table hfound, .refl _⟩)).mono ?_
        fun _ _ _ => trivial
      rintro - s' ⟨among, hfiled, hfiles⟩
      exact ⟨ht.setTable hfound among, (horderly.setTable hfound hfiled).congr hfiles,
        hsame.trans hfiles⟩

end Commands
end CwDb.Executor
