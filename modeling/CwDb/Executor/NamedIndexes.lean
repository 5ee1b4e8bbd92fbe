/-
  Executor/NamedIndexes.lean --- under which names the indexes of the tables are kept.

  As long as no index is made over the index file of an earlier one, every column that is
  flagged indexed has an index, and the file of that name is the one of the index.
-/
import CwDb.Executor.Durability

set_option autoImplicit false

namespace CwDb.Executor

open CwDb.Cpp
open CwDb.Foundation
open CwDb.Sql
open CwDb.Storage

variable {ω : Type}

/-! ## The invariant -/

/-- The indexed columns have indexes, and an index is kept under the name of its column. -/
structure Catalogued (dirs : Directories) (dbms : Dbms IndexRef) : Prop where
  complete : ∀ dbName tableName table (column : Nat) c,
    dbms.table? dbName tableName = some table → table.schema.columns[column]? = some c →
    c.indexed = true → ∃ i, table.indexes.find? column = some i
  named : ∀ dbName tableName table (column : Nat) c i,
    dbms.table? dbName tableName = some table → table.schema.columns[column]? = some c →
    table.indexes.find? column = some i →
    dirs.indexFile? dbName (indexFileName tableName c.name) = some i.index.number

namespace Catalogued

variable {dirs dirs' : Directories} {dbms dbms' : Dbms IndexRef}

/-- Tables may go, and names may come. -/
theorem mono (h : Catalogued dirs dbms)
    (fewer : ∀ dbName tableName table, dbms'.table? dbName tableName = some table →
      dbms.table? dbName tableName = some table ∧
        ∀ fileName n, dirs.indexFile? dbName fileName = some n →
          dirs'.indexFile? dbName fileName = some n) : Catalogued dirs' dbms' := by
  refine ⟨fun d t table column c htable => ?_, fun d t table column c i htable hc hi => ?_⟩
  · exact h.complete d t table column c (fewer d t table htable).1
  · obtain ⟨hold, hkept⟩ := fewer d t table htable
    exact hkept _ _ (h.named d t table column c i hold hc hi)

/-- One table is exchanged. -/
theorem setTable (h : Catalogued dirs dbms) {dbName tableName : ByteString}
    {old table : Table ByteString IndexRef} (found : dbms.table? dbName tableName = some old)
    (complete : ∀ (column : Nat) c, table.schema.columns[column]? = some c → c.indexed = true →
      ∃ i, table.indexes.find? column = some i)
    (named : ∀ (column : Nat) c i, table.schema.columns[column]? = some c →
      table.indexes.find? column = some i →
      dirs.indexFile? dbName (indexFileName tableName c.name) = some i.index.number) :
    Catalogued dirs (dbms.setTable dbName tableName table) := by
  have hset : ∀ d t, (dbms.setTable dbName tableName table).table? d t =
      if d = dbName ∧ t = tableName then some table else dbms.table? d t :=
    Dbms.table?_setTable ⟨old, found⟩
  refine ⟨fun d t other column c hother => ?_, fun d t other column c i hother => ?_⟩
  · rw [hset] at hother
    split at hother
    · cases hother
      exact complete column c
    · exact h.complete d t other column c hother
  · rw [hset] at hother
    split at hother
    · next hname =>
        obtain ⟨rfl, rfl⟩ := hname
        cases hother
        exact named column c i
    · exact h.named d t other column c i hother

end Catalogued

/-! ## Statements -/

section Statements

variable [x : IIndex IndexRef ω] [d : DataRoot IndexRef ω] {get : ω → Directories}
  {set : ω → Directories → ω} {st : DbmsState IndexRef ω} {e : EngineState IndexRef ω}

omit x d in
theorem Catalogued.unchanged {st' : DbmsState IndexRef ω}
    (catalogued : Catalogued (get st.world) st.dbms) (same : Unchanged st st') :
    Catalogued (get st'.world) st'.dbms := by
  rw [same.2]
  refine catalogued.mono fun dbName tableName table htable => ⟨?_, fun _ _ h => h⟩
  unfold Dbms.table? at htable ⊢
  rwa [same.1] at htable

/-- Saving changes no name. -/
theorem ends_saved_names (layered : OverDirectories x d get set)
    (houses : (get st.world).Houses st.dbms) (catalogued : Catalogued (get st.world) st.dbms) :
    Ends (do
        Dbms.saveAll
        pure (text "OK") : DbmsM IndexRef ω ByteString) st
      (fun _ st' => Catalogued (get st'.world) st'.dbms)
      (fun _ st' => Catalogued (get st'.world) st'.dbms) := by
  have hkept : ∀ dirs, (∀ dbName fileName, dirs.indexFile? dbName fileName =
      (get st.world).indexFile? dbName fileName) →
      Catalogued (get (set st.world dirs)) st.dbms := by
    intro dirs hsame
    rw [layered.get_set]
    exact catalogued.mono fun d t table h => ⟨h, fun f n hn => (hsame d f).trans hn⟩
  rw [ends_bind]
  refine (layered.ends_saveAll houses).mono ?_ ?_
  · rintro - - ⟨dirs, rfl, -, -, hsame⟩
    exact hkept dirs hsame
  · rintro - - ⟨dirs, rfl, -, hsame, -⟩
    exact hkept dirs hsame

/-- Schema and indexes are not for the rows to change. -/
theorem closedUnderRows_frame (layered : OverDirectories x d get set) (dirs : Directories)
    (table : Table ByteString IndexRef) :
    ClosedUnderRows (fun t : Table ByteString IndexRef =>
      t.schema = table.schema ∧ t.indexes = table.indexes) fun w => get w = dirs where
  insert _ _ _ h := h
  update _ _ _ h := h
  erase _ _ h := h
  indexInsert := layered.insert dirs
  indexErase := layered.erase dirs

/-- INSERT, UPDATE and DELETE. -/
theorem ends_executeOnTable_names (layered : OverDirectories x d get set)
    (houses : (get e.world).Houses e.dbms) (catalogued : Catalogued (get e.world) e.dbms)
    (explicitDbName tableName : ByteString) {m : TableM IndexRef ω PUnit}
    (maintains : ∀ table : Table ByteString IndexRef,
      Maintains (Within (fun t : Table ByteString IndexRef =>
        t.schema = table.schema ∧ t.indexes = table.indexes) fun w => get w = get e.world) m) :
    Ends (Engine.executeOnTable explicitDbName tableName m) e
      (fun _ e' => Catalogued (get e'.world) e'.dbms)
      (fun _ e' => Catalogued (get e'.world) e'.dbms) := by
  unfold Engine.executeOnTable
  rw [Engine.onDbms, ends_zoom, ends_bind, ends_get, ends_bind, ends_fromExcept]
  refine ⟨?_, fun _ _ => catalogued⟩
  rintro ⟨dbName, table⟩ hresolve
  have hfound := resolveTable_ok hresolve
  have hset : ∀ s' : TableState IndexRef ω,
      Within (fun t : Table ByteString IndexRef =>
        t.schema = table.schema ∧ t.indexes = table.indexes) (fun w => get w = get e.world) s' →
      Catalogued (get s'.world) (e.dbms.setTable dbName tableName s'.table) := by
    rintro s' ⟨⟨hschema, hindexes⟩, hsame⟩
    rw [hsame]
    refine catalogued.setTable hfound ?_ ?_
    · rw [hschema, hindexes]
      exact fun column c => catalogued.complete dbName tableName table column c hfound
    · rw [hschema, hindexes]
      exact fun column c i => catalogued.named dbName tableName table column c i hfound
  rw [ends_bind]
  change Ends (Dbms.onTable dbName tableName table m) e.toDbmsState _ _
  rw [Dbms.onTable, ends_zoom]
  refine (maintains table ⟨table, e.world⟩ ⟨⟨rfl, rfl⟩, rfl⟩).mono ?_ fun _ s' hs' => hset s' hs'
  intro _ s' hs'
  refine ends_saved_names layered ?_ (hset s' hs')
  change (get s'.world).Houses _
  rw [hs'.2]
  exact houses.setTable dbName tableName s'.table

/-- CREATE DATABASE. -/
theorem ends_executeCreateDatabase_names (layered : OverDirectories x d get set)
    (houses : (get e.world).Houses e.dbms) (catalogued : Catalogued (get e.world) e.dbms)
    (name : ByteString) :
    Ends (Engine.executeCreateDatabase name) e (fun _ e' => Catalogued (get e'.world) e'.dbms)
      (fun _ e' => Catalogued (get e'.world) e'.dbms) := by
  unfold Engine.executeCreateDatabase Dbms.createDatabase
  rw [Engine.onDbms, ends_zoom, ends_bind, ends_bind, ends_get, ends_ite]
  split
  · exact catalogued
  · next hfree =>
      have hfree : e.dbms.databases.find? name = none := by
        simpa [UnorderedMap.contains] using hfree
      rw [ends_bind, Dbms.modifyDbms, ends_modify, Dbms.onWorld, ends_zoom,
        layered.createDirectories, ends_zoom]
      refine ends_saved_names layered ?_ ?_
      · change (get (set e.world ((get e.world).emplace name {}))).Houses _
        rw [layered.get_set]
        exact houses.createDatabase name
      · change Catalogued (get (set e.world ((get e.world).emplace name {}))) _
        rw [layered.get_set]
        refine catalogued.mono fun k tableName table htable => ?_
        change ((e.dbms.databases.emplace name ⟨name, .empty⟩).find? k).bind _ = _ at htable
        rw [UnorderedMap.find?_emplace, hfree] at htable
        split at htable
        · cases htable
        · refine ⟨htable, fun f n hn => ?_⟩
          rw [Directories.indexFile?_emplace]
          exact hn

/-- DROP DATABASE. -/
theorem ends_executeDropDatabase_names (layered : OverDirectories x d get set)
    (houses : (get e.world).Houses e.dbms) (catalogued : Catalogued (get e.world) e.dbms)
    (name : ByteString) :
    Ends (Engine.executeDropDatabase name) e (fun _ e' => Catalogued (get e'.world) e'.dbms)
      (fun _ e' => Catalogued (get e'.world) e'.dbms) := by
  unfold Engine.executeDropDatabase Dbms.dropDatabase
  rw [Engine.onDbms, ends_zoom, ends_bind, ends_bind, ends_get, ends_ite]
  split
  · rw [ends_modify]
    refine ends_saved_names layered ?_ ?_
    · change (get (d.removeAll name e.world)).Houses _
      rw [layered.removeAll, layered.get_set]
      exact houses.dropDatabase name _
    · change Catalogued (get (d.removeAll name e.world)) _
      rw [layered.removeAll, layered.get_set]
      refine catalogued.mono fun k tableName table htable => ?_
      change ((e.dbms.databases.erase name).find? k).bind _ = _ at htable
      rw [UnorderedMap.find?_erase] at htable
      split at htable
      · cases htable
      · next hk =>
          refine ⟨htable, fun f n hn => ?_⟩
          rw [Directories.indexFile?, UnorderedMap.find?_erase, if_neg hk]
          exact hn
  · exact catalogued

/-- DROP TABLE. -/
theorem ends_executeDropTable_names (layered : OverDirectories x d get set)
    (houses : (get e.world).Houses e.dbms) (catalogued : Catalogued (get e.world) e.dbms)
    (cmd : DropTableCmd) :
    Ends (Engine.executeDropTable cmd) e (fun _ e' => Catalogued (get e'.world) e'.dbms)
      (fun _ e' => Catalogued (get e'.world) e'.dbms) := by
  unfold Engine.executeDropTable
  rw [Engine.onDbms, ends_zoom, ends_bind, ends_get, ends_bind, ends_fromExcept]
  refine ⟨?_, fun _ _ => catalogued⟩
  rintro ⟨dbName, db⟩ hresolve
  have hfound := resolveDatabase_ok hresolve
  rw [ends_bind, ends_fromExcept]
  refine ⟨fun db' hdrop => ?_, fun _ _ => catalogued⟩
  rw [ends_bind, Dbms.modifyDbms, ends_modify]
  obtain ⟨hnamed, htables⟩ := Database.dropTable_ok hdrop
  refine ends_saved_names layered (houses.setDatabase hfound hnamed) ?_
  refine catalogued.mono fun k tableName table htable => ⟨?_, fun _ _ hn => hn⟩
  change (e.dbms.setDatabase dbName _).table? _ _ = _ at htable
  rw [Dbms.table?_setDatabase hfound] at htable
  split at htable
  · next hname =>
      rw [htables] at htable
      split at htable
      · cases htable
      · rw [hname]
        exact (Dbms.table?_of_find? hfound).trans htable
  · exact htable

/-- An index is made under a name of its own, or there is no answer. -/
def NamesNewIndexes (d : DataRoot IndexRef ω) (get : ω → Directories) : Prop :=
  ∀ dbName tableName column w dir, (get w).find? dbName = some dir →
    Ends (d.makeIndexForColumn dbName tableName column) w
      (fun i w' => (get w).indexFile? dbName (indexFileName tableName column.name) = none ∧
        (get w').indexFile? dbName (indexFileName tableName column.name) = some i.index.number ∧
        (∃ dir', (get w').find? dbName = some dir') ∧
        ∀ k fileName n, (get w).indexFile? k fileName = some n →
          (get w').indexFile? k fileName = some n)
      (fun fault _ => fault = .diverges)

/-- What the loop of `attach_indexes_for_table` has done to a new table. -/
structure AttachedBefore (get : ω → Directories) (dbName tableName : ByteString)
    (dirs : Directories) (new : Table ByteString IndexRef)
    (before : List (ColumnDef ByteString × Nat)) (s : TableState IndexRef ω) : Prop where
  table : s.table = { new with indexes := s.table.indexes }
  here : ∃ dir, (get s.world).find? dbName = some dir
  kept : ∀ k fileName n, dirs.indexFile? k fileName = some n →
    (get s.world).indexFile? k fileName = some n
  complete : ∀ c column, (c, column) ∈ before → c.indexed = true →
    ∃ i, s.table.indexes.find? column = some i
  named : ∀ (column : Nat) i, s.table.indexes.find? column = some i →
    ∃ c, (c, column) ∈ before ∧
      (get s.world).indexFile? dbName (indexFileName tableName c.name) = some i.index.number

theorem ends_attachIndexesForTable_names (names : NamesNewIndexes d get)
    {dbName tableName : ByteString} {dir : Directory} {new : Table ByteString IndexRef} {w : ω}
    (here : (get w).find? dbName = some dir)
    (bare : new.indexes = .empty) (noRow : new.order = []) :
    Ends (Engine.attachIndexesForTable dbName tableName) ⟨new, w⟩
      (fun _ s' => AttachedBefore get dbName tableName (get w) new new.schema.columns.zipIdx s')
      (fun fault _ => fault = .diverges) := by
  unfold Engine.attachIndexesForTable
  rw [ends_bind, ends_get]
  have hstart : AttachedBefore get dbName tableName (get w) new [] (⟨new, w⟩ : TableState _ ω) := by
    refine ⟨rfl, ⟨dir, here⟩, fun _ _ _ h => h, nofun, fun column i hi => ?_⟩
    change new.indexes.find? column = some i at hi
    rw [bare] at hi
    cases hi
  refine (ends_forM hstart ?_).mono (fun _ _ h => h) fun _ _ h => h
  rintro before ⟨c, column⟩ after s hsplit hs
  have hcolumn : column < s.table.schema.columnCount := by
    have hmem : (c, column) ∈ new.schema.columns.zipIdx := by rw [hsplit]; simp
    rw [hs.table]
    exact List.snd_lt_of_mem_zipIdx hmem
  have hskip : (c.indexed = true → ∃ i, s.table.indexes.find? column = some i) →
      AttachedBefore get dbName tableName (get w) new (before ++ [(c, column)]) s := by
    intro hhas
    refine ⟨hs.table, hs.here, hs.kept, fun c' column' hmem => ?_, fun column' i hi => ?_⟩
    · rcases List.mem_append.mp hmem with hmem | hmem
      · exact hs.complete c' column' hmem
      · obtain ⟨rfl, rfl⟩ := Prod.mk.inj (List.mem_singleton.mp hmem)
        exact hhas
    · obtain ⟨c', hmem, hnamed⟩ := hs.named column' i hi
      exact ⟨c', List.mem_append_left _ hmem, hnamed⟩
  rw [ends_bind, ends_get, ends_ite]
  split
  · next hindexed =>
      rw [ends_ite]
      split
      · next hhas => exact hskip fun _ => Option.isSome_iff_exists.mp hhas
      · obtain ⟨dir', hdir'⟩ := hs.here
        rw [ends_bind, Table.onWorld, ends_zoom]
        refine (names dbName tableName c s.world dir' hdir').mono ?_ fun _ _ h => h
        rintro i w' ⟨-, hname, hhere, hkept⟩
        refine (Table.ends_attachIndex_noRow (s := ⟨s.table, w'⟩) hcolumn ?_).mono ?_
          fun _ _ h => h.elim
        · rw [hs.table]
          exact noRow
        rintro - _ rfl
        change AttachedBefore get dbName tableName (get w) new (before ++ [(c, column)])
          ⟨{ s.table with indexes := s.table.indexes.assign column i }, w'⟩
        refine ⟨?_, hhere, fun k f n hn => hkept k f n (hs.kept k f n hn),
          fun c' column' hmem hc' => ?_, fun column' j hj => ?_⟩
        · dsimp only
          rw [hs.table]
        · dsimp only
          rw [UnorderedMap.find?_assign]
          split
          · exact ⟨i, rfl⟩
          · next hne =>
              rcases List.mem_append.mp hmem with hmem | hmem
              · exact hs.complete c' column' hmem hc'
              · exact absurd (Prod.mk.inj (List.mem_singleton.mp hmem)).2 hne
        · dsimp only at hj
          rw [UnorderedMap.find?_assign] at hj
          split at hj
          · next heq =>
              cases hj
              rw [heq]
              exact ⟨c, List.mem_append_right _ (List.mem_singleton_self _), hname⟩
          · obtain ⟨c', hmem, hnamed⟩ := hs.named column' j hj
            exact ⟨c', List.mem_append_left _ hmem, hkept _ _ _ hnamed⟩
  · next hnot => exact hskip fun h => absurd h hnot

/-- CREATE TABLE. -/
theorem ends_executeCreateTable_names (layered : OverDirectories x d get set)
    (names : NamesNewIndexes d get) (orderly : Orderly (get e.world) e.dbms)
    (catalogued : Catalogued (get e.world) e.dbms) (cmd : CreateTableCmd) :
    Ends (Engine.executeCreateTable cmd) e (fun _ e' => Catalogued (get e'.world) e'.dbms)
      (fun fault e' => fault = .diverges ∨ Catalogued (get e'.world) e'.dbms) := by
  unfold Engine.executeCreateTable
  rw [Engine.onDbms, ends_zoom, ends_bind, ends_get, ends_bind, ends_fromExcept]
  refine ⟨?_, fun _ _ => .inr catalogued⟩
  rintro ⟨dbName, db⟩ hresolve
  have hfound := resolveDatabase_ok hresolve
  rw [ends_bind, ends_fromExcept]
  refine ⟨fun schema _ => ?_, fun _ _ => .inr catalogued⟩
  rw [ends_bind, ends_fromExcept]
  refine ⟨fun db' hcreate => ?_, fun _ _ => .inr catalogued⟩
  let new : Table ByteString IndexRef := Table.ofSchema cmd.tableName schema
  obtain ⟨hnamed, hfree, htables⟩ := Database.createTable_ok hcreate
  have hself : (e.dbms.setDatabase dbName db').table? dbName cmd.tableName = some new := by
    rw [Dbms.table?_setDatabase hfound, if_pos rfl, htables, if_pos rfl]
  have hother : ∀ d t table, (d, t) ≠ (dbName, cmd.tableName) →
      (e.dbms.setDatabase dbName db').table? d t = some table → e.dbms.table? d t = some table := by
    intro d t table hne htable
    rw [Dbms.table?_setDatabase hfound] at htable
    split at htable
    · next hname =>
        subst hname
        rw [htables, if_neg fun ht => hne (by rw [ht])] at htable
        exact (Dbms.table?_of_find? hfound).trans htable
    · exact htable
  obtain ⟨hname, dir, hdir⟩ := orderly.houses.name_eq hfound
  rw [Dbms.modifyDbms, ends_bind, ends_modify, ends_bind]
  change Ends (Dbms.onTable dbName cmd.tableName new _)
    { e.toDbmsState with dbms := e.dbms.setDatabase dbName db' } _ _
  rw [Dbms.onTable, ends_zoom, hname]
  have hset : ∀ s' : TableState IndexRef ω,
      AttachedBefore get dbName cmd.tableName (get e.world) new new.schema.columns.zipIdx s' →
      Catalogued (get s'.world)
        ((e.dbms.setDatabase dbName db').setTable dbName cmd.tableName s'.table) := by
    intro s' hs'
    have hschema : s'.table.schema = new.schema := by rw [hs'.table]
    have hcases : ∀ k t table, ((e.dbms.setDatabase dbName db').setTable dbName cmd.tableName
        s'.table).table? k t = some table →
        (k = dbName ∧ t = cmd.tableName ∧ table = s'.table) ∨ e.dbms.table? k t = some table := by
      intro k t table htable
      rw [Dbms.table?_setTable ⟨new, hself⟩] at htable
      split at htable
      · next h => exact .inl ⟨h.1, h.2, (Option.some.inj htable).symm⟩
      · next h => exact .inr (hother k t table (fun heq => h (Prod.mk.inj heq)) htable)
    refine ⟨fun k t table column c htable hc hindexed => ?_,
      fun k t table column c i htable hc hi => ?_⟩
    · rcases hcases k t table htable with ⟨rfl, rfl, rfl⟩ | hold
      · rw [hschema] at hc
        exact hs'.complete c column (List.mem_zipIdx_iff_getElem?.mpr hc) hindexed
      · exact catalogued.complete k t table column c hold hc hindexed
    · rcases hcases k t table htable with ⟨rfl, rfl, rfl⟩ | hold
      · rw [hschema] at hc
        obtain ⟨c', hmem, hname⟩ := hs'.named column i hi
        obtain rfl : c' = c :=
          Option.some.inj ((List.mem_zipIdx_iff_getElem?.mp hmem).symm.trans hc)
        exact hname
      · exact hs'.kept _ _ _ (catalogued.named k t table column c i hold hc hi)
  refine ((ends_attachIndexesForTable_names names hdir rfl rfl).and
    (maintains_attachIndexesForTable layered (P := Table.Filed) (fun _ _ filed => filed) hdir
      cmd.tableName ⟨new, e.world⟩
      ⟨fun _ hid => absurd hid List.not_mem_nil, .refl _⟩)).mono ?_ fun _ _ h => .inl h.1
  rintro - s' ⟨hs', -, hfiles⟩
  refine (ends_saved_names layered ?_ (hset s' hs')).mono (fun _ _ h => h) fun _ _ h => .inr h
  exact ((orderly.houses.setDatabase hfound hnamed).setTable dbName cmd.tableName s'.table).congr
    hfiles

/-- A statement keeps the names, unless it has no answer. -/
theorem ends_executeCommand_names (layered : OverDirectories x d get set)
    (names : NamesNewIndexes d get) (orderly : Orderly (get e.world) e.dbms)
    (catalogued : Catalogued (get e.world) e.dbms) (regexMatch : RegexMatch) (command : Command) :
    Ends (Engine.executeCommand regexMatch command) e
      (fun _ e' => Catalogued (get e'.world) e'.dbms)
      (fun fault e' => fault = .diverges ∨ Catalogued (get e'.world) e'.dbms) := by
  have hrows := fun table => closedUnderRows_frame layered (get e.world) table
  have hkept : ∀ {m : EngineM IndexRef ω ByteString},
      Ends m e (fun _ e' => Catalogued (get e'.world) e'.dbms)
        (fun _ e' => Catalogued (get e'.world) e'.dbms) →
      Ends m e (fun _ e' => Catalogued (get e'.world) e'.dbms)
        (fun fault e' => fault = .diverges ∨ Catalogued (get e'.world) e'.dbms) :=
    fun h => h.mono (fun _ _ h => h) fun _ _ h => .inr h
  cases command with
  | createDatabase dbName =>
      exact hkept (ends_executeCreateDatabase_names layered orderly.houses catalogued dbName)
  | dropDatabase dbName =>
      exact hkept (ends_executeDropDatabase_names layered orderly.houses catalogued dbName)
  | createTable cmd => exact ends_executeCreateTable_names layered names orderly catalogued cmd
  | dropTable cmd => exact hkept (ends_executeDropTable_names layered orderly.houses catalogued cmd)
  | insert cmd =>
      exact hkept (ends_executeOnTable_names layered orderly.houses catalogued _ _
        fun table => (hrows table).insertRows _ _)
  | update cmd =>
      exact hkept (ends_executeOnTable_names layered orderly.houses catalogued _ _
        fun table => (hrows table).updateRows _ _)
  | delete cmd =>
      exact hkept (ends_executeOnTable_names layered orderly.houses catalogued _ _
        fun table => (hrows table).deleteRows _)
  | useDatabase dbName =>
      exact hkept ((ends_executeCommand_unchanged regexMatch rfl).mono
        (fun _ _ h => catalogued.unchanged h) fun _ _ h => catalogued.unchanged h)
  | select cmd =>
      exact hkept ((ends_executeCommand_unchanged regexMatch rfl).mono
        (fun _ _ h => catalogued.unchanged h) fun _ _ h => catalogued.unchanged h)

/-- What holds of the state after every command holds after every query. -/
theorem ends_execute_names (layered : OverDirectories x d get set)
    (names : NamesNewIndexes d get) (orderly : Orderly (get e.world) e.dbms)
    (catalogued : Catalogued (get e.world) e.dbms) (regexMatch : RegexMatch) (query : ByteString) :
    Ends (Engine.execute regexMatch query) e
      (fun _ e' => Orderly (get e'.world) e'.dbms ∧ Catalogued (get e'.world) e'.dbms)
      (fun fault e' => fault = .diverges ∨
        Orderly (get e'.world) e'.dbms ∧ Catalogued (get e'.world) e'.dbms) := by
  unfold Engine.execute
  rw [ends_bind, ends_fromExcept]
  refine ⟨fun command _ => ?_, fun _ _ => .inr ⟨orderly, catalogued⟩⟩
  have hnames := ends_executeCommand_names layered names orderly catalogued regexMatch command
  have horderly : Ends (Engine.executeCommand regexMatch command) e
      (fun _ e' => Orderly (get e'.world) e'.dbms)
      (fun _ e' => Orderly (get e'.world) e'.dbms) := by
    cases hdata : changesData command with
    | true =>
        exact (ends_executeCommand_files layered orderly regexMatch hdata).mono (fun _ _ h => h.1)
          fun _ _ h => h.1
    | false =>
        exact (ends_executeCommand_unchanged regexMatch hdata).mono
          (fun _ _ h => orderly.unchanged h) fun _ _ h => orderly.unchanged h
  exact (horderly.and hnames).mono (fun _ _ h => h) fun _ _ h => h.2.imp_right fun h' => ⟨h.1, h'⟩

end Statements

/-! ## Runs within the limits -/

theorem maintains_onMap {α : Type} {dirs : Directories} (p : IndexPointer)
    (m : EStateM Fault KeyedMap α) :
    Maintains (fun w => w.directories = dirs) (MapDirectory.onMap p m) := by
  refine .get_bind fun w _ => ?_
  cases w.maps[p.number]? with
  | none => exact .throw _
  | some map =>
      refine .zoom fun w hw => ?_
      unfold Ends
      split
      · exact hw
      · exact hw

theorem overDirectories_limits : OverDirectories MapDirectory.storableIndex MapDirectory.freshRoot
    MapDirectory.directories (fun w directories => { w with directories }) where
  get_set _ _ := rfl
  set_get _ := rfl
  set_set _ _ _ := rfl
  createDirectories _ := rfl
  removeAll _ _ := rfl
  saveTo _ _ := rfl
  insert _ i k _ := maintains_withIndexKey k fun _ => maintains_onMap i.index _
  erase _ i k := maintains_withIndexKey k fun _ => maintains_onMap i.index _
  makeIndexForColumn dbName tableName column w dir here := by
    change Ends (MapDirectory.makeFreshIndexForColumn dbName tableName column) w _ _
    unfold MapDirectory.makeFreshIndexForColumn
    rw [ends_bind, ends_get, ends_ite]
    split
    · exact .refl _
    · unfold MapDirectory.makeIndexForColumn
      rw [ends_bind, MapDirectory.onDirectories, ends_zoom, Directories.createDirectories,
        ends_modify, UnorderedMap.emplace_of_mem (UnorderedMap.mem_keys_iff.mpr ⟨dir, here⟩)]
      exact Directories.sameFiles_nameIndexFile _ _ _

theorem namesNewIndexes_limits :
    NamesNewIndexes MapDirectory.freshRoot MapDirectory.directories := by
  intro dbName tableName column w dir here
  change Ends (MapDirectory.makeFreshIndexForColumn dbName tableName column) w _ _
  unfold MapDirectory.makeFreshIndexForColumn
  rw [ends_bind, ends_get, ends_ite]
  split
  · rfl
  · next hfresh =>
      have hfresh :
          w.directories.indexFile? dbName (indexFileName tableName column.name) = none := by
        simpa using hfresh
      unfold MapDirectory.makeIndexForColumn
      rw [ends_bind, MapDirectory.onDirectories, ends_zoom, Directories.createDirectories,
        ends_modify, UnorderedMap.emplace_of_mem (UnorderedMap.mem_keys_iff.mpr ⟨dir, here⟩)]
      have hname := fun n => Directories.indexFile?_nameIndexFile here
        (indexFileName tableName column.name) n
      refine ⟨hfresh, ?_, ?_, fun k f n hn => ?_⟩
      · exact (hname w.maps.length dbName _).trans (if_pos ⟨rfl, rfl⟩)
      · change ∃ dir', (Directories.nameIndexFile _ _ _ w.directories).find? dbName = some dir'
        rw [Directories.nameIndexFile, Directories.find?_modifyDirectory, if_pos rfl, here]
        exact ⟨_, rfl⟩
      · refine (hname w.maps.length k f).trans ?_
        rw [if_neg]
        · exact hn
        · rintro ⟨rfl, rfl⟩
          rw [hfresh] at hn
          cases hn

open Engine

variable {regexMatch : RegexMatch}

theorem catalogued_withinLimits : ∀ (queries : List ByteString)
    {e : EngineState IndexRef MapDirectory},
    (∀ a ∈ (runMachine (withinLimits regexMatch) queries e).1, a ≠ .error .diverges) →
    Orderly e.world.directories e.dbms → Catalogued e.world.directories e.dbms →
    Orderly (runMachine (withinLimits regexMatch) queries e).2.world.directories
        (runMachine (withinLimits regexMatch) queries e).2.dbms ∧
      Catalogued (runMachine (withinLimits regexMatch) queries e).2.world.directories
        (runMachine (withinLimits regexMatch) queries e).2.dbms
  | [], _, _, orderly, catalogued => ⟨orderly, catalogued⟩
  | query :: queries, e, answered, orderly, catalogued => by
      rw [runMachine] at answered ⊢
      have hends := @ends_execute_names _ MapDirectory.storableIndex MapDirectory.freshRoot _ _ e
        overDirectories_limits namesNewIndexes_limits orderly catalogued regexMatch query
      have hnext : Orderly (withinLimits regexMatch query e).2.world.directories
          (withinLimits regexMatch query e).2.dbms ∧
          Catalogued (withinLimits regexMatch query e).2.world.directories
            (withinLimits regexMatch query e).2.dbms := by
        have hanswer := answered _ List.mem_cons_self
        revert hends hanswer
        unfold withinLimits answerOf Ends
        cases @execute _ _ MapDirectory.storableIndex MapDirectory.freshRoot regexMatch query e with
        | ok response e' => exact fun h _ => h
        | error fault e' =>
            exact fun h hanswer => h.resolve_left fun hfault => hanswer (congrArg _ hfault)
      exact catalogued_withinLimits queries (fun a ha => answered a (List.mem_cons_of_mem _ ha))
        hnext.1 hnext.2

end CwDb.Executor
