/-
  Executor/RecreatedTables.lean --- a table that is dropped and created again.

  DROP TABLE leaves the index files where they are, and CREATE TABLE opens a file of the same
  name.  An indexed column with the name of an old one gets the old index, entries and all.
-/
import CwDb.Executor.Restart
import CwDb.Executor.SeparateTables

set_option autoImplicit false

namespace CwDb.Executor

open CwDb.Cpp
open CwDb.Foundation
open CwDb.Index
open CwDb.Sql
open CwDb.Storage

/-! ## Old files -/

/-- There is a file of the name, and it holds the index. -/
structure HoldsFile (w : DataDirectory) (dbName fileName : ByteString) (number : Nat)
    (idx : BStarPlusIndex) : Prop where
  named : w.directories.indexFile? dbName fileName = some number
  file : w.files[number]? = some idx.disk.file

/-- An object that has the file open, as the index. -/
def OpenOn (w : DataDirectory) (i : IndexRef) (number : Nat) (idx : BStarPlusIndex) : Prop :=
  w.objects[i.index.number]? = some ⟨number, idx.disk.pageCount, idx.metadata⟩

section OldFiles

variable {w : DataDirectory} {dbName tableName fileName : ByteString} {number : Nat}
  {idx : BStarPlusIndex} {m : OrderedMap IndexKey UInt64} {i : IndexRef}

theorem OpenOn.object (openOn : OpenOn w i number idx)
    (file : w.files[number]? = some idx.disk.file) : w.object? i.index.number = some idx := by
  unfold DataDirectory.object?
  rw [openOn, Option.bind_eq_bind, Option.bind_some, file]
  rfl

theorem OpenOn.mono {w' : DataDirectory} (openOn : OpenOn w i number idx)
    (objects : w.objects <+: w'.objects) : OpenOn w' i number idx := by
  obtain ⟨more, hmore⟩ := objects
  unfold OpenOn at openOn ⊢
  rw [← hmore, List.getElem?_append_left (List.getElem?_eq_some_iff.mp openOn).1]
  exact openOn

theorem getElem?_putFile_of_ne {files : List IndexFile} {n : Nat} {file old : IndexFile}
    (hne : n ≠ number) (h : files[number]? = some old) :
    (DataDirectory.putFile files n file)[number]? = some old := by
  unfold DataDirectory.putFile
  split
  · rwa [List.getElem?_set_ne hne]
  · rwa [List.getElem?_append_left (List.getElem?_eq_some_iff.mp h).1]

/-- Making an index leaves the files of others alone; under the name of an old file it opens the
index that the file holds. -/
theorem ends_makeIndexForColumn_over (holds : HoldsFile w dbName fileName number idx)
    (contents : idx.Contents m) (c : ColumnDef ByteString) :
    Ends (DataDirectory.makeIndexForColumn dbName tableName c) w
      (fun i w' => HoldsFile w' dbName fileName number idx ∧ w.objects <+: w'.objects ∧
        (indexFileName tableName c.name = fileName → OpenOn w' i number idx))
      (fun _ _ => True) := by
  obtain ⟨dir, hdir⟩ := exists_directory_of_indexFile holds.named
  have hlt := (List.getElem?_eq_some_iff.mp holds.file).1
  have hopened := answerOf_loadMetadata contents (keyKindOf c.type)
  have hname : ∀ n, (w.directories.nameIndexFile dbName (indexFileName tableName c.name)
      n).indexFile? dbName fileName =
        if fileName = indexFileName tableName c.name then some n else some number := by
    intro n
    refine (Directories.indexFile?_nameIndexFile hdir _ n dbName fileName).trans ?_
    by_cases h : fileName = indexFileName tableName c.name
    · rw [if_pos ⟨rfl, h⟩, if_pos h]
    · rw [if_neg fun h' => h h'.2, if_neg h, holds.named]
  unfold DataDirectory.makeIndexForColumn
  rw [ends_bind, DataDirectory.onDirectories, ends_zoom, Directories.createDirectories,
    ends_modify, UnorderedMap.emplace_of_mem (UnorderedMap.mem_keys_iff.mpr ⟨dir, hdir⟩), ends_bind]
  unfold DataDirectory.openIndex
  rw [ends_bind, ends_get]
  dsimp only
  rw [ends_bind, ends_set, ends_bind, ends_fromExcept]
  refine ⟨fun _ _ => ?_, fun _ _ => trivial⟩
  rw [ends_bind, ends_modify, ends_pure, ends_pure]
  refine ⟨?_, List.prefix_append _ _, fun hsame => ?_⟩
  · cases hfound : w.directories.indexFile? dbName (indexFileName tableName c.name) with
    | none =>
        have hne : fileName ≠ indexFileName tableName c.name := by
          rintro rfl
          rw [holds.named] at hfound
          cases hfound
        refine ⟨(hname _).trans (if_neg hne), ?_⟩
        exact getElem?_putFile_of_ne (Nat.ne_of_gt hlt) holds.file
    | some n =>
        rw [Option.getD_some, Option.bind_some]
        by_cases hn : n = number
        · subst hn
          refine ⟨(hname n).trans (ite_self _), ?_⟩
          dsimp only
          rw [holds.file, hopened, DataDirectory.putFile, if_pos hlt, List.getElem?_set_self hlt]
        · have hne : fileName ≠ indexFileName tableName c.name := by
            rintro rfl
            rw [holds.named] at hfound
            exact hn (Option.some.inj hfound).symm
          exact ⟨(hname n).trans (if_neg hne), getElem?_putFile_of_ne hn holds.file⟩
  · unfold OpenOn
    dsimp only
    rw [List.getElem?_append_right (Nat.le_refl _), Nat.sub_self, hsame, holds.named,
      Option.bind_some, holds.file, hopened]
    rfl

end OldFiles

/-! ## CREATE TABLE -/

/-- What the loop of `attach_indexes_for_table` has done to a new table: its columns that are
named as the old one have the old index. -/
structure TakenOver (dbName tableName fileName : ByteString) (number : Nat) (idx : BStarPlusIndex)
    (new : Table ByteString IndexRef) (before : List (ColumnDef ByteString × Nat))
    (s : TableState IndexRef DataDirectory) : Prop where
  holds : HoldsFile s.world dbName fileName number idx
  table : s.table = { new with indexes := s.table.indexes }
  attached : ∀ column i, s.table.indexes.find? column = some i → ∃ c, (c, column) ∈ before
  opened : ∀ c column, (c, column) ∈ before → c.indexed = true →
    indexFileName tableName c.name = fileName →
    ∃ i, s.table.indexes.find? column = some i ∧ OpenOn s.world i number idx

section Created

variable {dbName tableName fileName : ByteString} {number : Nat} {idx : BStarPlusIndex}
  {m : OrderedMap IndexKey UInt64} {new : Table ByteString IndexRef} {w : DataDirectory}

/-- A column that gets no index now. -/
theorem TakenOver.skip {before : List (ColumnDef ByteString × Nat)}
    {s : TableState IndexRef DataDirectory} {c : ColumnDef ByteString} {column : Nat}
    (h : TakenOver dbName tableName fileName number idx new before s)
    (opened : c.indexed = true → indexFileName tableName c.name = fileName →
      ∃ i, s.table.indexes.find? column = some i ∧ OpenOn s.world i number idx) :
    TakenOver dbName tableName fileName number idx new (before ++ [(c, column)]) s := by
  refine ⟨h.holds, h.table, fun k i hi => ?_, fun c' k hk hindexed hname => ?_⟩
  · obtain ⟨c', hmem⟩ := h.attached k i hi
    exact ⟨c', List.mem_append_left _ hmem⟩
  · rcases List.mem_append.mp hk with hk | hk
    · exact h.opened c' k hk hindexed hname
    · obtain ⟨rfl, rfl⟩ := Prod.mk.inj (List.mem_singleton.mp hk)
      exact opened hindexed hname

/-- A column that gets an index now. -/
theorem TakenOver.attach {before : List (ColumnDef ByteString × Nat)}
    {s : TableState IndexRef DataDirectory} {w' : DataDirectory} {c : ColumnDef ByteString}
    {column : Nat} {i : IndexRef}
    (h : TakenOver dbName tableName fileName number idx new before s)
    (holds : HoldsFile w' dbName fileName number idx) (objects : s.world.objects <+: w'.objects)
    (same : ∀ c', (c', column) ∈ before → c' = c)
    (opened : indexFileName tableName c.name = fileName → OpenOn w' i number idx) :
    TakenOver dbName tableName fileName number idx new (before ++ [(c, column)])
      ⟨{ s.table with indexes := s.table.indexes.assign column i }, w'⟩ := by
  refine ⟨holds, ?_, fun k j hj => ?_, fun c' k hk hindexed hname => ?_⟩
  · dsimp only
    rw [h.table]
  · dsimp only at hj
    rw [UnorderedMap.find?_assign] at hj
    split at hj
    · next hk =>
        rw [hk]
        exact ⟨c, List.mem_append_right _ (List.mem_singleton_self _)⟩
    · obtain ⟨c', hmem⟩ := h.attached k j hj
      exact ⟨c', List.mem_append_left _ hmem⟩
  · dsimp only
    rw [UnorderedMap.find?_assign]
    by_cases hk' : k = column
    · subst hk'
      rw [if_pos rfl]
      refine ⟨i, rfl, opened ?_⟩
      rcases List.mem_append.mp hk with hk | hk
      · exact same c' hk ▸ hname
      · obtain ⟨rfl, -⟩ := Prod.mk.inj (List.mem_singleton.mp hk)
        exact hname
    · rw [if_neg hk']
      rcases List.mem_append.mp hk with hk | hk
      · obtain ⟨j, hj, hopened⟩ := h.opened c' k hk hindexed hname
        exact ⟨j, hj, hopened.mono objects⟩
      · exact absurd (Prod.mk.inj (List.mem_singleton.mp hk)).2 hk'

theorem ends_attachIndexesForTable_over (holds : HoldsFile w dbName fileName number idx)
    (contents : idx.Contents m) (noRow : new.order = []) (bare : new.indexes = .empty) :
    Ends (@Engine.attachIndexesForTable _ _ DataDirectory.index DataDirectory.root dbName tableName)
      ⟨new, w⟩
      (fun _ s' => TakenOver dbName tableName fileName number idx new new.schema.columns.zipIdx s')
      (fun _ _ => True) := by
  unfold Engine.attachIndexesForTable
  rw [ends_bind, ends_get]
  have hstart : TakenOver dbName tableName fileName number idx new [] ⟨new, w⟩ := by
    refine ⟨holds, rfl, fun column i hi => ?_, fun _ _ h => absurd h List.not_mem_nil⟩
    change new.indexes.find? column = some i at hi
    rw [bare, UnorderedMap.find?_empty] at hi
    cases hi
  refine (ends_forM (E := fun _ _ => True) hstart ?_).mono (fun _ _ h => h) fun _ _ h => h
  rintro before ⟨c, column⟩ after s hsplit hs
  have hc : new.schema.columns[column]? = some c := by
    have hmem : (c, column) ∈ new.schema.columns.zipIdx := by rw [hsplit]; simp
    exact List.mem_zipIdx_iff_getElem?.mp hmem
  have hbefore : ∀ c', (c', column) ∈ before → c' = c := by
    intro c' hmem
    have hmem : (c', column) ∈ new.schema.columns.zipIdx := by
      rw [hsplit]
      exact List.mem_append_left _ hmem
    exact Option.some.inj ((List.mem_zipIdx_iff_getElem?.mp hmem).symm.trans hc)
  rw [ends_bind, ends_get, ends_ite]
  split
  · next hindexed =>
      rw [ends_ite]
      split
      · next hhas =>
          -- The column has been met already.
          obtain ⟨i, hi⟩ := Option.isSome_iff_exists.mp hhas
          obtain ⟨c', hc'⟩ := hs.attached column i hi
          obtain rfl := hbefore c' hc'
          exact hs.skip (hs.opened _ _ hc')
      · next hhas =>
          rw [ends_bind, Table.onWorld, ends_zoom]
          refine (ends_makeIndexForColumn_over hs.holds contents c).mono ?_ fun _ _ h => h
          rintro i w' ⟨hholds, hobjects, hopen⟩
          have hcolumn : column < s.table.schema.columnCount := by
            rw [hs.table]
            exact (List.getElem?_eq_some_iff.mp hc).1
          refine (@Table.ends_attachIndex_noRow _ _ DataDirectory.index ⟨s.table, w'⟩ column i
            hcolumn ?_).mono ?_ fun _ _ h => h.elim
          · rw [hs.table]
            exact noRow
          · rintro - _ rfl
            exact hs.attach hholds hobjects hbefore hopen
  · next hnot => exact hs.skip fun hindexed => absurd hindexed hnot

end Created

/-- A value that the index of the column has, counts as stored in the column. -/
theorem valueExistsInColumn_of_found {w : DataDirectory} {new : Table ByteString IndexRef}
    {column : Nat} {i : IndexRef} {idx : BStarPlusIndex} {key : IndexKey} {id : RowId}
    (attached : new.indexes.find? column = some i)
    (object : w.object? i.index.number = some idx) (found : idx.find key = .ok (some id)) :
    @Table.valueExistsInColumn _ _ DataDirectory.index new w column (ofIndexKey key) none =
      .ok true := by
  have hcall : @IIndex.find _ _ DataDirectory.index i (ofIndexKey key) w =
      DataDirectory.readObject i.index (fun idx => idx.find key) w := by
    cases key <;> rfl
  unfold Table.valueExistsInColumn
  rw [attached]
  dsimp only
  rw [hcall, DataDirectory.readObject, object]
  dsimp only
  rw [found]
  rfl

/-! ## Statements -/

section Statements

variable {e : EngineState IndexRef DataDirectory} {explicitDbName dbName fileName : ByteString}
  {number : Nat} {idx : BStarPlusIndex} {m : OrderedMap IndexKey UInt64}

theorem resolveDatabase_name {ι : Type} {dbms : Dbms ι} {db : Database ι}
    (h : Engine.resolveDatabase dbms explicitDbName = .ok (dbName, db)) :
    dbName = namedDatabase dbms.active explicitDbName := by
  unfold Engine.resolveDatabase at h
  unfold namedDatabase
  split at h
  · next hname =>
      rw [if_pos hname]
      cases hdb : dbms.activeDb with
      | ok db =>
          rw [hdb] at h
          cases h
          rfl
      | error fault =>
          rw [hdb] at h
          cases h
  · next hname =>
      rw [if_neg hname]
      cases hdb : dbms.requireDatabase explicitDbName with
      | ok db =>
          rw [hdb] at h
          cases h
          rfl
      | error fault =>
          rw [hdb] at h
          cases h

/-- Saving leaves the index files alone, and the objects that have them open. -/
theorem ends_saved_kept {st : DbmsState IndexRef DataDirectory}
    (houses : st.world.directories.Houses st.dbms) :
    Ends (do
        @Dbms.saveAll _ _ DataDirectory.root
        pure (text "OK") : DbmsM IndexRef DataDirectory ByteString) st
      (fun _ st' => st'.dbms = st.dbms ∧ SameIndexFiles st.world st'.world ∧
        st'.world.objects = st.world.objects) (fun _ _ => True) := by
  rw [ends_bind]
  refine (overDirectories_files.ends_saveAll houses).mono ?_ fun _ _ _ => trivial
  rintro - - ⟨dirs, rfl, -, -, hnames⟩
  exact ⟨rfl, ⟨rfl, hnames⟩, rfl⟩

/-- DROP TABLE leaves the index files of the table. -/
theorem ends_executeDropTable_kept (orderly : Orderly e.world.directories e.dbms)
    (cmd : DropTableCmd) :
    Ends (@Engine.executeDropTable _ _ DataDirectory.root cmd) e
      (fun _ e' => e'.dbms.active = e.dbms.active ∧ SameIndexFiles e.world e'.world)
      (fun _ _ => True) := by
  unfold Engine.executeDropTable
  rw [Engine.onDbms, ends_zoom, ends_bind, ends_get, ends_bind, ends_fromExcept]
  refine ⟨?_, fun _ _ => trivial⟩
  rintro ⟨dbName, db⟩ hresolve
  have hfound := resolveDatabase_ok hresolve
  rw [ends_bind, ends_fromExcept]
  refine ⟨fun db' hdrop => ?_, fun _ _ => trivial⟩
  rw [ends_bind, Dbms.modifyDbms, ends_modify]
  obtain ⟨hnamed, -⟩ := Database.dropTable_ok hdrop
  refine (ends_saved_kept (orderly.houses.setDatabase hfound hnamed)).mono ?_
    fun _ _ _ => trivial
  rintro - st' ⟨hdbms, hfiles, -⟩
  refine ⟨?_, hfiles⟩
  dsimp only
  rw [hdbms]
  rfl

/-- The new table is empty, but not its indexes. -/
theorem ends_executeCreateTable_over (orderly : Orderly e.world.directories e.dbms)
    (cmd : CreateTableCmd)
    (holds : HoldsFile e.world (namedDatabase e.dbms.active cmd.dbName) fileName number idx)
    (contents : idx.Contents m) :
    Ends (@Engine.executeCreateTable _ _ DataDirectory.index DataDirectory.root cmd) e
      (fun _ e' => ∃ new,
        e'.dbms.table? (namedDatabase e.dbms.active cmd.dbName) cmd.tableName = some new ∧
        new.order = [] ∧ ∀ (column : Nat) c, new.schema.columns[column]? = some c →
          c.indexed = true → indexFileName cmd.tableName c.name = fileName →
          ∃ i, new.indexes.find? column = some i ∧ e'.world.object? i.index.number = some idx)
      (fun _ _ => True) := by
  unfold Engine.executeCreateTable
  rw [Engine.onDbms, ends_zoom, ends_bind, ends_get, ends_bind, ends_fromExcept]
  refine ⟨?_, fun _ _ => trivial⟩
  rintro ⟨dbName, db⟩ hresolve
  have hfound := resolveDatabase_ok hresolve
  rw [← resolveDatabase_name hresolve] at holds ⊢
  rw [ends_bind, ends_fromExcept]
  refine ⟨fun schema _ => ?_, fun _ _ => trivial⟩
  rw [ends_bind, ends_fromExcept]
  refine ⟨fun db' hcreate => ?_, fun _ _ => trivial⟩
  let new : Table ByteString IndexRef := Table.ofSchema cmd.tableName schema
  obtain ⟨hnamed, -, htables⟩ := Database.createTable_ok hcreate
  have hself : (e.dbms.setDatabase dbName db').table? dbName cmd.tableName = some new := by
    rw [Dbms.table?_setDatabase hfound, if_pos rfl, htables, if_pos rfl]
  obtain ⟨hname, dir, hdir⟩ := orderly.houses.name_eq hfound
  rw [Dbms.modifyDbms, ends_bind, ends_modify, ends_bind]
  change Ends (Dbms.onTable dbName cmd.tableName new _)
    { e.toDbmsState with dbms := e.dbms.setDatabase dbName db' } _ _
  rw [Dbms.onTable, ends_zoom, hname]
  have hattach := (@ends_attachIndexesForTable_over _ _ _ _ _ _ new _ holds contents rfl rfl).and
    (@maintains_attachIndexesForTable _ _ DataDirectory.index DataDirectory.root _ _
      overDirectories_files _ Table.Filed (fun _ _ filed => filed) _ _ hdir cmd.tableName
      ⟨new, e.world⟩ ⟨fun _ hid => absurd hid List.not_mem_nil, .refl _⟩)
  refine hattach.mono ?_ fun _ _ _ => trivial
  rintro - s' ⟨taken, -, hsame⟩
  have hhouses : s'.world.directories.Houses
      ((e.dbms.setDatabase dbName db').setTable dbName cmd.tableName s'.table) :=
    ((orderly.houses.setDatabase hfound hnamed).setTable _ _ _).congr hsame
  refine (ends_saved_kept hhouses).mono ?_ fun _ _ _ => trivial
  rintro - st' ⟨hdbms, hfiles, hobjects⟩
  refine ⟨s'.table, ?_, ?_, fun column c hc hindexed hfile => ?_⟩
  · dsimp only
    rw [hdbms, Dbms.table?_setTable ⟨new, hself⟩, if_pos ⟨rfl, rfl⟩]
  · rw [taken.table]
    rfl
  · rw [taken.table] at hc
    obtain ⟨i, hi, hopen⟩ := taken.opened c column (List.mem_zipIdx_iff_getElem?.mpr hc)
      hindexed hfile
    have hopen' : OpenOn st'.world i number idx := by
      unfold OpenOn at hopen ⊢
      rwa [hobjects]
    exact ⟨i, hi, hopen'.object (hfiles.files ▸ taken.holds.file)⟩

end Statements

/-! ## Runs -/

open Engine

variable {regexMatch : RegexMatch} {queries : List ByteString}

/-- The table that a query drops, given the database in use. -/
def droppedTable (active query : ByteString) : Option (ByteString × ByteString) :=
  match parseQuery query with
  | .ok (.dropTable cmd) => some (namedDatabase active cmd.dbName, cmd.tableName)
  | _ => none

/-- The table that a query creates. -/
def createdTable (active query : ByteString) : Option (ByteString × ByteString) :=
  match parseQuery query with
  | .ok (.createTable cmd) => some (namedDatabase active cmd.dbName, cmd.tableName)
  | _ => none

theorem droppedTable_eq_some {active query dbName tableName : ByteString}
    (h : droppedTable active query = some (dbName, tableName)) :
    ∃ cmd, parseQuery query = .ok (.dropTable cmd) ∧
      namedDatabase active cmd.dbName = dbName ∧ cmd.tableName = tableName := by
  unfold droppedTable at h
  split at h
  · next cmd hparse =>
      obtain ⟨hname, htable⟩ := Prod.mk.inj (Option.some.inj h)
      exact ⟨cmd, hparse, hname, htable⟩
  · cases h

theorem createdTable_eq_some {active query dbName tableName : ByteString}
    (h : createdTable active query = some (dbName, tableName)) :
    ∃ cmd, parseQuery query = .ok (.createTable cmd) ∧
      namedDatabase active cmd.dbName = dbName ∧ cmd.tableName = tableName := by
  unfold createdTable at h
  split at h
  · next cmd hparse =>
      obtain ⟨hname, htable⟩ := Prod.mk.inj (Option.some.inj h)
      exact ⟨cmd, hparse, hname, htable⟩
  · cases h

/-- What a command comes to when its query is answered OK. -/
theorem of_onFiles_ok {query response : ByteString} {command : Command}
    {e : EngineState IndexRef DataDirectory}
    {Q : ByteString → EngineState IndexRef DataDirectory → Prop}
    (parsed : parseQuery query = .ok command)
    (ends : Ends (@executeCommand _ _ DataDirectory.index DataDirectory.root regexMatch command) e
      Q fun _ _ => True)
    (ok : (onFiles regexMatch query e).1 = .ok response) :
    Q response (onFiles regexMatch query e).2 := by
  have hrun := @execute_parsed _ _ DataDirectory.index DataDirectory.root regexMatch query command
    parsed e
  unfold onFiles answerOf at ok ⊢
  rw [hrun] at ok ⊢
  cases hcommand : @executeCommand _ _ DataDirectory.index DataDirectory.root regexMatch
      command e with
  | ok answer e' =>
      rw [hcommand] at ok
      obtain rfl := Except.ok.inj ok
      exact ends.of_ok hcommand
  | error fault e' =>
      rw [hcommand] at ok
      cases ok

/-- A table that is dropped and created again is not new: an indexed column named as an indexed
column of the old table was gets the old index, of the old key kind, which leads from the values
that the old table held to the ids of rows that are gone; they count as stored in the new one. -/
theorem recreated_table_has_old_index {drop create dbName tableName response response' : ByteString}
    {old : Table ByteString IndexRef} {column : Nat} {c : ColumnDef ByteString}
    (room : StaysIn (fun e => e.world.HasRoom) (onFiles regexMatch) queries (start {}))
    (answered : ∀ a ∈ (runMachine (withinLimits regexMatch) queries (start {})).1,
      a ≠ .error .diverges)
    (found : (runMachine (onFiles regexMatch) queries (start {})).2.dbms.table? dbName tableName =
      some old)
    (hc : old.schema.columns[column]? = some c) (indexed : c.indexed = true)
    (drops : droppedTable (runMachine (onFiles regexMatch) queries (start {})).2.dbms.active drop =
      some (dbName, tableName))
    (creates : createdTable (runMachine (onFiles regexMatch) queries (start {})).2.dbms.active
      create = some (dbName, tableName))
    (dropped : (onFiles regexMatch drop
      (runMachine (onFiles regexMatch) queries (start {})).2).1 = .ok response)
    (created : (onFiles regexMatch create (onFiles regexMatch drop
      (runMachine (onFiles regexMatch) queries (start {})).2).2).1 = .ok response') :
    let e' := (onFiles regexMatch create (onFiles regexMatch drop
      (runMachine (onFiles regexMatch) queries (start {})).2).2).2
    ∃ new, e'.dbms.table? dbName tableName = some new ∧ new.order = [] ∧
      ∀ (column' : Nat) c', new.schema.columns[column']? = some c' → c'.indexed = true →
        c'.name = c.name → ∃ i idx, new.indexes.find? column' = some i ∧
          e'.world.object? i.index.number = some idx ∧
          idx.metadata.keyKind = keyKindOf c.type ∧ AnswersFor idx old column ∧
          ∀ id v, old.Stored id column v → @Table.valueExistsInColumn _ _ DataDirectory.index
            new e'.world column' v none = .ok true := by
  obtain ⟨number, idx, map, hname, hfile, hkind, hmirrors, htracks⟩ :=
    indexKept_run room answered found hc indexed
  have horderly : Orderly (runMachine (onFiles regexMatch) queries (start {})).2.world.directories
      (runMachine (onFiles regexMatch) queries (start {})).2.dbms :=
    runMachine_keeps (P := fun e : EngineState IndexRef DataDirectory =>
      Orderly e.world.directories e.dbms)
      (fun query _ h => (step_onFiles query h).1) queries
      ⟨fun _ => .none, fun _ _ _ h => by cases h⟩
  obtain ⟨cmd, hdrop, -, -⟩ := droppedTable_eq_some drops
  obtain ⟨cmd', hcreate, hdbName, rfl⟩ := createdTable_eq_some creates
  obtain ⟨hactive, hkept⟩ := of_onFiles_ok hdrop (ends_executeDropTable_kept horderly cmd) dropped
  have hholds : HoldsFile (onFiles regexMatch drop
      (runMachine (onFiles regexMatch) queries (start {})).2).2.world
      (namedDatabase (onFiles regexMatch drop
        (runMachine (onFiles regexMatch) queries (start {})).2).2.dbms.active cmd'.dbName)
      (indexFileName cmd'.tableName c.name) number idx := by
    rw [hactive, hdbName]
    exact ⟨(hkept.names _ _).trans hname, hkept.files ▸ hfile⟩
  obtain ⟨new, hnew, hrows, htaken⟩ := of_onFiles_ok hcreate
    (ends_executeCreateTable_over (step_onFiles drop horderly).1 cmd' hholds hmirrors.contents)
    created
  rw [hactive, hdbName] at hnew
  refine ⟨new, hnew, hrows, fun column' c' hc' hindexed' hsame => ?_⟩
  obtain ⟨i, hi, hobject⟩ := htaken column' c' hc' hindexed' (by rw [hsame])
  have hfound : (runMachine (onMaps regexMatch) queries (start {})).2.dbms.table? dbName
      cmd'.tableName = some old := (run_mirrored room answered).1.1 ▸ found
  have hkeys : ∀ id v, old.Stored id column v →
      ∃ key, v = ofIndexKey key ∧ keyMatchesKind key map.kind = true :=
    fun id v hstored => hkind ▸ exists_key_of_stored (inv_onMaps queries) hfound hc indexed hstored
  refine ⟨i, idx, hi, hobject, hmirrors.kind.trans hkind,
    answersFor_of_mirrors hmirrors htracks hkeys, fun id v hstored => ?_⟩
  obtain ⟨key, rfl, valid⟩ := hkeys id v hstored
  have hlook : map.find key = .ok (some id) := by
    rw [KeyedMap.find_eq valid, ← KeyedMap.values_ofIndexKey,
      (htracks _ id).mpr hstored]
  exact valueExistsInColumn_of_found hi hobject ((find_mirrors hmirrors).trans hlook)

/-! ## An old row -/

/-- A column of strings gets an index over integers, with the row of the old table. -/
theorem recreated_table_has_old_index_of_row : ∃ old new : Table ByteString IndexRef,
    old.order = [1] ∧ new.order = [] ∧ new.schema.columns.map ColumnDef.type = [.str] ∧
      ∃ i idx, new.indexes.find? 0 = some i ∧
        (onFiles (fun _ _ => .ok false) (text "CREATE TABLE t (id STR INDEXED)")
          (onFiles (fun _ _ => .ok false) (text "DROP TABLE t")
            (runMachine (onFiles fun _ _ => .ok false) insertedOnce
              (start {})).2).2).2.world.object? i.index.number = some idx ∧
        idx.metadata.keyKind = .int64 ∧ AnswersFor idx old 0 := by
  have hold : (((runMachine (onFiles fun _ _ => .ok false) insertedOnce (start {})).2.dbms.table?
      (text "d") (text "t")).map fun table =>
        (table.order, table.schema.columns.map fun c => (c.name, c.type, c.indexed))) =
          some ([1], [(text "id", .int, true)]) := by decide +kernel
  have hnew : (((onFiles (fun _ _ => .ok false) (text "CREATE TABLE t (id STR INDEXED)")
      (onFiles (fun _ _ => .ok false) (text "DROP TABLE t")
        (runMachine (onFiles fun _ _ => .ok false) insertedOnce (start {})).2).2).2.dbms.table?
      (text "d") (text "t")).map fun table =>
        table.schema.columns.map fun c => (c.name, c.type, c.indexed)) =
          some [(text "id", .str, true)] := by decide +kernel
  obtain ⟨old, found, hold⟩ := Option.map_eq_some_iff.mp hold
  obtain ⟨new, hfound, hnew⟩ := Option.map_eq_some_iff.mp hnew
  obtain ⟨horder, hold⟩ := Prod.mk.inj hold
  obtain ⟨c, hc, hcolumn⟩ := List.map_eq_singleton_iff.mp hold
  obtain ⟨c', hc', hcolumn'⟩ := List.map_eq_singleton_iff.mp hnew
  simp only [Prod.mk.injEq] at hcolumn hcolumn'
  obtain ⟨hname, htype, hindexed⟩ := hcolumn
  obtain ⟨hname', htype', hindexed'⟩ := hcolumn'
  have limits : MeetsNoLimit (fun _ _ => .ok false) insertedOnce :=
    meetsNoLimit_of_all (by decide +kernel) (by decide +kernel) (by decide +kernel)
  obtain ⟨new', hnew, hempty, htaken⟩ := @recreated_table_has_old_index (fun _ _ => .ok false)
    insertedOnce (text "DROP TABLE t") (text "CREATE TABLE t (id STR INDEXED)") (text "d")
    (text "t") (text "OK") (text "OK") old 0 c
    limits.room limits.answered found (by rw [hc]; rfl) hindexed (by decide +kernel)
    (by decide +kernel) (by decide +kernel) (by decide +kernel)
  obtain rfl : new = new' := Option.some.inj (hfound.symm.trans hnew)
  obtain ⟨i, idx, hi, hobject, hkind, hanswers, -⟩ := htaken 0 c' (by rw [hc']; rfl) hindexed'
    (hname'.trans hname.symm)
  refine ⟨old, new, horder, hempty, ?_, i, idx, hi, hobject, ?_, hanswers⟩
  · rw [hc', List.map_singleton, htype']
  · rw [hkind, htype]
    rfl

end CwDb.Executor
