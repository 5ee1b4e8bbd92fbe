/-
  Executor/Restart.lean --- an engine on the data directory of an earlier one.

  The constructor opens the index files under their old names and inserts into them every row
  of the loaded tables, although the files hold these rows already.
-/
import CwDb.Executor.NamedIndexes

set_option autoImplicit false

namespace CwDb.Executor

open CwDb.Cpp
open CwDb.Foundation
open CwDb.Index
open CwDb.Sql
open CwDb.Storage

/-! ## Index files that are opened again -/

/-- The same index files under the same names. -/
structure SameIndexFiles (w w' : DataDirectory) : Prop where
  files : w'.files = w.files
  names : ∀ dbName fileName,
    w'.directories.indexFile? dbName fileName = w.directories.indexFile? dbName fileName

/-- There is an index file for a column of a table, and what it holds leads to the rows. -/
def KeptIn (w : DataDirectory) (dbName tableName : ByteString) (table : Table ByteString IndexRef)
    (column : Nat) (c : ColumnDef ByteString) : Prop :=
  ∃ (number : Nat) (idx : BStarPlusIndex) (m : OrderedMap IndexKey UInt64),
    w.directories.indexFile? dbName (indexFileName tableName c.name) = some number ∧
      w.files[number]? = some idx.disk.file ∧ BStarPlusIndex.Mirrors (keyKindOf c.type) idx m ∧
      ∀ id v, table.Stored id column v → ∃ key, v = ofIndexKey key ∧
        keyMatchesKind key (keyKindOf c.type) = true ∧ m.find? key = some id

section Reopening

variable {w w' : DataDirectory} {dbName tableName : ByteString} {c : ColumnDef ByteString}

theorem exists_directory_of_indexFile {dirs : Directories} {fileName : ByteString} {number : Nat}
    (named : dirs.indexFile? dbName fileName = some number) :
    ∃ dir, dirs.find? dbName = some dir := by
  obtain ⟨dir, hdir, -⟩ := Option.bind_eq_some_iff.mp named
  exact ⟨dir, hdir⟩

theorem answerOf_loadMetadata {idx : BStarPlusIndex} {m : OrderedMap IndexKey UInt64}
    (contents : idx.Contents m) (keyKind : IndexKeyKind) :
    answerOf (BStarPlusIndex.loadMetadata keyKind) (.onFile (some idx.disk.file)) =
      (.ok ⟨⟩, idx) := by
  rw [answerOf, contents.reopen]

/-- An index opened from a file that another one has left is that other one. -/
theorem ends_makeIndexForColumn_kept {number : Nat} {idx : BStarPlusIndex}
    {m : OrderedMap IndexKey UInt64} (same : SameIndexFiles w w')
    (named : w.directories.indexFile? dbName (indexFileName tableName c.name) = some number)
    (file : w.files[number]? = some idx.disk.file) (contents : idx.Contents m) :
    Ends (DataDirectory.makeIndexForColumn dbName tableName c) w'
      (fun i w'' => SameIndexFiles w w'' ∧ w''.object? i.index.number = some idx)
      (fun _ _ => False) := by
  have hnamed := (same.names dbName (indexFileName tableName c.name)).trans named
  have hfile : w'.files[number]? = some idx.disk.file := same.files ▸ file
  obtain ⟨dir, hdir⟩ := exists_directory_of_indexFile hnamed
  have hlt := (List.getElem?_eq_some_iff.mp hfile).1
  have hput : DataDirectory.putFile w'.files number idx.disk.file = w'.files := by
    obtain ⟨hlt, heq⟩ := List.getElem?_eq_some_iff.mp hfile
    rw [DataDirectory.putFile, if_pos hlt, ← heq, List.set_getElem_self]
  have hopened := answerOf_loadMetadata contents (keyKindOf c.type)
  unfold DataDirectory.makeIndexForColumn
  rw [ends_bind, DataDirectory.onDirectories, ends_zoom, Directories.createDirectories,
    ends_modify, UnorderedMap.emplace_of_mem (UnorderedMap.mem_keys_iff.mpr ⟨dir, hdir⟩), ends_bind]
  unfold DataDirectory.openIndex
  rw [ends_bind, ends_get]
  dsimp only
  rw [hnamed, Option.getD_some, Option.bind_some, hfile, hopened]
  dsimp only
  rw [hput, ends_bind, ends_set, fromExcept_ok, pure_bind, ends_bind, ends_modify, ends_pure,
    ends_pure]
  refine ⟨⟨same.files, fun k f => ?_⟩, ?_⟩
  · refine (Directories.indexFile?_nameIndexFile hdir _ number k f).trans ?_
    split
    · next h =>
        obtain ⟨rfl, rfl⟩ := h
        exact named.symm
    · exact same.names k f
  · unfold DataDirectory.object?
    dsimp only
    rw [List.getElem?_append_right (Nat.le_refl _), Nat.sub_self, List.getElem?_singleton,
      if_pos rfl, Option.bind_eq_bind, Option.bind_some, hfile]
    rfl

/-- A key that the index has already. -/
theorem ends_insert_kept {i : IndexRef} {idx : BStarPlusIndex} {kind : IndexKeyKind}
    {m : OrderedMap IndexKey UInt64} (object : w.object? i.index.number = some idx)
    (mirrors : BStarPlusIndex.Mirrors kind idx m) {key : IndexKey}
    (valid : keyMatchesKind key kind = true) (present : m.find? key ≠ none) (id : RowId) :
    Ends (@IIndex.insert _ _ DataDirectory.index i (ofIndexKey key) id) w (fun _ _ => False)
      (fun fault _ => fault = .throws .invalidArgument (text "Duplicate index key")) := by
  have hvalid : validateKeyKind key idx.metadata.keyKind = .ok () := by
    rw [mirrors.kind, validateKeyKind, if_pos valid]
  have hcall : @IIndex.insert _ _ DataDirectory.index i (ofIndexKey key) id =
      DataDirectory.onObject i.index (BStarPlusIndex.insert key id) := by
    cases key <;> rfl
  rw [hcall, DataDirectory.onObject, ends_bind, ends_get]
  simp only [object]
  rw [ends_zoom, ends_of_error (mirrors.contents.insert_present hvalid present)]

end Reopening

/-! ## One table -/

/-- A table with rows and with an indexed column. -/
def Clashes (table : Table ByteString IndexRef) : Prop :=
  table.order ≠ [] ∧ ∃ c ∈ table.schema.columns, c.indexed = true

/-- What the files have of a table: the ids that it lists have rows of the length of the schema,
and its indexed columns have index files. -/
structure TableKept (w : DataDirectory) (dbName tableName : ByteString)
    (table : Table ByteString IndexRef) : Prop where
  listed : table.Listed
  arity : ∀ id row, table.rows.find? id = some row → row.length = table.schema.columnCount
  kept : ∀ (column : Nat) c, table.schema.columns[column]? = some c → c.indexed = true →
    KeptIn w dbName tableName table column c

/-- The first row is refused. -/
theorem ends_attachIndex_kept {w : DataDirectory} {dbName tableName : ByteString}
    {table : Table ByteString IndexRef} {s : TableState IndexRef DataDirectory} {i : IndexRef}
    {idx : BStarPlusIndex} {m : OrderedMap IndexKey UInt64} {column : Nat}
    {c : ColumnDef ByteString} (same : table.SameAs s.table)
    (tableKept : TableKept w dbName tableName table) (filled : table.order ≠ [])
    (hc : table.schema.columns[column]? = some c)
    (object : s.world.object? i.index.number = some idx)
    (mirrors : BStarPlusIndex.Mirrors (keyKindOf c.type) idx m)
    (leads : ∀ id v, table.Stored id column v → ∃ key, v = ofIndexKey key ∧
      keyMatchesKind key (keyKindOf c.type) = true ∧ m.find? key = some id) :
    Ends (@Table.attachIndex _ _ DataDirectory.index column (some i) true) s (fun _ _ => False)
      (fun fault _ => fault = .throws .invalidArgument (text "Duplicate index key")) := by
  have hcolumn : column < s.table.schema.columnCount := by
    rw [same.schema]
    exact (List.getElem?_eq_some_iff.mp hc).1
  obtain ⟨id, rest, horder⟩ := List.exists_cons_of_ne_nil filled
  obtain ⟨row, hrow⟩ := UnorderedMap.mem_keys_iff.mp
    (tableKept.listed id (horder ▸ List.mem_cons_self))
  have hlt : column < row.length := by
    rw [tableKept.arity id row hrow]
    exact (List.getElem?_eq_some_iff.mp hc).1
  obtain ⟨key, hkey, valid, hfind⟩ := leads id row[column]
    ⟨row, hrow, List.getElem?_eq_getElem hlt⟩
  have hrowAt : s.table.rowAt id = .ok row := by rw [Table.rowAt, same.rows, hrow]
  have hvalue : vectorAt row column = .ok (ofIndexKey key) := by
    rw [vectorAt, List.getElem?_eq_getElem hlt, hkey]
  unfold Table.attachIndex
  rw [ends_bind, ends_get, ends_ite, if_neg (Nat.not_le.mpr hcolumn)]
  dsimp only
  rw [Table.modifyTable, ends_bind, ends_modify, if_pos rfl, same.order, horder]
  change Ends (_ >>= fun _ => rest.forM _) _ _ _
  rw [ends_bind]
  dsimp only
  rw [hrowAt, fromExcept_ok, pure_bind, hvalue, fromExcept_ok, pure_bind, Table.onWorld,
    ends_zoom]
  exact (ends_insert_kept object mirrors valid (hfind ▸ Option.some_ne_none id) id).mono
    (fun _ _ h => h.elim) fun _ _ h => h

/-- What the loop of `attach_indexes_for_table` has done to a loaded table: it opens indexes as
long as there are no rows. -/
structure OpenedBefore (w : DataDirectory) (loaded : Table ByteString IndexRef)
    (before : List (ColumnDef ByteString × Nat)) (s : TableState IndexRef DataDirectory) :
    Prop where
  files : SameIndexFiles w s.world
  table : s.table = { loaded with indexes := s.table.indexes }
  unindexed : loaded.order ≠ [] →
    s.table.indexes = loaded.indexes ∧ ∀ entry ∈ before, entry.1.indexed = false

/-- The indexes of a loaded table are attached unless there is a row to insert. -/
theorem ends_attachIndexesForTable_kept {w w' : DataDirectory} {dbName tableName : ByteString}
    {table loaded : Table ByteString IndexRef} (files : SameIndexFiles w w')
    (same : table.SameAs loaded) (tableKept : TableKept w dbName tableName table)
    (bare : loaded.indexes = .empty ∨ ¬ Clashes table) :
    Ends (@Engine.attachIndexesForTable _ _ DataDirectory.index DataDirectory.root dbName tableName)
      ⟨loaded, w'⟩
      (fun _ s' => ¬ Clashes table ∧ SameIndexFiles w s'.world ∧
        s'.table = { loaded with indexes := s'.table.indexes })
      (fun fault _ => Clashes table ∧
        fault = .throws .invalidArgument (text "Duplicate index key")) := by
  unfold Engine.attachIndexesForTable
  rw [ends_bind, ends_get]
  have hstart : OpenedBefore w loaded [] ⟨loaded, w'⟩ := ⟨files, rfl, fun _ => ⟨rfl, nofun⟩⟩
  refine (ends_forM hstart ?_).mono ?_ fun _ _ h => h
  · rintro before ⟨c, column⟩ after s hsplit hs
    have hc : table.schema.columns[column]? = some c := by
      have hmem : (c, column) ∈ loaded.schema.columns.zipIdx := by rw [hsplit]; simp
      rw [← same.schema]
      exact List.mem_zipIdx_iff_getElem?.mp hmem
    rw [ends_bind, ends_get, ends_ite]
    split
    · next hindexed =>
        have hclashes : loaded.order ≠ [] → Clashes table := fun hfilled =>
          ⟨same.order ▸ hfilled, c, List.mem_of_getElem? hc, hindexed⟩
        have hempty : loaded.order = [] → OpenedBefore w loaded (before ++ [(c, column)]) s :=
          fun hempty => ⟨hs.files, hs.table, fun hfilled => absurd hempty hfilled⟩
        rw [ends_ite]
        split
        · next hhas =>
            by_cases horder : loaded.order = []
            · exact hempty horder
            · have hbare := bare.resolve_right (not_not.mpr (hclashes horder))
              rw [Table.hasIndex, (hs.unindexed horder).1, hbare] at hhas
              cases hhas
        · obtain ⟨number, idx, m, hname, hfile, hmirrors, hleads⟩ :=
            tableKept.kept column c hc hindexed
          rw [ends_bind, Table.onWorld, ends_zoom]
          refine (ends_makeIndexForColumn_kept hs.files hname hfile hmirrors.contents).mono ?_
            fun _ _ h => h.elim
          rintro i w'' ⟨hfiles, hobject⟩
          by_cases horder : loaded.order = []
          · have hcolumn : column < s.table.schema.columnCount := by
              rw [hs.table]
              exact same.schema ▸ (List.getElem?_eq_some_iff.mp hc).1
            refine (@Table.ends_attachIndex_noRow _ _ DataDirectory.index ⟨s.table, w''⟩ column i
              hcolumn ?_).mono ?_ fun _ _ h => h.elim
            · rw [hs.table]
              exact horder
            · rintro - _ rfl
              refine ⟨hfiles, ?_, fun hfilled => absurd horder hfilled⟩
              dsimp only
              rw [hs.table]
          · have hsame : table.SameAs s.table := by
              rw [hs.table]
              exact ⟨same.name, same.schema, same.order, same.rows⟩
            exact (ends_attachIndex_kept (s := ⟨s.table, w''⟩) hsame tableKept
              (fun h => horder (same.order.trans h)) hc hobject hmirrors hleads).mono
              (fun _ _ h => h.elim) fun _ _ h => ⟨hclashes horder, h⟩
    · next hnot =>
        refine ⟨hs.files, hs.table,
          fun hfilled => ⟨(hs.unindexed hfilled).1, fun entry hentry => ?_⟩⟩
        rcases List.mem_append.mp hentry with hentry | hentry
        · exact (hs.unindexed hfilled).2 entry hentry
        · obtain rfl := List.mem_singleton.mp hentry
          simpa using hnot
  · rintro - s' hs'
    refine ⟨?_, hs'.files, hs'.table⟩
    rintro ⟨hfilled, c, hmem, hindexed⟩
    obtain ⟨column, hc⟩ := List.getElem?_of_mem hmem
    have hentry : (c, column) ∈ loaded.schema.columns.zipIdx :=
      List.mem_zipIdx_iff_getElem?.mpr (same.schema.symm ▸ hc)
    rw [(hs'.unindexed (same.order.symm ▸ hfilled)).2 _ hentry] at hindexed
    cases hindexed

/-! ## All tables -/

/-- What the constructor has come to: the tables are those that were saved, and those that have
indexes already could take them. -/
structure Restored (dbms : Dbms IndexRef) (w : DataDirectory)
    (st : DbmsState IndexRef DataDirectory) : Prop where
  files : SameIndexFiles w st.world
  restores : Directories.Restores dbms st.dbms.databases
  bare : ∀ dbName tableName table loaded, dbms.table? dbName tableName = some table →
    st.dbms.table? dbName tableName = some loaded → loaded.indexes = .empty ∨ ¬ Clashes table

/-- Somewhere a row has to be inserted into an index that has it. -/
def AnyClash (dbms : Dbms IndexRef) : Prop :=
  ∃ dbName tableName table, dbms.table? dbName tableName = some table ∧ Clashes table

section Loaded

variable {dbms : Dbms IndexRef} {w : DataDirectory} {st : DbmsState IndexRef DataDirectory}

theorem Restored.table (restored : Restored dbms w st) (dbName tableName : ByteString) :
    Option.Rel Table.SameAs (dbms.table? dbName tableName) (st.dbms.table? dbName tableName) :=
  restored.restores.table st.dbms.active

/-- One table of `attach_indexes_for_loaded_data`. -/
theorem Restored.ends_onTable (restored : Restored dbms w st) {dbName tableName : ByteString}
    {table loaded : Table ByteString IndexRef} (htable : dbms.table? dbName tableName = some table)
    (hloaded : st.dbms.table? dbName tableName = some loaded)
    (kept : TableKept w dbName tableName table) :
    Ends (Dbms.onTable dbName tableName loaded (@Engine.attachIndexesForTable _ _
        DataDirectory.index DataDirectory.root dbName tableName)) st
      (fun _ st' => Restored dbms w st' ∧ ¬ Clashes table)
      (fun fault _ => Clashes table ∧
        fault = .throws .invalidArgument (text "Duplicate index key")) := by
  have hsame : table.SameAs loaded := by
    have hrel := restored.table dbName tableName
    rw [htable, hloaded] at hrel
    exact Option.rel_some_some.mp hrel
  rw [Dbms.onTable, ends_zoom]
  refine (ends_attachIndexesForTable_kept restored.files hsame kept
    (restored.bare dbName tableName table loaded htable hloaded)).mono ?_ fun _ _ h => h
  rintro - s' ⟨hfree, hfiles, hs'⟩
  have hsame' : ∀ other, dbms.table? dbName tableName = some other → other.SameAs s'.table := by
    intro other hother
    obtain rfl : other = table := Option.some.inj (hother.symm.trans htable)
    rw [hs']
    exact ⟨hsame.name, hsame.schema, hsame.order, hsame.rows⟩
  refine ⟨⟨hfiles, restored.restores.setTable hloaded hsame',
    fun k t other loaded' hother hloaded' => ?_⟩, hfree⟩
  rw [Dbms.table?_setTable ⟨loaded, hloaded⟩] at hloaded'
  split at hloaded'
  · next hname =>
      obtain ⟨rfl, rfl⟩ := hname
      obtain rfl : other = table := Option.some.inj (hother.symm.trans htable)
      exact .inr hfree
  · exact restored.bare k t other loaded' hother hloaded'

/-- The indexes are attached unless there is a row to insert. -/
theorem Restored.ends_attachIndexesForLoadedData (restored : Restored dbms w st)
    (kept : ∀ dbName tableName table, dbms.table? dbName tableName = some table →
      TableKept w dbName tableName table) :
    Ends (@Engine.attachIndexesForLoadedData _ _ DataDirectory.index DataDirectory.root) st
      (fun _ st' => ¬ AnyClash dbms ∧ Directories.Restores dbms st'.dbms.databases)
      (fun fault _ => AnyClash dbms ∧
        fault = .throws .invalidArgument (text "Duplicate index key")) := by
  unfold Engine.attachIndexesForLoadedData
  rw [ends_bind, ends_get]
  refine (ends_forM (I := fun before st' => Restored dbms w st' ∧
    ∀ entry ∈ before, ∀ tableName table, dbms.table? entry.1 tableName = some table →
      ¬ Clashes table) ⟨restored, nofun⟩ ?_).mono ?_ fun _ _ h => h
  · rintro before ⟨dbName, db⟩ after t hsplit ⟨ht, hpassed⟩
    have hdb : st.dbms.databases.find? dbName = some db :=
      UnorderedMap.find?_eq_some_iff.mpr (by rw [hsplit]; simp)
    refine (ends_forM (I := fun passed st' => Restored dbms w st' ∧
      ∀ tableName ∈ passed, ∀ table, dbms.table? dbName tableName = some table →
        ¬ Clashes table) ⟨ht, nofun⟩ ?_).mono ?_ fun _ _ h => h
    · rintro passed tableName - t' - ⟨ht', hfree⟩
      have hrel := ht'.table dbName tableName
      have hnext : ∀ st', Restored dbms w st' →
          (∀ table, dbms.table? dbName tableName = some table → ¬ Clashes table) →
          Restored dbms w st' ∧ ∀ other ∈ passed ++ [tableName], ∀ table,
            dbms.table? dbName other = some table → ¬ Clashes table := by
        refine fun st' hst' hnow => ⟨hst', fun other hother => ?_⟩
        rcases List.mem_append.mp hother with hother | hother
        · exact hfree other hother
        · obtain rfl := List.mem_singleton.mp hother
          exact hnow
      rw [ends_bind, ends_get]
      cases hloaded : t'.dbms.table? dbName tableName with
      | none =>
          refine hnext t' ht' fun table htable => ?_
          rw [hloaded, htable] at hrel
          cases hrel
      | some loaded =>
          obtain ⟨table, htable⟩ : ∃ table, dbms.table? dbName tableName = some table := by
            rw [hloaded] at hrel
            generalize dbms.table? dbName tableName = table at hrel
            cases hrel with
            | some _ => exact ⟨_, rfl⟩
          refine (ht'.ends_onTable htable hloaded (kept dbName tableName table htable)).mono ?_ ?_
          · rintro - st' ⟨hst', hnow⟩
            refine hnext st' hst' fun other hother => ?_
            obtain rfl : other = table := Option.some.inj (hother.symm.trans htable)
            exact hnow
          · rintro fault - ⟨hclashes, hfault⟩
            exact ⟨⟨dbName, tableName, table, htable, hclashes⟩, hfault⟩
    · rintro - t' ⟨ht', hfree⟩
      refine ⟨ht', fun entry hentry tableName table htable => ?_⟩
      rcases List.mem_append.mp hentry with hentry | hentry
      · exact hpassed entry hentry tableName table htable
      · obtain rfl := List.mem_singleton.mp hentry
        have hrel := restored.table dbName tableName
        rw [htable, Dbms.table?_of_find? hdb] at hrel
        have hmem : tableName ∈ db.tables.keys := by
          rw [UnorderedMap.mem_keys_iff]
          generalize db.tables.find? tableName = loaded at hrel
          cases hrel with
          | some _ => exact ⟨_, rfl⟩
        exact hfree tableName hmem table htable
  · rintro - t ⟨ht, hfree⟩
    refine ⟨?_, ht.restores⟩
    rintro ⟨dbName, tableName, table, htable, hclashes⟩
    have hrel := restored.restores dbName
    obtain ⟨saved, hsaved, -⟩ := Option.bind_eq_some_iff.mp htable
    rw [hsaved] at hrel
    cases hdb : st.dbms.databases.find? dbName with
    | none =>
        rw [hdb] at hrel
        cases hrel
    | some db =>
        exact hfree _ (UnorderedMap.find?_eq_some_iff.mp hdb) tableName table htable hclashes

/-- The constructor, on a directory that keeps the databases. -/
theorem ends_construct_kept (keeps : w.directories.Keeps dbms)
    (filed : ∀ dbName tableName table, dbms.table? dbName tableName = some table → table.Filed)
    (fits : dbms.FitsFiles)
    (kept : ∀ dbName tableName table, dbms.table? dbName tableName = some table →
      TableKept w dbName tableName table) :
    Ends (@Engine.construct _ _ DataDirectory.index DataDirectory.root) (Engine.start w)
      (fun _ e' => ¬ AnyClash dbms ∧ Directories.Restores dbms e'.dbms.databases)
      (fun fault _ => AnyClash dbms ∧
        fault = .throws .invalidArgument (text "Duplicate index key")) := by
  obtain ⟨databases, hload, hrestores⟩ := keeps.restores filed fits
  unfold Engine.construct Dbms.loadAll
  rw [Engine.onDbms, ends_zoom, ends_bind, ends_bind, Dbms.onWorld, ends_zoom]
  change Ends (DataDirectory.onDirectories Directories.loadAll) w _ _
  rw [DataDirectory.onDirectories, ends_zoom, ends_of_ok hload, Dbms.modifyDbms, ends_modify]
  refine Restored.ends_attachIndexesForLoadedData ?_ kept
  exact ⟨⟨rfl, fun _ _ => rfl⟩, hrestores, fun _ _ _ _ _ h =>
    .inl (Directories.indexes_loadAll hload h)⟩

end Loaded

/-! ## Runs -/

open Engine

variable {regexMatch : RegexMatch} {queries : List ByteString}

/-- A query that is answered OK leaves the databases saved. -/
theorem keeps_of_ok {query response : ByteString} {e e' : EngineState IndexRef DataDirectory}
    (orderly : Orderly e.world.directories e.dbms) (keeps : e.world.directories.Keeps e.dbms)
    (run : @execute _ _ DataDirectory.index DataDirectory.root regexMatch query e =
      .ok response e') : e'.world.directories.Keeps e'.dbms := by
  have hends : Ends (@execute _ _ DataDirectory.index DataDirectory.root regexMatch query) e
      (fun _ e' => e'.world.directories.Keeps e'.dbms) (fun _ _ => True) := by
    unfold execute
    rw [ends_bind, ends_fromExcept]
    refine ⟨fun command _ => ?_, fun _ _ => trivial⟩
    cases hdata : changesData command with
    | true =>
        exact (@ends_executeCommand_files _ _ DataDirectory.index DataDirectory.root _ _
          overDirectories_files e orderly regexMatch command hdata).mono (fun _ _ h => h.2)
            fun _ _ _ => trivial
    | false =>
        refine (@ends_executeCommand_unchanged _ _ DataDirectory.index DataDirectory.root e
          regexMatch command hdata).mono ?_ fun _ _ _ => trivial
        rintro - e' ⟨hdatabases, hworld⟩
        rw [hworld]
        exact fun k => hdatabases ▸ keeps k
  exact hends.of_ok run

theorem keeps_run : ∀ (queries : List ByteString) {e : EngineState IndexRef DataDirectory},
    Orderly e.world.directories e.dbms → e.world.directories.Keeps e.dbms →
    (∀ a ∈ (runMachine (onFiles regexMatch) queries e).1, ∃ response, a = .ok response) →
    Orderly (runMachine (onFiles regexMatch) queries e).2.world.directories
        (runMachine (onFiles regexMatch) queries e).2.dbms ∧
      (runMachine (onFiles regexMatch) queries e).2.world.directories.Keeps
        (runMachine (onFiles regexMatch) queries e).2.dbms
  | [], _, orderly, keeps, _ => ⟨orderly, keeps⟩
  | query :: queries, e, orderly, keeps, answered => by
      rw [runMachine] at answered ⊢
      have hnext : Orderly (onFiles regexMatch query e).2.world.directories
          (onFiles regexMatch query e).2.dbms := (step_onFiles query orderly).1
      have hkeeps : (onFiles regexMatch query e).2.world.directories.Keeps
          (onFiles regexMatch query e).2.dbms := by
        obtain ⟨response, hresponse⟩ := answered _ List.mem_cons_self
        unfold onFiles answerOf at hresponse ⊢
        cases hrun : @execute _ _ DataDirectory.index DataDirectory.root regexMatch query e with
        | ok response e' => exact keeps_of_ok orderly keeps hrun
        | error fault e' =>
            rw [hrun] at hresponse
            cases hresponse
      exact keeps_run queries hnext hkeeps fun a ha => answered a (List.mem_cons_of_mem _ ha)

/-- What is stored in an indexed column is a key of its kind. -/
theorem exists_key_of_stored {st : DbmsState IndexRef MapDirectory} (inv : EngineInv st)
    {dbName tableName : ByteString} {table : Table ByteString IndexRef} {column : Nat}
    {c : ColumnDef ByteString} (found : st.dbms.table? dbName tableName = some table)
    (hc : table.schema.columns[column]? = some c) (indexed : c.indexed = true) {id : RowId}
    {v : Value ByteString} (stored : table.Stored id column v) :
    ∃ key, v = ofIndexKey key ∧ keyMatchesKind key (keyKindOf c.type) = true := by
  obtain ⟨row, hrow, hv⟩ := stored
  have hconforms := (inv.sound dbName tableName table found).rows.conforms id row hrow
  exact MapDirectory.exists_key_of_matches
    (hconforms.present column c v hc hv (.inr indexed)) (hconforms.typed column c v hc hv)

/-- What a run leaves behind of an indexed column: an index file that holds its values. -/
theorem indexKept_run
    (room : StaysIn (fun e => e.world.HasRoom) (onFiles regexMatch) queries (start {}))
    (answered : ∀ a ∈ (runMachine (withinLimits regexMatch) queries (start {})).1,
      a ≠ .error .diverges)
    {dbName tableName : ByteString} {table : Table ByteString IndexRef} {column : Nat}
    {c : ColumnDef ByteString}
    (found : (runMachine (onFiles regexMatch) queries (start {})).2.dbms.table? dbName tableName =
      some table)
    (hc : table.schema.columns[column]? = some c) (indexed : c.indexed = true) :
    ∃ (number : Nat) (idx : BStarPlusIndex) (map : KeyedMap),
      (runMachine (onFiles regexMatch) queries (start {})).2.world.directories.indexFile? dbName
          (indexFileName tableName c.name) = some number ∧
        (runMachine (onFiles regexMatch) queries (start {})).2.world.files[number]? =
          some idx.disk.file ∧
        map.kind = keyKindOf c.type ∧ BStarPlusIndex.Mirrors map.kind idx map.map ∧
        table.Tracks column map.values := by
  obtain ⟨⟨hfiles, hmirrored⟩, -⟩ := (run_onFiles room answered).2
  obtain ⟨⟨hmaps, hworld⟩, -⟩ := (run_onMaps answered).2
  have inv : EngineInv (runMachine (onMaps regexMatch) queries (start {})).2.toDbmsState :=
    inv_onMaps queries
  have catalogued : Catalogued
      (runMachine (withinLimits regexMatch) queries (start {})).2.world.directories
      (runMachine (withinLimits regexMatch) queries (start {})).2.dbms :=
    (catalogued_withinLimits queries answered ⟨fun _ => .none, nofun⟩ ⟨nofun, nofun⟩).2
  rw [hfiles] at found
  have hfound : (runMachine (onMaps regexMatch) queries (start {})).2.dbms.table? dbName tableName =
      some table := by rw [hmaps]; exact found
  obtain ⟨i, hi⟩ := catalogued.complete dbName tableName table column c found hc indexed
  have hname := catalogued.named dbName tableName table column c i found hc hi
  obtain ⟨_, ⟨map, hmap, hkind, rfl⟩, htracks⟩ :=
    (inv.sound dbName tableName table hfound).tracked column i hi
  have hmap : (runMachine (withinLimits regexMatch) queries
      (start {})).2.world.maps[i.index.number]? = some map := by
    have hsame : (runMachine (onMaps regexMatch) queries (start {})).2.world = _ := hworld
    rw [← hsame]
    exact hmap
  have hn := (List.getElem?_eq_some_iff.mp hmap).1
  have hobject := List.getElem?_eq_getElem (hmirrored.objects.symm ▸ hn :
    i.index.number < (runMachine (onFiles regexMatch) queries (start {})).2.world.objects.length)
  have hfile := List.getElem?_eq_getElem (hmirrored.files.symm ▸ hn :
    i.index.number < (runMachine (onFiles regexMatch) queries (start {})).2.world.files.length)
  obtain ⟨-, hmirrors⟩ := hmirrored.mirrors _ _ _ map hobject hfile hmap
  refine ⟨i.index.number, _, map, hmirrored.directories ▸ hname, hfile, ?_, hmirrors, htracks⟩
  have htakes := inv.takes dbName tableName table hfound column i c
  rw [hkind]
  cases htype : c.type with
  | int =>
      obtain ⟨key, hkey, valid⟩ := htakes (.int 0) hi hc nofun (by rw [htype]; rfl)
      cases key with
      | int n => exact beq_iff_eq.mp valid
      | str s => cases hkey
  | str =>
      obtain ⟨key, hkey, valid⟩ := htakes (.str []) hi hc nofun (by rw [htype]; rfl)
      cases key with
      | int n => cases hkey
      | str s => exact beq_iff_eq.mp valid

/-- What a run leaves behind of a table. -/
theorem tableKept_run
    (room : StaysIn (fun e => e.world.HasRoom) (onFiles regexMatch) queries (start {}))
    (answered : ∀ a ∈ (runMachine (withinLimits regexMatch) queries (start {})).1,
      a ≠ .error .diverges)
    (keeps : (runMachine (onFiles regexMatch) queries (start {})).2.world.directories.Keeps
      (runMachine (onFiles regexMatch) queries (start {})).2.dbms)
    {dbName tableName : ByteString} {table : Table ByteString IndexRef}
    (found : (runMachine (onFiles regexMatch) queries (start {})).2.dbms.table? dbName tableName =
      some table) :
    TableKept (runMachine (onFiles regexMatch) queries (start {})).2.world dbName tableName
      table := by
  obtain ⟨⟨hdbms, -⟩, -⟩ := run_mirrored room answered
  have inv : EngineInv (runMachine (onMaps regexMatch) queries (start {})).2.toDbmsState :=
    inv_onMaps queries
  have hsound := inv.sound dbName tableName table (hdbms ▸ found)
  refine ⟨keeps.listed found, fun id row hrow => (hsound.rows.conforms id row hrow).arity,
    fun column c hc hindexed => ?_⟩
  obtain ⟨number, idx, map, hname, hfile, hkind, hmirrors, htracks⟩ :=
    indexKept_run room answered found hc hindexed
  refine ⟨number, idx, map.map, hname, hfile, hkind ▸ hmirrors, fun id v hstored => ?_⟩
  obtain ⟨key, rfl, valid⟩ := exists_key_of_stored inv (hdbms ▸ found) hc hindexed hstored
  refine ⟨key, rfl, valid, ?_⟩
  rw [← KeyedMap.values_ofIndexKey]
  exact (htracks _ id).mpr hstored

/-- The constructor of an engine on the data directory that a run of queries has left, all of them
answered OK, whose names and strings fit the files: it throws exactly when there is a table with a
row and an indexed column, because the row is inserted into the index file that has it; otherwise
it restores the databases. -/
theorem restart_throws_iff
    (room : StaysIn (fun e => e.world.HasRoom) (onFiles regexMatch) queries (start {}))
    (answered : ∀ a ∈ (runMachine (withinLimits regexMatch) queries (start {})).1,
      ∃ response, a = .ok response)
    (fits : (runMachine (onFiles regexMatch) queries (start {})).2.dbms.FitsFiles) :
    (AnyClash (runMachine (onFiles regexMatch) queries (start {})).2.dbms ↔
      ∃ e', @construct _ _ DataDirectory.index DataDirectory.root
        (start (runMachine (onFiles regexMatch) queries (start {})).2.world) =
          .error (.throws .invalidArgument (text "Duplicate index key")) e') ∧
    (¬ AnyClash (runMachine (onFiles regexMatch) queries (start {})).2.dbms ↔
      ∃ e', @construct _ _ DataDirectory.index DataDirectory.root
        (start (runMachine (onFiles regexMatch) queries (start {})).2.world) = .ok ⟨⟩ e' ∧
        Directories.Restores (runMachine (onFiles regexMatch) queries (start {})).2.dbms
          e'.dbms.databases) := by
  have hanswered : ∀ a ∈ (runMachine (withinLimits regexMatch) queries (start {})).1,
      a ≠ .error .diverges := by
    rintro a ha rfl
    obtain ⟨response, hresponse⟩ := answered _ ha
    cases hresponse
  have hanswers : ∀ a ∈ (runMachine (onFiles regexMatch) queries (start {})).1,
      ∃ response, a = .ok response := by rwa [(run_onFiles room hanswered).1]
  obtain ⟨orderly, keeps⟩ := keeps_run queries (e := start {})
    ⟨fun _ => .none, nofun⟩ (fun _ => .none) hanswers
  have hends := ends_construct_kept keeps orderly.filed fits
    fun _ _ _ => tableKept_run room hanswered keeps
  cases hrun : @construct _ _ DataDirectory.index DataDirectory.root
      (start (runMachine (onFiles regexMatch) queries (start {})).2.world) with
  | ok _ e' =>
      obtain ⟨hfree, hrestores⟩ := hends.of_ok hrun
      refine ⟨⟨fun h => absurd h hfree, fun ⟨_, h⟩ => by cases h⟩, ⟨fun _ => ⟨e', rfl, hrestores⟩,
        fun _ => hfree⟩⟩
  | error fault e' =>
      obtain ⟨hclash, rfl⟩ := hends.of_error hrun
      exact ⟨⟨fun _ => ⟨e', rfl⟩, fun _ => hclash⟩, ⟨fun h => absurd hclash h,
        fun ⟨_, h, _⟩ => by cases h⟩⟩

/-! ## One row -/

/-- A row with a value in an indexed column. -/
def insertedOnce : List ByteString :=
  [text "CREATE DATABASE d", text "USE d", text "CREATE TABLE t (id INT INDEXED)",
    text "INSERT INTO t VALUE (5)"]

/-- The engine does not start again. -/
theorem restart_throws_of_row : ∃ e', @construct _ _ DataDirectory.index DataDirectory.root
    (start (runMachine (onFiles fun _ _ => .ok false) insertedOnce (start {})).2.world) =
      .error (.throws .invalidArgument (text "Duplicate index key")) e' := by
  have room : StaysIn (fun e => e.world.HasRoom) (onFiles fun _ _ => .ok false) insertedOnce
      (start {}) := by
    refine staysIn_of_le fun n hn => hasRoom_of_all ?_
    revert n
    decide +kernel
  have answered : ∀ a ∈ (runMachine (withinLimits fun _ _ => .ok false) insertedOnce (start {})).1,
      ∃ response, a = .ok response := by
    intro a ha
    have hok : a = .ok (text "OK") := by
      revert a
      decide +kernel
    exact ⟨_, hok⟩
  have clash : ((((runMachine (onFiles fun _ _ => .ok false) insertedOnce
      (start {})).2.dbms.table? (text "d") (text "t")).map fun table =>
        !table.order.isEmpty && table.schema.columns.any ColumnDef.indexed)) = some true := by
    decide +kernel
  obtain ⟨table, htable, hclash⟩ := Option.map_eq_some_iff.mp clash
  have fits :
      (runMachine (onFiles fun _ _ => .ok false) insertedOnce (start {})).2.dbms.FitsFiles :=
    fitsFiles_of_all (by decide +kernel)
  refine (restart_throws_iff room answered fits).1.mp ⟨_, _, table, htable, ?_⟩
  rw [Bool.and_eq_true, List.any_eq_true] at hclash
  exact ⟨by simpa using hclash.1, hclash.2⟩

end CwDb.Executor
