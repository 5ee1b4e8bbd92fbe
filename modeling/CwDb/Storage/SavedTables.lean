/-
  Storage/SavedTables.lean --- what `Database::save_to` leaves in a directory, and what
  `Database::load_from` makes of it.
-/
import CwDb.Foundation.Invariants
import CwDb.Storage.DataDirectory
import CwDb.Storage.TableRoundTrip

set_option autoImplicit false

namespace CwDb.Storage

open CwDb.Cpp
open CwDb.Foundation
open CwDb.Index

variable {ι : Type}

/-! ## One table -/

namespace Table

/-- Every row is listed. -/
def Filed (t : Table ByteString ι) : Prop := ∀ id ∈ t.rows.keys, id ∈ t.order

/-- Every id that is listed has a row. -/
def Listed (t : Table ByteString ι) : Prop := ∀ id ∈ t.order, id ∈ t.rows.keys

/-- The same table as far as a file keeps it, which is all but the indexes and `next_id_`. -/
structure SameAs (t t' : Table ByteString ι) : Prop where
  name : t'.name = t.name
  schema : t'.schema = t.schema
  order : t'.order = t.order
  rows : ∀ id, t'.rows.find? id = t.rows.find? id

/-- The lengths in the table go into the fields that a file has for them. -/
structure FitsFile (t : Table ByteString ι) : Prop where
  name : t.name.length < 2 ^ 16
  columns : t.schema.columnCount < 2 ^ 32
  columnNames : ∀ c ∈ t.schema.columns, c.name.length < 2 ^ 16
  defaults : ∀ c ∈ t.schema.columns, ∀ s, c.defaultValue = some (.str s) → s.length < 2 ^ 32
  strings : ∀ id row, t.rows.find? id = some row → ∀ s, .str s ∈ row → s.length < 2 ^ 32

end Table

/-- The lengths in all tables go into the fields that a file has for them. -/
def Dbms.FitsFiles (dbms : Dbms ι) : Prop :=
  ∀ dbName tableName table, dbms.table? dbName tableName = some table → table.FitsFile

theorem storedName_eq {name : ByteString} (short : name.length < 2 ^ 16) :
    storedName name = name := by
  rw [storedName, UInt16.toNat_ofNat', Nat.mod_eq_of_lt short, List.take_length]

theorem storedString_eq {s : ByteString} (short : s.length < 2 ^ 32) : storedString s = s := by
  rw [storedString, UInt32.toNat_ofNat', Nat.mod_eq_of_lt short, List.take_length]

theorem map_storedString_eq {v : Value ByteString} (short : ∀ s, v = .str s → s.length < 2 ^ 32) :
    v.map storedString = v := by
  cases v with
  | null => rfl
  | int n => rfl
  | str s => exact congrArg Value.str (storedString_eq (short s rfl))

theorem storedColumn_eq {c : ColumnDef ByteString} (name : c.name.length < 2 ^ 16)
    (short : ∀ s, c.defaultValue = some (.str s) → s.length < 2 ^ 32) : storedColumn c = c := by
  have hdefault : c.defaultValue.map (Value.map storedString) = c.defaultValue := by
    cases hv : c.defaultValue with
    | none => rfl
    | some v => exact congrArg some (map_storedString_eq fun s hs => short s (hs ▸ hv))
  unfold storedColumn ColumnDef.map
  rw [storedName_eq name, hdefault]

/-- The rows that are written, or the id that has none. -/
theorem rowsOf_spec {t : Table ByteString ι} (order : List RowId) :
    match order.mapM fun id => (do
        let row ← t.rowAt id
        pure (id, row.map (Value.map storedString)) : Except Fault (RowId × Row ByteString)) with
    | .ok rows => rows.map Prod.fst = order ∧ ∀ entry ∈ rows, ∃ row,
        t.rows.find? entry.1 = some row ∧ entry.2 = row.map (Value.map storedString)
    | .error _ => ∃ id ∈ order, id ∉ t.rows.keys := by
  induction order with
  | nil => exact ⟨rfl, nofun⟩
  | cons id order ih =>
      rw [List.mapM_cons]
      cases hrow : t.rows.find? id with
      | none =>
          have hthrow : t.rowAt id = raise .outOfRange (text "unordered_map::at") := by
            rw [Table.rowAt, hrow]
          rw [hthrow]
          exact ⟨id, List.mem_cons_self, UnorderedMap.find?_eq_none_iff.mp hrow⟩
      | some row =>
          have hread : t.rowAt id = .ok row := by rw [Table.rowAt, hrow]
          rw [hread]
          revert ih
          cases order.mapM fun id => (do
            let row ← t.rowAt id
            pure (id, row.map (Value.map storedString)) : Except Fault (RowId × Row ByteString)) with
          | error e =>
              rintro ⟨id', hid', hnone⟩
              exact ⟨id', List.mem_cons_of_mem id hid', hnone⟩
          | ok rows =>
              rintro ⟨hids, hfound⟩
              refine ⟨congrArg (id :: ·) hids, fun entry hentry => ?_⟩
              rcases List.mem_cons.mp hentry with rfl | hentry
              · exact ⟨row, hrow, rfl⟩
              · exact hfound entry hentry

namespace TableImage

variable {t : Table ByteString ι} {image : TableImage}

theorem ofTable_ok (h : ofTable t = .ok image) : image.name = storedName t.name ∧
    image.columns = t.schema.columns.map storedColumn ∧ image.rows.map Prod.fst = t.order ∧
      ∀ entry ∈ image.rows, ∃ row, t.rows.find? entry.1 = some row ∧
        entry.2 = row.map (Value.map storedString) := by
  have hspec := rowsOf_spec (t := t) t.order
  unfold ofTable at h
  revert hspec h
  cases t.order.mapM fun id => (do
    let row ← t.rowAt id
    pure (id, row.map (Value.map storedString)) : Except Fault (RowId × Row ByteString)) with
  | error e => exact nofun
  | ok rows =>
      rintro h ⟨hids, hfound⟩
      cases h
      exact ⟨rfl, rfl, hids, hfound⟩

theorem listed_of_ofTable (h : ofTable t = .ok image) : t.Listed := by
  obtain ⟨-, -, hids, hfound⟩ := ofTable_ok h
  intro id hid
  obtain ⟨entry, hentry, rfl⟩ := List.mem_map.mp (hids ▸ hid)
  obtain ⟨row, hrow, -⟩ := hfound entry hentry
  exact UnorderedMap.mem_keys_iff.mpr ⟨row, hrow⟩

/-- A table is not saved only if it lists an id without a row. -/
theorem ofTable_error {fault : Fault} (h : ofTable t = .error fault) : ¬ t.Listed := by
  have hspec := rowsOf_spec (t := t) t.order
  unfold ofTable at h
  revert hspec h
  cases t.order.mapM fun id => (do
    let row ← t.rowAt id
    pure (id, row.map (Value.map storedString)) : Except Fault (RowId × Row ByteString)) with
  | ok rows => exact nofun
  | error e =>
      rintro - ⟨id, hid, hnone⟩ listed
      exact hnone (listed id hid)

theorem indexes_load {t' : Table ByteString ι} (h : image.load = .ok t') :
    t'.indexes = .empty := by
  unfold load at h
  cases hschema : TableSchema.ofColumns image.columns with
  | error fault =>
      rw [hschema] at h
      cases h
  | ok schema =>
      rw [hschema] at h
      cases h
      rfl

/-- A table that was saved, and fits its file, is loaded again. -/
theorem load_ofTable (filed : t.Filed) (fits : t.FitsFile) (h : ofTable t = .ok image) :
    ∃ t' : Table ByteString ι, image.load = .ok t' ∧ t.SameAs t' := by
  obtain ⟨hname, hcolumns, hids, hrows⟩ := ofTable_ok h
  have hschema : image.columns = t.schema.columns := by
    rw [hcolumns]
    exact (List.map_congr_left (g := id) fun c hc =>
      storedColumn_eq (fits.columnNames c hc) (fits.defaults c hc)).trans (List.map_id _)
  have hfound : ∀ entry ∈ image.rows, t.rows.find? entry.1 = some entry.2 := by
    intro entry hentry
    obtain ⟨row, hrow, hsame⟩ := hrows entry hentry
    have hkept : row.map (Value.map storedString) = row :=
      (List.map_congr_left (g := id) fun v hv => map_storedString_eq fun s hs =>
        fits.strings entry.1 row hrow s (hs ▸ hv)).trans (List.map_id _)
    rw [hrow, hsame, hkept]
  have hlisted : ∀ id, id ∈ t.order ↔ id ∈ t.rows.keys :=
    fun id => ⟨listed_of_ofTable h id, filed id⟩
  refine ⟨tableOfRows image.name t.schema image.rows, ?_, ?_, rfl, hids, fun id => ?_⟩
  · rw [load, hschema, TableSchema.ofColumns_columns]
    rfl
  · exact hname.trans (storedName_eq fits.name)
  · change (image.rows.foldl (fun (stored : UnorderedMap RowId (Row ByteString)) entry =>
      stored.emplace entry.1 entry.2) .empty).find? id = _
    rw [find?_foldl_emplace, UnorderedMap.find?_empty, Option.none_or]
    exact find?_orderedRows hlisted hids hfound id

end TableImage

/-! ## The bytes of the file -/

/-- A table in memory, where values hold ids of the pool, and the table with their strings. -/
structure Table.Resolves (pool : StringPool) (t : Table StringId ι) (u : Table ByteString ι) :
    Prop where
  name : u.name = t.name
  columns : u.schema.columns.map (ColumnDef.map some) =
    t.schema.columns.map (ColumnDef.map pool.string?)
  order : u.order = t.order
  rows : ∀ id, (u.rows.find? id).map (List.map (Value.map some)) =
    (t.rows.find? id).map (List.map (Value.map pool.string?))

section Bytes

variable {t : Table StringId ι} {u : Table ByteString ι} {pool loading : StringPool}

theorem mem_byId_of_string? {id : StringId} {s : ByteString} (h : pool.string? id = some s) :
    s ∈ pool.byId := by
  unfold StringPool.string? at h
  split at h
  · cases h
  · exact List.mem_of_getElem? h

theorem Value.exists_string_of_map {v : Value StringId} {s : ByteString}
    (h : (Value.str s).map some = v.map pool.string?) : s ∈ pool.byId := by
  cases v with
  | null => cases h
  | int n => cases h
  | str id => exact mem_byId_of_string? (Value.str.inj h).symm

theorem Table.Resolves.mem_keys_iff (resolves : t.Resolves pool u) {id : RowId} :
    id ∈ u.rows.keys ↔ id ∈ t.rows.keys := by
  have hsome := congrArg Option.isSome (resolves.rows id)
  rw [Option.isSome_map, Option.isSome_map] at hsome
  rw [UnorderedMap.mem_keys_iff, UnorderedMap.mem_keys_iff, ← Option.isSome_iff_exists,
    ← Option.isSome_iff_exists, hsome]

/-- What `save` relies on is enough for the lengths. -/
theorem Table.Resolves.fitsFile (resolves : t.Resolves pool u) (storable : Storable t pool)
    (few : t.schema.columnCount < 2 ^ 32) : u.FitsFile := by
  have hcolumn : ∀ c ∈ u.schema.columns, ∃ c' ∈ t.schema.columns,
      c'.map pool.string? = c.map some := by
    intro c hc
    exact List.mem_map.mp (resolves.columns ▸ List.mem_map_of_mem hc)
  refine ⟨resolves.name ▸ storable.name, ?_, fun c hc => ?_, fun c hc s hs => ?_,
    fun id row hrow s hs => ?_⟩
  · have hlength := congrArg List.length resolves.columns
    rw [List.length_map, List.length_map] at hlength
    exact hlength.trans_lt few
  · obtain ⟨c', hc', hsame⟩ := hcolumn c hc
    have hname : c'.name = c.name := congrArg ColumnDef.name hsame
    exact hname ▸ storable.columnNames c' hc'
  · obtain ⟨c', hc', hsame⟩ := hcolumn c hc
    have hdefault : c'.defaultValue.map (Value.map pool.string?) =
        c.defaultValue.map (Value.map some) := congrArg ColumnDef.defaultValue hsame
    rw [hs, Option.map_some] at hdefault
    obtain ⟨v, -, hv⟩ := Option.map_eq_some_iff.mp hdefault
    exact storable.strings s (Value.exists_string_of_map hv.symm)
  · have hrows := resolves.rows id
    rw [hrow, Option.map_some] at hrows
    obtain ⟨row', -, hsame⟩ := Option.map_eq_some_iff.mp hrows.symm
    have hmem : (Value.str s).map some ∈ row'.map (Value.map pool.string?) :=
      hsame ▸ List.mem_map_of_mem hs
    obtain ⟨v, -, hv⟩ := List.mem_map.mp hmem
    exact storable.strings s (Value.exists_string_of_map hv.symm)

/-- The image is what the bytes mean: the table that `load` makes of the bytes that `save` has
written is the table that the image holds, under the ids of the loading process. -/
theorem TableImage.load_of_bytes (resolves : t.Resolves pool u) (storable : Storable t pool)
    (few : t.schema.columnCount < 2 ^ 32) (consistent : loading.Consistent)
    (merged : (StringPool.internAll (pool.byId.drop 1) loading).2.byId.length < 2 ^ 32) :
    ∃ bytes image, save t pool = .ok bytes ∧ ofTable u = .ok image ∧
      ∃ (t' : Table StringId ι) (pool' : StringPool) (u' : Table ByteString ι),
        Storage.load (bytes, loading) = .ok t' ([], pool') ∧ image.load = .ok u' ∧
        t'.Resolves pool' u' := by
  obtain ⟨bytes, hsave, t', pool', hload, hname, hcolumns, horder, hrows, -⟩ :=
    load_save storable few consistent merged
  have hlisted : u.Listed := fun id hid =>
    resolves.mem_keys_iff.mpr ((storable.listed id).mp (resolves.order ▸ hid))
  have hfiled : u.Filed := fun id hid =>
    resolves.order ▸ (storable.listed id).mpr (resolves.mem_keys_iff.mp hid)
  cases himage : ofTable u with
  | error fault => exact absurd hlisted (ofTable_error himage)
  | ok image =>
      obtain ⟨u', hload', hsame⟩ := load_ofTable hfiled (resolves.fitsFile storable few) himage
      refine ⟨bytes, image, hsave, rfl, t', pool', u', hload, hload', ?_, ?_, ?_, fun id => ?_⟩
      · rw [hsame.name, resolves.name, hname]
      · rw [hsame.schema, resolves.columns, hcolumns]
      · rw [hsame.order, resolves.order, horder]
      · rw [hsame.rows, resolves.rows, hrows]

end Bytes

/-! ## One database -/

/-- The table files are the tables of the database. -/
def Directory.Keeps (dir : Directory) (db : Database ι) : Prop :=
  ∀ tableName, Option.Rel (fun table image => TableImage.ofTable table = .ok image)
    (db.tables.find? tableName) (dir.tableFiles.find? tableName)

namespace Directories

variable {dirs : Directories} {name : ByteString} {db : Database ι}

theorem find?_modifyDirectory {f : Directory → Directory} (k : ByteString) :
    (modifyDirectory name f dirs).find? k =
      if k = name then (dirs.find? name).map f else dirs.find? k := by
  unfold modifyDirectory
  cases hdir : dirs.find? name with
  | none =>
      by_cases h : k = name
      · rw [if_pos h, h]
        exact hdir
      · rw [if_neg h]
  | some dir =>
      dsimp only
      rw [UnorderedMap.find?_replace, hdir]
      rfl

/-- What `save_to` does to the directory of the database. -/
structure SavedTo (name : ByteString) (db : Database ι) (dirs dirs' : Directories) : Prop where
  others : ∀ k, k ≠ name → dirs'.find? k = dirs.find? k
  kept : ∃ dir, dirs'.find? name = some dir ∧ dir.Keeps db ∧
    dir.indexFiles = ((dirs.find? name).getD {}).indexFiles

theorem ends_saveTo : Ends (saveTo name db) dirs
    (fun _ dirs' => SavedTo name db dirs dirs')
    (fun _ dirs' => (∀ k, k ≠ name → dirs'.find? k = dirs.find? k) ∧
      (∃ dir, dirs'.find? name = some dir ∧
        dir.indexFiles = ((dirs.find? name).getD {}).indexFiles) ∧
      ∃ tableName table, db.tables.find? tableName = some table ∧ ¬ table.Listed) := by
  unfold saveTo
  rw [ends_bind, createDirectories, ends_modify, ends_bind, ends_modify]
  -- The files of the tables that are behind the loop, and no file of a table that is gone.
  let Passed (before : List (ByteString × Table ByteString ι)) (dirs' : Directories) : Prop :=
    (∀ k, k ≠ name → dirs'.find? k = dirs.find? k) ∧ ∃ dir, dirs'.find? name = some dir ∧
      dir.indexFiles = ((dirs.find? name).getD {}).indexFiles ∧
      (∀ tableName, db.tables.find? tableName = none → dir.tableFiles.find? tableName = none) ∧
      ∀ entry ∈ before, ∃ image, TableImage.ofTable entry.2 = .ok image ∧
        dir.tableFiles.find? entry.1 = some image
  have hstart : Passed [] (modifyDirectory name (fun dir =>
      { dir with tableFiles := dir.tableFiles.filterKeys db.tables.contains })
      (dirs.emplace name {})) := by
    refine ⟨fun k hk => ?_, ?_⟩
    · rw [find?_modifyDirectory, if_neg hk, UnorderedMap.find?_emplace, if_neg hk]
    · rw [find?_modifyDirectory, if_pos rfl, UnorderedMap.find?_emplace, if_pos rfl]
      have hor : (dirs.find? name).or (some {}) = some ((dirs.find? name).getD {}) := by
        cases dirs.find? name <;> rfl
      rw [hor, Option.map_some]
      refine ⟨_, rfl, rfl, fun tableName hnone => ?_, nofun⟩
      rw [UnorderedMap.find?_filterKeys, UnorderedMap.contains, hnone]
      rfl
  refine (ends_forM hstart ?_).mono ?_ fun _ _ h => h
  · rintro before ⟨tableName, table⟩ after dirs' hsplit ⟨hothers, dir, hdir, hfiles, hgone, hpassed⟩
    have hmem : (tableName, table) ∈ db.tables.entries := by rw [hsplit]; simp
    dsimp only
    rw [saveTable, ends_bind, ends_fromExcept]
    refine ⟨fun image himage => ?_, fun fault hfault => ⟨hothers, ⟨dir, hdir, hfiles⟩, tableName,
      table, UnorderedMap.find?_eq_some_iff.mpr hmem, TableImage.ofTable_error hfault⟩⟩
    rw [ends_modify]
    refine ⟨fun k hk => ?_, ?_⟩
    · rw [find?_modifyDirectory, if_neg hk]
      exact hothers k hk
    · rw [find?_modifyDirectory, if_pos rfl, hdir, Option.map_some]
      refine ⟨_, rfl, hfiles, fun other hnone => ?_, fun entry hentry => ?_⟩
      · rw [UnorderedMap.find?_assign, if_neg]
        · exact hgone other hnone
        · rintro rfl
          rw [UnorderedMap.find?_eq_some_iff.mpr hmem] at hnone
          cases hnone
      · rcases List.mem_append.mp hentry with hentry | hentry
        · obtain ⟨image', himage', hfound⟩ := hpassed entry hentry
          refine ⟨image', himage', ?_⟩
          rw [UnorderedMap.find?_assign, if_neg]
          · exact hfound
          · intro hsame
            have hnodup := db.tables.nodup
            rw [hsplit, List.map_append, List.nodup_append] at hnodup
            exact hnodup.2.2 _ (List.mem_map_of_mem hentry) _ List.mem_cons_self hsame
        · obtain rfl := List.mem_singleton.mp hentry
          exact ⟨image, himage, by rw [UnorderedMap.find?_assign, if_pos rfl]⟩
  · rintro - dirs' ⟨hothers, dir, hdir, hfiles, hgone, hpassed⟩
    refine ⟨hothers, dir, hdir, fun tableName => ?_, hfiles⟩
    cases htable : db.tables.find? tableName with
    | none =>
        rw [hgone tableName htable]
        exact .none
    | some table =>
        obtain ⟨image, himage, hfound⟩ := hpassed _ (UnorderedMap.find?_eq_some_iff.mp htable)
        rw [hfound]
        exact .some himage

end Directories

/-! ## All databases -/

theorem rel_mono {α β : Type} {r r' : α → β → Prop} {a : Option α} {b : Option β}
    (h : Option.Rel r a b) (weaker : ∀ a b, r a b → r' a b) : Option.Rel r' a b := by
  cases h with
  | none => exact .none
  | some h => exact .some (weaker _ _ h)

namespace Directories

/-- The directories are those of the databases, and every database goes by its name. -/
def Houses (dirs : Directories) (dbms : Dbms ι) : Prop :=
  ∀ k, Option.Rel (fun db _ => db.name = k) (dbms.databases.find? k) (dirs.find? k)

/-- The table files are the tables of the databases. -/
def Keeps (dirs : Directories) (dbms : Dbms ι) : Prop :=
  ∀ k, Option.Rel (fun db dir => dir.Keeps db) (dbms.databases.find? k) (dirs.find? k)

/-- The same table files. -/
def SameFiles (dirs dirs' : Directories) : Prop :=
  ∀ k, (dirs'.find? k).map Directory.tableFiles = (dirs.find? k).map Directory.tableFiles

theorem SameFiles.refl (dirs : Directories) : SameFiles dirs dirs := fun _ => rfl

theorem SameFiles.trans {dirs dirs' dirs'' : Directories} (h : SameFiles dirs dirs')
    (h' : SameFiles dirs' dirs'') : SameFiles dirs dirs'' := fun k => (h' k).trans (h k)

variable {dirs dirs' : Directories} {dbms : Dbms ι}

theorem Houses.congr (houses : dirs.Houses dbms) (same : SameFiles dirs dirs') :
    dirs'.Houses dbms := by
  intro k
  have hk := houses k
  have hsame := same k
  generalize dbms.databases.find? k = db, dirs.find? k = dir, dirs'.find? k = dir' at hk hsame ⊢
  cases hk with
  | none =>
      obtain rfl := Option.map_eq_none_iff.mp hsame
      exact .none
  | some named =>
      obtain ⟨dir', rfl, -⟩ := Option.map_eq_some_iff.mp hsame
      exact .some named

theorem Keeps.congr (keeps : dirs.Keeps dbms) (same : SameFiles dirs dirs') :
    dirs'.Keeps dbms := by
  intro k
  have hk := keeps k
  have hsame := same k
  generalize dbms.databases.find? k = db, dirs.find? k = dir, dirs'.find? k = dir' at hk hsame ⊢
  cases hk with
  | none =>
      obtain rfl := Option.map_eq_none_iff.mp hsame
      exact .none
  | some hkeeps =>
      obtain ⟨dir', rfl, hfiles⟩ := Option.map_eq_some_iff.mp hsame
      refine .some fun tableName => ?_
      rw [hfiles]
      exact hkeeps tableName

theorem Houses.rel_indexFiles (houses : dirs.Houses dbms) (k : ByteString) :
    Option.Rel (fun db dir => db.name = k ∧
      dir.indexFiles = ((dirs.find? k).getD {}).indexFiles)
      (dbms.databases.find? k) (dirs.find? k) := by
  have hk := houses k
  generalize dbms.databases.find? k = db, dirs.find? k = dir at hk ⊢
  cases hk with
  | none => exact .none
  | some named => exact .some ⟨named, rfl⟩

/-- Directories with the same index files. -/
theorem Houses.indexFile?_eq (houses : dirs.Houses dbms)
    (h : ∀ k, Option.Rel (fun db dir => db.name = k ∧
      dir.indexFiles = ((dirs.find? k).getD {}).indexFiles)
      (dbms.databases.find? k) (dirs'.find? k)) (dbName fileName : ByteString) :
    dirs'.indexFile? dbName fileName = dirs.indexFile? dbName fileName := by
  have hk := h dbName
  have hhouse := houses dbName
  unfold indexFile?
  generalize dbms.databases.find? dbName = db, dirs'.find? dbName = dir,
    dirs.find? dbName = old at hk hhouse ⊢
  cases hk with
  | none =>
      cases hhouse
      rfl
  | some hk =>
      cases hhouse with
      | some =>
          rw [Option.bind_some, Option.bind_some, hk.2]
          rfl

/-- A database has a directory, and a directory a database. -/
theorem Houses.name_eq (houses : dirs.Houses dbms) {k : ByteString} {db : Database ι}
    (found : dbms.databases.find? k = some db) : db.name = k ∧ ∃ dir, dirs.find? k = some dir := by
  have hk := houses k
  rw [found] at hk
  generalize hdir : dirs.find? k = dir at hk
  cases hk with
  | some named => exact ⟨named, _, rfl⟩

theorem Houses.createDatabase (houses : dirs.Houses dbms) (name : ByteString) :
    Houses (dirs.emplace name {})
      { dbms with databases := dbms.databases.emplace name ⟨name, .empty⟩ } := by
  intro k
  rw [UnorderedMap.find?_emplace, UnorderedMap.find?_emplace]
  by_cases hk : k = name
  · subst hk
    rw [if_pos rfl, if_pos rfl]
    have := houses k
    generalize dbms.databases.find? k = db, dirs.find? k = dir at this
    cases this with
    | none => exact .some rfl
    | some named => exact .some named
  · rw [if_neg hk, if_neg hk]
    exact houses k

theorem Houses.dropDatabase (houses : dirs.Houses dbms) (name : ByteString) (active : ByteString) :
    Houses (dirs.erase name) { databases := dbms.databases.erase name, active } := by
  intro k
  rw [UnorderedMap.find?_erase, UnorderedMap.find?_erase]
  by_cases hk : k = name
  · rw [if_pos hk, if_pos hk]
    exact .none
  · rw [if_neg hk, if_neg hk]
    exact houses k

/-- A database of the same name takes the place of another. -/
theorem Houses.setDatabase (houses : dirs.Houses dbms) {dbName : ByteString} {db db' : Database ι}
    (found : dbms.databases.find? dbName = some db) (named : db'.name = db.name) :
    dirs.Houses (dbms.setDatabase dbName db') := by
  intro k
  rw [Dbms.setDatabase, UnorderedMap.find?_replace]
  by_cases hk : k = dbName
  · subst hk
    obtain ⟨hname, dir, hdir⟩ := houses.name_eq found
    rw [if_pos rfl, found, hdir]
    exact .some (named.trans hname)
  · rw [if_neg hk]
    exact houses k

theorem Houses.setTable (houses : dirs.Houses dbms) (dbName tableName : ByteString)
    (table : Table ByteString ι) : dirs.Houses (dbms.setTable dbName tableName table) := by
  unfold Dbms.setTable
  split
  · next db hdb => exact houses.setDatabase hdb rfl
  · exact houses

theorem sameFiles_nameIndexFile (dbName fileName : ByteString) (file : Nat) :
    SameFiles dirs (dirs.nameIndexFile dbName fileName file) := by
  intro k
  rw [nameIndexFile, find?_modifyDirectory]
  split
  · next hk =>
      rw [hk, Option.map_map]
      rfl
  · rfl

/-- A directory with one more index file. -/
theorem indexFile?_nameIndexFile {dbName : ByteString} {dir : Directory}
    (here : dirs.find? dbName = some dir) (fileName : ByteString) (file : Nat)
    (k f : ByteString) : (dirs.nameIndexFile dbName fileName file).indexFile? k f =
      if k = dbName ∧ f = fileName then some file else dirs.indexFile? k f := by
  unfold indexFile? nameIndexFile
  rw [find?_modifyDirectory, here]
  by_cases hk : k = dbName
  · subst hk
    rw [if_pos rfl, here, Option.map_some, Option.bind_some, Option.bind_some,
      UnorderedMap.find?_assign]
    simp only [true_and]
  · rw [if_neg hk, if_neg fun h => hk h.1]

/-! ## Loading -/

/-- The same databases as far as files keep them. -/
def Restores (dbms : Dbms ι) (databases : UnorderedMap ByteString (Database ι)) : Prop :=
  ∀ k, Option.Rel (fun db db' => db'.name = k ∧ ∀ tableName,
    Option.Rel Table.SameAs (db.tables.find? tableName) (db'.tables.find? tableName))
    (dbms.databases.find? k) (databases.find? k)

theorem loadFrom_eq_ok_iff {dir : Directory} {name : ByteString} {db : Database ι} :
    loadFrom name dir = .ok db ↔
      db.name = name ∧ dir.tableFiles.mapValuesM (fun _ image => image.load) = .ok db.tables := by
  unfold loadFrom
  cases dir.tableFiles.mapValuesM fun _ image =>
      (image.load : Except Fault (Table ByteString ι)) with
  | error fault => exact ⟨nofun, fun h => nomatch h.2⟩
  | ok tables =>
      constructor
      · intro h
        cases h
        exact ⟨rfl, rfl⟩
      · rintro ⟨rfl, h⟩
        cases h
        rfl

theorem loadAll_eq_ok_iff {databases : UnorderedMap ByteString (Database ι)} :
    (loadAll : EStateM Fault Directories (UnorderedMap ByteString (Database ι))) dirs =
      .ok databases dirs' ↔ dirs.mapValuesM loadFrom = .ok databases ∧ dirs' = dirs := by
  have hload : (loadAll : EStateM Fault Directories (UnorderedMap ByteString (Database ι))) dirs =
      match dirs.mapValuesM loadFrom with
      | .ok databases => .ok databases dirs
      | .error fault => .error fault dirs := by
    change (fromExcept (dirs.mapValuesM loadFrom) : EStateM Fault Directories _) dirs = _
    cases dirs.mapValuesM (loadFrom (ι := ι)) <;> rfl
  rw [hload]
  cases dirs.mapValuesM (loadFrom (ι := ι)) with
  | error fault => exact ⟨nofun, fun h => nomatch h.1⟩
  | ok loaded =>
      constructor
      · intro h
        cases h
        exact ⟨rfl, rfl⟩
      · rintro ⟨h, rfl⟩
        cases h
        rfl

/-- The tables of a database that were saved, and fit their files, are loaded. -/
theorem exists_loadFrom {dir : Directory} {name : ByteString} {db : Database ι}
    (keeps : dir.Keeps db)
    (filed : ∀ tableName table, db.tables.find? tableName = some table → table.Filed)
    (fits : ∀ tableName table, db.tables.find? tableName = some table → table.FitsFile) :
    ∃ db' : Database ι, loadFrom name dir = .ok db' ∧ ∀ tableName,
      Option.Rel Table.SameAs (db.tables.find? tableName) (db'.tables.find? tableName) := by
  have hfiles : ∀ tableName, Option.Rel (fun table image => ∃ t' : Table ByteString ι,
      image.load = .ok t' ∧ table.SameAs t')
      (db.tables.find? tableName) (dir.tableFiles.find? tableName) := by
    intro tableName
    have htable := keeps tableName
    have hfiled := filed tableName
    have hfits := fits tableName
    generalize db.tables.find? tableName = table, dir.tableFiles.find? tableName = image
      at htable hfiled hfits ⊢
    cases htable with
    | none => exact .none
    | some himage => exact .some (TableImage.load_ofTable (hfiled _ rfl) (hfits _ rfl) himage)
  have htotal : ∀ tableName image, dir.tableFiles.find? tableName = some image →
      ∃ t' : Table ByteString ι, image.load = .ok t' := by
    intro tableName image himage
    have hfile := hfiles tableName
    rw [himage] at hfile
    generalize db.tables.find? tableName = table at hfile
    cases hfile with
    | some hload =>
        obtain ⟨t', hload, -⟩ := hload
        exact ⟨t', hload⟩
  obtain ⟨tables, hmade⟩ := UnorderedMap.exists_mapValuesM htotal
  refine ⟨⟨name, tables⟩, loadFrom_eq_ok_iff.mpr ⟨rfl, hmade⟩, fun tableName => ?_⟩
  have hfile := hfiles tableName
  have hloaded := UnorderedMap.rel_mapValuesM hmade tableName
  generalize db.tables.find? tableName = table, dir.tableFiles.find? tableName = image,
    tables.find? tableName = table' at hfile hloaded ⊢
  cases hfile with
  | none =>
      cases hloaded
      exact .none
  | some hkept =>
      obtain ⟨t', hload, hsame⟩ := hkept
      cases hloaded with
      | some hload' =>
          obtain rfl := Except.ok.inj (hload.symm.trans hload')
          exact .some hsame

/-- What was saved, and fits its files, is loaded. -/
theorem Keeps.restores (keeps : dirs.Keeps dbms)
    (filed : ∀ dbName tableName table, dbms.table? dbName tableName = some table → table.Filed)
    (fits : dbms.FitsFiles) :
    ∃ databases, (loadAll : EStateM Fault Directories (UnorderedMap ByteString (Database ι))) dirs =
      .ok databases dirs ∧ Restores dbms databases := by
  have hdirs : ∀ k, Option.Rel (fun db dir => ∃ db' : Database ι, loadFrom k dir = .ok db' ∧
      ∀ tableName, Option.Rel Table.SameAs (db.tables.find? tableName) (db'.tables.find? tableName))
      (dbms.databases.find? k) (dirs.find? k) := by
    intro k
    have hk := keeps k
    have hfiled := filed k
    have hfits := fits k
    unfold Dbms.table? at hfiled hfits
    generalize dbms.databases.find? k = db, dirs.find? k = dir at hk hfiled hfits ⊢
    cases hk with
    | none => exact .none
    | some hkeeps => exact .some (exists_loadFrom hkeeps hfiled hfits)
  have htotal : ∀ k dir, dirs.find? k = some dir → ∃ db : Database ι, loadFrom k dir = .ok db := by
    intro k dir hdir
    have hk := hdirs k
    rw [hdir] at hk
    generalize dbms.databases.find? k = db at hk
    cases hk with
    | some hload =>
        obtain ⟨db', hload, -⟩ := hload
        exact ⟨db', hload⟩
  obtain ⟨databases, hmade⟩ := UnorderedMap.exists_mapValuesM htotal
  refine ⟨databases, loadAll_eq_ok_iff.mpr ⟨hmade, rfl⟩, fun k => ?_⟩
  have hk := hdirs k
  have hloaded := UnorderedMap.rel_mapValuesM hmade k
  generalize dbms.databases.find? k = db, dirs.find? k = dir, databases.find? k = db'
    at hk hloaded ⊢
  cases hk with
  | none =>
      cases hloaded
      exact .none
  | some hkept =>
      obtain ⟨db', hload, hsame⟩ := hkept
      cases hloaded with
      | some hload' =>
          obtain rfl := Except.ok.inj (hload.symm.trans hload')
          exact .some ⟨(loadFrom_eq_ok_iff.mp hload).1, hsame⟩

/-- A loaded table comes from a file of its name. -/
theorem exists_image_of_loadAll {databases : UnorderedMap ByteString (Database ι)}
    {active : ByteString}
    (load : (loadAll : EStateM Fault Directories (UnorderedMap ByteString (Database ι))) dirs =
      .ok databases dirs') {dbName tableName : ByteString} {loaded : Table ByteString ι}
    (found : Dbms.table? ⟨databases, active⟩ dbName tableName = some loaded) :
    ∃ dir image, dirs.find? dbName = some dir ∧ dir.tableFiles.find? tableName = some image ∧
      image.load = .ok loaded := by
  obtain ⟨hmade, -⟩ := loadAll_eq_ok_iff.mp load
  obtain ⟨db, hdb, htable⟩ := Option.bind_eq_some_iff.mp found
  have hdir := UnorderedMap.rel_mapValuesM hmade dbName
  rw [hdb] at hdir
  generalize dirs.find? dbName = dir at hdir
  cases hdir with
  | @some dir _ hload =>
      have himage := UnorderedMap.rel_mapValuesM (loadFrom_eq_ok_iff.mp hload).2 tableName
      rw [htable] at himage
      generalize hfile : dir.tableFiles.find? tableName = image at himage
      cases himage with
      | some hloaded => exact ⟨dir, _, rfl, hfile, hloaded⟩

/-- A loaded table has no indexes. -/
theorem indexes_loadAll {databases : UnorderedMap ByteString (Database ι)} {active : ByteString}
    (load : (loadAll : EStateM Fault Directories (UnorderedMap ByteString (Database ι))) dirs =
      .ok databases dirs') {dbName tableName : ByteString} {loaded : Table ByteString ι}
    (found : Dbms.table? ⟨databases, active⟩ dbName tableName = some loaded) :
    loaded.indexes = .empty := by
  obtain ⟨-, image, -, -, hloaded⟩ := exists_image_of_loadAll load found
  exact TableImage.indexes_load hloaded

/-- The databases that are loaded have their directories. -/
theorem houses_loadAll {databases : UnorderedMap ByteString (Database ι)}
    (load : (loadAll : EStateM Fault Directories (UnorderedMap ByteString (Database ι))) dirs =
      .ok databases dirs') (active : ByteString) : dirs.Houses ⟨databases, active⟩ := by
  obtain ⟨hmade, -⟩ := loadAll_eq_ok_iff.mp load
  intro k
  have hk := UnorderedMap.rel_mapValuesM hmade k
  change Option.Rel _ (databases.find? k) _
  generalize dirs.find? k = dir, databases.find? k = db at hk ⊢
  cases hk with
  | none => exact .none
  | some hload => exact .some (loadFrom_eq_ok_iff.mp hload).1

/-- A table that was saved can be saved. -/
theorem Keeps.listed (keeps : dirs.Keeps dbms) {dbName tableName : ByteString}
    {table : Table ByteString ι} (found : dbms.table? dbName tableName = some table) :
    table.Listed := by
  obtain ⟨db, hdb, htable⟩ := Option.bind_eq_some_iff.mp found
  have hk := keeps dbName
  rw [hdb] at hk
  generalize dirs.find? dbName = dir at hk
  cases hk with
  | @some _ dir hkeeps =>
      have himage := hkeeps tableName
      rw [htable] at himage
      generalize dir.tableFiles.find? tableName = image at himage
      cases himage with
      | some himage => exact TableImage.listed_of_ofTable himage

theorem Restores.table {dbName tableName : ByteString}
    {databases : UnorderedMap ByteString (Database ι)} (h : Restores dbms databases)
    (active : ByteString) : Option.Rel Table.SameAs (dbms.table? dbName tableName)
      (Dbms.table? ⟨databases, active⟩ dbName tableName) := by
  have hk := h dbName
  unfold Dbms.table?
  generalize dbms.databases.find? dbName = db, databases.find? dbName = db' at hk
  cases hk with
  | none => exact .none
  | some hk => exact hk.2 tableName

/-- A table takes the place of another that is the same for the files. -/
theorem Restores.setTable {loaded : Dbms ι} (h : Restores dbms loaded.databases)
    {dbName tableName : ByteString} {old new : Table ByteString ι}
    (found : loaded.table? dbName tableName = some old)
    (same : ∀ table, dbms.table? dbName tableName = some table → table.SameAs new) :
    Restores dbms (loaded.setTable dbName tableName new).databases := by
  obtain ⟨db, hdb, htable⟩ := Option.bind_eq_some_iff.mp found
  intro k
  have hk := h k
  have hset : (loaded.setTable dbName tableName new).databases.find? k =
      if k = dbName then some { db with tables := db.tables.replace tableName new }
      else loaded.databases.find? k := by
    unfold Dbms.setTable
    simp only [hdb]
    rw [Dbms.setDatabase, UnorderedMap.find?_replace, hdb, Option.map_some]
  rw [hset]
  by_cases hname : k = dbName
  · subst hname
    rw [hdb] at hk
    rw [if_pos rfl]
    unfold Dbms.table? at same
    generalize dbms.databases.find? k = saved at hk same ⊢
    cases hk with
    | @some savedDb _ hk =>
        refine .some ⟨hk.1, fun t => ?_⟩
        have ht := hk.2 t
        dsimp only
        rw [UnorderedMap.find?_replace]
        by_cases hsame : t = tableName
        · subst hsame
          rw [Option.bind_some] at same
          rw [htable] at ht
          rw [if_pos rfl, htable, Option.map_some]
          generalize savedDb.tables.find? t = table at ht same ⊢
          cases ht with
          | some _ => exact .some (same _ rfl)
        · rw [if_neg hsame]
          exact ht
  · rw [if_neg hname]
    exact hk

end Directories

/-! ## Data directories with such directories -/

/-- A data directory that is its directories and more: the indexes leave the directories alone,
and making one touches no table file. -/
structure OverDirectories {ω : Type} (x : IIndex ι ω) (d : DataRoot ι ω) (get : ω → Directories)
    (set : ω → Directories → ω) : Prop where
  get_set : ∀ w dirs, get (set w dirs) = dirs
  set_get : ∀ w, set w (get w) = w
  set_set : ∀ w dirs dirs', set (set w dirs) dirs' = set w dirs'
  createDirectories : ∀ name,
    d.createDirectories name = zoom get set (Directories.createDirectories name)
  removeAll : ∀ name w, d.removeAll name w = set w ((get w).erase name)
  saveTo : ∀ name db, d.saveTo name db = zoom get set (Directories.saveTo name db)
  insert : ∀ dirs i k id, Maintains (fun w => get w = dirs) (x.insert i k id)
  erase : ∀ dirs i k, Maintains (fun w => get w = dirs) (x.erase i k)
  makeIndexForColumn : ∀ dbName tableName column w dir, (get w).find? dbName = some dir →
    Ends (d.makeIndexForColumn dbName tableName column) w
      (fun _ w' => Directories.SameFiles (get w) (get w'))
      (fun _ w' => Directories.SameFiles (get w) (get w'))

/-- Every id that a table lists has a row. -/
def Dbms.Listed (dbms : Dbms ι) : Prop :=
  ∀ dbName tableName table, dbms.table? dbName tableName = some table → table.Listed

section OverDirectories

variable {ω : Type} {x : IIndex ι ω} {d : DataRoot ι ω} {get : ω → Directories}
  {set : ω → Directories → ω}

/-- Saving writes the tables of all databases, and nothing else but table files. -/
theorem OverDirectories.ends_saveAll (layered : OverDirectories x d get set) {st : DbmsState ι ω}
    (houses : (get st.world).Houses st.dbms) :
    Ends (@Dbms.saveAll ι ω d) st
      (fun _ st' => ∃ dirs, st' = { st with world := set st.world dirs } ∧ dirs.Keeps st.dbms ∧
        dirs.Houses st.dbms ∧ ∀ dbName fileName, dirs.indexFile? dbName fileName =
          (get st.world).indexFile? dbName fileName)
      (fun _ st' => ∃ dirs, st' = { st with world := set st.world dirs } ∧
        dirs.Houses st.dbms ∧ (∀ dbName fileName, dirs.indexFile? dbName fileName =
          (get st.world).indexFile? dbName fileName) ∧ ¬ st.dbms.Listed) := by
  unfold Dbms.saveAll
  rw [ends_bind, ends_get]
  -- The directories of the databases behind the loop; the others are as they were.
  let Passed (before : List (ByteString × Database ι)) (st' : DbmsState ι ω) : Prop :=
    ∃ dirs, st' = { st with world := set st.world dirs } ∧
      (∀ k, k ∉ before.map Prod.fst → dirs.find? k = (get st.world).find? k) ∧
      ∀ entry ∈ before, ∃ dir, dirs.find? entry.1 = some dir ∧ dir.Keeps entry.2 ∧
        dir.indexFiles = (((get st.world).find? entry.1).getD {}).indexFiles
  have hstart : Passed [] st := ⟨get st.world, by rw [layered.set_get], fun _ _ => rfl, nofun⟩
  refine (ends_forM hstart ?_).mono ?_ fun _ _ h => h
  · rintro before ⟨name, db⟩ after - hsplit ⟨dirs, rfl, hothers, hpassed⟩
    have hmem : (name, db) ∈ st.dbms.databases.entries := by rw [hsplit]; simp
    have hfound := UnorderedMap.find?_eq_some_iff.mpr hmem
    have hnodup := st.dbms.databases.nodup
    rw [hsplit, List.map_append, List.nodup_append] at hnodup
    have hnew : name ∉ before.map Prod.fst := fun hname =>
      hnodup.2.2 _ hname _ List.mem_cons_self rfl
    dsimp only
    rw [Dbms.onWorld, ends_zoom, layered.saveTo, ends_zoom, layered.get_set]
    refine Directories.ends_saveTo.mono ?_ ?_
    · rintro - dirs' ⟨hsame, dir, hdir, hkeeps, hfiles⟩
      refine ⟨dirs', by rw [layered.set_set], fun k hk => ?_, fun entry hentry => ?_⟩
      · rw [List.map_append, List.mem_append, not_or] at hk
        rw [hsame k fun h => hk.2 (by simp [h]), hothers k hk.1]
      · rcases List.mem_append.mp hentry with hentry | hentry
        · rw [hsame entry.1 fun h => hnew (h ▸ List.mem_map_of_mem hentry)]
          exact hpassed entry hentry
        · obtain rfl := List.mem_singleton.mp hentry
          rw [hothers name hnew] at hfiles
          exact ⟨dir, hdir, hkeeps, hfiles⟩
    · rintro - dirs' ⟨hsame, ⟨dir, hdir, hfiles⟩, tableName, table, htable, hunlisted⟩
      have hdirs : ∀ k, Option.Rel (fun db dir => db.name = k ∧
          dir.indexFiles = (((get st.world).find? k).getD {}).indexFiles)
          (st.dbms.databases.find? k) (dirs'.find? k) := by
        intro k
        by_cases hk : k = name
        · subst hk
          rw [hothers k hnew] at hfiles
          rw [hfound, hdir]
          exact .some ⟨(houses.name_eq hfound).1, hfiles⟩
        · rw [hsame k hk]
          by_cases hbefore : k ∈ before.map Prod.fst
          · obtain ⟨entry, hentry, rfl⟩ := List.mem_map.mp hbefore
            obtain ⟨dir, hdir, -, hfiles⟩ := hpassed entry hentry
            have hentry : entry ∈ st.dbms.databases.entries := by
              rw [hsplit]
              exact List.mem_append_left _ hentry
            have hfound := UnorderedMap.find?_eq_some_iff.mpr hentry
            rw [hfound, hdir]
            exact .some ⟨(houses.name_eq hfound).1, hfiles⟩
          · rw [hothers k hbefore]
            exact houses.rel_indexFiles k
      refine ⟨dirs', by rw [layered.set_set], fun k => rel_mono (hdirs k) fun _ _ h => h.1,
        houses.indexFile?_eq hdirs, fun listed => ?_⟩
      exact hunlisted (listed name tableName table ((Dbms.table?_of_find? hfound).trans htable))
  · rintro - - ⟨dirs, rfl, hothers, hpassed⟩
    have hdirs : ∀ k, Option.Rel (fun db dir => dir.Keeps db ∧ db.name = k ∧
        dir.indexFiles = (((get st.world).find? k).getD {}).indexFiles)
        (st.dbms.databases.find? k) (dirs.find? k) := by
      intro k
      cases hdb : st.dbms.databases.find? k with
      | none =>
          have hk := houses.rel_indexFiles k
          rw [hothers k (UnorderedMap.find?_eq_none_iff.mp hdb)]
          rw [hdb] at hk
          generalize (get st.world).find? k = dir at hk ⊢
          cases hk
          exact .none
      | some db =>
          obtain ⟨dir, hdir, hkeeps, hfiles⟩ :=
            hpassed _ (UnorderedMap.find?_eq_some_iff.mp hdb)
          rw [hdir]
          exact .some ⟨hkeeps, (houses.name_eq hdb).1, hfiles⟩
    exact ⟨dirs, rfl, fun k => rel_mono (hdirs k) fun _ _ h => h.1,
      fun k => rel_mono (hdirs k) fun _ _ h => h.2.1,
      houses.indexFile?_eq fun k => rel_mono (hdirs k) fun _ _ h => h.2⟩

end OverDirectories

/-! ## Index files -/

/-- What is done to an index object leaves the directories alone. -/
theorem maintains_onObject {α : Type} {dirs : Directories} (p : IndexPointer) (m : IndexM α) :
    Maintains (fun w => w.directories = dirs) (DataDirectory.onObject p m) := by
  refine .get_bind fun w _ => ?_
  cases w.object? p.number with
  | none => exact .throw _
  | some idx =>
      refine .zoom fun w hw => ?_
      have hset : ∀ idx', (DataDirectory.setObject p.number w idx').directories = dirs := by
        intro idx'
        unfold DataDirectory.setObject
        split
        · exact hw
        · exact hw
      unfold Ends
      split
      · exact hset _
      · exact hset _

theorem maintains_withIndexKey {ω α : Type} {I : ω → Prop} (value : Value ByteString)
    {call : IndexKey → EStateM Fault ω α} (each : ∀ key, Maintains I (call key)) :
    Maintains I (withIndexKey value call) := by
  unfold withIndexKey
  cases toIndexKey value with
  | ok key => exact each key
  | error fault => exact .throw fault

/-- A new index object, or none, and a name for its file. -/
theorem ends_openIndex (dbName fileName : ByteString) (keyKind : IndexKeyKind)
    (w : DataDirectory) : Ends (DataDirectory.openIndex dbName fileName keyKind) w
      (fun _ w' => Directories.SameFiles w.directories w'.directories)
      (fun _ w' => Directories.SameFiles w.directories w'.directories) := by
  unfold DataDirectory.openIndex
  rw [ends_bind, ends_get]
  dsimp only
  rw [ends_bind, ends_set, ends_bind, ends_fromExcept]
  have hsame : ∀ file, Directories.SameFiles w.directories
      (w.directories.nameIndexFile dbName fileName file) :=
    Directories.sameFiles_nameIndexFile dbName fileName
  refine ⟨fun _ _ => ?_, fun _ _ => hsame _⟩
  rw [ends_bind, ends_modify]
  exact hsame _

/-- The data directory is its directories, the index files and the objects. -/
theorem overDirectories_files : OverDirectories DataDirectory.index DataDirectory.root
    DataDirectory.directories (fun w directories => { w with directories }) where
  get_set _ _ := rfl
  set_get _ := rfl
  set_set _ _ _ := rfl
  createDirectories _ := rfl
  removeAll _ _ := rfl
  saveTo _ _ := rfl
  insert _ i k _ := maintains_withIndexKey k fun _ => maintains_onObject i.index _
  erase _ i k := maintains_withIndexKey k fun _ => maintains_onObject i.index _
  makeIndexForColumn dbName tableName column w dir here := by
    change Ends (DataDirectory.makeIndexForColumn dbName tableName column) w _ _
    unfold DataDirectory.makeIndexForColumn
    rw [ends_bind, DataDirectory.onDirectories, ends_zoom, Directories.createDirectories,
      ends_modify, UnorderedMap.emplace_of_mem (UnorderedMap.mem_keys_iff.mpr ⟨dir, here⟩),
      ends_bind]
    exact (ends_openIndex _ _ _ w).mono (fun _ _ h => h) fun _ _ h => h

end CwDb.Storage
