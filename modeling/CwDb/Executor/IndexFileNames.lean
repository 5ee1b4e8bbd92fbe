/-
  Executor/IndexFileNames.lean --- which file an attached index has open.

  It is the file that the directory has under the name of the column, whether it was made for
  the index or found there, and no file has two names.
-/
import CwDb.Executor.EveryTable

set_option autoImplicit false

namespace CwDb.Executor

open CwDb.Cpp
open CwDb.Foundation
open CwDb.Index
open CwDb.Sql
open CwDb.Storage

/-! ## The invariant -/

/-- Every name of an index file leads to a file, and different names to different files. -/
structure DistinctFiles (w : DataDirectory) : Prop where
  below : ∀ dbName fileName n, w.directories.indexFile? dbName fileName = some n →
    n < w.files.length
  oneName : ∀ d f d' f' n, w.directories.indexFile? d f = some n →
    w.directories.indexFile? d' f' = some n → d = d' ∧ f = f'

/-- The indexes of the table have the files open that go by the names of their columns. -/
def HasNamedFiles : TableProperty IndexRef DataDirectory := fun dbName tableName table w =>
  ∀ column i, table.indexes.find? column = some i →
    ∃ c object, table.schema.columns[column]? = some c ∧
      w.objects[i.index.number]? = some object ∧
      w.directories.indexFile? dbName (indexFileName tableName c.name) = some object.file

/-- Objects keep their files, and files their names. -/
structure KeepsNames (w w' : DataDirectory) : Prop where
  objects : ∀ (n : Nat) object, w.objects[n]? = some object →
    ∃ object', w'.objects[n]? = some object' ∧ object'.file = object.file
  names : ∀ dbName fileName n, w.directories.indexFile? dbName fileName = some n →
    w'.directories.indexFile? dbName fileName = some n

section Names

variable {w w' w'' : DataDirectory} {dbName tableName : ByteString}
  {table : Table ByteString IndexRef}

theorem KeepsNames.refl (w : DataDirectory) : KeepsNames w w :=
  ⟨fun _ object h => ⟨object, h, rfl⟩, fun _ _ _ h => h⟩

theorem KeepsNames.trans (h : KeepsNames w w') (h' : KeepsNames w' w'') : KeepsNames w w'' := by
  refine ⟨fun n object hobject => ?_, fun d f n hn => h'.names d f n (h.names d f n hn)⟩
  obtain ⟨object', hobject', hfile⟩ := h.objects n object hobject
  obtain ⟨object'', hobject'', hfile'⟩ := h'.objects n object' hobject'
  exact ⟨object'', hobject'', hfile'.trans hfile⟩

theorem HasNamedFiles.keepsNames (h : HasNamedFiles dbName tableName table w)
    (keeps : KeepsNames w w') : HasNamedFiles dbName tableName table w' := by
  intro column i hi
  obtain ⟨c, object, hc, hobject, hname⟩ := h column i hi
  obtain ⟨object', hobject', hfile⟩ := keeps.objects _ object hobject
  exact ⟨c, object', hc, hobject', hfile ▸ keeps.names _ _ _ hname⟩

/-- Two indexes in one file are indexes of one database, under one name. -/
theorem HasNamedFiles.names_eq {dbName' tableName' : ByteString}
    {table' : Table ByteString IndexRef} (h : HasNamedFiles dbName tableName table w)
    (h' : HasNamedFiles dbName' tableName' table' w) (distinct : DistinctFiles w)
    {column column' : Nat} {i i' : IndexRef} {object object' : IndexObject}
    (attached : table.indexes.find? column = some i)
    (attached' : table'.indexes.find? column' = some i')
    (here : w.objects[i.index.number]? = some object)
    (here' : w.objects[i'.index.number]? = some object') (same : object.file = object'.file) :
    ∃ c c', table.schema.columns[column]? = some c ∧ table'.schema.columns[column']? = some c' ∧
      dbName = dbName' ∧ indexFileName tableName c.name = indexFileName tableName' c'.name := by
  obtain ⟨c, found, hc, hfound, hname⟩ := h column i attached
  obtain ⟨c', found', hc', hfound', hname'⟩ := h' column' i' attached'
  obtain rfl := Option.some.inj (hfound.symm.trans here)
  obtain rfl := Option.some.inj (hfound'.symm.trans here')
  exact ⟨c, c', hc, hc', distinct.oneName _ _ _ _ _ hname (same ▸ hname')⟩

end Names

/-! ## Calls on indexes -/

/-- The directories and the number of the files are those of `u`, and so are the files of its
objects. -/
structure SamePlaces (u w : DataDirectory) : Prop where
  directories : w.directories = u.directories
  files : w.files.length = u.files.length
  keeps : KeepsNames u w

namespace SamePlaces

variable {u w : DataDirectory}

theorem refl (u : DataDirectory) : SamePlaces u u := ⟨rfl, rfl, .refl u⟩

theorem distinctFiles (same : SamePlaces u w) (distinct : DistinctFiles u) : DistinctFiles w := by
  refine ⟨fun d f n hn => ?_, fun d f d' f' n hn hn' => ?_⟩
  · rw [same.directories] at hn
    exact same.files ▸ distinct.below d f n hn
  · rw [same.directories] at hn hn'
    exact distinct.oneName d f d' f' n hn hn'

theorem setObject (same : SamePlaces u w) (number : Nat) (idx : BStarPlusIndex) :
    SamePlaces u (DataDirectory.setObject number w idx) := by
  unfold DataDirectory.setObject
  cases hobject : w.objects[number]? with
  | none => exact same
  | some object =>
      refine ⟨same.directories, by simpa using same.files, same.keeps.trans ⟨?_, fun _ _ _ h => h⟩⟩
      intro n other hother
      by_cases hn : number = n
      · subst hn
        obtain rfl := Option.some.inj (hobject.symm.trans hother)
        exact ⟨_, List.getElem?_set_self (List.getElem?_eq_some_iff.mp hobject).1, rfl⟩
      · exact ⟨other, (List.getElem?_set_ne hn).trans hother, rfl⟩

/-- Calls on the objects leave all in its place. -/
theorem maintains_onObject {α : Type} (p : IndexPointer) (m : IndexM α) :
    Maintains (SamePlaces u) (DataDirectory.onObject p m) := by
  refine .get_bind fun w _ => ?_
  cases w.object? p.number with
  | none => exact .throw _
  | some idx =>
      refine .zoom fun w hw => ?_
      unfold Ends
      split
      · exact hw.setObject _ _
      · exact hw.setObject _ _

theorem maintains_insert (i : IndexRef) (k : Value ByteString) (id : RowId) :
    Maintains (SamePlaces u) (@IIndex.insert _ _ DataDirectory.index i k id) :=
  maintains_withIndexKey k fun _ => maintains_onObject i.index _

theorem maintains_erase (i : IndexRef) (k : Value ByteString) :
    Maintains (SamePlaces u) (@IIndex.erase _ _ DataDirectory.index i k) :=
  maintains_withIndexKey k fun _ => maintains_onObject i.index _

/-- Schema and indexes of the table stay, and all in its place. -/
theorem closedUnderRows (u : DataDirectory) (table : Table ByteString IndexRef) :
    @ClosedUnderRows _ _ DataDirectory.index (fun t : Table ByteString IndexRef =>
      t.schema = table.schema ∧ t.indexes = table.indexes) (SamePlaces u) :=
  letI := DataDirectory.index
  { insert := fun _ _ _ h => h
    update := fun _ _ _ h => h
    erase := fun _ _ h => h
    indexInsert := maintains_insert
    indexErase := maintains_erase }

end SamePlaces

/-! ## Indexes that are made -/

section Making

variable {w : DataDirectory} {dbName : ByteString} {dir : Directory}

/-- A file that is there keeps its number, and one that is not gets the next. -/
theorem DistinctFiles.putFile (distinct : DistinctFiles w)
    (here : w.directories.find? dbName = some dir)
    (fileName : ByteString) (file : IndexFile) (objects : List IndexObject) :
    let number := (w.directories.indexFile? dbName fileName).getD w.files.length
    let directories := w.directories.nameIndexFile dbName fileName number
    DistinctFiles ⟨directories, DataDirectory.putFile w.files number file, objects⟩ ∧
      directories.indexFile? dbName fileName = some number ∧
      ∀ d f n, w.directories.indexFile? d f = some n → directories.indexFile? d f = some n := by
  intro number directories
  have hname : ∀ d f, directories.indexFile? d f =
      if d = dbName ∧ f = fileName then some number else w.directories.indexFile? d f :=
    Directories.indexFile?_nameIndexFile here fileName number
  -- No other name leads to the number.
  have hnew : ∀ d f, w.directories.indexFile? d f = some number → d = dbName ∧ f = fileName := by
    intro d f hn
    cases hfound : w.directories.indexFile? dbName fileName with
    | some found =>
        have hnumber : number = found := by simp only [number, hfound, Option.getD_some]
        rw [hnumber] at hn
        exact distinct.oneName _ _ _ _ found hn hfound
    | none =>
        have hnumber : number = w.files.length := by simp only [number, hfound, Option.getD_none]
        exact absurd (distinct.below d f number hn) (by omega)
  have hlength : number < (DataDirectory.putFile w.files number file).length ∧
      w.files.length ≤ (DataDirectory.putFile w.files number file).length := by
    unfold DataDirectory.putFile
    split
    · next hlt => exact ⟨by simpa using hlt, by simp⟩
    · next hge =>
        cases hfound : w.directories.indexFile? dbName fileName with
        | some found =>
            have hnumber : number = found := by simp only [number, hfound, Option.getD_some]
            exact absurd (hnumber ▸ distinct.below _ _ found hfound) hge
        | none =>
            have hnumber : number = w.files.length := by
              simp only [number, hfound, Option.getD_none]
            rw [List.length_append, List.length_singleton]
            omega
  refine ⟨⟨fun d f n hn => ?_, fun d f d' f' n hn hn' => ?_⟩, ?_, fun d f n hn => ?_⟩
  · change directories.indexFile? d f = some n at hn
    rw [hname] at hn
    split at hn
    · cases hn
      exact hlength.1
    · exact lt_of_lt_of_le (distinct.below d f n hn) hlength.2
  · change directories.indexFile? d f = some n at hn
    change directories.indexFile? d' f' = some n at hn'
    rw [hname] at hn hn'
    split at hn <;> split at hn'
    · next h h' => exact ⟨h.1.trans h'.1.symm, h.2.trans h'.2.symm⟩
    · next h h' =>
        cases hn
        exact absurd (hnew d' f' hn') h'
    · next h h' =>
        cases hn'
        exact absurd (hnew d f hn) h
    · exact distinct.oneName d f d' f' n hn hn'
  · rw [hname, if_pos ⟨rfl, rfl⟩]
  · rw [hname]
    split
    · next h =>
        rw [h.1, h.2] at hn
        simp only [number, hn, Option.getD_some]
    · exact hn

/-- An index is made in the file of its name. -/
theorem ends_makeIndexForColumn_names (distinct : DistinctFiles w)
    (here : w.directories.find? dbName = some dir) (tableName : ByteString)
    (c : ColumnDef ByteString) :
    Ends (DataDirectory.makeIndexForColumn dbName tableName c) w
      (fun i w' => (DistinctFiles w' ∧ KeepsNames w w' ∧
        ∃ dir', w'.directories.find? dbName = some dir') ∧
        ∃ object, w'.objects[i.index.number]? = some object ∧
          w'.directories.indexFile? dbName (indexFileName tableName c.name) = some object.file)
      (fun _ w' => DistinctFiles w' ∧ KeepsNames w w') := by
  unfold DataDirectory.makeIndexForColumn
  rw [ends_bind, DataDirectory.onDirectories, ends_zoom, Directories.createDirectories,
    ends_modify, UnorderedMap.emplace_of_mem (UnorderedMap.mem_keys_iff.mpr ⟨dir, here⟩),
    ends_bind]
  unfold DataDirectory.openIndex
  rw [ends_bind, ends_get]
  dsimp only
  generalize hopen : answerOf (BStarPlusIndex.loadMetadata (keyKindOf c.type)) _ = opened
  have hput := fun objects => distinct.putFile here (indexFileName tableName c.name)
    opened.2.disk.file objects
  rw [ends_bind, ends_set, ends_bind, ends_fromExcept]
  have hobjects : ∀ (n : Nat) object, w.objects[n]? = some object →
      ∃ object', w.objects[n]? = some object' ∧ object'.file = object.file :=
    fun _ object h => ⟨object, h, rfl⟩
  refine ⟨fun _ _ => ?_, fun _ _ => ⟨(hput w.objects).1, hobjects, (hput w.objects).2.2⟩⟩
  rw [ends_bind, ends_modify, ends_pure, ends_pure]
  refine ⟨⟨(hput _).1, ⟨fun n object hobject => ⟨object, ?_, rfl⟩, (hput w.objects).2.2⟩, ?_⟩,
    _, List.getElem?_concat_length, (hput w.objects).2.1⟩
  · exact (List.getElem?_append_left (List.getElem?_eq_some_iff.mp hobject).1).trans hobject
  · dsimp only
    rw [Directories.nameIndexFile, Directories.find?_modifyDirectory, if_pos rfl, here]
    exact ⟨_, rfl⟩

/-- An index is attached, and the rows go into it. -/
theorem ends_attachIndex_places {s : TableState IndexRef DataDirectory} {column : Nat}
    {i : IndexRef} (inRange : column < s.table.schema.columnCount) :
    let attached : Table ByteString IndexRef :=
      { s.table with indexes := s.table.indexes.assign column i }
    Ends (@Table.attachIndex _ _ DataDirectory.index column (some i) true) s
      (fun _ s' => s'.table = attached ∧ SamePlaces s.world s'.world)
      (fun _ s' => s'.table = attached ∧ SamePlaces s.world s'.world) := by
  intro attached
  let := DataDirectory.index
  unfold Table.attachIndex
  rw [ends_bind, ends_get, ends_ite, if_neg (Nat.not_le.mpr inRange)]
  dsimp only
  rw [Table.modifyTable, ends_bind, ends_modify, if_pos rfl]
  have hrows : Maintains (Within (fun t => t = attached) (SamePlaces s.world))
      (s.table.order.forM fun rowId => do
        let row ← fromExcept (s.table.rowAt rowId)
        let value ← fromExcept (vectorAt row column)
        Table.onWorld (IIndex.insert i value rowId) : TableM IndexRef DataDirectory PUnit) := by
    refine .forM fun rowId _ => (Maintains.fromExcept _).bind fun row => ?_
    refine (Maintains.fromExcept _).bind fun value => ?_
    exact ClosedUnderChanges.onWorld (SamePlaces.maintains_insert i value rowId)
  exact hrows _ ⟨rfl, .refl _⟩

/-- What the loop of `attach_indexes_for_table` keeps. -/
structure Attaching (u : DataDirectory) (dbName tableName : ByteString)
    (schema : TableSchema ByteString) (s : TableState IndexRef DataDirectory) : Prop where
  distinct : DistinctFiles s.world
  keeps : KeepsNames u s.world
  schema : s.table.schema = schema
  named : HasNamedFiles dbName tableName s.table s.world

theorem ends_attachIndexesForTable_files {tableName : ByteString}
    {table : Table ByteString IndexRef} (distinct : DistinctFiles w)
    (here : w.directories.find? dbName = some dir)
    (named : HasNamedFiles dbName tableName table w) :
    Ends (@Engine.attachIndexesForTable _ _ DataDirectory.index DataDirectory.root dbName tableName)
      ⟨table, w⟩
      (fun _ s' => Attaching w dbName tableName table.schema s')
      (fun _ s' => Attaching w dbName tableName table.schema s') := by
  let := DataDirectory.index
  unfold Engine.attachIndexesForTable
  rw [ends_bind, ends_get]
  have hstart : Attaching w dbName tableName table.schema ⟨table, w⟩ ∧
      ∃ dir', w.directories.find? dbName = some dir' :=
    ⟨⟨distinct, .refl w, rfl, named⟩, dir, here⟩
  refine (ends_forM (I := fun _ s => Attaching w dbName tableName table.schema s ∧
    ∃ dir', s.world.directories.find? dbName = some dir') hstart ?_).mono (fun _ _ h => h.1)
      fun _ _ h => h
  rintro before ⟨c, column⟩ after s hsplit ⟨hs, hhere⟩
  have hc : s.table.schema.columns[column]? = some c := by
    have hmem : (c, column) ∈ table.schema.columns.zipIdx := by rw [hsplit]; simp
    rw [hs.schema]
    exact List.mem_zipIdx_iff_getElem?.mp hmem
  rw [ends_bind, ends_get, ends_ite]
  split
  · rw [ends_ite]
    split
    · exact ⟨hs, hhere⟩
    · obtain ⟨dir', hdir'⟩ := hhere
      rw [ends_bind, Table.onWorld, ends_zoom]
      refine (ends_makeIndexForColumn_names hs.distinct hdir' tableName c).mono ?_ ?_
      · rintro i w' ⟨⟨hdistinct, hkeeps, hhere'⟩, object, hobject, hname⟩
        have hnext : ∀ s' : TableState IndexRef DataDirectory,
            s'.table = { s.table with indexes := s.table.indexes.assign column i } →
            SamePlaces w' s'.world → Attaching w dbName tableName table.schema s' ∧
              ∃ dir', s'.world.directories.find? dbName = some dir' := by
          intro s' htable hplaces
          refine ⟨⟨hplaces.distinctFiles hdistinct, (hs.keeps.trans hkeeps).trans hplaces.keeps,
            htable ▸ hs.schema, ?_⟩, hplaces.directories ▸ hhere'⟩
          refine HasNamedFiles.keepsNames (fun column' j hj => ?_) hplaces.keeps
          rw [htable] at hj ⊢
          dsimp only at hj ⊢
          rw [UnorderedMap.find?_assign] at hj
          split at hj
          · next heq =>
              cases hj
              exact ⟨c, object, heq ▸ hc, hobject, hname⟩
          · exact hs.named.keepsNames hkeeps column' j hj
        exact (ends_attachIndex_places (s := ⟨s.table, w'⟩)
          (List.getElem?_eq_some_iff.mp hc).1).mono (fun _ s' h => hnext s' h.1 h.2)
            fun _ s' h => (hnext s' h.1 h.2).1
      · rintro - w' ⟨hdistinct, hkeeps⟩
        exact ⟨hdistinct, hs.keeps.trans hkeeps, hs.schema, hs.named.keepsNames hkeeps⟩
  · exact ⟨hs, hhere⟩

end Making

end CwDb.Executor
