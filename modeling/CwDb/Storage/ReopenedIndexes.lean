/-
  Storage/ReopenedIndexes.lean --- `make_index_for_column` where the index files are maps.

  An index file that is there is opened again, with the keys that it has; DROP TABLE leaves
  the files of its indexes behind.  The index of a column is a new and empty one just where
  there is no file of its name, or one with nothing in it.
-/
import CwDb.Storage.DirectorySimulation
import CwDb.Storage.SavedTables

set_option autoImplicit false

namespace CwDb.Storage

open CwDb.Cpp
open CwDb.Foundation
open CwDb.Index

namespace MapDirectory

/-- `DbmsQueryEngine::make_index_for_column`: the map of the name, if there is one. -/
def reopenIndexForColumn (dbName tableName : ByteString) (column : ColumnDef ByteString) :
    EStateM Fault MapDirectory IndexRef := do
  let w ← get
  match w.directories.indexFile? dbName (indexFileName tableName column.name) with
  | some number => do
      onDirectories (Directories.createDirectories dbName)
      pure ⟨⟨number, keyKindOf column.type⟩⟩
  | none => makeIndexForColumn dbName tableName column

/-- The directory whose indexes outlive their tables. -/
abbrev reopeningRoot : DataRoot IndexRef MapDirectory where
  createDirectories := DataRoot.createDirectories IndexRef
  removeAll := DataRoot.removeAll IndexRef
  saveTo := DataRoot.saveTo
  loadAll := DataRoot.loadAll
  makeIndexForColumn := reopenIndexForColumn

/-- A file of the name, if there is one, has no other name, is of the kind of the column, holds no
key and is not the file of an index in use. -/
def IsClear (used : IndexRef → Prop) (w : MapDirectory) (dbName tableName : ByteString)
    (column : ColumnDef ByteString) : Prop :=
  ∀ number, w.directories.indexFile? dbName (indexFileName tableName column.name) = some number →
    (∃ map, w.maps[number]? = some map ∧ map.kind = keyKindOf column.type ∧
      map.values = fun _ => none) ∧
    (∀ k f, w.directories.indexFile? k f = some number →
      k = dbName ∧ f = indexFileName tableName column.name) ∧
    ∀ j, used j → j.index.number ≠ number

theorem indexFileName_injective {tableName a b : ByteString}
    (h : indexFileName tableName a = indexFileName tableName b) : a = b := by
  unfold indexFileName at h
  exact List.append_cancel_left (List.append_cancel_right h)

section Clear

variable {used : IndexRef → Prop} {w : MapDirectory} {dbName tableName : ByteString}
  {c c' : ColumnDef ByteString}

/-- The file of one column is taken up; that of another column is as clear as before. -/
theorem IsClear.reopened (clear : IsClear used w dbName tableName c') (other : c'.name ≠ c.name)
    {number : Nat}
    (found : w.directories.indexFile? dbName (indexFileName tableName c.name) = some number)
    {i : IndexRef} (hi : i.index.number = number) :
    IsClear (fun j => used j ∨ j = i) { w with directories := w.directories.emplace dbName {} }
      dbName tableName c' := by
  intro number' found'
  change Directories.indexFile? (w.directories.emplace dbName {}) _ _ = _ at found'
  rw [Directories.indexFile?_emplace] at found'
  obtain ⟨hmap, honly, hused⟩ := clear number' found'
  refine ⟨hmap, fun k f h => ?_, ?_⟩
  · change Directories.indexFile? (w.directories.emplace dbName {}) _ _ = _ at h
    rw [Directories.indexFile?_emplace] at h
    exact honly k f h
  · rintro j (hj | rfl)
    · exact hused j hj
    · rw [hi]
      rintro rfl
      exact other (indexFileName_injective (honly _ _ found).2).symm

/-- A new file is made for one column; that of another column is as clear as before. -/
theorem IsClear.made (clear : IsClear used w dbName tableName c') (other : c'.name ≠ c.name)
    {i : IndexRef} (hi : i.index.number = w.maps.length) :
    IsClear (fun j => used j ∨ j = i)
      { directories := Directories.nameIndexFile dbName (indexFileName tableName c.name)
          w.maps.length (w.directories.emplace dbName {})
        maps := w.maps ++ [{ kind := keyKindOf c.type }] } dbName tableName c' := by
  have hhere : ∃ dir, UnorderedMap.find? (w.directories.emplace dbName {}) dbName = some dir := by
    rw [UnorderedMap.find?_emplace, if_pos rfl]
    cases w.directories.find? dbName with
    | none => exact ⟨_, rfl⟩
    | some dir => exact ⟨dir, rfl⟩
  obtain ⟨dir, hdir⟩ := hhere
  have hname : ∀ k f, Directories.indexFile? (Directories.nameIndexFile dbName
      (indexFileName tableName c.name) w.maps.length (w.directories.emplace dbName {})) k f =
        if k = dbName ∧ f = indexFileName tableName c.name then some w.maps.length
        else w.directories.indexFile? k f := by
    intro k f
    rw [Directories.indexFile?_nameIndexFile hdir, Directories.indexFile?_emplace]
  intro number' found'
  dsimp only at found'
  rw [hname, if_neg fun h => other (indexFileName_injective h.2)] at found'
  obtain ⟨⟨map, hmap, hempty⟩, honly, hused⟩ := clear number' found'
  have hlt : number' < w.maps.length := (List.getElem?_eq_some_iff.mp hmap).1
  refine ⟨⟨map, ?_, hempty⟩, fun k f h => ?_, ?_⟩
  · rw [List.getElem?_append_left hlt]
    exact hmap
  · dsimp only at h
    rw [hname] at h
    split at h
    · exact absurd (Option.some.inj h) (Nat.ne_of_gt hlt)
    · exact honly k f h
  · rintro j (hj | rfl)
    · exact hused j hj
    · rw [hi]
      exact Nat.ne_of_gt hlt

/-- Where a column has no index file, or an empty one, the index made for it is as good as new. -/
theorem ends_reopenIndexForColumn (holds : ∀ j, used j → ∃ m, LawfulIndex.Holds w j m)
    (clear : IsClear used w dbName tableName c) :
    Ends (reopenIndexForColumn dbName tableName c) w
      (fun i w' => KeepsIndexes (ι := IndexRef) w w' ∧
        LawfulIndex.Holds w' i (fun _ => none) ∧ (∀ j, used j → LawfulIndex.Apart i j) ∧
        (∀ v, v ≠ .null → v.matches c.type = true → LawfulIndex.Admits i v) ∧
        ∀ c', c'.name ≠ c.name → IsClear used w dbName tableName c' →
          IsClear (fun j => used j ∨ j = i) w' dbName tableName c')
      (fun _ w' => KeepsIndexes (ι := IndexRef) w w') := by
  rw [reopenIndexForColumn, ends_bind, ends_get]
  cases hfound : w.directories.indexFile? dbName (indexFileName tableName c.name) with
  | some number =>
      obtain ⟨⟨map, hmap, hkind, hempty⟩, -, hused⟩ := clear number hfound
      dsimp only
      rw [onDirectories, ends_bind, ends_zoom]
      change KeepsIndexes w _ ∧ LawfulIndex.Holds _ _ _ ∧ _
      refine ⟨keepsIndexes_extended (List.prefix_refl _), ⟨map, hmap, hkind, hempty.symm⟩,
        fun j hj => Ne.symm (hused j hj),
        fun v present hmatches => exists_key_of_matches present hmatches, ?_⟩
      exact fun c' other hclear => hclear.reopened other hfound rfl
  | none =>
      dsimp only
      rw [makeIndexForColumn, onDirectories, ends_bind, ends_zoom]
      change KeepsIndexes w _ ∧ LawfulIndex.Holds _ _ _ ∧ _
      refine ⟨keepsIndexes_extended (List.prefix_append _ _), holds_new _, fun j hj => ?_,
        fun v present hmatches => exists_key_of_matches present hmatches, ?_⟩
      · obtain ⟨m, hm⟩ := holds j hj
        exact ne_length_of_holds hm
      · exact fun c' other hclear => hclear.made other rfl

end Clear

/-- The directory with indexes that outlive their tables is lawful where their files are clear. -/
abbrev lawfulReopeningRoot : @LawfulDataRoot IndexRef MapDirectory _ _ reopeningRoot :=
  @LawfulDataRoot.mk IndexRef MapDirectory _ _ reopeningRoot IsClear ends_createDirectories
    keepsIndexes_removeAll ends_saveTo ends_reopenIndexForColumn

end MapDirectory
end CwDb.Storage
