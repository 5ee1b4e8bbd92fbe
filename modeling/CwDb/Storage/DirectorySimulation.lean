/-
  Storage/DirectorySimulation.lean --- index files against maps.

  `IndexesFollow` and `RootFollows` say of two data directories what a simulation of the
  tables above them needs: calls on related directories end alike.
-/
import CwDb.Index.MapRefinement
import CwDb.Storage.MapDirectory

set_option autoImplicit false

namespace CwDb.Storage

open CwDb.Cpp
open CwDb.Foundation
open CwDb.Index

/-! ## What is said of two directories -/

section Interfaces

variable {π ι ω ω' : Type}

/-- Calls on keys of the covered indexes of related worlds end alike. -/
structure KeyIndexesFollow (P : π → Prop) (x : KeyIndex π ω) (y : KeyIndex π ω')
    (c : Coupling Fault ω ω') : Prop where
  find : ∀ {w w'} (p : π) (key : IndexKey), P p → c.Related w w' →
    x.find p key w = y.find p key w'
  rangeSearch : ∀ {w w'} (p : π) (low high : IndexKey), P p → c.Related w w' →
    x.rangeSearch p low high w = y.rangeSearch p low high w'
  insert : ∀ {w w'} (p : π) (key : IndexKey) (record : UInt64), P p → c.Related w w' →
    Follows c (x.insert p key record) (y.insert p key record) w w'
  erase : ∀ {w w'} (p : π) (key : IndexKey), P p → c.Related w w' →
    Follows c (x.erase p key) (y.erase p key) w w'

/-- Calls on values of the covered indexes of related worlds end alike. -/
structure IndexesFollow (P : ι → Prop) (x : IIndex ι ω) (y : IIndex ι ω')
    (c : Coupling Fault ω ω') : Prop where
  find : ∀ {w w'} (i : ι) (k : Value ByteString), P i → c.Related w w' →
    x.find i k w = y.find i k w'
  rangeSearch : ∀ {w w'} (i : ι) (low high : Value ByteString), P i → c.Related w w' →
    x.rangeSearch i low high w = y.rangeSearch i low high w'
  insert : ∀ {w w'} (i : ι) (k : Value ByteString) (id : RowId), P i → c.Related w w' →
    Follows c (x.insert i k id) (y.insert i k id) w w'
  erase : ∀ {w w'} (i : ι) (k : Value ByteString), P i → c.Related w w' →
    Follows c (x.erase i k) (y.erase i k) w w'

/-- Calls on related directories end alike. -/
structure RootFollows (d : DataRoot ι ω) (d' : DataRoot ι ω') (c : Coupling Fault ω ω') :
    Prop where
  createDirectories : ∀ {w w'} (name : ByteString), c.Related w w' →
    Follows c (d.createDirectories name) (d'.createDirectories name) w w'
  removeAll : ∀ {w w'} (name : ByteString), c.Related w w' →
    c.Related (d.removeAll name w) (d'.removeAll name w')
  saveTo : ∀ {w w'} (name : ByteString) (db : Database ι), c.Related w w' →
    Follows c (d.saveTo name db) (d'.saveTo name db) w w'
  loadAll : ∀ {w w'}, c.Related w w' → Follows c d.loadAll d'.loadAll w w'
  makeIndexForColumn : ∀ {w w'} (dbName tableName : ByteString) (column : ColumnDef ByteString),
    c.Related w w' → Follows c (d.makeIndexForColumn dbName tableName column)
      (d'.makeIndexForColumn dbName tableName column) w w'

variable {c : Coupling Fault ω ω'} {P : π → Prop} {x : KeyIndex π ω} {y : KeyIndex π ω'}

theorem follows_withIndexKey {α : Type} {call : IndexKey → EStateM Fault ω α}
    {call' : IndexKey → EStateM Fault ω' α} {w : ω} {w' : ω'} (value : Value ByteString)
    (h : c.Related w w') (each : ∀ key, Follows c (call key) (call' key) w w') :
    Follows c (withIndexKey value call) (withIndexKey value call') w w' := by
  unfold withIndexKey
  cases toIndexKey value with
  | ok key => exact each key
  | error fault => exact follows_throw fault h

/-- The adapters over indexes on keys. -/
abbrev adapters (x : KeyIndex π ω) : IIndex (BStarPlusIndexAdapter π) ω :=
  inferInstance

/-- An adapter converts the values before it asks the index. -/
theorem KeyIndexesFollow.adapter (h : KeyIndexesFollow P x y c) :
    IndexesFollow (fun i => P i.index) (adapters x) (adapters y) c where
  find i k covered related := by
    change (toIndexKey k >>= fun key => x.find i.index key _) =
      toIndexKey k >>= fun key => y.find i.index key _
    simp only [h.find _ _ covered related]
  rangeSearch i low high covered related := by
    change (toIndexKey low >>= fun low => toIndexKey high >>= fun high =>
        x.rangeSearch i.index low high _) =
      toIndexKey low >>= fun low => toIndexKey high >>= fun high =>
        y.rangeSearch i.index low high _
    simp only [h.rangeSearch _ _ _ covered related]
  insert i k id covered related :=
    follows_withIndexKey k related fun key => h.insert i.index key id covered related
  erase i k covered related :=
    follows_withIndexKey k related fun key => h.erase i.index key covered related

end Interfaces

/-! ## One index against its map -/

/-- An index mirrors a map that keeps to what index files can store. -/
def mapCoupling : Coupling Fault BStarPlusIndex KeyedMap where
  Related idx m := BStarPlusIndex.Mirrors m.kind idx m.map
  Spent idx := idx.disk.Full
  NoAnswer e := e = .diverges

section OneIndex

variable {idx : BStarPlusIndex} {m : KeyedMap} {key low high : IndexKey} {record : UInt64}

theorem find_mirrors (h : BStarPlusIndex.Mirrors m.kind idx m.map) : idx.find key = m.find key := by
  obtain ⟨c, hkind⟩ := h
  by_cases valid : keyMatchesKind key m.kind = true
  · rw [KeyedMap.find_eq valid]
    exact c.find_eq (by rw [hkind, validateKeyKind, if_pos valid])
  · rw [BStarPlusIndex.find, KeyedMap.find, hkind, validateKeyKind, if_neg valid]
    rfl

theorem rangeSearch_mirrors (h : BStarPlusIndex.Mirrors m.kind idx m.map) :
    idx.rangeSearch low high = m.rangeSearch low high := by
  obtain ⟨c, hkind⟩ := h
  by_cases validLow : keyMatchesKind low m.kind = true
  · by_cases validHigh : keyMatchesKind high m.kind = true
    · rw [KeyedMap.rangeSearch_eq validLow validHigh]
      exact c.rangeSearch_eq (by rw [hkind, validateKeyKind, if_pos validLow])
        (by rw [hkind, validateKeyKind, if_pos validHigh])
    · rw [BStarPlusIndex.rangeSearch, KeyedMap.rangeSearch, hkind, validateKeyKind,
        if_pos validLow, validateKeyKind, if_neg validHigh]
      rfl
  · rw [BStarPlusIndex.rangeSearch, KeyedMap.rangeSearch, hkind, validateKeyKind, if_neg validLow]
    rfl

/-- A key of another kind is refused before anything is done. -/
theorem insert_invalid (invalid : ¬ keyMatchesKind key idx.metadata.keyKind = true) :
    BStarPlusIndex.insert key record idx = .error (.throws .invalidArgument
      (text "Index key type does not match index key kind")) idx := by
  rw [BStarPlusIndex.insert, bind_ok get_run, validateKeyKind, if_neg invalid]
  rfl

theorem erase_invalid (invalid : ¬ keyMatchesKind key idx.metadata.keyKind = true) :
    BStarPlusIndex.erase key idx = .error (.throws .invalidArgument
      (text "Index key type does not match index key kind")) idx := by
  rw [BStarPlusIndex.erase, bind_ok get_run, validateKeyKind, if_neg invalid]
  rfl

theorem follows_insert (h : BStarPlusIndex.Mirrors m.kind idx m.map) :
    Follows mapCoupling (BStarPlusIndex.insert key record) (KeyedMap.insertStorable key record)
      idx m := by
  obtain ⟨c, hkind⟩ := h
  unfold Follows
  rw [KeyedMap.insertStorable, bind_ok get_run]
  by_cases valid : keyMatchesKind key m.kind = true
  · rw [validateKeyKind, if_pos valid, fromExcept_ok, pure_bind]
    by_cases admissible : Admissible m.kind key
    · have valid' : validateKeyKind key idx.metadata.keyKind = .ok () := by
        rw [hkind, validateKeyKind, if_pos valid]
      rw [if_pos admissible, KeyedMap.insert, bind_ok get_run, validateKeyKind, if_pos valid,
        fromExcept_ok, pure_bind]
      cases hfind : m.map.find? key with
      | some old =>
          rw [c.insert_present valid' (hfind ▸ Option.some_ne_none old)]
          exact .error _ ⟨c, hkind⟩
      | none =>
          have hends : Ends (BStarPlusIndex.insert key record) idx _ fun _ idx' => idx'.disk.Full :=
            c.ends_insert (hkind.symm ▸ admissible) hfind fun _ full _ => full
          cases hrun : BStarPlusIndex.insert key record idx with
          | ok a idx' =>
              obtain ⟨c', hkind'⟩ := hends.of_ok hrun
              exact .ok a ⟨c', hkind'.trans hkind⟩
          | error e idx' => exact .spent (hends.of_error hrun)
    · rw [if_neg admissible]
      exact .noAnswer rfl
  · rw [insert_invalid (by rwa [hkind]), validateKeyKind, if_neg valid]
    exact .error _ ⟨c, hkind⟩

theorem follows_erase (h : BStarPlusIndex.Mirrors m.kind idx m.map) :
    Follows mapCoupling (BStarPlusIndex.erase key) (KeyedMap.erase key) idx m := by
  obtain ⟨c, hkind⟩ := h
  unfold Follows
  rw [KeyedMap.erase, bind_ok get_run]
  by_cases valid : keyMatchesKind key m.kind = true
  · have hends : Ends (BStarPlusIndex.erase key) idx _ fun _ _ => False :=
      c.ends_erase (by rw [hkind, validateKeyKind, if_pos valid])
    obtain ⟨found, idx', hrun, rfl, c', hkind'⟩ := hends.exists_ok
    rw [hrun, validateKeyKind, if_pos valid]
    exact .ok _ ⟨c', hkind'.trans hkind⟩
  · rw [erase_invalid (by rwa [hkind]), validateKeyKind, if_neg valid]
    exact .error _ ⟨c, hkind⟩

end OneIndex

/-! ## The files against the maps -/

/-- Every object has the file of its own number open and mirrors the map of that number. -/
structure Mirrored (w : DataDirectory) (w' : MapDirectory) : Prop where
  directories : w.directories = w'.directories
  objects : w.objects.length = w'.maps.length
  files : w.files.length = w'.maps.length
  mirrors : ∀ (n : Nat) (object : IndexObject) (file : IndexFile) (m : KeyedMap),
    w.objects[n]? = some object → w.files[n]? = some file → w'.maps[n]? = some m →
    object.file = n ∧
      BStarPlusIndex.Mirrors m.kind ⟨⟨file, object.pageCount⟩, object.metadata⟩ m.map

/-- The maps have no answer beyond the limits of index files; the files may be full. -/
def filesCoupling : Coupling Fault DataDirectory MapDirectory where
  Related := Mirrored
  Spent w := ¬ w.HasRoom
  NoAnswer e := e = .diverges

section Files

variable {w : DataDirectory} {w' : MapDirectory} {n : Nat} {idx : BStarPlusIndex} {m : KeyedMap}

/-- Where there is an object there is a map. -/
theorem Mirrored.cases (h : Mirrored w w') (n : Nat) :
    w.object? n = none ∧ w'.maps[n]? = none ∨
      ∃ idx m, w.object? n = some idx ∧ w'.maps[n]? = some m ∧
        BStarPlusIndex.Mirrors m.kind idx m.map := by
  cases hm : w'.maps[n]? with
  | none =>
      have hnone : w.objects[n]? = none := by
        rw [List.getElem?_eq_none_iff, h.objects]
        exact List.getElem?_eq_none_iff.mp hm
      rw [DataDirectory.object?, hnone]
      exact .inl ⟨rfl, rfl⟩
  | some m =>
      have hn := (List.getElem?_eq_some_iff.mp hm).1
      have hobject := List.getElem?_eq_getElem (h.objects.symm ▸ hn : n < w.objects.length)
      have hfile := List.getElem?_eq_getElem (h.files.symm ▸ hn : n < w.files.length)
      obtain ⟨hown, hmirrors⟩ := h.mirrors n _ _ m hobject hfile hm
      refine .inr ⟨_, m, ?_, rfl, hmirrors⟩
      rw [DataDirectory.object?, hobject, Option.bind_eq_bind, Option.bind_some, hown, hfile]
      rfl

/-- An operation on one index changes its object and its map. -/
theorem Mirrored.setObject (h : Mirrored w w') (hn : n < w'.maps.length)
    (mirrors : BStarPlusIndex.Mirrors m.kind idx m.map) :
    Mirrored (DataDirectory.setObject n w idx) { w' with maps := w'.maps.set n m } := by
  have hobjects : n < w.objects.length := h.objects ▸ hn
  have hfiles : n < w.files.length := h.files ▸ hn
  have hobject := List.getElem?_eq_getElem hobjects
  have hown := (h.mirrors n _ _ _ hobject (List.getElem?_eq_getElem hfiles)
    (List.getElem?_eq_getElem hn)).1
  rw [DataDirectory.setObject, hobject]
  dsimp only
  rw [hown]
  refine ⟨h.directories, by simpa using h.objects, by simpa using h.files, ?_⟩
  intro k object file m' hk hf hm'
  by_cases hkn : n = k
  · subst hkn
    rw [List.getElem?_set_self hobjects] at hk
    rw [List.getElem?_set_self hfiles] at hf
    rw [List.getElem?_set_self hn] at hm'
    cases hk
    cases hf
    cases hm'
    exact ⟨rfl, mirrors⟩
  · rw [List.getElem?_set_ne hkn] at hk hf hm'
    exact h.mirrors k object file m' hk hf hm'

/-- A full file stays in the directory. -/
theorem not_hasRoom_setObject (h : Mirrored w w') (hn : n < w'.maps.length)
    (full : idx.disk.Full) : ¬ (DataDirectory.setObject n w idx).HasRoom := by
  have hobjects : n < w.objects.length := h.objects ▸ hn
  have hfiles : n < w.files.length := h.files ▸ hn
  have hobject := List.getElem?_eq_getElem hobjects
  have hown := (h.mirrors n _ _ _ hobject (List.getElem?_eq_getElem hfiles)
    (List.getElem?_eq_getElem hn)).1
  intro room
  rw [DataDirectory.setObject, hobject] at room
  have hmem : idx.disk.file ∈ w.files.set w.objects[n].file idx.disk.file := by
    rw [hown]
    exact List.mem_set hfiles _
  exact absurd (room idx.disk.file hmem) (Nat.not_lt.mpr full)

theorem follows_onObject {α : Type} {p : IndexPointer} {call : IndexM α}
    {call' : EStateM Fault KeyedMap α} (h : Mirrored w w')
    (each : ∀ idx m, BStarPlusIndex.Mirrors m.kind idx m.map →
      Follows mapCoupling call call' idx m) :
    Follows filesCoupling (DataDirectory.onObject p call) (MapDirectory.onMap p call') w w' := by
  rw [DataDirectory.onObject, MapDirectory.onMap, follows_get_bind]
  rcases h.cases p.number with ⟨hnone, hnone'⟩ | ⟨idx, m, hidx, hm, hmirrors⟩
  · simp only [hnone, hnone']
    exact follows_throw _ h
  · have hn := (List.getElem?_eq_some_iff.mp hm).1
    simp only [hidx, hm]
    refine follows_zoom (each idx m hmirrors) ?_ ?_ fun _ he => he
    · exact fun idx' m' hmirrors' => h.setObject hn hmirrors'
    · exact fun idx' full => not_hasRoom_setObject h hn full

theorem readObject_eq {α : Type} {p : IndexPointer} {f : BStarPlusIndex → Except Fault α}
    {f' : KeyedMap → Except Fault α} (h : Mirrored w w')
    (each : ∀ idx m, BStarPlusIndex.Mirrors m.kind idx m.map → f idx = f' m) :
    DataDirectory.readObject p f w = MapDirectory.readMap p f' w' := by
  rw [DataDirectory.readObject, MapDirectory.readMap]
  rcases h.cases p.number with ⟨hnone, hnone'⟩ | ⟨idx, m, hidx, hm, hmirrors⟩
  · rw [hnone, hnone']
  · rw [hidx, hm]
    exact each idx m hmirrors

/-- The index files answer as maps do that keep to what the files can store. -/
theorem files_follow : IndexesFollow (fun _ => True) DataDirectory.index
    MapDirectory.storableIndex filesCoupling :=
  KeyIndexesFollow.adapter (P := fun _ => True)
    { find := fun _ _ _ h => readObject_eq h fun _ _ => find_mirrors
      rangeSearch := fun _ _ _ _ h => readObject_eq h fun _ _ => rangeSearch_mirrors
      insert := fun _ _ _ _ h => follows_onObject h fun _ _ => follows_insert
      erase := fun _ _ _ h => follows_onObject h fun _ _ => follows_erase }

theorem follows_onDirectories {α : Type} {call : EStateM Fault Directories α}
    (h : Mirrored w w') : Follows filesCoupling (DataDirectory.onDirectories call)
      (MapDirectory.onDirectories call) w w' := by
  unfold Follows DataDirectory.onDirectories MapDirectory.onDirectories zoom
  rw [h.directories]
  cases call w'.directories with
  | ok a directories => exact .ok a ⟨rfl, h.objects, h.files, h.mirrors⟩
  | error e directories => exact .error e ⟨rfl, h.objects, h.files, h.mirrors⟩

/-- A new directory has no index file. -/
theorem Directories.indexFile?_emplace (dirs : Directories) (name dbName fileName : ByteString) :
    Directories.indexFile? (dirs.emplace name {}) dbName fileName =
      dirs.indexFile? dbName fileName := by
  rw [Directories.indexFile?, Directories.indexFile?, UnorderedMap.find?_emplace]
  split
  · next hname =>
      rw [hname]
      cases dirs.find? name <;> rfl
  · rfl

/-- An index file that is not there yet is made, with an index in it that mirrors the empty
map. -/
theorem openIndex_fresh {dbName fileName : ByteString} {keyKind : IndexKeyKind}
    (proper : keyKind.Proper) (fresh : w.directories.indexFile? dbName fileName = none) :
    DataDirectory.openIndex dbName fileName keyKind w = .ok w.objects.length
      { directories := w.directories.nameIndexFile dbName fileName w.files.length
        files := w.files ++ [(BStarPlusIndex.created keyKind).disk.file]
        objects := w.objects ++ [⟨w.files.length,
          (BStarPlusIndex.created keyKind).disk.pageCount,
          (BStarPlusIndex.created keyKind).metadata⟩] } := by
  rw [DataDirectory.openIndex, bind_ok get_run]
  simp only [fresh, Option.getD_none, Option.bind_none, answerOf,
    BStarPlusIndex.loadMetadata_created proper, DataDirectory.putFile, Nat.lt_irrefl, if_false]
  rfl

theorem proper_keyKindOf (type : DataType) : (keyKindOf type).Proper := by
  cases type
  · exact .inl rfl
  · exact .inr rfl

theorem Mirrored.makeIndex (h : Mirrored w w') {kind : IndexKeyKind} (proper : kind.Proper)
    (directories : Directories) :
    Mirrored
      { directories
        files := w.files ++ [(BStarPlusIndex.created kind).disk.file]
        objects := w.objects ++ [⟨w.files.length, (BStarPlusIndex.created kind).disk.pageCount,
          (BStarPlusIndex.created kind).metadata⟩] }
      { directories, maps := w'.maps ++ [{ kind }] } := by
  refine ⟨rfl, by simp [h.objects], by simp [h.files], ?_⟩
  intro n object file m hobject hfile hm
  rcases Nat.lt_or_ge n w'.maps.length with hn | hn
  · rw [List.getElem?_append_left (h.objects ▸ hn)] at hobject
    rw [List.getElem?_append_left (h.files ▸ hn)] at hfile
    rw [List.getElem?_append_left hn] at hm
    exact h.mirrors n object file m hobject hfile hm
  · rw [List.getElem?_append_right (h.objects ▸ hn), h.objects] at hobject
    rw [List.getElem?_append_right (h.files ▸ hn), h.files] at hfile
    rw [List.getElem?_append_right hn] at hm
    obtain rfl : n = w'.maps.length := by
      have := (List.getElem?_eq_some_iff.mp hm).1
      simp only [List.length_singleton] at this
      omega
    rw [Nat.sub_self] at hobject hfile hm
    cases hobject
    cases hfile
    cases hm
    exact ⟨h.files, BStarPlusIndex.contents_created proper, rfl⟩

theorem follows_makeIndexForColumn (h : Mirrored w w') (dbName tableName : ByteString)
    (column : ColumnDef ByteString) :
    Follows filesCoupling (DataDirectory.makeIndexForColumn dbName tableName column)
      (MapDirectory.makeFreshIndexForColumn dbName tableName column) w w' := by
  unfold Follows
  rw [MapDirectory.makeFreshIndexForColumn, bind_ok get_run]
  split
  · exact .noAnswer rfl
  · next hfresh =>
      have hfresh : w'.directories.indexFile? dbName (indexFileName tableName column.name) =
          none := by simpa using hfresh
      have hproper := proper_keyKindOf column.type
      let w₁ : DataDirectory := { w with directories := w.directories.emplace dbName {} }
      have hcreate : DataDirectory.onDirectories (Directories.createDirectories dbName) w =
          .ok ⟨⟩ w₁ := rfl
      have hopen := openIndex_fresh (w := w₁) hproper
        ((Directories.indexFile?_emplace _ _ _ _).trans (h.directories ▸ hfresh))
      have hcreate' : MapDirectory.onDirectories (Directories.createDirectories dbName) w' =
          .ok ⟨⟩ { w' with directories := w'.directories.emplace dbName {} } := rfl
      rw [DataDirectory.makeIndexForColumn, bind_ok hcreate, bind_ok hopen,
        MapDirectory.makeIndexForColumn, bind_ok hcreate', bind_ok get_run]
      have hnumber : w₁.objects.length = w'.maps.length := h.objects
      have hfile : w₁.files.length = w'.maps.length := h.files
      have hdirectories : w₁.directories = w'.directories.emplace dbName {} := by
        rw [← h.directories]
      rw [hnumber, hfile, hdirectories, ← hfile]
      exact .ok _ (h.makeIndex hproper _)

/-- The data directory does as the maps do, which are made under new names only. -/
theorem files_root_follow : RootFollows DataDirectory.root MapDirectory.freshRoot
    filesCoupling where
  createDirectories _ h := follows_onDirectories h
  removeAll name h :=
    ⟨congrArg (UnorderedMap.erase · name) h.directories, h.objects, h.files, h.mirrors⟩
  saveTo _ _ h := follows_onDirectories h
  loadAll h := follows_onDirectories h
  makeIndexForColumn dbName tableName column h :=
    follows_makeIndexForColumn h dbName tableName column

end Files

/-! ## The maps against their limits -/

/-- The maps do all that they do within the limits of index files. -/
def limitsCoupling : Coupling Fault MapDirectory MapDirectory := .same fun e => e = .diverges

section Limits

variable {w : MapDirectory}

theorem follows_insertStorable {key : IndexKey} {record : UInt64} {m : KeyedMap} :
    Follows (.same fun e => e = .diverges) (KeyedMap.insert key record)
      (KeyedMap.insertStorable key record) m m := by
  unfold Follows
  rw [KeyedMap.insertStorable, bind_ok get_run]
  by_cases valid : keyMatchesKind key m.kind = true
  · rw [validateKeyKind, if_pos valid, fromExcept_ok, pure_bind]
    by_cases admissible : Admissible m.kind key
    · rw [if_pos admissible]
      exact follows_same
    · rw [if_neg admissible]
      exact .noAnswer rfl
  · rw [KeyedMap.insert, bind_ok get_run, validateKeyKind, if_neg valid]
    exact .error _ rfl

theorem follows_onMap {α : Type} {p : IndexPointer} {call call' : EStateM Fault KeyedMap α}
    (each : ∀ m, Follows (.same fun e => e = .diverges) call call' m m) :
    Follows limitsCoupling (MapDirectory.onMap p call) (MapDirectory.onMap p call') w w := by
  rw [MapDirectory.onMap, MapDirectory.onMap, follows_get_bind]
  cases hm : w.maps[p.number]? with
  | none => exact follows_throw _ rfl
  | some m =>
      refine follows_zoom (each m) ?_ (fun _ h => h) fun _ h => h
      rintro m' _ rfl
      rfl

theorem maps_follow : IndexesFollow (fun _ => True) (inferInstance : IIndex IndexRef MapDirectory)
    MapDirectory.storableIndex limitsCoupling :=
  KeyIndexesFollow.adapter (P := fun _ => True)
    { find := by
        rintro w _ p key - rfl
        rfl
      rangeSearch := by
        rintro w _ p low high - rfl
        rfl
      insert := by
        rintro w _ p key record - rfl
        exact follows_onMap fun _ => follows_insertStorable
      erase := by
        rintro w _ p key - rfl
        exact follows_same }

theorem maps_root_follow : RootFollows (inferInstance : DataRoot IndexRef MapDirectory)
    MapDirectory.freshRoot limitsCoupling where
  createDirectories := by
    rintro w _ name rfl
    exact follows_same
  removeAll := by
    rintro w _ name rfl
    rfl
  saveTo := by
    rintro w _ name db rfl
    exact follows_same
  loadAll := by
    rintro w _ rfl
    exact follows_same
  makeIndexForColumn := by
    rintro w _ dbName tableName column rfl
    unfold Follows
    change limitsCoupling.Agree _ (MapDirectory.makeFreshIndexForColumn dbName tableName column w)
    rw [MapDirectory.makeFreshIndexForColumn, bind_ok get_run]
    split
    · exact .noAnswer rfl
    · exact follows_same

end Limits
end CwDb.Storage
