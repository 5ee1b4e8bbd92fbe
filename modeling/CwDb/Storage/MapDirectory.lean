/-
  Storage/MapDirectory.lean --- a data directory whose indexes are ordered maps.

  The table files are those of `DataDirectory`; an index is a map with a kind of keys, and
  making one starts from an empty map.  Beside it stands the same directory with the limits
  of index files: where a file promises nothing it has no answer.
-/
import CwDb.Foundation.OrderedMap
import CwDb.Storage.DataDirectory

set_option autoImplicit false

namespace CwDb.Storage

open CwDb.Cpp
open CwDb.Foundation
open CwDb.Index

/-! ## Maps with a kind of keys -/

/-- An ordered map that takes the keys of one kind. -/
structure KeyedMap where
  kind : IndexKeyKind
  map : OrderedMap IndexKey UInt64 := .empty

namespace KeyedMap

/-- `find`: the record under a key of the kind of the map. -/
def find (m : KeyedMap) (key : IndexKey) : Except Fault (Option UInt64) := do
  validateKeyKind key m.kind
  pure (m.map.find? key)

/-- `range_search`: the records between two keys, both of them included. -/
def rangeSearch (m : KeyedMap) (low high : IndexKey) : Except Fault (List UInt64) := do
  validateKeyKind low m.kind
  validateKeyKind high m.kind
  pure (m.map.range low high)

/-- `insert`: a key that is there already is refused. -/
def insert (key : IndexKey) (record : UInt64) : EStateM Fault KeyedMap PUnit := do
  let m ← get
  fromExcept (validateKeyKind key m.kind)
  if (m.map.find? key).isSome then
    throw (.throws .invalidArgument (text "Duplicate index key"))
  else set { m with map := m.map.insert key record }

/-- `erase`, and whether the key was there. -/
def erase (key : IndexKey) : EStateM Fault KeyedMap Bool := do
  let m ← get
  fromExcept (validateKeyKind key m.kind)
  set { m with map := m.map.erase key }
  pure (m.map.find? key).isSome

/-- An insertion without an answer where an index file cannot store the key. -/
def insertStorable (key : IndexKey) (record : UInt64) : EStateM Fault KeyedMap PUnit := do
  let m ← get
  fromExcept (validateKeyKind key m.kind)
  if Admissible m.kind key then insert key record else throw .diverges

/-- What the map is to the values of a column. -/
def values (m : KeyedMap) : IndexMap := fun v =>
  match toIndexKey v with
  | .ok key => m.map.find? key
  | .error _ => none

end KeyedMap

/-! ## The directory -/

/-- Table files as in a data directory, and all maps that were made. -/
structure MapDirectory where
  directories : Directories := .empty
  maps : List KeyedMap := []

namespace MapDirectory

/-- A call on a map. -/
def onMap {α : Type} (p : IndexPointer) (m : EStateM Fault KeyedMap α) :
    EStateM Fault MapDirectory α := do
  let w ← get
  match w.maps[p.number]? with
  | some map => zoom (fun _ => map) (fun w map => { w with maps := w.maps.set p.number map }) m
  | none => throw .diverges

/-- A read from a map. -/
def readMap {α : Type} (p : IndexPointer) (f : KeyedMap → Except Fault α) (w : MapDirectory) :
    Except Fault α :=
  match w.maps[p.number]? with
  | some map => f map
  | none => .error .diverges

instance : KeyIndex IndexPointer MapDirectory where
  find p key w := readMap p (fun m => m.find key) w
  rangeSearch p low high w := readMap p (fun m => m.rangeSearch low high) w
  insert p key record := onMap p (KeyedMap.insert key record)
  erase p key := onMap p (KeyedMap.erase key)

/-- A call on the directories. -/
def onDirectories {α : Type} (m : EStateM Fault Directories α) : EStateM Fault MapDirectory α :=
  zoom MapDirectory.directories (fun w directories => { w with directories }) m

/-- A new and empty map under the name of an index file. -/
def makeIndexForColumn (dbName tableName : ByteString) (column : ColumnDef ByteString) :
    EStateM Fault MapDirectory IndexRef := do
  onDirectories (Directories.createDirectories dbName)
  let w ← get
  set { directories := w.directories.nameIndexFile dbName (indexFileName tableName column.name)
          w.maps.length
        maps := w.maps ++ [{ kind := keyKindOf column.type }] : MapDirectory }
  pure ⟨⟨w.maps.length, keyKindOf column.type⟩⟩

instance : DataRoot IndexRef MapDirectory where
  createDirectories name := onDirectories (Directories.createDirectories name)
  removeAll name w := { w with directories := w.directories.erase name }
  saveTo name db := onDirectories (Directories.saveTo name db)
  loadAll := onDirectories Directories.loadAll
  makeIndexForColumn := makeIndexForColumn

/-! ## The limits of index files -/

/-- The indexes, without an answer where an index file cannot store a key. -/
abbrev storableIndex : IIndex IndexRef MapDirectory :=
  letI : KeyIndex IndexPointer MapDirectory :=
    { find := KeyIndex.find
      rangeSearch := KeyIndex.rangeSearch
      insert := fun p key record => onMap p (KeyedMap.insertStorable key record)
      erase := KeyIndex.erase }
  inferInstance

/-- A new map, without an answer where there is an index file of the name already. -/
def makeFreshIndexForColumn (dbName tableName : ByteString) (column : ColumnDef ByteString) :
    EStateM Fault MapDirectory IndexRef := do
  let w ← get
  if (w.directories.indexFile? dbName (indexFileName tableName column.name)).isSome then
    throw .diverges
  else makeIndexForColumn dbName tableName column

/-- The directory, without an answer where it would have to take up an old index file. -/
abbrev freshRoot : DataRoot IndexRef MapDirectory where
  createDirectories := DataRoot.createDirectories IndexRef
  removeAll := DataRoot.removeAll IndexRef
  saveTo := DataRoot.saveTo
  loadAll := DataRoot.loadAll
  makeIndexForColumn := makeFreshIndexForColumn

end MapDirectory

/-! ## The contract -/

theorem ofIndexKey_injective : Function.Injective ofIndexKey := by
  intro a b h
  cases a <;> cases b <;> simp_all [ofIndexKey]

theorem ofIndexKey_lt {a b : IndexKey} (h : a < b) : ofIndexKey a < ofIndexKey b := by
  change a.rank < b.rank at h
  change (ofIndexKey a).rank < (ofIndexKey b).rank
  cases a <;> cases b <;>
    simp_all [ofIndexKey, IndexKey.rank, Value.rank, Sum.inlₗ, Sum.inrₗ]

namespace KeyedMap

variable {m : KeyedMap} {k : Value ByteString} {key low high : IndexKey} {record : UInt64}

theorem values_ofIndexKey : m.values (ofIndexKey key) = m.map.find? key := by
  cases key <;> rfl

/-- A map whose lookup differs at one key differs at one value. -/
theorem values_update {m' : KeyedMap} {r : Option RowId} (here : m'.map.find? key = r)
    (elsewhere : ∀ j, j ≠ key → m'.map.find? j = m.map.find? j) :
    m'.values = Function.update m.values (ofIndexKey key) r := by
  funext v
  rw [Function.update_apply]
  by_cases present : v = .null
  · have hne : v ≠ ofIndexKey key := by
      rw [present]
      cases key <;> nofun
    rw [if_neg hne, present]
    rfl
  · obtain ⟨j, -, rfl⟩ := toIndexKey_ofIndexKey present
    simp only [values_ofIndexKey, ofIndexKey_injective.eq_iff]
    split
    · next h => rw [h, here]
    · next h => exact elsewhere j h

/-- Between keys of one kind the keys are ordered as the values. -/
theorem between_iff {kind : IndexKeyKind} (hlow : keyMatchesKind low kind = true)
    (hhigh : keyMatchesKind high kind = true) :
    low ≤ key ∧ key ≤ high ↔ Value.Le (ofIndexKey low) (ofIndexKey key) ∧
      Value.Le (ofIndexKey key) (ofIndexKey high) := by
  have hle : ∀ a b : IndexKey, a ≤ b ↔ a.rank ≤ b.rank := fun _ _ => Iff.rfl
  rw [hle, hle]
  cases low <;> cases high <;> cases key <;>
    simp_all [keyMatchesKind, ofIndexKey, Value.Le, Value.le, Value.compare, IndexKey.rank,
      Value.threeWay_eq_lt_iff, Value.threeWay_eq_eq_iff, Sum.inlₗ, Sum.inrₗ, le_iff_lt_or_eq,
      IndexKeyKind.int64, IndexKeyKind.string]

theorem isRange_range {kind : IndexKeyKind} (hlow : keyMatchesKind low kind = true)
    (hhigh : keyMatchesKind high kind = true) :
    m.values.IsRange (ofIndexKey low) (ofIndexKey high) (m.map.range low high) := by
  let entries := m.map.entries.filter fun e => low ≤ e.1 ∧ e.1 ≤ high
  have hentry : ∀ e ∈ entries, e ∈ m.map.entries ∧ low ≤ e.1 ∧ e.1 ≤ high := fun e he => by
    simpa using List.mem_filter.mp he
  have hfind : ∀ e ∈ entries, m.map.find? e.1 = some e.2 := fun e he =>
    OrderedMap.find?_eq_some_iff.mpr (hentry e he).1
  refine ⟨entries.map fun e => ofIndexKey e.1, ?_, ?_, ?_⟩
  · have hsorted : entries.Pairwise fun a b => a.1 < b.1 := by
      have := m.map.sorted.sublist
        (List.filter_sublist (p := fun e => low ≤ e.1 ∧ e.1 ≤ high).map Prod.fst)
      rwa [List.pairwise_map] at this
    rw [List.pairwise_map]
    refine hsorted.imp_of_mem fun {a b} ha hb hlt => ?_
    have hbetween := fun e he => (between_iff hlow hhigh).mp (hentry e he).2
    exact Value.compare_eq_some_lt_iff.mpr ⟨ofIndexKey_lt hlt,
      Value.compare_isSome_of_le_le (hbetween a ha).1 (hbetween b hb).1⟩
  · have hids : m.map.range low high = entries.map Prod.snd := rfl
    rw [hids, List.map_map, List.map_map]
    exact List.map_congr_left fun e he => values_ofIndexKey.trans (hfind e he)
  · intro v
    rw [List.mem_map]
    constructor
    · rintro ⟨e, he, rfl⟩
      rw [values_ofIndexKey, hfind e he]
      exact ⟨rfl, (between_iff hlow hhigh).mp (hentry e he).2⟩
    · rintro ⟨hsome, hle⟩
      obtain ⟨id, hid⟩ := Option.isSome_iff_exists.mp hsome
      have present : v ≠ .null := by
        rintro rfl
        cases hid
      obtain ⟨key, -, rfl⟩ := toIndexKey_ofIndexKey present
      rw [values_ofIndexKey] at hid
      refine ⟨(key, id), List.mem_filter.mpr ⟨OrderedMap.find?_eq_some_iff.mp hid, ?_⟩, rfl⟩
      simpa using (between_iff hlow hhigh).mpr hle

theorem find_eq (valid : keyMatchesKind key m.kind = true) :
    m.find key = .ok (m.map.find? key) := by
  rw [find, validateKeyKind, if_pos valid]
  rfl

theorem find_ok {r : Option UInt64} (h : m.find key = .ok r) : r = m.map.find? key := by
  unfold find validateKeyKind at h
  split at h
  · exact (Except.ok.inj h).symm
  · cases h

theorem rangeSearch_eq (validLow : keyMatchesKind low m.kind = true)
    (validHigh : keyMatchesKind high m.kind = true) :
    m.rangeSearch low high = .ok (m.map.range low high) := by
  rw [rangeSearch, validateKeyKind, if_pos validLow, validateKeyKind, if_pos validHigh]
  rfl

theorem rangeSearch_ok {records : List UInt64} (h : m.rangeSearch low high = .ok records) :
    keyMatchesKind low m.kind = true ∧ keyMatchesKind high m.kind = true ∧
      records = m.map.range low high := by
  by_cases hlow : keyMatchesKind low m.kind = true
  · by_cases hhigh : keyMatchesKind high m.kind = true
    · rw [rangeSearch_eq hlow hhigh] at h
      exact ⟨hlow, hhigh, (Except.ok.inj h).symm⟩
    · rw [rangeSearch, validateKeyKind, if_pos hlow, validateKeyKind, if_neg hhigh] at h
      cases h
  · rw [rangeSearch, validateKeyKind, if_neg hlow] at h
    cases h

theorem ends_insert (valid : keyMatchesKind key m.kind = true) :
    Ends (insert key record) m
      (fun _ m' => m.map.find? key = none ∧ m' = { m with map := m.map.insert key record })
      (fun _ m' => (m.map.find? key).isSome = true ∧ m' = m) := by
  rw [insert, ends_bind, ends_get, validateKeyKind, if_pos valid, fromExcept_ok, pure_bind,
    ends_ite]
  split
  · next h => exact ⟨h, rfl⟩
  · next h => exact ⟨by simpa using h, rfl⟩

theorem ends_erase (valid : keyMatchesKind key m.kind = true) :
    Ends (erase key) m
      (fun found m' => found = (m.map.find? key).isSome ∧
        m' = { m with map := m.map.erase key })
      (fun _ _ => False) := by
  rw [erase, ends_bind, ends_get, validateKeyKind, if_pos valid, fromExcept_ok, pure_bind,
    ends_bind, ends_set, ends_pure]
  exact ⟨rfl, rfl⟩

end KeyedMap

namespace MapDirectory

section Calls

variable {i : IndexRef} {key low high : IndexKey} {w : MapDirectory} {map : KeyedMap}

theorem ends_onMap {α : Type} {p : IndexPointer} (h : w.maps[p.number]? = some map)
    {m : EStateM Fault KeyedMap α} {Q : α → MapDirectory → Prop} {E : Fault → MapDirectory → Prop} :
    Ends (onMap p m) w Q E ↔
      Ends m map (fun a map' => Q a { w with maps := w.maps.set p.number map' })
        (fun e map' => E e { w with maps := w.maps.set p.number map' }) := by
  rw [onMap, ends_bind, ends_get]
  simp only [h]
  exact ends_zoom

theorem readMap_eq {α : Type} {p : IndexPointer} (h : w.maps[p.number]? = some map)
    (f : KeyedMap → Except Fault α) : readMap p f w = f map := by
  rw [readMap, h]

theorem find_ref : IIndex.find i (ofIndexKey key) w = readMap i.index (fun m => m.find key) w := by
  cases key <;> rfl

theorem rangeSearch_ref : IIndex.rangeSearch i (ofIndexKey low) (ofIndexKey high) w =
    readMap i.index (fun m => m.rangeSearch low high) w := by
  cases low <;> cases high <;> rfl

theorem insert_ref {id : RowId} : (IIndex.insert i (ofIndexKey key) id : EStateM Fault _ _) =
    onMap i.index (KeyedMap.insert key id) := by
  cases key <;> rfl

theorem erase_ref : (IIndex.erase i (ofIndexKey key) : EStateM Fault _ _) =
    onMap i.index (KeyedMap.erase key) := by
  cases key <;> rfl

end Calls

/-- A write to one map leaves the others where they are. -/
theorem getElem?_set_ne {w : MapDirectory} {n k : Nat} {map other : KeyedMap} (hne : n ≠ k)
    (h : w.maps[k]? = some other) : (w.maps.set n map)[k]? = some other := by
  rwa [List.getElem?_set_ne hne]

instance : LawfulIndex IndexRef MapDirectory where
  Holds w i m := ∃ map, w.maps[i.index.number]? = some map ∧ map.kind = i.index.keyKind ∧
    m = map.values
  Apart i j := i.index.number ≠ j.index.number
  Reads i k := ∃ key, k = ofIndexKey key ∧ keyMatchesKind key i.index.keyKind = true
  Admits i k := ∃ key, k = ofIndexKey key ∧ keyMatchesKind key i.index.keyKind = true
  Spent _ := False
  apart_symm h := Ne.symm h
  reads_of_admits h := h
  find_spec := by
    rintro w i m k ⟨map, hmap, hkind, rfl⟩ ⟨key, rfl, valid⟩
    rw [find_ref, readMap_eq hmap, KeyedMap.find_eq (hkind ▸ valid), KeyedMap.values_ofIndexKey]
  find_ok := by
    rintro w i m k r ⟨map, hmap, hkind, rfl⟩ h
    by_cases present : k = .null
    · rw [present] at h
      cases h
    · obtain ⟨key, -, rfl⟩ := toIndexKey_ofIndexKey present
      rw [find_ref, readMap_eq hmap] at h
      rw [KeyedMap.values_ofIndexKey]
      exact KeyedMap.find_ok h
  rangeSearch_spec := by
    rintro w i m low high ⟨map, hmap, hkind, rfl⟩ ⟨lowKey, rfl, validLow⟩ ⟨highKey, rfl, validHigh⟩
    refine ⟨map.map.range lowKey highKey, ?_⟩
    rw [rangeSearch_ref, readMap_eq hmap]
    exact KeyedMap.rangeSearch_eq (hkind ▸ validLow) (hkind ▸ validHigh)
  rangeSearch_ok := by
    rintro w i m low high ids ⟨map, hmap, hkind, rfl⟩ h
    obtain ⟨hlow, hhigh⟩ := rangeSearch_ok_bounds h
    obtain ⟨lowKey, -, rfl⟩ := toIndexKey_ofIndexKey hlow
    obtain ⟨highKey, -, rfl⟩ := toIndexKey_ofIndexKey hhigh
    rw [rangeSearch_ref, readMap_eq hmap] at h
    obtain ⟨validLow, validHigh, rfl⟩ := KeyedMap.rangeSearch_ok h
    exact KeyedMap.isRange_range validLow validHigh
  rangeSearch_bounds h := rangeSearch_ok_bounds h
  insert_spec := by
    rintro w i m k id ⟨map, hmap, hkind, rfl⟩ ⟨key, rfl, valid⟩
    have hlt := (List.getElem?_eq_some_iff.mp hmap).1
    rw [insert_ref, ends_onMap hmap]
    refine (KeyedMap.ends_insert (hkind ▸ valid)).mono ?_ ?_
    · rintro - map' ⟨hnone, rfl⟩
      rw [KeyedMap.values_ofIndexKey]
      refine ⟨hnone, ⟨_, List.getElem?_set_self hlt, hkind, ?_⟩, ?_⟩
      · refine (KeyedMap.values_update ?_ fun j hj => ?_).symm
        · exact OrderedMap.find?_insert.trans (if_pos rfl)
        · exact OrderedMap.find?_insert.trans (if_neg hj)
      · rintro j m' hne ⟨other, hother, hj⟩
        exact ⟨other, getElem?_set_ne hne hother, hj⟩
    · rintro - map' ⟨hsome, rfl⟩
      obtain ⟨hlt, rfl⟩ := List.getElem?_eq_some_iff.mp hmap
      rw [KeyedMap.values_ofIndexKey, List.set_getElem_self hlt]
      exact .inr ⟨hsome, rfl⟩
  erase_spec := by
    rintro w i m k ⟨map, hmap, hkind, rfl⟩ ⟨key, rfl, valid⟩
    have hlt := (List.getElem?_eq_some_iff.mp hmap).1
    rw [erase_ref, ends_onMap hmap]
    refine (KeyedMap.ends_erase (hkind ▸ valid)).mono ?_ fun _ _ h => h
    rintro found map' ⟨rfl, rfl⟩
    rw [KeyedMap.values_ofIndexKey]
    refine ⟨rfl, ⟨_, List.getElem?_set_self hlt, hkind, ?_⟩, ?_⟩
    · refine (KeyedMap.values_update ?_ fun j hj => ?_).symm
      · exact OrderedMap.find?_erase.trans (if_pos rfl)
      · exact OrderedMap.find?_erase.trans (if_neg hj)
    · rintro j m' hne ⟨other, hother, hj⟩
      exact ⟨other, getElem?_set_ne hne hother, hj⟩

/-! ## The contract of the directory -/

theorem keepsIndexes_extended {w w' : MapDirectory} (h : w.maps <+: w'.maps) :
    KeepsIndexes (ι := IndexRef) w w' := by
  obtain ⟨more, hmore⟩ := h
  rintro i m ⟨map, hmap, hholds⟩
  refine ⟨map, ?_, hholds⟩
  rw [← hmore, List.getElem?_append_left (List.getElem?_eq_some_iff.mp hmap).1]
  exact hmap

/-- What is done to the directories leaves the maps alone. -/
theorem ends_onDirectories {α : Type} {m : EStateM Fault Directories α} {w : MapDirectory} :
    Ends (onDirectories m) w (fun _ w' => KeepsIndexes (ι := IndexRef) w w')
      (fun _ w' => KeepsIndexes (ι := IndexRef) w w') := by
  have hkeeps : ∀ directories, KeepsIndexes (ι := IndexRef) w { w with directories } :=
    fun _ => keepsIndexes_extended (List.prefix_refl _)
  rw [onDirectories, ends_zoom]
  unfold Ends
  cases m w.directories with
  | ok a directories => exact hkeeps directories
  | error e directories => exact hkeeps directories

theorem ends_createDirectories {w : MapDirectory} {name : ByteString} :
    Ends (onDirectories (Directories.createDirectories name)) w
      (fun _ w' => KeepsIndexes (ι := IndexRef) w w')
      (fun _ w' => KeepsIndexes (ι := IndexRef) w w') := ends_onDirectories

theorem keepsIndexes_removeAll {w : MapDirectory} {name : ByteString} :
    KeepsIndexes (ι := IndexRef) w { w with directories := w.directories.erase name } :=
  keepsIndexes_extended (List.prefix_refl _)

theorem ends_saveTo {w : MapDirectory} {name : ByteString} {db : Database IndexRef} :
    Ends (onDirectories (Directories.saveTo name db)) w
      (fun _ w' => KeepsIndexes (ι := IndexRef) w w')
      (fun _ w' => KeepsIndexes (ι := IndexRef) w w') := ends_onDirectories

theorem exists_key_of_matches {v : Value ByteString} {type : DataType} (present : v ≠ .null)
    (hmatches : v.matches type = true) :
    ∃ key, v = ofIndexKey key ∧ keyMatchesKind key (keyKindOf type) = true := by
  cases v with
  | null => exact absurd rfl present
  | int n =>
      obtain rfl : type = .int := by simpa [Value.matches] using hmatches
      exact ⟨.int n, rfl, rfl⟩
  | str s =>
      obtain rfl : type = .str := by simpa [Value.matches] using hmatches
      exact ⟨.str s, rfl, rfl⟩

/-- A new map holds nothing. -/
theorem holds_new {w : MapDirectory} {kind : IndexKeyKind} (directories : Directories) :
    LawfulIndex.Holds (⟨directories, w.maps ++ [⟨kind, .empty⟩]⟩ : MapDirectory)
      (⟨⟨w.maps.length, kind⟩⟩ : IndexRef) fun _ => none :=
  ⟨⟨kind, .empty⟩, by simp, rfl, by funext v; cases v <;> rfl⟩

theorem ne_length_of_holds {w : MapDirectory} {j : IndexRef} {m : IndexMap}
    (h : LawfulIndex.Holds w j m) : w.maps.length ≠ j.index.number := by
  obtain ⟨map, hmap, -⟩ := h
  exact Nat.ne_of_gt (List.getElem?_eq_some_iff.mp hmap).1

/-- Every index is a new map. -/
instance : LawfulDataRoot IndexRef MapDirectory where
  Clear _ _ _ _ _ := True
  createDirectories_spec := ends_createDirectories
  removeAll_spec := keepsIndexes_removeAll
  saveTo_spec := ends_saveTo
  makeIndexForColumn_spec := by
    intro used w dbName tableName c holds _
    change Ends (makeIndexForColumn dbName tableName c) w _ _
    rw [makeIndexForColumn, onDirectories, ends_bind, ends_zoom]
    change KeepsIndexes w _ ∧ LawfulIndex.Holds _ _ _ ∧ _
    refine ⟨keepsIndexes_extended (List.prefix_append _ _), holds_new _, fun j hj => ?_,
      fun v present hmatches => exists_key_of_matches present hmatches, fun _ _ h => h⟩
    obtain ⟨m, hm⟩ := holds j hj
    exact ne_length_of_holds hm

end MapDirectory
end CwDb.Storage
