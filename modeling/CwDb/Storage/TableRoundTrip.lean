/-
  Storage/TableRoundTrip.lean --- a saved table is loaded again.

  The ids of the file and those of the loading process differ; a table is compared by what
  its ids stand for.
-/
import CwDb.Storage.TableFile
import CwDb.Cpp.Strings

set_option autoImplicit false

namespace CwDb.Storage

open CwDb.Cpp
open CwDb.Foundation
open CwDb.Foundation.ByteReader

variable {ι : Type}

/-! ## Contents -/

/-- The id of the value, if it has one, is in the pool. -/
def Value.Known (pool : StringPool) (v : Value StringId) : Prop :=
  ∀ id, v = .str id → (pool.string? id).isSome = true

/-- What `save` relies on. -/
structure Storable (t : Table StringId ι) (pool : StringPool) : Prop where
  name : t.name.length < 2 ^ 16
  columnNames : ∀ col ∈ t.schema.columns, col.name.length < 2 ^ 16
  listed : ∀ id, id ∈ t.order ↔ id ∈ t.rows.keys
  distinct : t.order.Nodup
  below : ∀ id ∈ t.order, id.toNat < 2 ^ 64 - 1
  conforms : ∀ id row, t.rows.find? id = some row → row.length = t.schema.columnCount
  values : ∀ id row, t.rows.find? id = some row → ∀ v ∈ row, v.Known pool
  defaults : ∀ col ∈ t.schema.columns, ∀ v, col.defaultValue = some v → v.Known pool
  strings : ∀ s ∈ pool.byId, s.length < 2 ^ 32
  reserved : 0 < pool.byId.length
  pool : pool.byId.length < 2 ^ 32

/-! ## Parts of the file -/

/-- The id that a file's id gets in the loading process. -/
def remap (idMap : List StringId) (id : StringId) : StringId := idMap.getD id.toNat 0

theorem reads_readBin {α : Type} [Scalar α] (a : α) (pool : StringPool) :
    Reads (readBin α) (Scalar.encode a) a pool pool := reads_scalar a _ pool

theorem reads_loadName {name : ByteString} (short : name.length < 2 ^ 16) (pool : StringPool) :
    Reads loadName (saveName name) name pool pool := by
  have hlen : (UInt16.ofNat name.length).toNat = name.length :=
    UInt16.toNat_ofNat'.trans (Nat.mod_eq_of_lt short)
  unfold loadName saveName
  dsimp only
  rw [hlen, List.take_length]
  refine (reads_readBin (UInt16.ofNat name.length) pool).bind ?_
  rw [hlen]
  exact reads_buffer name pool

theorem reads_loadString {s : ByteString} (short : s.length < 2 ^ 32) (pool : StringPool) :
    Reads loadString (StringPool.serializeString s) (pool.intern s).1 pool (pool.intern s).2 := by
  have hlen : (UInt32.ofNat s.length).toNat = s.length :=
    UInt32.toNat_ofNat'.trans (Nat.mod_eq_of_lt short)
  unfold loadString StringPool.serializeString
  dsimp only
  rw [hlen, List.take_length]
  refine (reads_readBin (UInt32.ofNat s.length) pool).bind ?_
  rw [hlen]
  exact (reads_buffer s pool).bind_last (reads_state (StringPool.intern s) pool)

/-- The strings of the file are interned one after another. -/
theorem reads_times_loadString {strings : List ByteString} : ∀ {pool : StringPool},
    (∀ s ∈ strings, s.length < 2 ^ 32) →
      Reads (times strings.length loadString) (strings.flatMap StringPool.serializeString)
        (StringPool.internAll strings pool).1 pool (StringPool.internAll strings pool).2 := by
  induction strings with
  | nil => exact fun _ => reads_pure [] _
  | cons s strings ih =>
      intro pool short
      have hrest := @ih (pool.intern s).2 fun s' h => short s' (List.mem_cons_of_mem s h)
      rw [List.flatMap_cons]
      exact (reads_loadString (short s List.mem_cons_self) pool).bind
        (hrest.bind_last (reads_pure _ _))

/-- The pool of the file is read to its end. -/
theorem reads_loadStrings {pool : StringPool} (loading : StringPool)
    (short : ∀ s ∈ pool.byId, s.length < 2 ^ 32) (reserved : 0 < pool.byId.length)
    (small : pool.byId.length < 2 ^ 32) :
    ∃ strings, pool.serialize = .ok strings ∧
      Reads loadStrings strings (0 :: (StringPool.internAll (pool.byId.drop 1) loading).1) loading
        (StringPool.internAll (pool.byId.drop 1) loading).2 := by
  have hcount : (UInt32.ofNat (pool.byId.length - 1)).toNat = (pool.byId.drop 1).length := by
    rw [List.length_drop]
    exact UInt32.toNat_ofNat'.trans (Nat.mod_eq_of_lt (by omega))
  have hlast : UInt32.ofNat (pool.byId.length - 1) ≠ 0xFFFFFFFF := by
    intro heq
    rw [heq, List.length_drop] at hcount
    have : (0xFFFFFFFF : UInt32).toNat = 2 ^ 32 - 1 := rfl
    omega
  unfold StringPool.serialize
  dsimp only
  rw [if_neg hlast, hcount, List.take_length]
  refine ⟨_, rfl, ?_⟩
  unfold loadStrings
  refine (reads_readBin (UInt32.ofNat (pool.byId.length - 1)) loading).bind ?_
  rw [hcount]
  refine (reads_times_loadString fun s hs => short s (List.mem_of_mem_drop hs)).bind_last ?_
  rw [if_neg hlast]
  exact reads_pure _ _

theorem reads_loadValue {idMap : List StringId} {v : Value StringId} (pool : StringPool)
    (known : ∀ id, v = .str id → id.toNat < idMap.length) :
    Reads (loadValue idMap) (saveValue v) (v.map (remap idMap)) pool pool := by
  unfold loadValue saveValue
  cases v with
  | null => exact (reads_readBin (0 : UInt8) pool).bind (reads_pure _ pool)
  | int n =>
      refine (reads_readBin (1 : UInt8) pool).bind ?_
      rw [if_neg (by decide), if_pos rfl]
      exact (reads_readBin n pool).bind_last (reads_pure _ pool)
  | str id =>
      have hid : vectorAt idMap id.toNat = .ok (remap idMap id) := by
        rw [vectorAt_eq_ok, remap, List.getD_eq_getElem?_getD,
          List.getElem?_eq_getElem (known id rfl)]
        rfl
      refine (reads_readBin (2 : UInt8) pool).bind ?_
      rw [if_neg (by decide), if_neg (by decide)]
      exact (reads_readBin id pool).bind_last
        ((reads_fromExcept hid pool).bind_nil (reads_pure _ pool))

theorem reads_loadDefault {idMap : List StringId} {d : Option (Value StringId)} (pool : StringPool)
    (known : ∀ v, d = some v → ∀ id, v = .str id → id.toNat < idMap.length) :
    Reads (loadDefault idMap) (saveDefault d) (d.map (Value.map (remap idMap))) pool pool := by
  unfold loadDefault saveDefault
  cases d with
  | none => exact (reads_readBin (0 : UInt8) pool).bind (reads_pure _ pool)
  | some v =>
      refine (reads_readBin (1 : UInt8) pool).bind ?_
      rw [if_neg (by decide)]
      exact (reads_loadValue pool (known v rfl)).bind_last (reads_pure _ pool)

/-- Type and flags are read back from their bytes. -/
theorem typeByte_eq_one_iff (type : DataType) :
    (if typeByte type = 1 then DataType.int else DataType.str) = type := by
  cases type <;> rfl

theorem flagsByte_bits (notNull indexed : Bool) :
    (flagsByte notNull indexed &&& 1 != 0) = notNull ∧
      (flagsByte notNull indexed &&& 2 != 0) = indexed := by
  cases notNull <;> cases indexed <;> decide

theorem reads_loadColumn {idMap : List StringId} {col : ColumnDef StringId} (pool : StringPool)
    (short : col.name.length < 2 ^ 16)
    (known : ∀ v, col.defaultValue = some v → ∀ id, v = .str id → id.toNat < idMap.length) :
    Reads (loadColumn idMap) (saveColumn col) (col.map (remap idMap)) pool pool := by
  obtain ⟨hnotNull, hindexed⟩ := flagsByte_bits col.notNull col.indexed
  unfold loadColumn saveColumn
  rw [List.append_assoc, List.append_assoc]
  refine (reads_loadName short pool).bind ((reads_readBin (typeByte col.type) pool).bind
    ((reads_readBin (flagsByte col.notNull col.indexed) pool).bind ?_))
  rw [hnotNull, hindexed, typeByte_eq_one_iff]
  exact (reads_loadDefault pool known).bind_last (reads_pure _ pool)

theorem reads_loadRow {idMap : List StringId} {entry : RowId × Row StringId} (pool : StringPool)
    (known : ∀ v ∈ entry.2, ∀ id, v = .str id → id.toNat < idMap.length) :
    Reads (loadRow idMap entry.2.length) (saveRow entry)
      (entry.1, entry.2.map (Value.map (remap idMap))) pool pool := by
  unfold loadRow saveRow
  exact (reads_readBin entry.1 pool).bind
    ((reads_times pool fun v hv => reads_loadValue pool (known v hv)).bind_last (reads_pure _ pool))

/-! ## The rows -/

/-- `save` finds the row of every id of `order_`. -/
theorem orderedRows_eq_ok {t : Table StringId ι} (listed : ∀ id ∈ t.order, id ∈ t.rows.keys) :
    ∃ rows, orderedRows t = .ok rows ∧ rows.map Prod.fst = t.order ∧
      ∀ entry ∈ rows, t.rows.find? entry.1 = some entry.2 := by
  unfold orderedRows
  generalize t.order = order at listed ⊢
  induction order with
  | nil => exact ⟨[], rfl, rfl, nofun⟩
  | cons id order ih =>
      obtain ⟨rows, hrows, hids, hfound⟩ := ih fun j hj => listed j (List.mem_cons_of_mem id hj)
      obtain ⟨row, hrow⟩ := UnorderedMap.mem_keys_iff.mp (listed id List.mem_cons_self)
      refine ⟨(id, row) :: rows, ?_, by rw [List.map_cons, hids], ?_⟩
      · rw [List.mapM_cons, hrows, hrow]
        rfl
      · intro entry hentry
        rcases List.mem_cons.mp hentry with rfl | hentry
        · exact hrow
        · exact hfound entry hentry

theorem find?_foldl_emplace {σ : Type} {rows : List (RowId × Row σ)} {id : RowId} :
    ∀ {stored : UnorderedMap RowId (Row σ)},
      (rows.foldl (fun stored entry => stored.emplace entry.1 entry.2) stored).find? id =
        (stored.find? id).or ((rows.find? fun entry => entry.1 = id).map Prod.snd) := by
  induction rows with
  | nil => simp
  | cons entry rows ih =>
      intro stored
      rw [List.foldl_cons, ih, UnorderedMap.find?_emplace, List.find?_cons]
      by_cases h : entry.1 = id
      · subst h
        cases stored.find? entry.1 <;> simp
      · simp [h, Ne.symm h]

/-- The row of an id among the rows of a file. -/
theorem find?_orderedRows {σ : Type} {t : Table σ ι} {rows : List (RowId × Row σ)}
    (listed : ∀ id, id ∈ t.order ↔ id ∈ t.rows.keys) (ids : rows.map Prod.fst = t.order)
    (found : ∀ entry ∈ rows, t.rows.find? entry.1 = some entry.2) (id : RowId) :
    (rows.find? fun entry => entry.1 = id).map Prod.snd = t.rows.find? id := by
  cases hfind : rows.find? fun entry => entry.1 = id with
  | some entry =>
      have hid : entry.1 = id := by simpa using List.find?_some hfind
      rw [← hid, found entry (List.mem_of_find?_eq_some hfind)]
      rfl
  | none =>
      symm
      refine UnorderedMap.find?_eq_none_iff.mpr fun hmem => ?_
      obtain ⟨entry, hentry, rfl⟩ := List.mem_map.mp (ids ▸ (listed id).mpr hmem)
      simpa using List.find?_eq_none.mp hfind entry hentry

theorem le_maxElement {ids : List RowId} : ∀ id ∈ ids, id ≤ maxElement ids := by
  have hfold : ∀ (rest : List RowId) (first : RowId),
      first ≤ rest.foldl max first ∧ ∀ id ∈ rest, id ≤ rest.foldl max first := by
    intro rest
    induction rest with
    | nil => exact fun first => ⟨le_refl first, nofun⟩
    | cons x rest ih =>
        intro first
        obtain ⟨hfirst, hrest⟩ := ih (max first x)
        refine ⟨le_trans (le_max_left first x) hfirst, fun id hid => ?_⟩
        rcases List.mem_cons.mp hid with rfl | hid
        · exact le_trans (le_max_right first id) hfirst
        · exact hrest id hid
  intro id hid
  cases ids with
  | nil => cases hid
  | cons first rest =>
      rcases List.mem_cons.mp hid with rfl | hid
      · exact (hfold rest id).1
      · exact (hfold rest first).2 id hid

theorem maxElement_mem {ids : List RowId} (filled : ids ≠ []) : maxElement ids ∈ ids := by
  have hfold : ∀ (rest : List RowId) (first : RowId),
      rest.foldl max first ∈ first :: rest := by
    intro rest
    induction rest with
    | nil => exact fun first => List.mem_cons_self
    | cons x rest ih =>
        intro first
        rcases List.mem_cons.mp (ih (max first x)) with h | h
        · rw [List.foldl_cons, h]
          rcases max_choice first x with hmax | hmax <;> rw [hmax] <;> simp
        · exact List.mem_cons_of_mem first (List.mem_cons_of_mem x h)
  cases ids with
  | nil => exact absurd rfl filled
  | cons first rest => exact hfold rest first

/-- The rows of a table fit a count of 64 bits. -/
theorem length_lt_of_nodup {ids : List RowId} (distinct : ids.Nodup)
    (below : ∀ id ∈ ids, id.toNat < 2 ^ 64 - 1) : ids.length < 2 ^ 64 := by
  have hnodup : (ids.map UInt64.toNat).Nodup :=
    distinct.map fun a b h => UInt64.toNat_inj.mp h
  have hsub : ids.map UInt64.toNat ⊆ List.range (2 ^ 64 - 1) := by
    intro n hn
    obtain ⟨id, hid, rfl⟩ := List.mem_map.mp hn
    exact List.mem_range.mpr (below id hid)
  have := (List.subperm_of_subset hnodup hsub).length_le
  rw [List.length_map, List.length_range] at this
  omega

/-! ## The whole file -/

/-- A known id of the file stands for the same string in the loading process. -/
theorem string?_remap {pool loading : StringPool} (consistent : loading.Consistent)
    (merged : (StringPool.internAll (pool.byId.drop 1) loading).2.byId.length ≤ 2 ^ 32)
    {id : StringId} (known : (pool.string? id).isSome = true) :
    id.toNat < (0 :: (StringPool.internAll (pool.byId.drop 1) loading).1).length ∧
      (StringPool.internAll (pool.byId.drop 1) loading).2.string?
        (remap (0 :: (StringPool.internAll (pool.byId.drop 1) loading).1) id) =
          pool.string? id := by
  obtain ⟨-, hids⟩ := consistent.internAll merged
  obtain ⟨s, hs⟩ := Option.isSome_iff_exists.mp known
  have hbyId : id ≠ 0 ∧ pool.byId[id.toNat]? = some s := by
    unfold StringPool.string? at hs
    split at hs
    · cases hs
    · next hne => exact ⟨hne, hs⟩
  obtain ⟨n, hn⟩ := Nat.exists_eq_succ_of_ne_zero fun h => hbyId.1 (UInt32.toNat_inj.mp h)
  have hdrop : (pool.byId.drop 1)[n]? = some s := by
    rw [List.getElem?_drop, Nat.add_comm, ← hbyId.2, hn]
  have hid := congrArg (fun l => l[n]?) hids
  simp only [List.getElem?_map, hdrop, Option.map_some] at hid
  obtain ⟨id', hid', hstring⟩ := Option.map_eq_some_iff.mp hid
  obtain ⟨hlt, -⟩ := List.getElem?_eq_some_iff.mp hid'
  have hremap : remap (0 :: (StringPool.internAll (pool.byId.drop 1) loading).1) id = id' := by
    unfold remap
    rw [hn, List.getD_eq_getElem?_getD, List.getElem?_cons_succ, hid']
    rfl
  refine ⟨by rw [hn, List.length_cons]; exact Nat.succ_lt_succ hlt, ?_⟩
  rw [hremap, hstring, hs]

theorem Value.map_map_of_known {pool pool' : StringPool} {f : StringId → StringId}
    (same : ∀ id, (pool.string? id).isSome = true → pool'.string? (f id) = pool.string? id)
    {v : Value StringId} (known : v.Known pool) :
    (v.map f).map pool'.string? = v.map pool.string? := by
  cases v with
  | null => rfl
  | int n => rfl
  | str id =>
      change Value.str (pool'.string? (f id)) = Value.str (pool.string? id)
      rw [same id (known id rfl)]

/-- Reading a saved table up to its columns. -/
theorem save_eq_ok {t : Table StringId ι} {pool : StringPool} (storable : Storable t pool)
    (loading : StringPool) : ∃ (bytes strings : ByteString) (rows : List (RowId × Row StringId)),
      save t pool = .ok bytes ∧
      bytes = Scalar.encode kMagic ++ (Scalar.encode kVersionV3 ++ (saveName t.name ++ (strings ++
        (Scalar.encode (UInt32.ofNat t.schema.columnCount) ++
          (t.schema.columns.flatMap saveColumn ++
            (Scalar.encode (UInt64.ofNat t.order.length) ++ rows.flatMap saveRow)))))) ∧
      Reads loadStrings strings (0 :: (StringPool.internAll (pool.byId.drop 1) loading).1) loading
        (StringPool.internAll (pool.byId.drop 1) loading).2 ∧
      rows.map Prod.fst = t.order ∧ ∀ entry ∈ rows, t.rows.find? entry.1 = some entry.2 := by
  obtain ⟨strings, hstrings, hread⟩ :=
    reads_loadStrings loading storable.strings storable.reserved storable.pool
  obtain ⟨rows, hrows, hids, hfound⟩ := orderedRows_eq_ok fun id hid => (storable.listed id).mp hid
  refine ⟨_, strings, rows, ?_, rfl, hread, hids, hfound⟩
  unfold save
  rw [hstrings, hrows]
  simp only [List.append_assoc]
  rfl

/-- A table of fewer than 2^32 columns is loaded as it was saved, whatever strings the loading
process has already. -/
theorem load_save {t : Table StringId ι} {pool loading : StringPool} (storable : Storable t pool)
    (few : t.schema.columnCount < 2 ^ 32) (consistent : loading.Consistent)
    (merged : (StringPool.internAll (pool.byId.drop 1) loading).2.byId.length < 2 ^ 32) :
    ∃ bytes, save t pool = .ok bytes ∧ ∃ (t' : Table StringId ι) (pool' : StringPool),
      load (bytes, loading) = .ok t' ([], pool') ∧ t'.name = t.name ∧
      t'.schema.columns.map (ColumnDef.map pool'.string?) =
        t.schema.columns.map (ColumnDef.map pool.string?) ∧
      t'.order = t.order ∧
      (∀ id, (t'.rows.find? id).map (List.map (Value.map pool'.string?)) =
        (t.rows.find? id).map (List.map (Value.map pool.string?))) ∧
      ∀ id ∈ t'.order, id < t'.nextId := by
  obtain ⟨bytes, strings, rows, hsave, hbytes, hstrings, hids, hfound⟩ :=
    save_eq_ok storable loading
  let idMap := 0 :: (StringPool.internAll (pool.byId.drop 1) loading).1
  let pool' := (StringPool.internAll (pool.byId.drop 1) loading).2
  have hsame : ∀ id, (pool.string? id).isSome = true →
      id.toNat < idMap.length ∧ pool'.string? (remap idMap id) = pool.string? id :=
    fun id => string?_remap consistent (Nat.le_of_lt merged)
  obtain ⟨schema', hschema', hcolumns'⟩ := TableSchema.ofColumns_map (f := remap idMap) t.schema
  have hcount : (UInt32.ofNat t.schema.columnCount).toNat = t.schema.columns.length :=
    UInt32.toNat_ofNat'.trans (Nat.mod_eq_of_lt few)
  have hlength : (UInt64.ofNat t.order.length).toNat = rows.length := by
    rw [← hids, List.length_map]
    refine UInt64.toNat_ofNat'.trans (Nat.mod_eq_of_lt ?_)
    have := length_lt_of_nodup storable.distinct storable.below
    rwa [← hids, List.length_map] at this
  have hcolumns : Reads (times t.schema.columns.length (loadColumn idMap))
      (t.schema.columns.flatMap saveColumn) (t.schema.columns.map (ColumnDef.map (remap idMap)))
        pool' pool' :=
    reads_times pool' fun col hcol => reads_loadColumn pool' (storable.columnNames col hcol)
      fun v hv id hid => (hsame id (storable.defaults col hcol v hv id hid)).1
  have hrows : Reads (times rows.length (loadRow idMap schema'.columnCount))
      (rows.flatMap saveRow)
        (rows.map fun entry => (entry.1, entry.2.map (Value.map (remap idMap)))) pool' pool' := by
    refine reads_times pool' fun entry hentry => ?_
    have hrow := hfound entry hentry
    have hwidth : schema'.columnCount = entry.2.length := by
      unfold TableSchema.columnCount
      rw [hcolumns', List.length_map, storable.conforms entry.1 entry.2 hrow]
      rfl
    rw [hwidth]
    exact reads_loadRow pool' fun v hv id hid =>
      (hsame id (storable.values entry.1 entry.2 hrow v hv id hid)).1
  let rows' := rows.map fun entry => (entry.1, entry.2.map (Value.map (remap idMap)))
  have hload : Reads load bytes (tableOfRows (ι := ι) t.name schema' rows') loading pool' := by
    rw [hbytes]
    unfold load
    refine (reads_readBin kMagic loading).bind ?_
    rw [if_neg (not_not_intro rfl)]
    refine (reads_readBin kVersionV3 loading).bind ?_
    rw [if_neg (not_not_intro rfl)]
    refine (reads_loadName storable.name loading).bind (hstrings.bind
      ((reads_readBin (UInt32.ofNat t.schema.columnCount) pool').bind ?_))
    rw [hcount]
    refine hcolumns.bind ((reads_fromExcept hschema' pool').bind_nil ?_)
    unfold loadRows
    refine (reads_readBin (UInt64.ofNat t.order.length) pool').bind ?_
    rw [hlength]
    exact hrows.bind_last (reads_pure _ pool')
  have horder : rows'.map Prod.fst = t.order := by
    rw [List.map_map, ← hids]
    rfl
  have hrun := hload []
  rw [List.append_nil] at hrun
  refine ⟨bytes, hsave, _, pool', hrun, rfl, ?_, horder, fun id => ?_, fun id hid => ?_⟩
  · change schema'.columns.map _ = _
    rw [hcolumns', List.map_map]
    refine List.map_congr_left fun col hcol => ?_
    have hdefault : (col.defaultValue.map (Value.map (remap idMap))).map (Value.map pool'.string?) =
        col.defaultValue.map (Value.map pool.string?) := by
      cases hd : col.defaultValue with
      | none => rfl
      | some v =>
          exact congrArg some (Value.map_map_of_known (fun id h => (hsame id h).2)
            (storable.defaults col hcol v hd))
    unfold Function.comp ColumnDef.map
    rw [hdefault]
  · change ((List.foldl _ UnorderedMap.empty _).find? id).map _ = _
    rw [find?_foldl_emplace, UnorderedMap.find?_empty, Option.none_or, List.find?_map]
    have hpick := find?_orderedRows storable.listed hids hfound id
    change (((rows.find? fun entry => entry.1 = id).map _).map Prod.snd).map _ = _
    cases hfind : rows.find? fun entry => entry.1 = id with
    | none =>
        rw [hfind] at hpick
        rw [← hpick]
        rfl
    | some entry =>
        rw [hfind] at hpick
        rw [← hpick]
        have hrow := hfound entry (List.mem_of_find?_eq_some hfind)
        refine congrArg some ?_
        change (entry.2.map (Value.map (remap idMap))).map (Value.map pool'.string?) =
          entry.2.map (Value.map pool.string?)
        rw [List.map_map]
        exact List.map_congr_left fun v hv => Value.map_map_of_known (fun id h => (hsame id h).2)
          (storable.values entry.1 entry.2 hrow v hv)
  · unfold tableOfRows at hid ⊢
    dsimp only at hid ⊢
    rw [horder] at hid ⊢
    have hfilled : t.order ≠ [] := List.ne_nil_of_mem hid
    have hle := le_maxElement id hid
    have hmax := storable.below (maxElement t.order) (maxElement_mem hfilled)
    have hempty : t.order.isEmpty = false := by simpa using hfilled
    have hsucc : (maxElement t.order + 1).toNat = (maxElement t.order).toNat + 1 := by
      rw [UInt64.toNat_add]
      exact Nat.mod_eq_of_lt (by change _ + 1 < _; omega)
    rw [hempty]
    refine lt_of_lt_of_le ?_ (le_max_left _ _)
    rw [UInt64.lt_iff_toNat_lt, hsucc]
    have := UInt64.le_iff_toNat_le.mp hle
    omega

/-! ## The column count of 32 bits -/

theorem loadRows_schema {name : ByteString} {schema : TableSchema StringId}
    {idMap : List StringId} {t : Table StringId ι} {s s' : List UInt8 × StringPool}
    (loaded : loadRows name schema idMap s = .ok t s') : t.schema = schema := by
  unfold loadRows at loaded
  obtain ⟨count, s₁, -, loaded⟩ := bind_eq_ok.mp loaded
  obtain ⟨rows, s₂, -, loaded⟩ := bind_eq_ok.mp loaded
  cases loaded
  rfl

/-- A count of columns that is 0 in 32 bits is read as 0. -/
theorem load_no_columns {t : Table StringId ι} {pool loading : StringPool} {bytes : ByteString}
    (storable : Storable t pool) (wraps : UInt32.ofNat t.schema.columnCount = 0)
    (saved : save t pool = .ok bytes) {t' : Table StringId ι} {s' : List UInt8 × StringPool}
    (loaded : load (bytes, loading) = .ok t' s') : t'.schema.columns = [] := by
  obtain ⟨bytes', strings, rows, hsave, hbytes, hstrings, -, -⟩ := save_eq_ok storable loading
  obtain rfl : bytes' = bytes := Except.ok.inj (hsave.symm.trans saved)
  have hmagic := reads_readBin kMagic loading
  have hversion := reads_readBin kVersionV3 loading
  have hcount := reads_readBin (0 : UInt32)
    (StringPool.internAll (pool.byId.drop 1) loading).2
  rw [hbytes, wraps] at loaded
  unfold load at loaded
  rw [bind_ok (hmagic _), if_neg (not_not_intro rfl), bind_ok (hversion _),
    if_neg (not_not_intro rfl), bind_ok (reads_loadName storable.name loading _),
    bind_ok (hstrings _), bind_ok (hcount _)] at loaded
  obtain ⟨columns, s₁, hcolumns, loaded⟩ := bind_eq_ok.mp loaded
  obtain ⟨schema, s₂, hschema, loaded⟩ := bind_eq_ok.mp loaded
  obtain rfl : [] = columns := by
    cases hcolumns
    rfl
  have hempty : TableSchema.ofColumns ([] : List (ColumnDef StringId)) = .ok .empty := rfl
  rw [hempty] at hschema
  cases hschema
  rw [loadRows_schema loaded]
  rfl

section Instances

private def usersPool : StringPool :=
  (StringPool.internAll [text "anon", text "Bob", []] .initial).2

/-- Two rows with a gap in the ids, an empty string, a default and a DEFAULT NULL. -/
private def users : Table StringId Nat where
  name := text "users"
  schema :=
    ⟨[{ name := text "id", notNull := true, indexed := true },
      { name := text "name", type := .str, defaultValue := some (.str 1) },
      { name := text "nick", type := .str, defaultValue := some .null }], by decide, by decide⟩
  rows := (UnorderedMap.empty.emplace 1 [.int 1, .str 2, .null]).emplace 5 [.int (-2), .str 3, .null]
  order := [1, 5]
  nextId := 6

private theorem users_rows {id : RowId} {row : Row StringId} (h : users.rows.find? id = some row) :
    row ∈ [[.int 1, .str 2, .null], [.int (-2), .str 3, .null]] := by
  have hentries : users.rows.entries =
      [(1, [.int 1, .str 2, .null]), (5, [.int (-2), .str 3, .null])] := rfl
  have hmem := UnorderedMap.find?_eq_some_iff.mp h
  rw [hentries] at hmem
  have := List.mem_map_of_mem (f := Prod.snd) hmem
  exact this

private theorem storable_users : Storable users usersPool where
  name := by decide
  columnNames := by decide
  listed _ := Iff.rfl
  distinct := by decide
  below := List.forall_mem_cons.mpr ⟨by decide, List.forall_mem_singleton.mpr (by decide)⟩
  conforms id row h := by
    have hwidth : ∀ row ∈ ([[.int 1, .str 2, .null], [.int (-2), .str 3, .null]] :
        List (Row StringId)), row.length = users.schema.columnCount := by decide
    exact hwidth row (users_rows h)
  values id row h v hv id' hid' := by
    subst hid'
    have hids : ∀ row ∈ ([[.int 1, .str 2, .null], [.int (-2), .str 3, .null]] :
        List (Row StringId)), ∀ v ∈ row, v = .null ∨ v = .int 1 ∨ v = .int (-2) ∨ v = .str 2 ∨
          v = .str 3 := by decide
    rcases hids row (users_rows h) _ hv with h | h | h | h | h <;> cases h <;> decide
  defaults col hcol v hv id hid := by
    subst hid
    have hids : ∀ col ∈ users.schema.columns, col.defaultValue = none ∨
        col.defaultValue = some .null ∨ col.defaultValue = some (.str 1) := by decide
    rcases hids col hcol with h | h | h <;> rw [h] at hv <;> cases hv
    decide
  strings := by decide
  reserved := by decide
  pool := by decide

/-- The pool of the loading process knows another string under the id of the first one. -/
theorem load_save_of_users : ∃ bytes, save users usersPool = .ok bytes ∧
    ∃ (t' : Table StringId Nat) (pool' : StringPool),
      load (bytes, (StringPool.initial.intern (text "zed")).2) = .ok t' ([], pool') ∧
      t'.name = text "users" ∧ t'.order = [1, 5] ∧
      (t'.rows.find? 5).map (List.map (Value.map pool'.string?)) =
        some [.int (-2), .str (some []), .null] := by
  obtain ⟨bytes, hsave, t', pool', hload, hname, -, horder, hrows, -⟩ :=
    @load_save _ _ usersPool (StringPool.initial.intern (text "zed")).2 storable_users (by decide)
      (StringPool.consistent_initial.intern (by decide)).1 (by decide)
  exact ⟨bytes, hsave, t', pool', hload, hname, horder, (hrows 5).trans (by decide)⟩

/-- A schema of `n` columns. -/
private def wideSchema (n : Nat) : TableSchema StringId where
  columns := (List.range n).map fun i => { name := decimal i }
  named := by
    intro col hcol
    obtain ⟨i, -, rfl⟩ := List.mem_map.mp hcol
    obtain ⟨c, rest, hdecimal, -⟩ := exists_decimal_cons (n := i)
    change decimal i ≠ []
    rw [hdecimal]
    exact List.cons_ne_nil c rest
  distinct := by
    rw [List.map_map]
    refine List.Nodup.map (fun i j h => ?_) List.nodup_range
    rw [← digitsValue_decimal i, ← digitsValue_decimal j]
    exact congrArg digitsValue h

private theorem columnCount_wideSchema (n : Nat) : (wideSchema n).columnCount = n := by
  unfold TableSchema.columnCount wideSchema
  rw [List.length_map, List.length_range]

private theorem storable_wide {n : Nat} (h : n ≤ 10 ^ 10) :
    Storable (Table.ofSchema [] (wideSchema n) : Table StringId Nat) .initial where
  name := Nat.two_pow_pos 16
  columnNames := by
    intro col hcol
    obtain ⟨i, hi, rfl⟩ := List.mem_map.mp hcol
    have hlt : i < 10 ^ 10 := Nat.lt_of_lt_of_le (List.mem_range.mp hi) h
    have := (Nat.length_toDigits_le_iff (b := 10) (by omega) (by omega : 0 < 10)).mpr hlt
    change (decimal i).length < _
    unfold decimal
    rw [List.length_map]
    omega
  listed _ := Iff.rfl
  distinct := List.nodup_nil
  below := nofun
  conforms := nofun
  values := nofun
  defaults := by
    intro col hcol v hv
    obtain ⟨i, -, rfl⟩ := List.mem_map.mp hcol
    cases hv
  strings := by decide
  reserved := by decide
  pool := by decide

/-- A table of 2^32 columns comes back without columns. -/
theorem wide_table_loses_columns : ∃ (t : Table StringId Nat) (pool : StringPool)
    (bytes : ByteString), Storable t pool ∧ pool.Consistent ∧
      (StringPool.internAll (pool.byId.drop 1) pool).2.byId.length < 2 ^ 32 ∧
      save t pool = .ok bytes ∧ ∀ (t' : Table StringId Nat) s', load (bytes, pool) = .ok t' s' →
        t'.schema.columns.map (ColumnDef.map s'.2.string?) ≠
          t.schema.columns.map (ColumnDef.map pool.string?) := by
  have storable := storable_wide (n := 2 ^ 32) (by decide)
  obtain ⟨bytes, strings, rows, hsave, -⟩ := save_eq_ok storable .initial
  refine ⟨_, .initial, bytes, storable, StringPool.consistent_initial, by decide, hsave, ?_⟩
  intro t' s' loaded hsame
  have hcount : (Table.ofSchema [] (wideSchema (2 ^ 32)) : Table StringId Nat).schema.columnCount =
      2 ^ 32 := columnCount_wideSchema _
  have hnone := load_no_columns storable (by rw [hcount]; rfl) hsave loaded
  rw [hnone] at hsame
  have hlength := congrArg List.length hsame
  rw [List.length_map, List.length_map] at hlength
  unfold TableSchema.columnCount at hcount
  rw [hcount] at hlength
  cases hlength

end Instances

end CwDb.Storage
