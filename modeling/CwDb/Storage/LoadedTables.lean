/-
  Storage/LoadedTables.lean --- which files `Table::load` makes a well-formed table of.

  The rows of a file are stored as they are; nothing that `validate` asks of a row, and
  nothing that the ids rely on, is asked of them.
-/
import CwDb.Storage.TableFormat

set_option autoImplicit false

namespace CwDb.Storage

open CwDb.Cpp
open CwDb.Foundation
open CwDb.Foundation.ByteReader

variable {ι : Type}

/-! ## Well-formed tables and files -/

/-- What every operation of a table relies on, for the ids of a pool. -/
structure Table.Valid (t : Table StringId ι) (pool : StringPool) : Prop where
  distinct : t.order.Nodup
  listed : ∀ id, id ∈ t.order ↔ id ∈ t.rows.keys
  arity : ∀ id row, t.rows.find? id = some row → row.length = t.schema.columnCount
  typed : ∀ (id : RowId) (row : Row StringId) (i : Nat) (c : ColumnDef StringId)
    (v : Value StringId), t.rows.find? id = some row → t.schema.columns[i]? = some c →
      row[i]? = some v → v.matches c.type = true
  present : ∀ (id : RowId) (row : Row StringId) (i : Nat) (c : ColumnDef StringId)
    (v : Value StringId), t.rows.find? id = some row → t.schema.columns[i]? = some c →
      row[i]? = some v → c.notNull = true ∨ c.indexed = true → v ≠ .null
  unique : ∀ (i : Nat) (c : ColumnDef StringId), t.schema.columns[i]? = some c →
    c.indexed = true → ∀ (id id' : RowId) (row row' : Row StringId) (v v' : Value StringId),
      t.rows.find? id = some row → t.rows.find? id' = some row' → row[i]? = some v →
        row'[i]? = some v' → v.map pool.string? = v'.map pool.string? → id = id'
  known : ∀ id row, t.rows.find? id = some row → ∀ v ∈ row, v.Known pool
  knownDefaults : ∀ c ∈ t.schema.columns, ∀ v, c.defaultValue = some v → v.Known pool
  below : ∀ id ∈ t.order, id < t.nextId

/-- The string of an id of the file; id 0 has none. -/
def TableContents.string? (f : TableContents) (id : StringId) : Option ByteString :=
  if id = 0 then none else f.strings[id.toNat - 1]?

/-- No id comes twice, and none is the last one; tags go with the types of the columns, and
no NULL stands where none may; no value comes twice in an indexed column; the string id 0
is not used. -/
structure TableContents.Acceptable (f : TableContents) : Prop where
  distinct : (f.rows.map Prod.fst).Nodup
  last : ∀ entry ∈ f.rows, entry.1 ≠ 0xFFFFFFFFFFFFFFFF
  typed : ∀ entry ∈ f.rows, ∀ (i : Nat) (c : ColumnDef StringId) (v : Value StringId),
    f.columns[i]? = some c → entry.2[i]? = some v → v.matches c.type = true
  present : ∀ entry ∈ f.rows, ∀ (i : Nat) (c : ColumnDef StringId) (v : Value StringId),
    f.columns[i]? = some c → entry.2[i]? = some v → c.notNull = true ∨ c.indexed = true →
      v ≠ .null
  unique : ∀ (i : Nat) (c : ColumnDef StringId), f.columns[i]? = some c → c.indexed = true →
    ∀ entry ∈ f.rows, ∀ entry' ∈ f.rows, ∀ v v' : Value StringId, entry.2[i]? = some v →
      entry'.2[i]? = some v' → v.map f.string? = v'.map f.string? → entry.1 = entry'.1
  referred : ∀ entry ∈ f.rows, ∀ v ∈ entry.2, v ≠ .str 0
  referredDefaults : ∀ c ∈ f.columns, c.defaultValue ≠ some (.str 0)

/-! ## Values under the ids of the process -/

section Values

variable {f : TableContents} {pool : StringPool} {v w : Value StringId} {bound : Nat}

/-- An id of the file stands for the same string in the process. -/
theorem TableContents.string?_remap (consistent : pool.Consistent)
    (room : (StringPool.internAll f.strings pool).2.byId.length ≤ 2 ^ 32) {id : StringId}
    (below : id.toNat < f.strings.length + 1) :
    (StringPool.internAll f.strings pool).2.string? (remap (f.idMap pool) id) = f.string? id := by
  obtain ⟨-, hids⟩ := consistent.internAll room
  unfold TableContents.string?
  by_cases hzero : id = 0
  · rw [if_pos hzero, hzero]
    rfl
  · rw [if_neg hzero]
    obtain ⟨n, hn⟩ := Nat.exists_eq_succ_of_ne_zero fun h => hzero (UInt32.toNat_inj.mp h)
    have hlt : n < f.strings.length := by omega
    have hmap := congrArg (fun l => l[n]?) hids
    simp only [List.getElem?_map, List.getElem?_eq_getElem hlt, Option.map_some] at hmap
    obtain ⟨id', hid', hstring⟩ := Option.map_eq_some_iff.mp hmap
    have hremap : remap (f.idMap pool) id = id' := by
      unfold remap TableContents.idMap
      rw [hn, List.getD_eq_getElem?_getD, List.getElem?_cons_succ, hid']
      rfl
    rw [hremap, hstring, hn, Nat.succ_sub_one, List.getElem?_eq_getElem hlt]

theorem Value.matches_map {σ τ : Type} (g : σ → τ) (v : Value σ) (type : DataType) :
    (v.map g).matches type = v.matches type := by
  cases v <;> rfl

theorem Value.map_eq_null_iff {σ τ : Type} {g : σ → τ} {v : Value σ} :
    v.map g = .null ↔ v = .null := by
  cases v <;> simp [Value.map]

theorem Value.map_remap_string? (consistent : pool.Consistent)
    (room : (StringPool.internAll f.strings pool).2.byId.length ≤ 2 ^ 32)
    (below : v.Below (f.strings.length + 1)) :
    (v.map (remap (f.idMap pool))).map (StringPool.internAll f.strings pool).2.string? =
      v.map f.string? := by
  cases v with
  | null => rfl
  | int n => rfl
  | str id => exact congrArg Value.str (f.string?_remap consistent room (below id rfl))

/-- A string of the file is known to the process unless its id is 0. -/
theorem Value.known_remap_iff (consistent : pool.Consistent)
    (room : (StringPool.internAll f.strings pool).2.byId.length ≤ 2 ^ 32)
    (below : v.Below (f.strings.length + 1)) :
    (v.map (remap (f.idMap pool))).Known (StringPool.internAll f.strings pool).2 ↔
      v ≠ .str 0 := by
  cases v with
  | null => exact ⟨fun _ => nofun, fun _ => nofun⟩
  | int n => exact ⟨fun _ => nofun, fun _ => nofun⟩
  | str id =>
      have hstring := f.string?_remap consistent room (below id rfl)
      have hknown : (Value.str (remap (f.idMap pool) id)).Known
          (StringPool.internAll f.strings pool).2 ↔ (f.string? id).isSome = true := by
        rw [← hstring]
        constructor
        · intro h
          exact h _ rfl
        · rintro h _ ⟨⟩
          exact h
      refine hknown.trans ?_
      unfold TableContents.string?
      by_cases hzero : id = 0
      · simp [hzero]
      · rw [if_neg hzero]
        have hlt : id.toNat - 1 < f.strings.length := by
          have hbelow := below id rfl
          have hpositive : id.toNat ≠ 0 := fun h => hzero (UInt32.toNat_inj.mp h)
          omega
        rw [List.getElem?_eq_getElem hlt]
        exact ⟨fun _ heq => hzero (Value.str.inj heq), fun _ => rfl⟩

end Values

/-! ## The table of the rows -/

section Rows

variable {σ : Type} {name : ByteString} {schema : TableSchema σ} {rows : List (RowId × Row σ)}
  {id : RowId} {row : Row σ}

theorem find?_tableOfRows : (tableOfRows (ι := ι) name schema rows).rows.find? id =
    (rows.find? fun entry => entry.1 = id).map Prod.snd := by
  change (List.foldl _ UnorderedMap.empty rows).find? id = _
  rw [find?_foldl_emplace, UnorderedMap.find?_empty, Option.none_or]

/-- A stored row is one of the file. -/
theorem mem_of_find?_tableOfRows
    (h : (tableOfRows (ι := ι) name schema rows).rows.find? id = some row) : (id, row) ∈ rows := by
  rw [find?_tableOfRows] at h
  obtain ⟨entry, hentry, rfl⟩ := Option.map_eq_some_iff.mp h
  have hid : entry.1 = id := by simpa using List.find?_some hentry
  exact hid ▸ List.mem_of_find?_eq_some hentry

/-- A row of the file is stored when no other has its id. -/
theorem find?_tableOfRows_of_mem (distinct : (rows.map Prod.fst).Nodup) (h : (id, row) ∈ rows) :
    (tableOfRows (ι := ι) name schema rows).rows.find? id = some row := by
  rw [find?_tableOfRows]
  induction rows with
  | nil => cases h
  | cons entry rows ih =>
      rw [List.map_cons, List.nodup_cons] at distinct
      rw [List.find?_cons]
      rcases List.mem_cons.mp h with rfl | h
      · simp
      · have hne : entry.1 ≠ id := fun heq =>
          distinct.1 (heq ▸ List.mem_map_of_mem (f := Prod.fst) h)
        simpa [hne] using ih distinct.2 h

/-- `order_` lists the keys of `rows_`, whatever the ids are. -/
theorem mem_order_tableOfRows : id ∈ (tableOfRows (ι := ι) name schema rows).order ↔
    id ∈ (tableOfRows (ι := ι) name schema rows).rows.keys := by
  rw [UnorderedMap.mem_keys_iff, find?_tableOfRows]
  change id ∈ rows.map Prod.fst ↔ _
  constructor
  · intro h
    obtain ⟨entry, hentry, rfl⟩ := List.mem_map.mp h
    have hsome : (rows.find? fun other => other.1 = entry.1).isSome = true := by
      rw [List.find?_isSome]
      exact ⟨entry, hentry, by simp⟩
    obtain ⟨found, hfound⟩ := Option.isSome_iff_exists.mp hsome
    exact ⟨found.2, by rw [hfound]; rfl⟩
  · rintro ⟨row, hrow⟩
    obtain ⟨entry, hentry, -⟩ := Option.map_eq_some_iff.mp hrow
    have hid : entry.1 = id := by simpa using List.find?_some hentry
    exact hid ▸ List.mem_map_of_mem (List.mem_of_find?_eq_some hentry)

theorem nextId_tableOfRows {entry : RowId × Row σ} (here : entry ∈ rows) :
    (tableOfRows (ι := ι) name schema rows).nextId =
      max (maxElement (rows.map Prod.fst) + 1) 1 := by
  have hempty : (rows.map Prod.fst).isEmpty = false := by
    rw [List.isEmpty_eq_false_iff]
    exact List.ne_nil_of_mem (List.mem_map_of_mem here)
  change (if (rows.map Prod.fst).isEmpty then _ else _) = _
  rw [hempty]
  rfl

/-- `next_id_` is above all ids unless it has wrapped around. -/
theorem below_nextId_tableOfRows_iff :
    (∀ id ∈ (tableOfRows (ι := ι) name schema rows).order,
      id < (tableOfRows (ι := ι) name schema rows).nextId) ↔
      ∀ entry ∈ rows, entry.1 ≠ 0xFFFFFFFFFFFFFFFF := by
  have hlast : (0xFFFFFFFFFFFFFFFF : UInt64).toNat = 2 ^ 64 - 1 := rfl
  constructor
  · intro h entry hentry heq
    have hmem : entry.1 ∈ rows.map Prod.fst := List.mem_map_of_mem hentry
    have hmax : maxElement (rows.map Prod.fst) = 0xFFFFFFFFFFFFFFFF := by
      have hle := UInt64.le_iff_toNat_le.mp (le_maxElement _ hmem)
      have hlt := (maxElement (rows.map Prod.fst)).toNat_lt
      apply UInt64.toNat_inj.mp
      rw [heq, hlast] at hle
      omega
    have hbelow := h entry.1 hmem
    rw [nextId_tableOfRows hentry, hmax, heq] at hbelow
    revert hbelow
    decide
  · intro h id hid
    obtain ⟨entry, hentry, rfl⟩ := List.mem_map.mp hid
    rw [nextId_tableOfRows hentry]
    have hmem : entry.1 ∈ rows.map Prod.fst := List.mem_map_of_mem hentry
    have hle := UInt64.le_iff_toNat_le.mp (le_maxElement _ hmem)
    have hsucc : (maxElement (rows.map Prod.fst) + 1).toNat =
        (maxElement (rows.map Prod.fst)).toNat + 1 := by
      obtain ⟨top, htop, hmax⟩ := List.mem_map.mp
        (maxElement_mem (List.ne_nil_of_mem hmem))
      have hne : (maxElement (rows.map Prod.fst)).toNat ≠ 2 ^ 64 - 1 := by
        intro heq
        exact h top htop (UInt64.toNat_inj.mp (by rw [hmax, heq]; rfl))
      have hlt := (maxElement (rows.map Prod.fst)).toNat_lt
      rw [UInt64.toNat_add]
      exact Nat.mod_eq_of_lt (by change _ + 1 < _; omega)
    refine lt_of_lt_of_le ?_ (le_max_left _ _)
    rw [UInt64.lt_iff_toNat_lt, hsucc]
    omega

end Rows

/-! ## The law -/

section Load

variable {f : TableContents} {pool : StringPool} {schema : TableSchema StringId} {id : RowId}
  {row : Row StringId}

/-- The rows of the table are rows of the file, under the ids of the process. -/
theorem TableContents.of_find?_loaded
    (h : (tableOfRows (ι := ι) f.name schema (f.loadedRows pool)).rows.find? id = some row) :
    ∃ entry ∈ f.rows, entry.1 = id ∧ entry.2.map (Value.map (remap (f.idMap pool))) = row := by
  obtain ⟨entry, hentry, heq⟩ := List.mem_map.mp (mem_of_find?_tableOfRows h)
  cases heq
  exact ⟨entry, hentry, rfl, rfl⟩

theorem TableContents.find?_loaded (distinct : (f.rows.map Prod.fst).Nodup)
    {entry : RowId × Row StringId} (h : entry ∈ f.rows) :
    (tableOfRows (ι := ι) f.name schema (f.loadedRows pool)).rows.find? entry.1 =
      some (entry.2.map (Value.map (remap (f.idMap pool)))) := by
  refine find?_tableOfRows_of_mem ?_ (List.mem_map_of_mem h)
  rw [TableContents.loadedRows, List.map_map]
  exact distinct

theorem TableContents.order_loaded :
    (tableOfRows (ι := ι) f.name schema (f.loadedRows pool)).order = f.rows.map Prod.fst := by
  change (f.loadedRows pool).map Prod.fst = _
  rw [TableContents.loadedRows, List.map_map]
  rfl

theorem TableContents.forall_loadedRows_ne {last : RowId} :
    (∀ entry ∈ f.loadedRows pool, entry.1 ≠ last) ↔ ∀ entry ∈ f.rows, entry.1 ≠ last := by
  constructor
  · intro h entry hentry
    exact h (entry.1, entry.2.map (Value.map (remap (f.idMap pool)))) (List.mem_map_of_mem hentry)
  · intro h entry hentry
    obtain ⟨entry, hfile, rfl⟩ := List.mem_map.mp hentry
    exact h entry hfile

/-- A row of the file has a value for each column. -/
theorem RowBytes.length_eq {columnCount : Nat} {bytes : ByteString} {entry : RowId × Row StringId}
    (h : RowBytes columnCount bytes entry) : entry.2.length = columnCount := by
  cases h with
  | mk id width list => exact width

theorem Value.map_some_of_getElem? {σ τ : Type} {g : σ → τ} {values : List (Value σ)} {i : Nat}
    {v : Value σ} (h : values[i]? = some v) : (values.map (Value.map g))[i]? = some (v.map g) := by
  rw [List.getElem?_map, h]
  rfl

/-- The table of a proper file is valid when the file is acceptable, and only then. -/
theorem valid_tableOfRows_iff (proper : f.Proper) {bytes : ByteString}
    (rowList : ListBytes (RowBytes f.columns.length) bytes f.rows) (consistent : pool.Consistent)
    (room : (StringPool.internAll f.strings pool).2.byId.length ≤ 2 ^ 32)
    (hschema : schema.columns = f.columns.map (ColumnDef.map (remap (f.idMap pool)))) :
    (tableOfRows (ι := ι) f.name schema (f.loadedRows pool)).Valid
        (StringPool.internAll f.strings pool).2 ↔ f.Acceptable := by
  have hcolumn : ∀ {i : Nat} {c : ColumnDef StringId}, f.columns[i]? = some c →
      (tableOfRows (ι := ι) f.name schema (f.loadedRows pool)).schema.columns[i]? =
        some (c.map (remap (f.idMap pool))) := by
    intro i c h
    change schema.columns[i]? = _
    rw [hschema, List.getElem?_map, h]
    rfl
  have hof : ∀ {i : Nat} {c : ColumnDef StringId},
      (tableOfRows (ι := ι) f.name schema (f.loadedRows pool)).schema.columns[i]? = some c →
        ∃ c', f.columns[i]? = some c' ∧ c'.map (remap (f.idMap pool)) = c := by
    intro i c h
    change schema.columns[i]? = _ at h
    rw [hschema, List.getElem?_map] at h
    exact Option.map_eq_some_iff.mp h
  have hbelow : ∀ {entry : RowId × Row StringId} {i : Nat} {v : Value StringId}, entry ∈ f.rows →
      entry.2[i]? = some v → v.Below (f.strings.length + 1) := fun hentry h =>
    proper.values _ hentry _ (List.mem_of_getElem? h)
  constructor
  · intro valid
    have distinct : (f.rows.map Prod.fst).Nodup := f.order_loaded ▸ valid.distinct
    refine ⟨distinct, f.forall_loadedRows_ne.mp (below_nextId_tableOfRows_iff.mp valid.below),
      ?_, ?_, ?_, ?_, ?_⟩
    · intro entry hentry i c v hc hv
      have htyped := valid.typed _ _ i _ _ (f.find?_loaded distinct hentry) (hcolumn hc)
        (Value.map_some_of_getElem? hv)
      exact (v.matches_map _ _).symm.trans htyped
    · intro entry hentry i c v hc hv hrequired hnull
      exact valid.present _ _ i _ _ (f.find?_loaded distinct hentry) (hcolumn hc)
        (Value.map_some_of_getElem? hv) hrequired (Value.map_eq_null_iff.mpr hnull)
    · intro i c hc hindexed entry hentry entry' hentry' v v' hv hv' heq
      rw [← Value.map_remap_string? consistent room (hbelow hentry hv),
        ← Value.map_remap_string? consistent room (hbelow hentry' hv')] at heq
      exact valid.unique i _ (hcolumn hc) hindexed _ _ _ _ _ _ (f.find?_loaded distinct hentry)
        (f.find?_loaded distinct hentry') (Value.map_some_of_getElem? hv)
        (Value.map_some_of_getElem? hv') heq
    · intro entry hentry v hv
      refine (Value.known_remap_iff consistent room (proper.values entry hentry v hv)).mp ?_
      exact valid.known _ _ (f.find?_loaded distinct hentry) _ (List.mem_map_of_mem hv)
    · intro c hc hdefault
      refine (Value.known_remap_iff consistent room (proper.defaults c hc _ hdefault)).mp ?_ rfl
      have hmem : c.map (remap (f.idMap pool)) ∈ schema.columns := by
        rw [hschema]
        exact List.mem_map_of_mem hc
      refine valid.knownDefaults _ hmem _ ?_
      unfold ColumnDef.map
      dsimp only
      rw [hdefault]
      rfl
  · intro acceptable
    constructor
    · rw [f.order_loaded]
      exact acceptable.distinct
    · exact fun id => mem_order_tableOfRows
    · intro id row hrow
      obtain ⟨entry, hentry, rfl, rfl⟩ := f.of_find?_loaded hrow
      obtain ⟨rowBytes, hbytes⟩ := rowList.exists_of_mem hentry
      change _ = schema.columns.length
      rw [List.length_map, hbytes.length_eq, hschema, List.length_map]
    · intro id row i c v hrow hc hv
      obtain ⟨entry, hentry, rfl, rfl⟩ := f.of_find?_loaded hrow
      obtain ⟨c, hfile, rfl⟩ := hof hc
      rw [List.getElem?_map] at hv
      obtain ⟨v, hvalue, rfl⟩ := Option.map_eq_some_iff.mp hv
      refine (v.matches_map _ _).trans ?_
      exact acceptable.typed entry hentry i c v hfile hvalue
    · intro id row i c v hrow hc hv hrequired hnull
      obtain ⟨entry, hentry, rfl, rfl⟩ := f.of_find?_loaded hrow
      obtain ⟨c, hfile, rfl⟩ := hof hc
      rw [List.getElem?_map] at hv
      obtain ⟨v, hvalue, rfl⟩ := Option.map_eq_some_iff.mp hv
      exact acceptable.present entry hentry i c v hfile hvalue hrequired
        (Value.map_eq_null_iff.mp hnull)
    · intro i c hc hindexed id id' row row' v v' hrow hrow' hv hv' heq
      obtain ⟨entry, hentry, rfl, rfl⟩ := f.of_find?_loaded hrow
      obtain ⟨entry', hentry', rfl, rfl⟩ := f.of_find?_loaded hrow'
      obtain ⟨c, hfile, rfl⟩ := hof hc
      rw [List.getElem?_map] at hv hv'
      obtain ⟨v, hvalue, rfl⟩ := Option.map_eq_some_iff.mp hv
      obtain ⟨v', hvalue', rfl⟩ := Option.map_eq_some_iff.mp hv'
      rw [Value.map_remap_string? consistent room (hbelow hentry hvalue),
        Value.map_remap_string? consistent room (hbelow hentry' hvalue')] at heq
      exact acceptable.unique i c hfile hindexed entry hentry entry' hentry' v v' hvalue hvalue' heq
    · intro id row hrow v hv
      obtain ⟨entry, hentry, rfl, rfl⟩ := f.of_find?_loaded hrow
      obtain ⟨v, hvalue, rfl⟩ := List.mem_map.mp hv
      exact (Value.known_remap_iff consistent room (proper.values entry hentry v hvalue)).mpr
        (acceptable.referred entry hentry v hvalue)
    · intro c hc v hv
      change c ∈ schema.columns at hc
      rw [hschema] at hc
      obtain ⟨c, hfile, rfl⟩ := List.mem_map.mp hc
      obtain ⟨v, hdefault, rfl⟩ := Option.map_eq_some_iff.mp hv
      refine (Value.known_remap_iff consistent room (proper.defaults c hfile v hdefault)).mpr ?_
      intro hzero
      exact acceptable.referredDefaults c hfile (hzero ▸ hdefault)
    · exact below_nextId_tableOfRows_iff.mpr (f.forall_loadedRows_ne.mpr acceptable.last)

/-- A proper file has a schema under the ids of the process. -/
theorem TableContents.Proper.exists_schema (proper : f.Proper) (g : StringId → StringId) :
    ∃ schema : TableSchema StringId, schema.columns = f.columns.map (ColumnDef.map g) := by
  refine ⟨⟨f.columns.map (ColumnDef.map g), ?_, ?_⟩, rfl⟩
  · intro col hcol
    obtain ⟨c, hc, rfl⟩ := List.mem_map.mp hcol
    exact proper.named c hc
  · rw [List.map_map]
    exact proper.distinct

/-- Whatever the bytes, what `Table::load` returns is valid, exactly when they do not hold the
contents of a table that are not acceptable. -/
theorem load_valid_iff {bytes : ByteString} (consistent : pool.Consistent)
    (room : ∀ f front rest, bytes = front ++ rest → TableBytes f front →
      (StringPool.internAll f.strings pool).2.byId.length ≤ 2 ^ 32) :
    (∀ (t : Table StringId ι) s, load (bytes, pool) = .ok t s → t.Valid s.2) ↔
      ∀ f front rest, bytes = front ++ rest → TableBytes f front → f.Acceptable := by
  constructor
  · intro h f front rest hbytes hfile
    have hroom := room f front rest hbytes hfile
    cases hfile with
    | mk proper columnList rowList =>
        obtain ⟨schema, hschema⟩ := proper.exists_schema (remap (f.idMap pool))
        refine (valid_tableOfRows_iff (ι := ι) proper rowList consistent hroom hschema).mp
          (h _ (rest, _) ?_)
        rw [hbytes]
        exact (parses_load _ _ _ _ _).mpr ⟨_, rfl, f, .mk proper columnList rowList, rfl, schema,
          hschema, rfl⟩
  · rintro h t ⟨rest, pool'⟩ hload
    obtain ⟨front, hbytes, f, hfile, rfl, schema, hschema, rfl⟩ := (parses_load _ _ _ _ _).mp hload
    have acceptable := h f front rest hbytes hfile
    have hroom := room f front rest hbytes hfile
    cases hfile with
    | mk proper columnList rowList =>
        exact (valid_tableOfRows_iff proper rowList consistent hroom hschema).mpr acceptable

end Load

section Instances

/-- Interning adds at most one string each. -/
theorem length_byId_internAll_le (strings : List ByteString) (pool : StringPool) :
    (StringPool.internAll strings pool).2.byId.length ≤ pool.byId.length + strings.length := by
  induction strings generalizing pool with
  | nil => exact Nat.le_refl _
  | cons s strings ih =>
      have hone : (pool.intern s).2.byId.length ≤ pool.byId.length + 1 := by
        unfold StringPool.intern
        split
        · exact Nat.le_succ _
        · exact Nat.le_of_eq List.length_append
      have hrest := ih (pool.intern s).2
      rw [List.length_cons]
      change (StringPool.internAll strings (pool.intern s).2).2.byId.length ≤ _
      omega

/-- Every string of a file takes some of its bytes. -/
theorem TableBytes.length_strings_le {f : TableContents} {bytes : ByteString}
    (h : TableBytes f bytes) : f.strings.length ≤ bytes.length := by
  cases h with
  | mk proper columnList rowList =>
      have hstrings : ∀ strings : List ByteString,
          strings.length ≤ (strings.flatMap StringPool.serializeString).length := by
        intro strings
        induction strings with
        | nil => exact Nat.le_refl _
        | cons s strings ih =>
            have hone : 1 ≤ (StringPool.serializeString s).length := by
              unfold StringPool.serializeString
              dsimp only
              rw [List.length_append, Scalar.length_encode]
              exact Nat.le_add_right_of_le (by decide)
            rw [List.flatMap_cons, List.length_append, List.length_cons]
            omega
      have := hstrings f.strings
      simp only [List.length_append]
      omega

/-- A pool and a file of less than 2^32 strings and bytes leave room. -/
theorem room_of_length {pool : StringPool} {bytes : ByteString}
    (short : pool.byId.length + bytes.length ≤ 2 ^ 32) (f : TableContents)
    (front rest : ByteString) (hbytes : bytes = front ++ rest) (file : TableBytes f front) :
    (StringPool.internAll f.strings pool).2.byId.length ≤ 2 ^ 32 := by
  have hinterned := length_byId_internAll_le f.strings pool
  have hfile := file.length_strings_le
  rw [hbytes, List.length_append] at short
  omega

/-- A table with the column `a INT NOT NULL INDEXED`, and `n` times the row 1 with a NULL. -/
private def nullContents (n : Nat) : TableContents where
  name := text "t"
  strings := []
  columns := [{ name := text "a", type := .int, notNull := true, indexed := true }]
  rows := List.replicate n (1, [.null])

private def nullRow : ByteString :=
  Scalar.encode (1 : UInt64) ++ (Scalar.encode (0 : UInt8) ++ [])

private def nullFile (n : Nat) : ByteString :=
  Scalar.encode kMagic ++ (Scalar.encode kVersionV3 ++ (saveName (text "t") ++
    (Scalar.encode (0 : UInt32) ++ ([] ++ (Scalar.encode (1 : UInt32) ++
      ((saveName (text "a") ++ Scalar.encode (1 : UInt8) ++ Scalar.encode (3 : UInt8) ++
        Scalar.encode (0 : UInt8) ++ []) ++
        (Scalar.encode (UInt64.ofNat n) ++ (List.replicate n nullRow).flatten)))))))

private theorem listBytes_nullRow {columnCount : Nat} (one : columnCount = 1) (n : Nat) :
    ListBytes (RowBytes columnCount) (List.replicate n nullRow).flatten
      (nullContents n).rows := by
  induction n with
  | zero => exact .nil
  | succ n ih => exact .cons (.mk 1 one.symm (.cons .null .nil)) ih

private theorem tableBytes_nullContents {n : Nat} (few : n < 2 ^ 64) :
    TableBytes (nullContents n) (nullFile n) := by
  have hcount : (nullContents n).rows.length = n := List.length_replicate
  have columnList : ListBytes ColumnBytes _ (nullContents n).columns :=
    .cons (.mk (text "a") 1 3 (by decide +kernel) .none) .nil
  have proper : (nullContents n).Proper :=
    { name := by
        change (text "t").length < _
        decide +kernel
      strings := nofun
      stringCount := by
        change 0 < _
        decide
      columnCount := by
        change 1 < _
        decide
      rowCount := hcount.symm ▸ few
      defaults := by
        intro col hcol v hv
        cases List.mem_singleton.mp hcol
        cases hv
      values := by
        intro entry hentry v hv
        cases List.eq_of_mem_replicate hentry
        cases List.mem_singleton.mp hv
        exact nofun
      named := by
        intro col hcol
        cases List.mem_singleton.mp hcol
        change text "a" ≠ []
        decide +kernel
      distinct := List.nodup_singleton _ }
  have hfile := TableBytes.mk proper columnList (listBytes_nullRow rfl n)
  rw [hcount] at hfile
  exact hfile

/-- A NULL is loaded, so the table is not valid. -/
theorem null_loaded_into_indexed_column :
    ∃ (t : Table StringId Nat) (s : ByteString × StringPool),
      load (nullFile 1, .initial) = .ok t s ∧ ¬ t.Valid s.2 := by
  have hfile : ¬ ∀ f front rest, nullFile 1 = front ++ rest → TableBytes f front →
      f.Acceptable := by
    intro h
    have acceptable := h (nullContents 1) _ [] (List.append_nil _).symm
      (tableBytes_nullContents (by decide))
    exact acceptable.present _ (List.mem_singleton_self _) 0 _ .null rfl rfl (.inl rfl) rfl
  by_contra hnone
  refine hfile ((load_valid_iff (ι := Nat) StringPool.consistent_initial
    (room_of_length (by decide +kernel))).mp ?_)
  intro t s hload
  by_contra hinvalid
  exact hnone ⟨t, s, hload, hinvalid⟩

/-- With the row twice, its id is listed twice, and NULL stands where none may. -/
theorem row_id_loaded_twice : ∃ (t : Table StringId Nat) (s : ByteString × StringPool),
    load (nullFile 2, .initial) = .ok t s ∧ t.order = [1, 1] ∧ t.rows.find? 1 = some [.null] ∧
      t.schema.columns.map (·.notNull) = [true] ∧ ¬ t.Valid s.2 := by
  have named : ∀ c ∈ (nullContents 2).columns, c.name ≠ [] := by
    intro col hcol
    cases List.mem_singleton.mp hcol
    change text "a" ≠ []
    decide +kernel
  refine ⟨tableOfRows (text "t") ⟨(nullContents 2).columns, named, List.nodup_singleton _⟩
    ((nullContents 2).loadedRows .initial), ([], .initial), ?_, rfl, rfl, rfl, ?_⟩
  · exact (parses_load _ _ _ _ _).mpr ⟨nullFile 2, (List.append_nil _).symm, nullContents 2,
      tableBytes_nullContents (by decide), rfl, _, rfl, rfl⟩
  · intro valid
    have hnodup : ([1, 1] : List RowId).Nodup := valid.distinct
    revert hnodup
    decide

end Instances
end CwDb.Storage
