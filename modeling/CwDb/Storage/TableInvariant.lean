/-
  Storage/TableInvariant.lean --- what every operation of a table keeps.

  `TableInv` ties the rows, `order_`, `next_id_` and the attached indexes together;
  `TableSound` is what is left of it when `next_id_` has wrapped around.
  Each operation has one theorem about how it ends; when it throws, the state is the
  one before the call, unless the medium of an index is spent.
-/
import CwDb.Storage.Table

set_option autoImplicit false

namespace CwDb.Storage

open CwDb.Cpp
open CwDb.Foundation

/-! ## The invariant -/

/-- One value per column, each NULL or of the column's type, and not NULL in a
`not_null` or `indexed` column. -/
structure Conforms (schema : TableSchema ByteString) (row : Row ByteString) : Prop where
  arity : row.length = schema.columnCount
  typed : ∀ (i : Nat) (c : ColumnDef ByteString) (v : Value ByteString),
    schema.columns[i]? = some c → row[i]? = some v → v.matches c.type = true
  present : ∀ (i : Nat) (c : ColumnDef ByteString) (v : Value ByteString),
    schema.columns[i]? = some c → row[i]? = some v →
      c.notNull = true ∨ c.indexed = true → v ≠ .null

/-- The column is flagged `indexed`. -/
def TableSchema.IsIndexed (schema : TableSchema ByteString) (column : Nat) : Prop :=
  ∃ c, schema.columns[column]? = some c ∧ c.indexed = true

namespace Table

variable {ι : Type}

/-- The row `id` is stored and has the value `v` in the column. -/
def Stored (t : Table ByteString ι) (id : RowId) (column : Nat) (v : Value ByteString) : Prop :=
  ∃ row, t.rows.find? id = some row ∧ row[column]? = some v

/-- The rows, `order_` and `next_id_`. -/
structure WellFormed (t : Table ByteString ι) : Prop where
  sorted : t.order.Pairwise (· < ·)
  listed : ∀ id, id ∈ t.order ↔ id ∈ t.rows.keys
  /-- `next_id_` is 0 once all ids have been given out. -/
  below : t.nextId ≠ 0 → ∀ id ∈ t.order, id < t.nextId
  conforms : ∀ id row, t.rows.find? id = some row → Conforms t.schema row
  unique : ∀ column, t.schema.IsIndexed column → ∀ id id' v,
    t.Stored id column v → t.Stored id' column v → id = id'

theorem WellFormed.order_nodup {t : Table ByteString ι} (wf : t.WellFormed) : t.order.Nodup :=
  wf.sorted.imp fun h => ne_of_lt h

theorem WellFormed.mem_order {t : Table ByteString ι} (wf : t.WellFormed) {id : RowId}
    {row : Row ByteString} (stored : t.rows.find? id = some row) : id ∈ t.order :=
  (wf.listed id).mpr
    (List.mem_map_of_mem (f := Prod.fst) (UnorderedMap.find?_eq_some_iff.mp stored))

/-- What the rows satisfy even after the ids have run out. -/
structure RowsSound (t : Table ByteString ι) : Prop where
  listed : ∀ id ∈ t.rows.keys, id ∈ t.order
  conforms : ∀ id row, t.rows.find? id = some row → Conforms t.schema row
  unique : ∀ column, t.schema.IsIndexed column → ∀ id id' v,
    t.Stored id column v → t.Stored id' column v → id = id'

theorem WellFormed.rowsSound {t : Table ByteString ι} (wf : t.WellFormed) : t.RowsSound :=
  ⟨fun id h => (wf.listed id).mpr h, wf.conforms, wf.unique⟩

/-- The map that an index of the column has to be. -/
def Tracks (t : Table ByteString ι) (column : Nat) (m : IndexMap) : Prop :=
  ∀ v id, m v = some id ↔ t.Stored id column v

end Table

variable {ι ω : Type} [IIndex ι ω] [LawfulIndex ι ω]

/-- The medium of the indexes can take no more. -/
def TableState.Spent (s : TableState ι ω) : Prop := LawfulIndex.Spent (ι := ι) s.world

/-- The invariant of a table with its indexes. -/
structure TableInv (s : TableState ι ω) : Prop where
  wellFormed : s.table.WellFormed
  flagged : ∀ column index, s.table.indexes.find? column = some index →
    s.table.schema.IsIndexed column
  tracked : ∀ column index, s.table.indexes.find? column = some index →
    ∃ m, LawfulIndex.Holds s.world index m ∧ s.table.Tracks column m
  readable : ∀ column index c v, s.table.indexes.find? column = some index →
    s.table.schema.columns[column]? = some c → v ≠ .null → v.matches c.type = true →
    LawfulIndex.Reads index v
  admitted : ∀ column index id v, s.table.indexes.find? column = some index →
    s.table.Stored id column v → LawfulIndex.Admits index v
  apart : ∀ column column' index index', column ≠ column' →
    s.table.indexes.find? column = some index → s.table.indexes.find? column' = some index' →
    LawfulIndex.Apart index index'

/-- The invariant of the rows with the indexes, which nothing said about ids enters. -/
structure TableSound (s : TableState ι ω) : Prop where
  rows : s.table.RowsSound
  flagged : ∀ column index, s.table.indexes.find? column = some index →
    s.table.schema.IsIndexed column
  tracked : ∀ column index, s.table.indexes.find? column = some index →
    ∃ m, LawfulIndex.Holds s.world index m ∧ s.table.Tracks column m
  readable : ∀ column index c v, s.table.indexes.find? column = some index →
    s.table.schema.columns[column]? = some c → v ≠ .null → v.matches c.type = true →
    LawfulIndex.Reads index v
  admitted : ∀ column index id v, s.table.indexes.find? column = some index →
    s.table.Stored id column v → LawfulIndex.Admits index v
  apart : ∀ column column' index index', column ≠ column' →
    s.table.indexes.find? column = some index → s.table.indexes.find? column' = some index' →
    LawfulIndex.Apart index index'

theorem TableInv.sound {s : TableState ι ω} (inv : TableInv s) : TableSound s :=
  ⟨inv.wellFormed.rowsSound, inv.flagged, inv.tracked, inv.readable, inv.admitted, inv.apart⟩

theorem TableSound.tableInv {s : TableState ι ω} (sound : TableSound s)
    (wf : s.table.WellFormed) : TableInv s :=
  ⟨wf, sound.flagged, sound.tracked, sound.readable, sound.admitted, sound.apart⟩

/-- The index objects apart from those of the table hold what they held. -/
def Framed (s s' : TableState ι ω) : Prop :=
  ∀ j m, (∀ column index, s.table.indexes.find? column = some index →
    LawfulIndex.Apart index j) → LawfulIndex.Holds s.world j m → LawfulIndex.Holds s'.world j m

theorem Framed.refl (s : TableState ι ω) : Framed s s := fun _ _ _ h => h

theorem Framed.trans {s s' s'' : TableState ι ω} (same : s'.table.indexes = s.table.indexes)
    (first : Framed s s') (second : Framed s' s'') : Framed s s'' := by
  intro j m apart holds
  refine second j m ?_ (first j m apart holds)
  rw [same]
  exact apart

/-- What an operation leads to. -/
structure SoundFrom (s s' : TableState ι ω) : Prop where
  sound : TableSound s'
  framed : Framed s s'

/-- The attached indexes take the values of the row that belong in their columns. -/
def AdmitsRow (s : TableState ι ω) (row : Row ByteString) : Prop :=
  ∀ column index c v, s.table.indexes.find? column = some index →
    s.table.schema.columns[column]? = some c → row[column]? = some v →
    v ≠ .null → v.matches c.type = true → LawfulIndex.Admits index v

/-! ## Validation -/

theorem forM_eq_ok {α ε : Type} {f : α → Except ε PUnit} : ∀ {l : List α},
    l.forM f = .ok ⟨⟩ → ∀ x ∈ l, f x = .ok ⟨⟩
  | [], _, _, hx => by simp at hx
  | y :: l, h, x, hx => by
      change (f y >>= fun _ => l.forM f) = .ok ⟨⟩ at h
      cases hy : f y with
      | error e => simp [hy, bind, Except.bind] at h
      | ok u =>
          have hl : l.forM f = .ok ⟨⟩ := by simpa [hy, bind, Except.bind] using h
          rcases List.mem_cons.mp hx with rfl | hx
          · exact hy
          · exact forM_eq_ok hl x hx

theorem anyM_eq_ok {α ε : Type} {f : α → Except ε Bool} {g : α → Bool} : ∀ {l : List α},
    (∀ x ∈ l, f x = .ok (g x)) → l.anyM f = .ok (l.any g)
  | [], _ => rfl
  | x :: l, h => by
      have hx := h x List.mem_cons_self
      have hl := anyM_eq_ok fun y hy => h y (List.mem_cons_of_mem x hy)
      cases hg : g x <;> simp [List.anyM, hx, hl, hg, bind, Except.bind, pure, Except.pure]

namespace TableSound

variable {s : TableState ι ω}

/-- Both ways of looking for a value find it in the same rows. -/
theorem valueExistsInColumn_spec (inv : TableSound s) {column : Nat} {value : Value ByteString}
    {o : Option RowId} (inRange : column < s.table.schema.columnCount)
    (present : value ≠ .null)
    (reads : ∀ index, s.table.indexes.find? column = some index →
      LawfulIndex.Reads index value) :
    ∃ found, s.table.valueExistsInColumn s.world column value o = .ok found ∧
      (found = true ↔ ∃ id, s.table.Stored id column value ∧ o ≠ some id) := by
  unfold Table.valueExistsInColumn
  cases hindex : s.table.indexes.find? column with
  | some index =>
      obtain ⟨m, holds, tracks⟩ := inv.tracked column index hindex
      have hfind := LawfulIndex.find_spec holds (reads index hindex)
      cases hm : m value with
      | none =>
          refine ⟨false, by simp [hfind, hm, bind, Except.bind, pure, Except.pure], ?_⟩
          simp only [Bool.false_eq_true, false_iff, not_exists, not_and]
          intro id hstored
          rw [(tracks value id).mpr hstored] at hm
          cases hm
      | some id =>
          have hstored := (tracks value id).mp hm
          refine ⟨o != some id,
            by simp [hfind, hm, bind, Except.bind, pure, Except.pure], ?_⟩
          constructor
          · intro h
            exact ⟨id, hstored, by simpa using h⟩
          · rintro ⟨id', hstored', hne⟩
            have hid : id' = id := by
              have := (tracks value id').mpr hstored'
              rw [hm] at this
              exact (Option.some.inj this).symm
            simpa [hid] using hne
  | none =>
      let g : RowId × Row ByteString → Bool := fun e =>
        decide (o ≠ some e.1) && decide (e.2[column]? = some value)
      have hany := anyM_eq_ok (l := s.table.rows.entries) (g := g)
        (f := fun e => (do
          if o = some e.1 then pure false
          else
            let stored ← vectorAt e.2 column
            pure (stored.compare value == some .eq) : Except Fault Bool)) (by
        rintro ⟨rowId, row⟩ hmem
        by_cases hex : o = some rowId
        · simp [g, hex, pure, Except.pure]
        · have hrow := inv.rows.conforms rowId row (UnorderedMap.find?_eq_some_iff.mpr hmem)
          have hlt : column < row.length := hrow.arity ▸ inRange
          have hget : vectorAt row column = .ok row[column] := by simp [hlt]
          have hcmp : (row[column].compare value == some .eq) = decide (row[column] = value) := by
            rw [Bool.eq_iff_iff]
            simp only [beq_iff_eq, Value.compare_eq_some_eq_iff, decide_eq_true_eq]
            exact ⟨fun h => h.1, fun h => ⟨h, h ▸ present⟩⟩
          simp [g, hex, hget, hcmp, bind, Except.bind, pure, Except.pure,
            List.getElem?_eq_getElem hlt])
      refine ⟨_, hany, ?_⟩
      rw [List.any_eq_true]
      constructor
      · rintro ⟨⟨rowId, row⟩, hmem, hg⟩
        simp only [g, Bool.and_eq_true, decide_eq_true_eq] at hg
        exact ⟨rowId, ⟨row, UnorderedMap.find?_eq_some_iff.mpr hmem, hg.2⟩, hg.1⟩
      · rintro ⟨id, ⟨row, hrow, hv⟩, hne⟩
        exact ⟨(id, row), UnorderedMap.find?_eq_some_iff.mp hrow, by simp [g, hne, hv]⟩

/-- What a validated row satisfies. -/
theorem validate_ok (inv : TableSound s) {row : Row ByteString} {existingId : Option RowId}
    (h : s.table.validate s.world row existingId = .ok ⟨⟩) :
    Conforms s.table.schema row ∧
      ∀ column, s.table.schema.IsIndexed column → ∀ id v, row[column]? = some v →
        s.table.Stored id column v → existingId = some id := by
  unfold Table.validate at h
  split at h
  · simp [raise] at h
  next harity =>
  have harity : row.length = s.table.schema.columnCount := by simpa using harity
  have hcolumn : ∀ (i : Nat) (c : ColumnDef ByteString) (v : Value ByteString),
      s.table.schema.columns[i]? = some c → row[i]? = some v →
      v.matches c.type = true ∧ (c.notNull = true ∨ c.indexed = true → v ≠ .null) ∧
        (c.indexed = true → ∀ id, s.table.Stored id i v → existingId = some id) := by
    intro i c v hc hv
    have hi : i < s.table.schema.columnCount := (List.getElem?_eq_some_iff.mp hc).1
    have hround := forM_eq_ok h i (List.mem_range.mpr hi)
    have hat : s.table.schema.at i = .ok c := vectorAt_eq_ok.mpr hc
    have hvalue : vectorAt row i = .ok v := vectorAt_eq_ok.mpr hv
    simp only [Table.validateColumn, hat, hvalue, bind, Except.bind] at hround
    cases hnull : v.isNull with
    | true =>
        obtain rfl : v = .null := by cases v <;> simp_all [Value.isNull]
        by_cases hreq : c.notNull = true ∨ c.indexed = true
        · simp [hnull, hreq, raise] at hround
        · refine ⟨rfl, fun h => absurd h hreq, fun h => absurd (.inr h) hreq⟩
    | false =>
        have hpresent : v ≠ .null := by
          rintro rfl
          simp [Value.isNull] at hnull
        cases hmatch : v.matches c.type with
        | false => simp [hnull, hmatch, raise] at hround
        | true =>
            refine ⟨rfl, fun _ => hpresent, fun hidx id hstored => ?_⟩
            obtain ⟨found, hfound, hiff⟩ := inv.valueExistsInColumn_spec
              (o := existingId) hi hpresent
              (fun index hindex => inv.readable i index c v hindex hc hpresent hmatch)
            cases found with
            | true => simp [hnull, hmatch, hidx, hfound, raise] at hround
            | false =>
                by_contra hne
                exact Bool.false_ne_true (hiff.mpr ⟨id, hstored, hne⟩)
  refine ⟨⟨harity, fun i c v hc hv => (hcolumn i c v hc hv).1,
    fun i c v hc hv => (hcolumn i c v hc hv).2.1⟩, ?_⟩
  rintro column ⟨c, hc, hidx⟩ id v hv hstored
  exact (hcolumn column c v hc hv).2.2 hidx id hstored

end TableSound
end CwDb.Storage
