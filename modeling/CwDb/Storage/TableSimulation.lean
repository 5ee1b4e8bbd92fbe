/-
  Storage/TableSimulation.lean --- a table over one implementation of the indexes against the
  same table over another.
-/
import CwDb.Storage.DirectorySimulation

set_option autoImplicit false

namespace CwDb.Storage

open CwDb.Cpp
open CwDb.Foundation

variable {ι ω ω' : Type} {P : ι → Prop} {x : IIndex ι ω} {y : IIndex ι ω'}
  {c : Coupling Fault ω ω'}

/-- All indexes of the table are covered. -/
def Table.Covered (P : ι → Prop) (table : Table ByteString ι) : Prop :=
  ∀ column i, table.indexes.find? column = some i → P i

/-- The same table over indexes that are covered and related. -/
def tableCoupling (P : ι → Prop) (c : Coupling Fault ω ω') :
    Coupling Fault (TableState ι ω) (TableState ι ω') where
  Related s t := s.table = t.table ∧ t.table.Covered P ∧ c.Related s.world t.world
  Spent s := c.Spent s.world
  NoAnswer := c.NoAnswer

namespace Table.Covered

variable {table : Table ByteString ι}

theorem entry (h : table.Covered P) {entry : Nat × ι} (here : entry ∈ table.indexes.entries) :
    P entry.2 :=
  h entry.1 entry.2 (UnorderedMap.find?_eq_some_iff.mpr here)

theorem assign (h : table.Covered P) {index : ι} (covered : P index) (column : Nat) :
    ({ table with indexes := table.indexes.assign column index } :
      Table ByteString ι).Covered P := by
  intro j i hi
  rw [UnorderedMap.find?_assign] at hi
  split at hi
  · cases hi
    exact covered
  · exact h j i hi

end Table.Covered

namespace IndexesFollow

variable {s : TableState ι ω} {t : TableState ι ω'} {table : Table ByteString ι} {w : ω} {w' : ω'}

/-! ## What a table reads -/

theorem valueExistsInColumn_eq (h : IndexesFollow P x y c) (covered : table.Covered P)
    (related : c.Related w w') (column : Nat) (value : Value ByteString)
    (excludeId : Option RowId) :
    @Table.valueExistsInColumn ι ω x table w column value excludeId =
      @Table.valueExistsInColumn ι ω' y table w' column value excludeId := by
  unfold Table.valueExistsInColumn
  cases hindex : table.indexes.find? column with
  | none => rfl
  | some index => simp only [h.find index value (covered _ _ hindex) related]

theorem validate_eq (h : IndexesFollow P x y c) (covered : table.Covered P)
    (related : c.Related w w') (row : Row ByteString) (existingId : Option RowId) :
    @Table.validate ι ω x table w row existingId =
      @Table.validate ι ω' y table w' row existingId := by
  have hcolumn : @Table.validateColumn ι ω x table w row existingId =
      @Table.validateColumn ι ω' y table w' row existingId := by
    funext i
    unfold Table.validateColumn
    simp only [h.valueExistsInColumn_eq covered related]
  unfold Table.validate
  rw [hcolumn]

/-! ## The index hooks -/

theorem follows_onWorld {α : Type} {m : EStateM Fault ω α} {m' : EStateM Fault ω' α}
    (related : (tableCoupling P c).Related s t) (h : Follows c m m' s.world t.world) :
    Follows (tableCoupling P c) (Table.onWorld m : TableM ι ω α) (Table.onWorld m') s t :=
  follows_zoom h (fun _ _ hw => ⟨related.1, related.2.1, hw⟩) (fun _ hw => hw) fun _ he => he

theorem notifyIndexesInsert (h : IndexesFollow P x y c) (rowId : RowId) (row : Row ByteString)
    (related : (tableCoupling P c).Related s t) :
    Follows (tableCoupling P c) (@Table.notifyIndexesInsert ι ω x rowId row)
      (@Table.notifyIndexesInsert ι ω' y rowId row) s t := by
  unfold Table.notifyIndexesInsert
  rw [follows_get_bind, related.1]
  refine follows_forM related ?_
  rintro ⟨column, index⟩ hentry s t' related'
  dsimp only
  cases row[column]? with
  | none => exact follows_pure _ related'
  | some value =>
      exact follows_onWorld related'
        (h.insert index value rowId (related.2.1.entry hentry) related'.2.2)

theorem notifyIndexesUpdate (h : IndexesFollow P x y c) (rowId : RowId) (column : Nat)
    (oldValue newValue : Value ByteString) (related : (tableCoupling P c).Related s t) :
    Follows (tableCoupling P c) (@Table.notifyIndexesUpdate ι ω x rowId column oldValue newValue)
      (@Table.notifyIndexesUpdate ι ω' y rowId column oldValue newValue) s t := by
  unfold Table.notifyIndexesUpdate
  rw [follows_get_bind, related.1]
  cases hindex : t.table.indexes.find? column with
  | none => exact follows_pure _ related
  | some index =>
      have hcovered := related.2.1 _ _ hindex
      refine (follows_onWorld related (h.erase index oldValue hcovered related.2.2)).bind
        fun _ s' t' related' => ?_
      exact follows_onWorld related' (h.insert index newValue rowId hcovered related'.2.2)

theorem notifyIndexesErase (h : IndexesFollow P x y c) (row : Row ByteString)
    (related : (tableCoupling P c).Related s t) :
    Follows (tableCoupling P c) (@Table.notifyIndexesErase ι ω x row)
      (@Table.notifyIndexesErase ι ω' y row) s t := by
  unfold Table.notifyIndexesErase
  rw [follows_get_bind, related.1]
  refine follows_forM related ?_
  rintro ⟨column, index⟩ hentry s t' related'
  dsimp only
  cases row[column]? with
  | none => exact follows_pure _ related'
  | some value =>
      refine (follows_onWorld related'
        (h.erase index value (related.2.1.entry hentry) related'.2.2)).bind
          fun _ s' t' related' => ?_
      exact follows_pure _ related'

/-! ## The operations -/

theorem follows_modifyTable (f : Table ByteString ι → Table ByteString ι)
    (covered : (f t.table).Covered P) (related : (tableCoupling P c).Related s t) :
    Follows (tableCoupling P c) (Table.modifyTable f : TableM ι ω PUnit) (Table.modifyTable f)
      s t :=
  follows_modify ⟨congrArg f related.1, covered, related.2.2⟩

theorem insert_row (h : IndexesFollow P x y c) (row : Row ByteString)
    (related : (tableCoupling P c).Related s t) :
    Follows (tableCoupling P c) (@Table.insert ι ω x row) (@Table.insert ι ω' y row) s t := by
  unfold Table.insert
  rw [follows_get_bind, related.1, h.validate_eq related.2.1 related.2.2]
  refine (follows_fromExcept _ related).bind fun _ s' t' related' => ?_
  refine (follows_modifyTable _ related'.2.1 related').bind fun _ s' t' related' => ?_
  rw [follows_get_bind, related'.1]
  refine (follows_fromExcept _ related').bind fun stored s' t' related' => ?_
  refine (h.notifyIndexesInsert _ stored related').bind fun _ s' t' related' => ?_
  exact follows_pure _ related'

theorem update (h : IndexesFollow P x y c) (id : RowId) (column : Nat)
    (newValue : Value ByteString) (related : (tableCoupling P c).Related s t) :
    Follows (tableCoupling P c) (@Table.update ι ω x id column newValue)
      (@Table.update ι ω' y id column newValue) s t := by
  unfold Table.update
  rw [follows_get_bind, related.1]
  cases t.table.rows.find? id with
  | none => exact follows_throw _ related
  | some row =>
      refine follows_ite (fun _ => follows_throw _ related) fun _ => ?_
      refine (follows_fromExcept _ related).bind fun oldValue s' t' related' => ?_
      dsimp only
      rw [h.validate_eq related.2.1 related.2.2]
      refine (follows_fromExcept _ related').bind fun _ s' t' related' => ?_
      refine (h.notifyIndexesUpdate id column oldValue newValue related').bind
        fun _ s' t' related' => ?_
      exact follows_modifyTable _ related'.2.1 related'

theorem erase_row (h : IndexesFollow P x y c) (id : RowId)
    (related : (tableCoupling P c).Related s t) :
    Follows (tableCoupling P c) (@Table.erase ι ω x id) (@Table.erase ι ω' y id) s t := by
  unfold Table.erase
  rw [follows_get_bind, related.1]
  cases t.table.rows.find? id with
  | none => exact follows_throw _ related
  | some row =>
      refine (h.notifyIndexesErase row related).bind fun _ s' t' related' => ?_
      exact follows_modifyTable _ related'.2.1 related'

theorem insertRow (h : IndexesFollow P x y c) (values : List (Option (Value ByteString)))
    (related : (tableCoupling P c).Related s t) :
    Follows (tableCoupling P c) (@Table.insertRow ι ω x values) (@Table.insertRow ι ω' y values)
      s t := by
  unfold Table.insertRow
  rw [follows_get_bind, related.1]
  refine follows_ite (fun _ => follows_throw _ related) fun _ => ?_
  refine (follows_fromExcept _ related).bind fun row s' t' related' => ?_
  refine (h.insert_row row related').bind fun _ s' t' related' => ?_
  exact follows_pure _ related'

theorem attachIndex (h : IndexesFollow P x y c) (column : Nat) (index : Option ι) (rebuild : Bool)
    (covered : ∀ i, index = some i → P i) (related : (tableCoupling P c).Related s t) :
    Follows (tableCoupling P c) (@Table.attachIndex ι ω x column index rebuild)
      (@Table.attachIndex ι ω' y column index rebuild) s t := by
  unfold Table.attachIndex
  rw [follows_get_bind, related.1]
  refine follows_ite (fun _ => follows_throw _ related) fun _ => ?_
  cases index with
  | none => exact follows_throw _ related
  | some index =>
      have hcovered := covered index rfl
      refine (follows_modifyTable _ (related.2.1.assign hcovered column) related).bind
        fun _ s' t' related' => ?_
      refine follows_ite (fun _ => ?_) fun _ => follows_pure _ related'
      refine follows_forM related' ?_
      intro rowId _ s t related
      refine (follows_fromExcept _ related).bind fun row s' t' related' => ?_
      refine (follows_fromExcept _ related').bind fun value s' t' related' => ?_
      exact follows_onWorld related' (h.insert index value rowId hcovered related'.2.2)

end IndexesFollow
end CwDb.Storage
