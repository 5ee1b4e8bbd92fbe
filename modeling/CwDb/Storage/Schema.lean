/-
  Storage/Schema.lean --- `storage/include/sql/schema.h`.

  A schema carries what `set_columns` has checked of it.
-/
import CwDb.Foundation.Effect
import CwDb.Storage.Value

set_option autoImplicit false

namespace CwDb.Storage

open CwDb.Cpp

/-- `struct ColumnDef`. -/
structure ColumnDef (σ : Type) where
  name : ByteString
  type : DataType := .int
  notNull : Bool := false
  indexed : Bool := false
  defaultValue : Option (Value σ) := none
  deriving DecidableEq, Repr, Inhabited

/-- The column with the string of its default looked up. -/
def ColumnDef.map {σ τ : Type} (f : σ → τ) (col : ColumnDef σ) : ColumnDef τ where
  name := col.name
  type := col.type
  notNull := col.notNull
  indexed := col.indexed
  defaultValue := col.defaultValue.map (Value.map f)

/-- `class TableSchema`. -/
structure TableSchema (σ : Type) where
  columns : List (ColumnDef σ)
  named : ∀ c ∈ columns, c.name ≠ []
  distinct : (columns.map (·.name)).Nodup

namespace TableSchema

variable {σ : Type}

/-- `TableSchema()`. -/
def empty : TableSchema σ := ⟨[], by simp, by simp⟩

instance : Inhabited (TableSchema σ) := ⟨empty⟩

/-- The loop of `TableSchema::set_columns`; `seen` holds the keys of
`index_by_name_`. -/
def setColumns : List ByteString → List (ColumnDef σ) → Except Fault Unit
  | _, [] => .ok ()
  | seen, column :: rest =>
      if column.name = [] then
        raise .invalidArgument (text "TableSchema: column name must not be empty")
      else if column.name ∈ seen then
        raise .invalidArgument
          (text "TableSchema: duplicate column '" ++ column.name ++ text "'")
      else setColumns (column.name :: seen) rest

theorem setColumns_ok : ∀ {seen : List ByteString} {columns : List (ColumnDef σ)},
    setColumns seen columns = .ok () →
      (∀ c ∈ columns, c.name ≠ [] ∧ c.name ∉ seen) ∧ (columns.map (·.name)).Nodup
  | _, [], _ => by simp
  | seen, column :: rest, h => by
      unfold setColumns at h
      split at h
      · simp [raise] at h
      · next hname =>
          split at h
          · simp [raise] at h
          · next hseen =>
              obtain ⟨hrest, hnodup⟩ := setColumns_ok h
              have hfresh : ∀ c ∈ rest, c.name ≠ [] ∧ c.name ≠ column.name ∧ c.name ∉ seen :=
                fun c hc => ⟨(hrest c hc).1, by simpa using (hrest c hc).2⟩
              constructor
              · intro c hc
                rcases List.mem_cons.mp hc with rfl | hc
                · exact ⟨hname, hseen⟩
                · exact ⟨(hfresh c hc).1, (hfresh c hc).2.2⟩
              · rw [List.map_cons, List.nodup_cons]
                refine ⟨?_, hnodup⟩
                intro hmem
                obtain ⟨c, hc, heq⟩ := List.mem_map.mp hmem
                exact (hfresh c hc).2.1 heq

/-- `TableSchema(std::vector<ColumnDef>)`. -/
def ofColumns (columns : List (ColumnDef σ)) : Except Fault (TableSchema σ) :=
  match h : setColumns [] columns with
  | .error fault => .error fault
  | .ok () =>
      .ok ⟨columns, fun c hc => ((setColumns_ok h).1 c hc).1, (setColumns_ok h).2⟩

theorem setColumns_eq_ok : ∀ {seen : List ByteString} {columns : List (ColumnDef σ)},
    (∀ col ∈ columns, col.name ≠ [] ∧ col.name ∉ seen) → (columns.map (·.name)).Nodup →
      setColumns seen columns = .ok ()
  | _, [], _, _ => rfl
  | seen, column :: rest, hnames, hdistinct => by
      obtain ⟨hnamed, hfresh⟩ := hnames column List.mem_cons_self
      rw [List.map_cons, List.nodup_cons] at hdistinct
      unfold setColumns
      rw [if_neg hnamed, if_neg hfresh]
      refine setColumns_eq_ok (fun col hcol => ?_) hdistinct.2
      obtain ⟨hname, hseen⟩ := hnames col (List.mem_cons_of_mem column hcol)
      refine ⟨hname, fun hmem => ?_⟩
      rcases List.mem_cons.mp hmem with heq | hmem
      · exact hdistinct.1 (heq ▸ List.mem_map_of_mem (f := (·.name)) hcol)
      · exact hseen hmem

/-- The columns of a schema make a schema again. -/
theorem ofColumns_columns (schema : TableSchema σ) : ofColumns schema.columns = .ok schema := by
  have hset : setColumns [] schema.columns = .ok () :=
    setColumns_eq_ok (fun c hc => ⟨schema.named c hc, List.not_mem_nil⟩) schema.distinct
  unfold ofColumns
  split
  · next h => cases hset.symm.trans h
  · rfl

/-- They do so whatever becomes of the strings of their defaults. -/
theorem ofColumns_map {τ : Type} {f : σ → τ} (schema : TableSchema σ) :
    ∃ schema', ofColumns (schema.columns.map (ColumnDef.map f)) = .ok schema' ∧
      schema'.columns = schema.columns.map (ColumnDef.map f) := by
  let schema' : TableSchema τ := {
    columns := schema.columns.map (ColumnDef.map f)
    named := by
      intro mapped hmapped
      obtain ⟨c, hc, rfl⟩ := List.mem_map.mp hmapped
      exact schema.named c hc
    distinct := by
      rw [List.map_map]
      exact schema.distinct }
  exact ⟨schema', schema'.ofColumns_columns, rfl⟩

/-- `TableSchema::column_count`. -/
def columnCount (schema : TableSchema σ) : Nat := schema.columns.length

/-- `TableSchema::find_index`. -/
def findIndex (schema : TableSchema σ) (name : ByteString) : Option Nat :=
  schema.columns.findIdx? fun c => c.name = name

/-- `TableSchema::index_of`. -/
def indexOf (schema : TableSchema σ) (name : ByteString) : Except Fault Nat :=
  match schema.findIndex name with
  | some i => .ok i
  | none => raise .outOfRange (text "TableSchema: unknown column '" ++ name ++ text "'")

/-- `TableSchema::at`. -/
def «at» (schema : TableSchema σ) (i : Nat) : Except Fault (ColumnDef σ) :=
  vectorAt schema.columns i

theorem findIndex_lt {schema : TableSchema σ} {name : ByteString} {i : Nat}
    (h : schema.findIndex name = some i) : i < schema.columnCount :=
  (List.findIdx?_eq_some_iff_getElem.mp h).1

/-- The index of a name is the position of the column with that name. -/
theorem findIndex_eq_some_iff {schema : TableSchema σ} {name : ByteString} {i : Nat} :
    schema.findIndex name = some i ↔ ∃ c, schema.columns[i]? = some c ∧ c.name = name := by
  unfold findIndex
  rw [List.findIdx?_eq_some_iff_getElem]
  constructor
  · rintro ⟨hi, hname, -⟩
    exact ⟨schema.columns[i], by simp [hi], by simpa using hname⟩
  · rintro ⟨c, hc, hname⟩
    obtain ⟨hi, rfl⟩ := List.getElem?_eq_some_iff.mp hc
    refine ⟨hi, by simpa using hname, fun j hj => ?_⟩
    have hne := List.pairwise_iff_getElem.mp schema.distinct j i
      (by simpa using Nat.lt_trans hj hi) (by simpa using hi) hj
    simpa [← hname] using hne

end TableSchema
end CwDb.Storage
