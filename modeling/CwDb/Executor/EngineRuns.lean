/-
  Executor/EngineRuns.lean --- what every statement keeps, over whole runs of the engine.

  `EngineInv` says of each table what `TableSound` says of one, and that the indexes of
  different tables are different objects.  A call of `execute` keeps it however it ends.
-/
import CwDb.Executor.Engine
import CwDb.Executor.StatementEffects

set_option autoImplicit false

namespace CwDb.Executor

open CwDb.Cpp
open CwDb.Foundation
open CwDb.Sql
open CwDb.Storage

variable {ι ω : Type} [IIndex ι ω] [LawfulIndex ι ω]

/-! ## The invariant -/

/-- The invariant of the engine. -/
structure EngineInv (st : DbmsState ι ω) : Prop where
  sound : ∀ dbName tableName table, st.dbms.table? dbName tableName = some table →
    TableSound (⟨table, st.world⟩ : TableState ι ω)
  takes : ∀ dbName tableName table, st.dbms.table? dbName tableName = some table →
    TakesColumns (⟨table, st.world⟩ : TableState ι ω)
  apart : ∀ dbName tableName table dbName' tableName' table' column column' index index',
    (dbName, tableName) ≠ (dbName', tableName') →
    st.dbms.table? dbName tableName = some table →
    st.dbms.table? dbName' tableName' = some table' →
    table.indexes.find? column = some index → table'.indexes.find? column' = some index' →
    LawfulIndex.Apart index index'

/-- Tables may go, and the world may change behind the indexes. -/
theorem EngineInv.mono {st st' : DbmsState ι ω} (inv : EngineInv st)
    (fewer : ∀ dbName tableName table, st'.dbms.table? dbName tableName = some table →
      st.dbms.table? dbName tableName = some table)
    (keeps : KeepsIndexes (ι := ι) st.world st'.world) : EngineInv st' := by
  refine ⟨fun d t table h => ?_, fun d t table h => ?_, ?_⟩
  · exact keeps.tableSound (inv.sound d t table (fewer d t table h))
  · exact inv.takes d t table (fewer d t table h)
  · intro d t table d' t' table' column column' index index' hne h h'
    exact inv.apart d t table d' t' table' column column' index index' hne
      (fewer d t table h) (fewer d' t' table' h')

/-- A new table has nothing to keep. -/
theorem tableSound_of_noIndex {table : Table ByteString ι} {w : ω} (rows : table.RowsSound)
    (bare : table.indexes = .empty) :
    TableSound (⟨table, w⟩ : TableState ι ω) ∧ TakesColumns (⟨table, w⟩ : TableState ι ω) := by
  have hnone : ∀ column index, table.indexes.find? column ≠ some index := by
    intro column index
    rw [bare, UnorderedMap.find?_empty]
    exact nofun
  refine ⟨⟨rows, ?_, ?_, ?_, ?_, ?_⟩, ?_⟩
  · exact fun column index h => absurd h (hnone column index)
  · exact fun column index h => absurd h (hnone column index)
  · exact fun column index _ _ h => absurd h (hnone column index)
  · exact fun column index _ _ h => absurd h (hnone column index)
  · exact fun column _ index _ _ h => absurd h (hnone column index)
  · exact fun column index _ _ h => absurd h (hnone column index)

theorem EngineInv.of_noTable {st : DbmsState ι ω}
    (none_ : ∀ dbName tableName, st.dbms.table? dbName tableName = none) : EngineInv st := by
  have habsurd : ∀ {d t table}, st.dbms.table? d t ≠ some table := by
    intro d t table h
    rw [none_] at h
    cases h
  exact ⟨fun _ _ _ h => absurd h habsurd, fun _ _ _ h => absurd h habsurd,
    fun _ _ _ _ _ _ _ _ _ _ _ h => absurd h habsurd⟩

/-! ## One table -/

/-- What happened to the table of one name, and to nothing else. -/
structure OnlyTable (dbName tableName : ByteString) (st st' : DbmsState ι ω) : Prop where
  inv : EngineInv st'
  databases : st'.dbms.databases.keys = st.dbms.databases.keys
  active : st'.dbms.active = st.dbms.active
  tables : ∀ d t, (d, t) ≠ (dbName, tableName) → st'.dbms.table? d t = st.dbms.table? d t
  indexes : ∀ d t table column index m, (d, t) ≠ (dbName, tableName) →
    st.dbms.table? d t = some table → table.indexes.find? column = some index →
    LawfulIndex.Holds st.world index m → LawfulIndex.Holds st'.world index m

/-- A table is exchanged for one whose indexes are apart from those of the others. -/
theorem EngineInv.setTable {st : DbmsState ι ω} (inv : EngineInv st)
    {dbName tableName : ByteString} {table : Table ByteString ι}
    (found : st.dbms.table? dbName tableName = some table) {s : TableState ι ω}
    (sound : TableSound s) (takes : TakesColumns s)
    (others : ∀ d t other column' index' m, (d, t) ≠ (dbName, tableName) →
      st.dbms.table? d t = some other → other.indexes.find? column' = some index' →
      LawfulIndex.Holds st.world index' m → LawfulIndex.Holds s.world index' m)
    (apart : ∀ d t other column column' index index', (d, t) ≠ (dbName, tableName) →
      st.dbms.table? d t = some other → other.indexes.find? column' = some index' →
      s.table.indexes.find? column = some index → LawfulIndex.Apart index index') :
    OnlyTable dbName tableName st ⟨st.dbms.setTable dbName tableName s.table, s.world⟩ := by
  have hset : ∀ d t, (st.dbms.setTable dbName tableName s.table).table? d t = _ :=
    fun d t => Dbms.table?_setTable ⟨table, found⟩ d t
  have hself : (st.dbms.setTable dbName tableName s.table).table? dbName tableName =
      some s.table := by rw [hset, if_pos ⟨rfl, rfl⟩]
  have hother : ∀ d t, (d, t) ≠ (dbName, tableName) →
      (st.dbms.setTable dbName tableName s.table).table? d t = st.dbms.table? d t := by
    intro d t hne
    rw [hset, if_neg]
    rintro ⟨rfl, rfl⟩
    exact hne rfl
  have hcases : ∀ d t other,
      (st.dbms.setTable dbName tableName s.table).table? d t = some other →
      (d, t) = (dbName, tableName) ∧ other = s.table ∨
        (d, t) ≠ (dbName, tableName) ∧ st.dbms.table? d t = some other := by
    intro d t other h
    by_cases hname : (d, t) = (dbName, tableName)
    · cases hname
      exact .inl ⟨rfl, (Option.some.inj (hself.symm.trans h)).symm⟩
    · exact .inr ⟨hname, (hother d t hname).symm.trans h⟩
  refine ⟨⟨fun d t other h => ?_, fun d t other h => ?_, ?_⟩, Dbms.keys_setTable.1,
    Dbms.keys_setTable.2, hother, others⟩
  · rcases hcases d t other h with ⟨-, rfl⟩ | ⟨hne, h⟩
    · exact sound
    · have hsound := inv.sound d t other h
      refine ⟨hsound.rows, hsound.flagged, fun column index hindex => ?_, hsound.readable,
        hsound.admitted, hsound.apart⟩
      obtain ⟨m, hholds, htracks⟩ := hsound.tracked column index hindex
      exact ⟨m, others d t other column index m hne h hindex hholds, htracks⟩
  · rcases hcases d t other h with ⟨-, rfl⟩ | ⟨-, h⟩
    · exact takes
    · exact inv.takes d t other h
  · intro d t other d' t' other' column column' index index' hne h h' hindex hindex'
    rcases hcases d t other h with ⟨heq, rfl⟩ | ⟨hne₁, h⟩
    · rcases hcases d' t' other' h' with ⟨heq', rfl⟩ | ⟨hne₂, h'⟩
      · exact absurd (heq.trans heq'.symm) hne
      · exact apart d' t' other' column column' index index' hne₂ h' hindex' hindex
    · rcases hcases d' t' other' h' with ⟨heq', rfl⟩ | ⟨-, h'⟩
      · exact LawfulIndex.apart_symm
          (apart d t other column' column index' index hne₁ h hindex hindex')
      · exact inv.apart d t other d' t' other' column column' index index' hne h h' hindex hindex'

/-- A statement on the rows of a table. -/
theorem EngineInv.ends_onTable {α : Type} {st : DbmsState ι ω} (inv : EngineInv st)
    {dbName tableName : ByteString} {table : Table ByteString ι}
    (found : st.dbms.table? dbName tableName = some table) {m : TableM ι ω α}
    {Q : TableState ι ω → Prop}
    (ends : Ends m ⟨table, st.world⟩
      (fun _ s' => StatementFrom ⟨table, st.world⟩ s' ∧ Q s')
      (fun _ s' => StatementFrom ⟨table, st.world⟩ s')) :
    Ends (Dbms.onTable dbName tableName table m) st
      (fun _ st' => OnlyTable dbName tableName st st' ∧ ∃ table',
        st'.dbms.table? dbName tableName = some table' ∧
        StatementFrom ⟨table, st.world⟩ ⟨table', st'.world⟩ ∧ Q ⟨table', st'.world⟩)
      (fun _ st' => OnlyTable dbName tableName st st') := by
  have hset : ∀ s' : TableState ι ω, StatementFrom ⟨table, st.world⟩ s' →
      OnlyTable dbName tableName st ⟨st.dbms.setTable dbName tableName s'.table, s'.world⟩ := by
    intro s' hfrom
    have hapart : ∀ d t other column column' index index', (d, t) ≠ (dbName, tableName) →
        st.dbms.table? d t = some other → other.indexes.find? column' = some index' →
        table.indexes.find? column = some index → LawfulIndex.Apart index index' := by
      intro d t other column column' index index' hne h hindex' hindex
      exact inv.apart dbName tableName table d t other column column' index index'
        (Ne.symm hne) found h hindex hindex'
    refine inv.setTable found hfrom.soundFrom.sound
      (hfrom.takes (inv.takes dbName tableName table found)) ?_ ?_
    · intro d t other column' index' m hne h hindex' hholds
      exact hfrom.soundFrom.framed index' m (fun column index hindex =>
        hapart d t other column column' index index' hne h hindex' hindex) hholds
    · rw [hfrom.indexes]
      exact hapart
  rw [Dbms.onTable, ends_zoom]
  refine ends.mono ?_ fun _ s' hfrom => hset s' hfrom
  rintro _ s' ⟨hfrom, hq⟩
  refine ⟨hset s' hfrom, s'.table, ?_, hfrom, hq⟩
  rw [Dbms.table?_setTable ⟨table, found⟩, if_pos ⟨rfl, rfl⟩]

/-! ## Attaching the indexes -/

/-- An index that a table has. -/
def InUse (dbms : Dbms ι) (i : ι) : Prop :=
  ∃ dbName tableName table column, dbms.table? dbName tableName = some table ∧
    table.indexes.find? column = some i

/-- Indexes of a new table have been made and attached, none of which is in `used`. -/
structure Attached (used : ι → Prop) (s s' : TableState ι ω) : Prop where
  sound : TableSound s'
  takes : TakesColumns s'
  table : s'.table = { s.table with indexes := s'.table.indexes }
  keeps : KeepsIndexes (ι := ι) s.world s'.world
  new : ∀ column index, s'.table.indexes.find? column = some index →
    ∀ j, used j → LawfulIndex.Apart index j

section Backend

variable [DataRoot ι ω] [LawfulDataRoot ι ω] {used : ι → Prop} {s t : TableState ι ω}
  {dbName tableName : ByteString}

/-- The indexes that are made for the columns hold nothing, and are not in use. -/
def ClearColumns (used : ι → Prop) (w : ω) (dbName tableName : ByteString)
    (columns : List (ColumnDef ByteString)) : Prop :=
  ∀ c ∈ columns, c.indexed = true → LawfulDataRoot.Clear used w dbName tableName c

omit [IIndex ι ω] [LawfulIndex ι ω] [DataRoot ι ω] [LawfulDataRoot ι ω] in
/-- One more index is in use. -/
theorem used_assign {indexes : UnorderedMap Nat ι} {column : Nat} (index : ι)
    (free : indexes.find? column = none) :
    (fun j => used j ∨ ∃ column', (indexes.assign column index).find? column' = some j) =
      fun j => (used j ∨ ∃ column', indexes.find? column' = some j) ∨ j = index := by
  funext j
  refine propext ⟨?_, ?_⟩
  · rintro (hj | ⟨column', hj⟩)
    · exact .inl (.inl hj)
    · rw [UnorderedMap.find?_assign] at hj
      split at hj
      · exact .inr (Option.some.inj hj).symm
      · exact .inl (.inr ⟨column', hj⟩)
  · rintro ((hj | ⟨column', hj⟩) | rfl)
    · exact .inl hj
    · refine .inr ⟨column', ?_⟩
      rw [UnorderedMap.find?_assign, if_neg, hj]
      rintro rfl
      rw [free] at hj
      cases hj
    · exact .inr ⟨column, by rw [UnorderedMap.find?_assign, if_pos rfl]⟩

section Column

variable {column : Nat} {c : ColumnDef ByteString} {index : ι} {w' : ω}

omit [DataRoot ι ω] [LawfulDataRoot ι ω] in
/-- A new index takes the values of the column that it is made for. -/
theorem Attached.attachable (ht : Attached used s t)
    (hc : s.table.schema.columns[column]? = some c) (hindexed : c.indexed = true)
    (empty : LawfulIndex.Holds w' index fun _ => none)
    (apart : ∀ column' index', t.table.indexes.find? column' = some index' →
      LawfulIndex.Apart index index')
    (admits : ∀ v, v ≠ .null → v.matches c.type = true → LawfulIndex.Admits index v) :
    Attachable (⟨t.table, w'⟩ : TableState ι ω) column index := by
  have hschema : t.table.schema = s.table.schema := by rw [ht.table]
  refine ⟨fun _ => ⟨c, hschema ▸ hc, hindexed⟩, empty, fun c' v hc' hpresent hmatch => ?_,
    ?_, fun column' index' _ hindex' => apart column' index' hindex'⟩
  · have hc' : s.table.schema.columns[column]? = some c' := hschema ▸ hc'
    obtain rfl : c' = c := Option.some.inj (hc'.symm.trans hc)
    exact LawfulIndex.reads_of_admits (admits v hpresent hmatch)
  · rintro id v ⟨row, hrow, hv⟩
    have hconforms := ht.sound.rows.conforms id row hrow
    rw [hschema] at hconforms
    exact admits v (hconforms.present column c v hc hv (.inr hindexed))
      (hconforms.typed column c v hc hv)

omit [DataRoot ι ω] [LawfulDataRoot ι ω] in
/-- The table with the new index, if it is sound. -/
theorem Attached.assign (ht : Attached used s t)
    (hc : s.table.schema.columns[column]? = some c)
    (sound : TableSound
      (⟨{ t.table with indexes := t.table.indexes.assign column index }, w'⟩ : TableState ι ω))
    (keeps : KeepsIndexes (ι := ι) t.world w') (apart : ∀ j, used j → LawfulIndex.Apart index j)
    (admits : ∀ v, v ≠ .null → v.matches c.type = true → LawfulIndex.Admits index v) :
    Attached used s
      ⟨{ t.table with indexes := t.table.indexes.assign column index }, w'⟩ := by
  have hschema : t.table.schema = s.table.schema := by rw [ht.table]
  refine ⟨sound, fun column' index' c' v hindex' hc' => ?_, ?_, ht.keeps.trans keeps,
    fun column' index' hindex' => ?_⟩
  · change (t.table.indexes.assign column index).find? column' = some index' at hindex'
    change t.table.schema.columns[column']? = some c' at hc'
    rw [UnorderedMap.find?_assign] at hindex'
    split at hindex'
    · next heq =>
        cases hindex'
        subst heq
        rw [hschema] at hc'
        obtain rfl : c' = c := Option.some.inj (hc'.symm.trans hc)
        exact admits v
    · exact ht.takes column' index' c' v hindex' hc'
  · change { t.table with indexes := t.table.indexes.assign column index } = _
    rw [ht.table]
  · change (t.table.indexes.assign column index).find? column' = some index' at hindex'
    rw [UnorderedMap.find?_assign] at hindex'
    split at hindex'
    · cases hindex'
      exact apart
    · exact ht.new column' index' hindex'

end Column

/-- One column of `attach_indexes_for_table`; `rest` are other columns. -/
theorem Attached.ends_attach (ht : Attached used s t) (noRow : s.table.order = [])
    (opened : ∀ j, used j → ∃ m, LawfulIndex.Holds s.world j m)
    {column : Nat} {c : ColumnDef ByteString} {rest : List (ColumnDef ByteString)}
    (hc : s.table.schema.columns[column]? = some c) (hindexed : c.indexed = true)
    (free : t.table.indexes.find? column = none)
    (others : ∀ c' ∈ rest, c'.name ≠ c.name)
    (clear : ClearColumns (fun j => used j ∨ ∃ column, t.table.indexes.find? column = some j)
      t.world dbName tableName (c :: rest)) :
    Ends (do
        let index ← Table.onWorld (DataRoot.makeIndexForColumn dbName tableName c)
        Table.attachIndex column (some index) true : TableM ι ω PUnit) t
      (fun _ t' => Attached used s t' ∧
        (∀ column', column' ≠ column →
          t'.table.indexes.find? column' = t.table.indexes.find? column') ∧
        ClearColumns (fun j => used j ∨ ∃ column, t'.table.indexes.find? column = some j)
          t'.world dbName tableName rest)
      (fun _ t' => Attached used s t') := by
  have hopen : ∀ j, (used j ∨ ∃ column, t.table.indexes.find? column = some j) →
      ∃ m, LawfulIndex.Holds t.world j m := by
    rintro j (hj | ⟨column', hj⟩)
    · obtain ⟨m, hm⟩ := opened j hj
      exact ⟨m, ht.keeps j m hm⟩
    · obtain ⟨m, hm, -⟩ := ht.sound.tracked column' j hj
      exact ⟨m, hm⟩
  rw [ends_bind, Table.onWorld, ends_zoom]
  refine (LawfulDataRoot.makeIndexForColumn_spec hopen
    (clear c List.mem_cons_self hindexed)).mono ?_ ?_
  swap
  · intro _ w' hkeeps
    exact ⟨hkeeps.tableSound ht.sound, ht.takes, ht.table, ht.keeps.trans hkeeps, ht.new⟩
  rintro index w' ⟨hkeeps, hempty, hapart, hadmits, hclear⟩
  have hsound : TableSound (⟨t.table, w'⟩ : TableState ι ω) := hkeeps.tableSound ht.sound
  have hattachable := ht.attachable hc hindexed hempty
    (fun column' index' hindex' => hapart index' (.inr ⟨column', hindex'⟩)) hadmits
  have hlt : column < t.table.schema.columnCount := by
    rw [ht.table]
    exact (List.getElem?_eq_some_iff.mp hc).1
  have hnoRow : t.table.order = [] := by
    rw [ht.table]
    exact noRow
  -- without rows the index is attached as it is
  obtain ⟨_, t', hrun, rfl⟩ := (Table.ends_attachIndex_noRow
    (s := (⟨t.table, w'⟩ : TableState ι ω)) (i := index) hlt hnoRow).exists_ok
  rw [ends_of_ok hrun]
  have hsame : ∀ i, some index = some i → Attachable ⟨t.table, w'⟩ column i := by
    rintro i ⟨⟩
    exact hattachable
  obtain ⟨hattached, -⟩ := (hsound.ends_attachIndex hsame).of_ok hrun
  refine ⟨ht.assign hc hattached hkeeps (fun j hj => hapart j (.inl hj)) hadmits,
    fun column' hne => ?_, fun c' hc' hindexed' => ?_⟩
  · exact UnorderedMap.find?_assign.trans (if_neg hne)
  · change LawfulDataRoot.Clear (fun j => used j ∨
      ∃ column', (t.table.indexes.assign column index).find? column' = some j) w' _ _ _
    rw [used_assign index free]
    exact hclear c' (others c' hc') (clear c' (List.mem_cons_of_mem c hc') hindexed')

/-- The columns of a new table get their indexes. -/
theorem ends_attachIndexesForTable (sound : TableSound s) (takes : TakesColumns s)
    (noRow : s.table.order = []) (bare : s.table.indexes = .empty)
    (opened : ∀ j, used j → ∃ m, LawfulIndex.Holds s.world j m)
    (clear : ClearColumns used s.world dbName tableName s.table.schema.columns) :
    Ends (Engine.attachIndexesForTable dbName tableName) s (fun _ s' => Attached used s s')
      (fun _ s' => Attached used s s') := by
  unfold Engine.attachIndexesForTable
  rw [ends_bind, ends_get]
  have hnone : ∀ column, s.table.indexes.find? column = none := fun column => by
    rw [bare, UnorderedMap.find?_empty]
  have hused : (fun j => used j ∨ ∃ column, s.table.indexes.find? column = some j) = used := by
    funext j
    refine propext ⟨?_, .inl⟩
    rintro (hj | ⟨column, hj⟩)
    · exact hj
    · rw [hnone] at hj
      cases hj
  have hstart : Attached used s s := by
    refine ⟨sound, takes, rfl, .refl s.world, fun column index h => ?_⟩
    rw [hnone] at h
    cases h
  -- the columns behind those that have been seen have no index yet
  refine (ends_forM (l := s.table.schema.columns.zipIdx) (I := fun before t => Attached used s t ∧
    (∀ column, before.length ≤ column → t.table.indexes.find? column = none) ∧
    ClearColumns (fun j => used j ∨ ∃ column, t.table.indexes.find? column = some j)
      t.world dbName tableName (s.table.schema.columns.drop before.length))
    ⟨hstart, fun column _ => hnone column, by rw [hused]; exact clear⟩ ?_).mono
    (fun _ _ h => h.1) fun _ _ h => h
  rintro before ⟨col, column⟩ after t hsplit ⟨ht, hfree, hclear⟩
  have hat : s.table.schema.columns.zipIdx[before.length]? = some (col, column) := by
    rw [hsplit, List.getElem?_append_right (le_refl _), Nat.sub_self]
    rfl
  rw [List.getElem?_zipIdx, Option.map_eq_some_iff] at hat
  obtain ⟨c, hc, hpair⟩ := hat
  obtain ⟨rfl, hcolumn⟩ := Prod.mk.inj hpair
  rw [Nat.zero_add] at hcolumn
  subst hcolumn
  have hrest : s.table.schema.columns.drop before.length =
      c :: s.table.schema.columns.drop (before.length + 1) := by
    obtain ⟨hlt, rfl⟩ := List.getElem?_eq_some_iff.mp hc
    exact List.drop_eq_getElem_cons hlt
  have hnames : ((c :: s.table.schema.columns.drop (before.length + 1)).map (·.name)).Nodup := by
    rw [← hrest, List.map_drop]
    exact s.table.schema.distinct.sublist (List.drop_sublist _ _)
  have hothers : ∀ c' ∈ s.table.schema.columns.drop (before.length + 1), c'.name ≠ c.name := by
    rw [List.map_cons, List.nodup_cons] at hnames
    intro c' hc' hname
    exact hnames.1 (hname ▸ List.mem_map_of_mem hc')
  rw [hrest] at hclear
  have hlength : (before ++ [(c, before.length)]).length = before.length + 1 := by simp
  have hskip : Attached used s t ∧
      (∀ column, (before ++ [(c, before.length)]).length ≤ column →
        t.table.indexes.find? column = none) ∧
      ClearColumns (fun j => used j ∨ ∃ column, t.table.indexes.find? column = some j)
        t.world dbName tableName
        (s.table.schema.columns.drop (before ++ [(c, before.length)]).length) := by
    rw [hlength]
    exact ⟨ht, fun column hle => hfree column (by omega),
      fun c' hc' => hclear c' (List.mem_cons_of_mem c hc')⟩
  simp only
  rw [ends_bind, ends_get, ends_ite]
  split
  · next hindexed =>
      rw [ends_ite]
      split
      · exact hskip
      · refine (ht.ends_attach noRow opened hc hindexed (hfree _ (le_refl _)) hothers
          hclear).mono ?_ fun _ _ h => h
        rintro _ t' ⟨ht', hfree', hclear'⟩
        rw [hlength]
        exact ⟨ht', fun column hle => (hfree' column (by omega)).trans (hfree column (by omega)),
          hclear'⟩
  · exact hskip

/-! ## Statements -/

/-- `save_all` writes files. -/
theorem ends_saveAll (st : DbmsState ι ω) :
    Ends (Dbms.saveAll : DbmsM ι ω PUnit) st
      (fun _ st' => st'.dbms = st.dbms ∧ KeepsIndexes (ι := ι) st.world st'.world)
      (fun _ st' => st'.dbms = st.dbms ∧ KeepsIndexes (ι := ι) st.world st'.world) := by
  unfold Dbms.saveAll
  rw [ends_bind, ends_get]
  refine (ends_forM (I := fun _ st' => st'.dbms = st.dbms ∧
    KeepsIndexes (ι := ι) st.world st'.world) ⟨rfl, .refl _⟩ ?_).mono (fun _ _ h => h)
    fun _ _ h => h
  rintro before ⟨name, db⟩ after t _ ⟨hdbms, hkeeps⟩
  change Ends (Dbms.onWorld (DataRoot.saveTo name db)) t _ _
  rw [Dbms.onWorld, ends_zoom]
  exact LawfulDataRoot.saveTo_spec.mono (fun _ _ h => ⟨hdbms, hkeeps.trans h⟩)
    fun _ _ h => ⟨hdbms, hkeeps.trans h⟩

/-- The end of a statement: everything is saved, and the answer is OK. -/
theorem ends_saved {st : DbmsState ι ω} {Q : DbmsState ι ω → Prop}
    (saved : ∀ st' : DbmsState ι ω, st'.dbms = st.dbms →
      KeepsIndexes (ι := ι) st.world st'.world → Q st') :
    Ends (do
        Dbms.saveAll
        pure (text "OK") : DbmsM ι ω ByteString) st (fun _ st' => Q st') (fun _ st' => Q st') := by
  rw [ends_bind]
  exact (ends_saveAll st).mono (fun _ st' h => saved st' h.1 h.2) fun _ st' h => saved st' h.1 h.2

theorem EngineInv.ends_saved {st : DbmsState ι ω} (inv : EngineInv st) :
    Ends (do
        Dbms.saveAll
        pure (text "OK") : DbmsM ι ω ByteString) st (fun _ st' => EngineInv st')
      (fun _ st' => EngineInv st') := by
  refine CwDb.Executor.ends_saved fun st' hdbms hkeeps => inv.mono (fun d t table h => ?_) hkeeps
  rwa [hdbms] at h

omit [IIndex ι ω] [LawfulIndex ι ω] [DataRoot ι ω] [LawfulDataRoot ι ω] in
theorem resolveDatabase_ok {dbms : Dbms ι} {explicitDbName dbName : ByteString}
    {db : Database ι} (h : Engine.resolveDatabase dbms explicitDbName = .ok (dbName, db)) :
    dbms.databases.find? dbName = some db := by
  have hrequire : ∀ name, dbms.requireDatabase name = .ok db →
      dbms.databases.find? name = some db := by
    intro name hname
    unfold Dbms.requireDatabase at hname
    split at hname
    · next found hfound => exact hfound.trans (congrArg some (Except.ok.inj hname))
    · simp [raise] at hname
  unfold Engine.resolveDatabase at h
  split at h
  · cases hactive : dbms.activeDb with
    | error e => simp [hactive, bind, Except.bind] at h
    | ok found =>
        obtain ⟨rfl, rfl⟩ : dbms.active = dbName ∧ found = db := by
          simpa [hactive, bind, Except.bind, pure, Except.pure] using h
        unfold Dbms.activeDb at hactive
        split at hactive
        · simp [raise] at hactive
        · exact hrequire _ hactive
  · cases hfound : dbms.requireDatabase explicitDbName with
    | error e => simp [hfound, bind, Except.bind] at h
    | ok found =>
        obtain ⟨rfl, rfl⟩ : explicitDbName = dbName ∧ found = db := by
          simpa [hfound, bind, Except.bind, pure, Except.pure] using h
        exact hrequire _ hfound

omit [IIndex ι ω] [LawfulIndex ι ω] [DataRoot ι ω] [LawfulDataRoot ι ω] in
theorem resolveTable_ok {dbms : Dbms ι} {explicitDbName tableName dbName : ByteString}
    {table : Table ByteString ι}
    (h : Engine.resolveTable dbms explicitDbName tableName = .ok (dbName, table)) :
    dbms.table? dbName tableName = some table := by
  unfold Engine.resolveTable at h
  cases hdb : Engine.resolveDatabase dbms explicitDbName with
  | error e => simp [hdb, bind, Except.bind] at h
  | ok resolved =>
      obtain ⟨name, db⟩ := resolved
      cases htable : db.requireTable tableName with
      | error e => simp [hdb, htable, bind, Except.bind] at h
      | ok found =>
          obtain ⟨rfl, rfl⟩ : name = dbName ∧ found = table := by
            simpa [hdb, htable, bind, Except.bind, pure, Except.pure] using h
          rw [Dbms.table?_of_find? (resolveDatabase_ok hdb)]
          unfold Database.requireTable at htable
          split at htable
          · next other hother => exact hother.trans (congrArg some (Except.ok.inj htable))
          · simp [raise] at htable

omit [DataRoot ι ω] [LawfulDataRoot ι ω] in
theorem OnlyTable.saved {dbName tableName : ByteString} {st st' st'' : DbmsState ι ω}
    (only : OnlyTable dbName tableName st st') (same : st''.dbms = st'.dbms)
    (keeps : KeepsIndexes (ι := ι) st'.world st''.world) :
    OnlyTable dbName tableName st st'' := by
  refine ⟨only.inv.mono (fun d t table h => ?_) keeps, ?_, ?_, ?_, ?_⟩
  · rwa [same] at h
  · rw [same]
    exact only.databases
  · rw [same]
    exact only.active
  · rw [same]
    exact only.tables
  · intro d t table column index m hne h hindex hholds
    exact keeps index m (only.indexes d t table column index m hne h hindex hholds)

/-- INSERT, UPDATE and DELETE, given what they do to the table they resolve. -/
theorem EngineInv.ends_executeOnTable {e : EngineState ι ω} (inv : EngineInv e.toDbmsState)
    {d t : ByteString} {m : TableM ι ω PUnit}
    {Q : Table ByteString ι → Table ByteString ι → Prop}
    (ends : ∀ s : TableState ι ω, TableSound s → TakesColumns s →
      Ends m s (fun _ s' => StatementFrom s s' ∧ Q s.table s'.table)
        (fun _ s' => StatementFrom s s')) :
    Ends (Engine.executeOnTable d t m) e
      (fun _ e' => ∃ dbName table table',
        Engine.resolveTable e.dbms d t = .ok (dbName, table) ∧
        e'.dbms.table? dbName t = some table' ∧
        OnlyTable dbName t e.toDbmsState e'.toDbmsState ∧ Q table table')
      (fun _ e' => EngineInv e'.toDbmsState) := by
  unfold Engine.executeOnTable
  rw [Engine.onDbms, ends_zoom, ends_bind, ends_get, ends_bind, ends_fromExcept]
  refine ⟨?_, fun _ _ => inv⟩
  rintro ⟨dbName, table⟩ hresolve
  have hfound := resolveTable_ok hresolve
  rw [ends_bind]
  refine (inv.ends_onTable hfound (Q := fun s' => Q table s'.table)
    (ends _ (inv.sound _ _ _ hfound) (inv.takes _ _ _ hfound))).mono ?_ fun _ _ h => h.inv
  rintro _ st' ⟨honly, table', htable', -, hq⟩
  refine (CwDb.Executor.ends_saved (Q := fun st'' => ∃ dbName table table',
    Engine.resolveTable e.dbms d t = .ok (dbName, table) ∧
    st''.dbms.table? dbName t = some table' ∧
    OnlyTable dbName t e.toDbmsState st'' ∧ Q table table')
    fun st'' hdbms hkeeps => ?_).mono (fun _ _ h => h) fun _ _ h => ?_
  · refine ⟨dbName, table, table', hresolve, ?_, honly.saved hdbms hkeeps, hq⟩
    rw [hdbms]
    exact htable'
  · obtain ⟨_, _, _, -, -, honly', -⟩ := h
    exact honly'.inv

/-- The indexes that a CREATE TABLE makes hold nothing, and are not in use: no index file is left
of the columns, or one in which there is no key. -/
def MakesClear (cmd : CreateTableCmd) (e : EngineState ι ω) : Prop :=
  ∀ dbName db schema, Engine.resolveDatabase e.dbms cmd.dbName = .ok (dbName, db) →
    buildSchema cmd.columns = .ok schema →
    ClearColumns (InUse e.dbms) e.world db.name cmd.tableName schema.columns

omit [DataRoot ι ω] [LawfulDataRoot ι ω] in
theorem EngineInv.exists_holds {st : DbmsState ι ω} (inv : EngineInv st) {i : ι}
    (used : InUse st.dbms i) : ∃ m, LawfulIndex.Holds st.world i m := by
  obtain ⟨dbName, tableName, table, column, found, attached⟩ := used
  obtain ⟨m, hholds, -⟩ := (inv.sound dbName tableName table found).tracked column i attached
  exact ⟨m, hholds⟩

/-- CREATE TABLE: a table without rows, and its indexes. -/
theorem EngineInv.ends_executeCreateTable {e : EngineState ι ω} (inv : EngineInv e.toDbmsState)
    (cmd : CreateTableCmd) (clear : MakesClear cmd e) :
    Ends (Engine.executeCreateTable cmd) e (fun _ e' => EngineInv e'.toDbmsState)
      (fun _ e' => EngineInv e'.toDbmsState) := by
  unfold Engine.executeCreateTable
  rw [Engine.onDbms, ends_zoom, ends_bind, ends_get, ends_bind, ends_fromExcept]
  refine ⟨?_, fun _ _ => inv⟩
  rintro ⟨dbName, db⟩ hresolve
  have hdb := resolveDatabase_ok hresolve
  rw [ends_bind, ends_fromExcept]
  refine ⟨fun schema hschema => ?_, fun _ _ => inv⟩
  rw [ends_bind, ends_fromExcept]
  refine ⟨fun db' hcreate => ?_, fun _ _ => inv⟩
  let new : Table ByteString ι := Table.ofSchema cmd.tableName schema
  obtain ⟨-, -, htables⟩ := Database.createTable_ok hcreate
  have hnew : TableSound (⟨new, e.world⟩ : TableState ι ω) ∧
      TakesColumns (⟨new, e.world⟩ : TableState ι ω) :=
    tableSound_of_noIndex (runInv_start cmd.tableName schema e.world).inv.wellFormed.rowsSound rfl
  -- the databases with the bare table
  let st : DbmsState ι ω := { e.toDbmsState with dbms := e.dbms.setDatabase dbName db' }
  have hself : st.dbms.table? dbName cmd.tableName = some new := by
    change (e.dbms.setDatabase dbName db').table? _ _ = _
    rw [Dbms.table?_setDatabase hdb, if_pos rfl, htables, if_pos rfl]
  have hold : ∀ d t table, st.dbms.table? d t = some table →
      table = new ∨ e.dbms.table? d t = some table := by
    intro d t table h
    change (e.dbms.setDatabase dbName db').table? _ _ = _ at h
    rw [Dbms.table?_setDatabase hdb] at h
    split at h
    · next hname =>
        rw [htables] at h
        split at h
        · exact .inl (Option.some.inj h).symm
        · subst hname
          exact .inr ((Dbms.table?_of_find? hdb).trans h)
    · exact .inr h
  have hbare : ∀ column index, new.indexes.find? column ≠ some index := fun _ _ => nofun
  have hst : EngineInv st := by
    refine ⟨fun d t table h => ?_, fun d t table h => ?_, ?_⟩
    · rcases hold d t table h with rfl | h
      · exact hnew.1
      · exact inv.sound d t table h
    · rcases hold d t table h with rfl | h
      · exact hnew.2
      · exact inv.takes d t table h
    · intro d t table d' t' table' column column' index index' hne h h' hindex hindex'
      rcases hold d t table h with rfl | h
      · exact absurd hindex (hbare column index)
      · rcases hold d' t' table' h' with rfl | h'
        · exact absurd hindex' (hbare column' index')
        · exact inv.apart d t table d' t' table' column column' index index' hne h h' hindex
            hindex'
  rw [Dbms.modifyDbms, ends_bind, ends_modify, ends_bind]
  change Ends (Dbms.onTable dbName cmd.tableName new _) st _ _
  rw [Dbms.onTable, ends_zoom]
  have hset : ∀ s' : TableState ι ω, Attached (InUse e.dbms) ⟨new, st.world⟩ s' →
      EngineInv (⟨st.dbms.setTable dbName cmd.tableName s'.table, s'.world⟩ : DbmsState ι ω) := by
    intro s' hs'
    refine (hst.setTable hself hs'.sound hs'.takes ?_ ?_).inv
    · intro d t other column' index' m _ _ _ hholds
      exact hs'.keeps index' m hholds
    · intro d t other column column' index index' _ h hindex' hindex
      rcases hold d t other h with rfl | h
      · exact absurd hindex' (hbare column' index')
      · exact hs'.new column index hindex index' ⟨d, t, other, column', h, hindex'⟩
  refine (ends_attachIndexesForTable hnew.1 hnew.2 rfl rfl
    (fun j hj => inv.exists_holds hj) (clear dbName db schema hresolve hschema)).mono ?_ ?_
  · intro _ s' hs'
    exact (hset s' hs').ends_saved
  · exact fun _ s' hs' => hset s' hs'

section Statements

variable {e : EngineState ι ω}

theorem EngineInv.ends_executeCreateDatabase (inv : EngineInv e.toDbmsState)
    (dbName : ByteString) : Ends (Engine.executeCreateDatabase dbName) e
      (fun _ e' => EngineInv e'.toDbmsState) (fun _ e' => EngineInv e'.toDbmsState) := by
  unfold Engine.executeCreateDatabase
  rw [Engine.onDbms, ends_zoom, ends_bind]
  unfold Dbms.createDatabase
  rw [ends_bind, ends_get, ends_ite]
  split
  · exact inv
  next hfree =>
  rw [Dbms.modifyDbms, ends_bind, ends_modify, Dbms.onWorld, ends_zoom]
  have hafter : ∀ w', KeepsIndexes (ι := ι) e.world w' →
      EngineInv (⟨⟨e.dbms.databases.emplace dbName ⟨dbName, .empty⟩, e.dbms.active⟩, w'⟩ :
        DbmsState ι ω) := by
    intro w' hkeeps
    refine inv.mono (fun d t table h => ?_) hkeeps
    have hnone : e.dbms.databases.find? dbName = none := by
      simpa [UnorderedMap.contains] using hfree
    unfold Dbms.table? at h
    simp only [UnorderedMap.find?_emplace, hnone, Option.none_or] at h
    split at h
    · simp at h
    · exact h
  exact LawfulDataRoot.createDirectories_spec.mono
    (fun _ w' h => (hafter w' h).ends_saved) fun _ w' h => hafter w' h

theorem EngineInv.ends_executeDropDatabase (inv : EngineInv e.toDbmsState)
    (dbName : ByteString) : Ends (Engine.executeDropDatabase dbName) e
      (fun _ e' => EngineInv e'.toDbmsState) (fun _ e' => EngineInv e'.toDbmsState) := by
  unfold Engine.executeDropDatabase
  rw [Engine.onDbms, ends_zoom, ends_bind]
  unfold Dbms.dropDatabase
  rw [ends_bind, ends_get, ends_ite]
  split
  · rw [ends_modify]
    refine EngineInv.ends_saved (inv.mono (fun d t table h => ?_) LawfulDataRoot.removeAll_spec)
    unfold Dbms.table? at h
    simp only [UnorderedMap.find?_erase] at h
    split at h
    · cases h
    · exact h
  · exact inv

theorem EngineInv.ends_executeDropTable (inv : EngineInv e.toDbmsState) (cmd : DropTableCmd) :
    Ends (Engine.executeDropTable cmd) e (fun _ e' => EngineInv e'.toDbmsState)
      (fun _ e' => EngineInv e'.toDbmsState) := by
  unfold Engine.executeDropTable
  rw [Engine.onDbms, ends_zoom, ends_bind, ends_get, ends_bind, ends_fromExcept]
  refine ⟨?_, fun _ _ => inv⟩
  rintro ⟨dbName, db⟩ hresolve
  have hdb := resolveDatabase_ok hresolve
  rw [ends_bind, ends_fromExcept]
  refine ⟨fun db' hdrop => ?_, fun _ _ => inv⟩
  rw [Dbms.modifyDbms, ends_bind, ends_modify]
  refine EngineInv.ends_saved (inv.mono (fun d t table h => ?_) (.refl _))
  change (e.dbms.setDatabase dbName db').table? _ _ = _ at h
  rw [Dbms.table?_setDatabase hdb] at h
  split at h
  · next hname =>
      rw [(Database.dropTable_ok hdrop).2] at h
      split at h
      · cases h
      · exact hname ▸ (Dbms.table?_of_find? hdb).trans h
  · exact h

omit [DataRoot ι ω] [LawfulDataRoot ι ω] in
/-- A SELECT changes nothing. -/
theorem EngineInv.ends_executeSelect (inv : EngineInv e.toDbmsState) (regexMatch : RegexMatch)
    (cmd : SelectCmd) : Ends (Engine.executeSelect regexMatch cmd) e
      (fun _ e' => EngineInv e'.toDbmsState) (fun _ e' => EngineInv e'.toDbmsState) := by
  unfold Engine.executeSelect
  rw [ends_bind, ends_get, ends_bind, ends_fromExcept]
  refine ⟨fun resolved _ => ?_, fun _ _ => inv⟩
  rw [ends_bind, ends_fromExcept]
  refine ⟨fun candidates _ => ?_, fun _ _ => inv⟩
  rw [ends_bind, ends_modify, ends_bind, ends_fromExcept]
  exact ⟨fun _ _ => inv, fun _ _ => inv⟩

/-- A statement of the engine keeps the invariant, whether it returns or throws. -/
theorem EngineInv.ends_execute (unspent : ∀ t : TableState ι ω, ¬ t.Spent)
    (inv : EngineInv e.toDbmsState) (regexMatch : RegexMatch) (query : ByteString)
    (clear : ∀ cmd, parseQuery query = .ok (.createTable cmd) → MakesClear cmd e) :
    Ends (Engine.execute regexMatch query) e (fun _ e' => EngineInv e'.toDbmsState)
      (fun _ e' => EngineInv e'.toDbmsState) := by
  have honly : ∀ {explicitDbName tableName : ByteString} {m : TableM ι ω PUnit},
      (∀ s : TableState ι ω, TableSound s → TakesColumns s →
        Ends m s (fun _ s' => StatementFrom s s') (fun _ s' => StatementFrom s s')) →
      Ends (Engine.executeOnTable explicitDbName tableName m) e
        (fun _ e' => EngineInv e'.toDbmsState) (fun _ e' => EngineInv e'.toDbmsState) := by
    intro explicitDbName tableName m hends
    refine (inv.ends_executeOnTable (Q := fun _ _ => True) fun s sound takes =>
      (hends s sound takes).mono (fun _ _ h => ⟨h, trivial⟩) fun _ _ h => h).mono ?_
      fun _ _ h => h
    rintro _ e' ⟨_, _, _, -, -, h, -⟩
    exact h.inv
  unfold Engine.execute
  rw [ends_bind, ends_fromExcept]
  refine ⟨fun command hparse => ?_, fun _ _ => inv⟩
  cases command with
  | createDatabase dbName => exact inv.ends_executeCreateDatabase dbName
  | dropDatabase dbName => exact inv.ends_executeDropDatabase dbName
  | useDatabase dbName =>
      change Ends (Engine.executeUseDatabase dbName) e _ _
      unfold Engine.executeUseDatabase Dbms.useDatabase
      rw [Engine.onDbms, ends_zoom, ends_bind, ends_bind, ends_get, ends_bind, ends_fromExcept]
      exact ⟨fun _ _ => inv.mono (fun _ _ _ h => h) (.refl _), fun _ _ => inv⟩
  | createTable cmd => exact inv.ends_executeCreateTable cmd (clear cmd hparse)
  | dropTable cmd => exact inv.ends_executeDropTable cmd
  | insert cmd => exact honly fun s sound takes => ends_insertRows unspent sound takes _ _
  | update cmd =>
      refine honly fun s sound takes => (ends_updateRows unspent sound takes).mono ?_
        fun _ _ h => h
      exact fun _ _ h => h.1
  | delete cmd =>
      refine honly fun s sound takes => (ends_deleteRows unspent sound).mono ?_ fun _ _ h => h
      exact fun _ _ h => h.1
  | select cmd => exact inv.ends_executeSelect regexMatch cmd

end Statements

/-! ## Runs -/

/-- A table as `Table::load` leaves it: no index, and rows that the schema admits. -/
structure Saved (table : Table ByteString ι) : Prop where
  bare : table.indexes = .empty
  rows : table.RowsSound

/-- The states of an engine: it is constructed over the tables found in the data directory,
and then executes queries, which may throw. -/
inductive Reachable (regexMatch : RegexMatch) : EngineState ι ω → Prop
  | start {w w' : ω} {databases : UnorderedMap ByteString (Database ι)} {e : EngineState ι ω}
      (loaded : DataRoot.loadAll w = .ok databases w')
      (saved : ∀ dbName tableName table,
        Dbms.table? ⟨databases, []⟩ dbName tableName = some table → Saved table)
      (constructed : Engine.construct { dbms := {}, world := w } = .ok ⟨⟩ e) :
      Reachable regexMatch e
  | answered {e e' : EngineState ι ω} {response : ByteString} (query : ByteString)
      (reach : Reachable regexMatch e)
      (run : Engine.execute regexMatch query e = .ok response e') : Reachable regexMatch e'
  | thrown {e e' : EngineState ι ω} {fault : Fault} (query : ByteString)
      (reach : Reachable regexMatch e)
      (run : Engine.execute regexMatch query e = .error fault e') : Reachable regexMatch e'

/-- The states of an engine whose indexes all began empty: it starts with every index exact, and
every CREATE TABLE makes only clear ones. -/
inductive ReachableClear (regexMatch : RegexMatch) : EngineState ι ω → Prop
  | start {w : ω} {e : EngineState ι ω}
      (constructed : Engine.construct { dbms := {}, world := w } = .ok ⟨⟩ e)
      (exact_ : EngineInv e.toDbmsState) : ReachableClear regexMatch e
  | answered {e e' : EngineState ι ω} {response : ByteString} (query : ByteString)
      (reach : ReachableClear regexMatch e)
      (clear : ∀ cmd, parseQuery query = .ok (.createTable cmd) → MakesClear cmd e)
      (run : Engine.execute regexMatch query e = .ok response e') : ReachableClear regexMatch e'
  | thrown {e e' : EngineState ι ω} {fault : Fault} (query : ByteString)
      (reach : ReachableClear regexMatch e)
      (clear : ∀ cmd, parseQuery query = .ok (.createTable cmd) → MakesClear cmd e)
      (run : Engine.execute regexMatch query e = .error fault e') : ReachableClear regexMatch e'

/-- Every such state satisfies the invariant. -/
theorem ReachableClear.inv {regexMatch : RegexMatch} {e : EngineState ι ω}
    (unspent : ∀ t : TableState ι ω, ¬ t.Spent) (reach : ReachableClear regexMatch e) :
    EngineInv e.toDbmsState := by
  induction reach with
  | start _ exact_ => exact exact_
  | answered query _ clear run ih =>
      exact (ih.ends_execute unspent regexMatch query clear).of_ok run
  | thrown query _ clear run ih =>
      exact (ih.ends_execute unspent regexMatch query clear).of_error run

end Backend

end CwDb.Executor
