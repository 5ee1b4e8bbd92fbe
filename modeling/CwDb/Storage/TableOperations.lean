/-
  Storage/TableOperations.lean --- how the operations of a table end.

  One theorem per operation: it keeps `TableInv` and makes its change, or it throws and
  the state is the one before the call.  The second exit leaves room for an index whose
  medium is spent.
-/
import CwDb.Storage.TableInvariant

set_option autoImplicit false

namespace CwDb.Storage

open CwDb.Cpp
open CwDb.Foundation

variable {ι ω : Type} [IIndex ι ω] [LawfulIndex ι ω]

/-! ## Calls on the indexes -/

/-- A loop that treats every attached index on its own: each of them goes from a map
`I` to a map `J`, because the others are apart from it. -/
theorem ends_forM_indexes {s : TableState ι ω} {f : Nat × ι → TableM ι ω PUnit}
    {I J : Nat → IndexMap → Prop} {E : Fault → TableState ι ω → Prop}
    (apart : ∀ column column' index index', column ≠ column' →
      s.table.indexes.find? column = some index →
      s.table.indexes.find? column' = some index' → LawfulIndex.Apart index index')
    (holds : ∀ column index, s.table.indexes.find? column = some index →
      ∃ m, LawfulIndex.Holds s.world index m ∧ I column m)
    (round : ∀ column index t m, s.table.indexes.find? column = some index →
      t.table = s.table → LawfulIndex.Holds t.world index m → I column m →
      Ends (f (column, index)) t
        (fun _ t' => t'.table = s.table ∧
          (∃ m', LawfulIndex.Holds t'.world index m' ∧ J column m') ∧
          ∀ j m', LawfulIndex.Apart index j → LawfulIndex.Holds t.world j m' →
            LawfulIndex.Holds t'.world j m') E) :
    Ends (s.table.indexes.entries.forM f) s
      (fun _ t => t.table = s.table ∧
        (∀ column index, s.table.indexes.find? column = some index →
          ∃ m, LawfulIndex.Holds t.world index m ∧ J column m) ∧ Framed s t) E := by
  have loop := ends_forM (s := s) (l := s.table.indexes.entries) (f := f) (E := E)
    (I := fun before t => t.table = s.table ∧
      (∀ column index, s.table.indexes.find? column = some index →
        ∃ m, LawfulIndex.Holds t.world index m ∧
          if column ∈ before.map Prod.fst then J column m else I column m) ∧ Framed s t)
    ⟨rfl, fun column index hindex => by simpa using holds column index hindex, .refl s⟩ ?_
  · refine loop.mono (fun _ t h => ⟨h.1, fun column index hindex => ?_, h.2.2⟩) fun _ _ h => h
    obtain ⟨m, hm, hafter⟩ := h.2.1 column index hindex
    rw [if_pos (List.mem_map_of_mem (UnorderedMap.find?_eq_some_iff.mp hindex))] at hafter
    exact ⟨m, hm, hafter⟩
  · rintro before ⟨column, index⟩ after t hsplit ⟨htable, hmaps, hsofar⟩
    have hmem : (column, index) ∈ s.table.indexes.entries := by rw [hsplit]; simp
    have hindex := UnorderedMap.find?_eq_some_iff.mpr hmem
    have hkeys := s.table.indexes.nodup
    rw [hsplit, List.map_append, List.nodup_append] at hkeys
    have hnew : column ∉ before.map Prod.fst := fun hb => hkeys.2.2 column hb column (by simp) rfl
    obtain ⟨m, hm, hbefore⟩ := hmaps column index hindex
    rw [if_neg hnew] at hbefore
    refine (round column index t m hindex htable hm hbefore).mono ?_ fun _ _ h => h
    rintro _ t' ⟨htable', ⟨m', hm', hafter⟩, hframe⟩
    refine ⟨htable', fun column' index' hindex' => ?_, fun j m' hapart hj =>
      hframe j m' (hapart column index hindex) (hsofar j m' hapart hj)⟩
    by_cases hc : column' = column
    · subst hc
      obtain rfl : index' = index := Option.some.inj (hindex'.symm.trans hindex)
      exact ⟨m', hm', by simpa using hafter⟩
    · obtain ⟨m₀, hm₀, hstate⟩ := hmaps column' index' hindex'
      refine ⟨m₀, hframe index' m₀ (apart column column' index index' (Ne.symm hc) hindex
        hindex') hm₀, ?_⟩
      have hdone : column' ∈ (before ++ [(column, index)]).map Prod.fst ↔
          column' ∈ before.map Prod.fst := by
        rw [List.map_append, List.mem_append]
        simp [hc]
      simpa only [hdone] using hstate

/-- `insert` on an index object, as a step on the table's state. -/
theorem ends_onWorld_insert {s : TableState ι ω} {index : ι} {m : IndexMap}
    {k : Value ByteString} {id : RowId} (holds : LawfulIndex.Holds s.world index m)
    (admits : LawfulIndex.Admits index k) (fresh : m k = none) :
    Ends (Table.onWorld (IIndex.insert index k id)) s
      (fun _ t => t.table = s.table ∧
        LawfulIndex.Holds t.world index (Function.update m k (some id)) ∧
        ∀ j m', LawfulIndex.Apart index j → LawfulIndex.Holds s.world j m' →
          LawfulIndex.Holds t.world j m')
      (fun _ t => t.Spent) := by
  rw [Table.onWorld, ends_zoom]
  refine (LawfulIndex.insert_spec holds admits).mono ?_ ?_
  · rintro _ w' ⟨-, hholds, hframe⟩
    exact ⟨rfl, hholds, hframe⟩
  · rintro _ w' (hspent | ⟨hpresent, -⟩)
    · exact hspent
    · simp [fresh] at hpresent

/-- `erase` on an index object. -/
theorem ends_onWorld_erase {s : TableState ι ω} {index : ι} {m : IndexMap}
    {k : Value ByteString} (holds : LawfulIndex.Holds s.world index m)
    (admits : LawfulIndex.Admits index k) :
    Ends (Table.onWorld (IIndex.erase index k)) s
      (fun _ t => t.table = s.table ∧
        LawfulIndex.Holds t.world index (Function.update m k none) ∧
        ∀ j m', LawfulIndex.Apart index j → LawfulIndex.Holds s.world j m' →
          LawfulIndex.Holds t.world j m')
      (fun _ t => t.Spent) := by
  rw [Table.onWorld, ends_zoom]
  refine (LawfulIndex.erase_spec holds admits).mono ?_ fun _ _ h => h
  rintro _ w' ⟨-, hholds, hframe⟩
  exact ⟨rfl, hholds, hframe⟩

/-! ## Insert -/

namespace Table

/-- The table after a row has been given the next id. -/
def withRow (t : Table ByteString ι) (row : Row ByteString) : Table ByteString ι :=
  { t with nextId := t.nextId + 1, rows := t.rows.emplace t.nextId row,
           order := t.order ++ [t.nextId] }

variable {t : Table ByteString ι} {row : Row ByteString}

theorem find?_withRow (fresh : t.nextId ∉ t.rows.keys) (id : RowId) :
    (t.withRow row).rows.find? id = if id = t.nextId then some row else t.rows.find? id := by
  rw [withRow, UnorderedMap.find?_emplace, UnorderedMap.find?_eq_none_iff.mpr fresh,
    Option.none_or]

theorem stored_withRow (fresh : t.nextId ∉ t.rows.keys) {id : RowId} {column : Nat}
    {v : Value ByteString} :
    (t.withRow row).Stored id column v ↔
      t.Stored id column v ∨ id = t.nextId ∧ row[column]? = some v := by
  unfold Stored
  simp only [find?_withRow fresh]
  by_cases h : id = t.nextId
  · have hnone := UnorderedMap.find?_eq_none_iff.mpr fresh
    simp [h, hnone]
  · simp [h]

theorem lt_nextId_succ {n : RowId} (h : n + 1 ≠ 0) : n < n + 1 := by
  rw [UInt64.lt_iff_toNat_lt]
  have hlt := n.toNat_lt
  have hne : (n + 1).toNat ≠ 0 := fun h0 => h (UInt64.toNat_inj.mp (by simpa using h0))
  rw [UInt64.toNat_add] at hne ⊢
  have hone : (1 : UInt64).toNat = 1 := rfl
  rw [hone] at hne ⊢
  omega

theorem RowsSound.withRow (sound : t.RowsSound) (hnew : t.nextId ∉ t.rows.keys)
    (conforms : Conforms t.schema row)
    (fresh : ∀ column, t.schema.IsIndexed column → ∀ id v, row[column]? = some v →
      ¬ t.Stored id column v) : (t.withRow row).RowsSound := by
  refine ⟨?_, ?_, ?_⟩
  · intro id hid
    rcases UnorderedMap.mem_keys_emplace.mp hid with rfl | hid
    · exact List.mem_append_right _ List.mem_cons_self
    · exact List.mem_append_left _ (sound.listed id hid)
  · intro id stored hstored
    rw [find?_withRow hnew] at hstored
    split at hstored
    · exact Option.some.inj hstored ▸ conforms
    · exact sound.conforms id stored hstored
  · intro column hidx id id' v h h'
    rcases (stored_withRow hnew).mp h with h | ⟨rfl, hv⟩
    · rcases (stored_withRow hnew).mp h' with h' | ⟨rfl, hv'⟩
      · exact sound.unique column hidx id id' v h h'
      · exact absurd h (fresh column hidx id v hv')
    · rcases (stored_withRow hnew).mp h' with h' | ⟨rfl, -⟩
      · exact absurd h' (fresh column hidx id' v hv)
      · rfl

/-- An id that is taken keeps its row, and is in `order_` once more. -/
theorem RowsSound.withRow_of_mem (sound : t.RowsSound) (taken : t.nextId ∈ t.rows.keys) :
    (t.withRow row).rows = t.rows ∧ (t.withRow row).RowsSound := by
  have hrows : (t.withRow row).rows = t.rows := UnorderedMap.emplace_of_mem taken
  refine ⟨hrows, ?_, ?_, ?_⟩
  · intro id hid
    rw [hrows] at hid
    exact List.mem_append_left _ (sound.listed id hid)
  · rw [hrows]
    exact sound.conforms
  · unfold Stored
    rw [hrows]
    exact sound.unique

theorem WellFormed.withRow (wf : t.WellFormed) (room : t.nextId ≠ 0)
    (rows : (t.withRow row).RowsSound) : (t.withRow row).WellFormed := by
  refine ⟨?_, ?_, ?_, rows.conforms, rows.unique⟩
  · change (t.order ++ [t.nextId]).Pairwise (· < ·)
    rw [List.pairwise_append]
    refine ⟨wf.sorted, List.pairwise_singleton _ _, fun id hid last hlast => ?_⟩
    obtain rfl : last = t.nextId := by simpa using hlast
    exact wf.below room id hid
  · intro id
    change id ∈ t.order ++ [t.nextId] ↔ id ∈ (t.rows.emplace t.nextId row).keys
    rw [UnorderedMap.mem_keys_emplace, List.mem_append, wf.listed id]
    simp [or_comm]
  · intro hroom id hid
    have hlast : t.nextId < t.nextId + 1 := lt_nextId_succ hroom
    rcases List.mem_append.mp hid with hid | hid
    · exact UInt64.lt_trans (wf.below room id hid) hlast
    · obtain rfl : id = t.nextId := by simpa using hid
      exact hlast

end Table

/-- A column that is flagged has a value in every row that conforms. -/
theorem Conforms.value {schema : TableSchema ByteString} {row : Row ByteString}
    (h : Conforms schema row) {column : Nat} (hidx : schema.IsIndexed column) :
    ∃ c v, schema.columns[column]? = some c ∧ row[column]? = some v ∧ v ≠ .null ∧
      v.matches c.type = true := by
  obtain ⟨c, hc, hflag⟩ := hidx
  have hlt : column < row.length := by
    rw [h.arity]
    exact (List.getElem?_eq_some_iff.mp hc).1
  refine ⟨c, row[column], hc, List.getElem?_eq_getElem hlt, ?_, ?_⟩
  · exact h.present column c _ hc (List.getElem?_eq_getElem hlt) (.inr hflag)
  · exact h.typed column c _ hc (List.getElem?_eq_getElem hlt)

namespace TableSound

variable {s : TableState ι ω} {row : Row ByteString}

/-- The index hooks of a row that has been given a free id. -/
theorem ends_notifyIndexesInsert (sound : TableSound s) (hnew : s.table.nextId ∉ s.table.rows.keys)
    (conforms : Conforms s.table.schema row)
    (fresh : ∀ column, s.table.schema.IsIndexed column → ∀ id v, row[column]? = some v →
      ¬ s.table.Stored id column v)
    (admits : AdmitsRow s row) :
    Ends (Table.notifyIndexesInsert s.table.nextId row) ⟨s.table.withRow row, s.world⟩
      (fun _ s' => SoundFrom s s' ∧ s'.table = s.table.withRow row)
      (fun _ s' => s'.Spent) := by
  simp only [Table.notifyIndexesInsert, ends_bind, ends_get]
  refine Ends.mono (ends_forM_indexes (s := ⟨s.table.withRow row, s.world⟩)
    (J := (s.table.withRow row).Tracks) (E := fun _ s' => s'.Spent)
    sound.apart sound.tracked ?_) ?_ fun _ _ h => h
  swap
  · rintro _ t ⟨htable, htracked, hframed⟩
    simp only at htable htracked
    refine ⟨⟨⟨?_, ?_, ?_, ?_, ?_, ?_⟩, hframed⟩, htable⟩
    · rw [htable]
      exact sound.rows.withRow hnew conforms fresh
    · rw [htable]
      exact sound.flagged
    · rw [htable]
      exact htracked
    · rw [htable]
      exact sound.readable
    · rw [htable]
      intro column index id v hindex hstored
      rcases (Table.stored_withRow hnew).mp hstored with h | ⟨-, hv⟩
      · exact sound.admitted column index id v hindex h
      · obtain ⟨c, v', hc, hv', hpresent, hmatch⟩ :=
          conforms.value (sound.flagged column index hindex)
        obtain rfl : v' = v := Option.some.inj (hv'.symm.trans hv)
        exact admits column index c v' hindex hc hv hpresent hmatch
    · rw [htable]
      exact sound.apart
  · intro column index t m hindex htable hholds htracks
    have hflag := sound.flagged column index hindex
    obtain ⟨c, v, hc, hv, hpresent, hmatch⟩ := conforms.value hflag
    have hnone : m v = none := by
      cases hm : m v with
      | none => rfl
      | some id => exact absurd ((htracks v id).mp hm) (fresh column hflag id v hv)
    simp only [hv]
    refine (ends_onWorld_insert hholds (admits column index c v hindex hc hv hpresent hmatch)
      hnone).mono ?_ fun _ _ h => h
    rintro _ t' ⟨htable', hholds', hframe⟩
    refine ⟨htable'.trans htable, ⟨_, hholds', fun k id => ?_⟩, hframe⟩
    rw [Table.stored_withRow hnew, ← htracks k id]
    by_cases hk : k = v
    · subst hk
      simp [hnone, hv, eq_comm]
    · simp [Function.update_of_ne hk, hv, Ne.symm hk]

/-- The index hooks of a row that is stored already: the first index refuses it. -/
theorem ends_notifyIndexesInsert_of_stored (sound : TableSound s) {id : RowId}
    (stored : s.table.rows.find? id = some row) :
    Ends (Table.notifyIndexesInsert id row) s (fun _ s' => s' = s)
      (fun _ s' => s' = s ∨ s'.Spent) := by
  simp only [Table.notifyIndexesInsert, ends_bind, ends_get]
  refine Ends.mono (ends_forM (s := s) (l := s.table.indexes.entries)
    (E := fun _ s' => s' = s ∨ s'.Spent)
    (I := fun before t => before = [] ∧ t = s) ⟨rfl, rfl⟩ ?_) (fun _ _ h => h.2) fun _ _ h => h
  · rintro before ⟨column, index⟩ after t hsplit ⟨rfl, rfl⟩
    have hindex : t.table.indexes.find? column = some index := by
      rw [UnorderedMap.find?_eq_some_iff, hsplit]
      exact List.mem_cons_self
    obtain ⟨m, hholds, htracks⟩ := sound.tracked column index hindex
    obtain ⟨-, v, -, hv, -, -⟩ :=
      (sound.rows.conforms id row stored).value (sound.flagged column index hindex)
    have hmem := (htracks v id).mpr ⟨row, stored, hv⟩
    simp only [hv]
    rw [Table.onWorld, ends_zoom]
    refine (LawfulIndex.insert_spec hholds
      (sound.admitted column index id v hindex ⟨row, stored, hv⟩)).mono ?_ ?_
    · rintro _ w' ⟨hnone, -⟩
      simp [hmem] at hnone
    · rintro _ w' (hspent | ⟨-, rfl⟩)
      · exact .inr hspent
      · exact .inl rfl

/-- `Table::insert`. -/
theorem ends_insert (sound : TableSound s) (admits : AdmitsRow s row) :
    Ends (Table.insert row) s
      (fun id s' => SoundFrom s s' ∧ s'.table = s.table.withRow row ∧ id = s.table.nextId)
      (fun _ s' => s' = s ∨ s'.Spent ∨
        s.table.nextId ∈ s.table.rows.keys ∧ SoundFrom s s' ∧ s'.table = s.table.withRow row) := by
  unfold Table.insert
  rw [ends_bind, ends_get, ends_bind, ends_fromExcept]
  refine ⟨?_, fun _ _ => .inl rfl⟩
  rintro ⟨⟩ hvalid
  obtain ⟨hconforms, hfree⟩ := sound.validate_ok hvalid
  have hfresh : ∀ column, s.table.schema.IsIndexed column → ∀ id v, row[column]? = some v →
      ¬ s.table.Stored id column v := fun column hidx id v hv hstored => by
    cases hfree column hidx id v hv hstored
  simp only [Table.modifyTable, ends_bind, ends_modify, ends_get]
  change Ends _ _ _ _
  rw [ends_fromExcept]
  change (∀ a, (s.table.withRow row).rowAt s.table.nextId = .ok a → _) ∧
    ∀ e, (s.table.withRow row).rowAt s.table.nextId = .error e → _
  by_cases htaken : s.table.nextId ∈ s.table.rows.keys
  · obtain ⟨hrows, hsound⟩ := sound.rows.withRow_of_mem htaken
    obtain ⟨stored, hstored⟩ := UnorderedMap.mem_keys_iff.mp htaken
    rw [← hrows] at hstored
    have hafter : SoundFrom s ⟨s.table.withRow row, s.world⟩ := by
      refine ⟨⟨hsound, sound.flagged, fun column index hindex => ?_, sound.readable, ?_,
        sound.apart⟩, fun _ _ _ h => h⟩
      · obtain ⟨m, hholds, htracks⟩ := sound.tracked column index hindex
        refine ⟨m, hholds, fun v id => ?_⟩
        rw [htracks v id, Table.Stored, Table.Stored, hrows]
      · intro column index id v hindex h
        rw [Table.Stored, hrows] at h
        exact sound.admitted column index id v hindex h
    have hrowAt : (s.table.withRow row).rowAt s.table.nextId = .ok stored := by
      rw [Table.rowAt, hstored]
    rw [hrowAt]
    refine ⟨?_, fun e he => by cases he⟩
    rintro _ ⟨⟩
    refine (hafter.sound.ends_notifyIndexesInsert_of_stored hstored).mono ?_ ?_
    · rintro _ t rfl
      exact ⟨hafter, rfl, rfl⟩
    · rintro _ t (rfl | hspent)
      · exact .inr (.inr ⟨htaken, hafter, rfl⟩)
      · exact .inr (.inl hspent)
  · have hrowAt : (s.table.withRow row).rowAt s.table.nextId = .ok row := by
      simp [Table.rowAt, Table.find?_withRow htaken]
    rw [hrowAt]
    refine ⟨?_, fun e he => by cases he⟩
    rintro _ ⟨⟩
    refine (sound.ends_notifyIndexesInsert htaken hconforms hfresh admits).mono ?_
      fun _ _ h => .inr (.inl h)
    rintro _ t ⟨hsound, htable⟩
    exact ⟨hsound, htable, rfl⟩

/-- `Table::insert_row`: the row is made from the values and the defaults, then inserted. -/
theorem ends_insertRow (sound : TableSound s) {values : List (Option (Value ByteString))}
    (admits : ∀ row, s.table.schema.columns.zipIdx.mapM
      (fun (col, i) => Table.rowValue values col i) = .ok row → AdmitsRow s row) :
    Ends (Table.insertRow values) s
      (fun _ s' => SoundFrom s s' ∧ ∃ row, s.table.schema.columns.zipIdx.mapM
        (fun (col, i) => Table.rowValue values col i) = .ok row ∧ s'.table = s.table.withRow row)
      (fun _ s' => s' = s ∨ s'.Spent ∨ s.table.nextId ∈ s.table.rows.keys ∧ SoundFrom s s' ∧
        ∃ row, s'.table = s.table.withRow row) := by
  unfold Table.insertRow
  rw [ends_bind, ends_get, ends_ite]
  split
  · exact .inl rfl
  · rw [ends_bind, ends_fromExcept]
    refine ⟨fun row hrow => ?_, fun _ _ => .inl rfl⟩
    rw [ends_bind]
    refine (sound.ends_insert (admits row hrow)).mono ?_ ?_
    · rintro _ s' ⟨hsound, htable, -⟩
      exact ⟨hsound, row, hrow, htable⟩
    · rintro _ s' (h | h | ⟨htaken, hsound, htable⟩)
      · exact .inl h
      · exact .inr (.inl h)
      · exact .inr (.inr ⟨htaken, hsound, row, htable⟩)

end TableSound

namespace TableInv

variable {s : TableState ι ω} {row : Row ByteString}

/-- `Table::insert` with an id that is free. -/
theorem ends_insert (inv : TableInv s) (hnew : s.table.nextId ∉ s.table.rows.keys)
    (admits : AdmitsRow s row) :
    Ends (Table.insert row) s
      (fun id s' => (s.table.nextId ≠ 0 → TableInv s') ∧ s'.table = s.table.withRow row ∧
        id = s.table.nextId)
      (fun _ s' => s' = s ∨ s'.Spent) := by
  refine (inv.sound.ends_insert admits).mono ?_ ?_
  · rintro id s' ⟨hsound, htable, hid⟩
    refine ⟨fun room => hsound.sound.tableInv ?_, htable, hid⟩
    rw [htable]
    exact inv.wellFormed.withRow room (htable ▸ hsound.sound.rows)
  · rintro _ s' (h | h | ⟨htaken, -⟩)
    · exact .inl h
    · exact .inr h
    · exact absurd htaken hnew

/-- `Table::insert_row` with an id that is free. -/
theorem ends_insertRow (inv : TableInv s) (hnew : s.table.nextId ∉ s.table.rows.keys)
    {values : List (Option (Value ByteString))}
    (admits : ∀ row, s.table.schema.columns.zipIdx.mapM
      (fun (col, i) => Table.rowValue values col i) = .ok row → AdmitsRow s row) :
    Ends (Table.insertRow values) s
      (fun _ s' => (s.table.nextId ≠ 0 → TableInv s') ∧
        ∃ row, s.table.schema.columns.zipIdx.mapM
          (fun (col, i) => Table.rowValue values col i) = .ok row ∧
          s'.table = s.table.withRow row)
      (fun _ s' => s' = s ∨ s'.Spent) := by
  refine (inv.sound.ends_insertRow admits).mono ?_ ?_
  · rintro _ s' ⟨hsound, row, hrow, htable⟩
    refine ⟨fun room => hsound.sound.tableInv ?_, row, hrow, htable⟩
    rw [htable]
    exact inv.wellFormed.withRow room (htable ▸ hsound.sound.rows)
  · rintro _ s' (h | h | ⟨htaken, -⟩)
    · exact .inl h
    · exact .inr h
    · exact absurd htaken hnew

end TableInv

/-! ## Update -/

namespace Table

variable {t : Table ByteString ι} {id : RowId} {row : Row ByteString}

/-- The table with another row under an id. -/
def withReplaced (t : Table ByteString ι) (id : RowId) (row : Row ByteString) :
    Table ByteString ι :=
  { t with rows := t.rows.replace id row }

theorem find?_withReplaced (here : ∃ old, t.rows.find? id = some old) (id' : RowId) :
    (t.withReplaced id row).rows.find? id' = if id' = id then some row else t.rows.find? id' := by
  obtain ⟨old, hold⟩ := here
  rw [withReplaced, UnorderedMap.find?_replace, hold, Option.map_some]

theorem stored_withReplaced (here : ∃ old, t.rows.find? id = some old) {id' : RowId}
    {column : Nat} {v : Value ByteString} :
    (t.withReplaced id row).Stored id' column v ↔
      id' = id ∧ row[column]? = some v ∨ id' ≠ id ∧ t.Stored id' column v := by
  unfold Stored
  simp only [find?_withReplaced here]
  by_cases h : id' = id <;> simp [h]

theorem RowsSound.withReplaced (sound : t.RowsSound)
    (here : ∃ old, t.rows.find? id = some old) (conforms : Conforms t.schema row)
    (fresh : ∀ column, t.schema.IsIndexed column → ∀ id' v, row[column]? = some v →
      t.Stored id' column v → id' = id) : (t.withReplaced id row).RowsSound := by
  refine ⟨?_, ?_, ?_⟩
  · intro id' hid
    have hkeys : (t.withReplaced id row).rows.keys = t.rows.keys := UnorderedMap.keys_replace
    exact sound.listed id' (hkeys ▸ hid)
  · intro id' stored hstored
    rw [find?_withReplaced here] at hstored
    split at hstored
    · exact Option.some.inj hstored ▸ conforms
    · exact sound.conforms id' stored hstored
  · intro column hidx id₁ id₂ v h₁ h₂
    rcases (stored_withReplaced here).mp h₁ with ⟨hid₁, hv⟩ | ⟨-, hold₁⟩
    · rcases (stored_withReplaced here).mp h₂ with ⟨hid₂, -⟩ | ⟨-, hold₂⟩
      · rw [hid₁, hid₂]
      · rw [hid₁, fresh column hidx id₂ v hv hold₂]
    · rcases (stored_withReplaced here).mp h₂ with ⟨hid₂, hv⟩ | ⟨-, hold₂⟩
      · rw [hid₂, fresh column hidx id₁ v hv hold₁]
      · exact sound.unique column hidx id₁ id₂ v hold₁ hold₂

theorem WellFormed.withReplaced (wf : t.WellFormed) (rows : (t.withReplaced id row).RowsSound) :
    (t.withReplaced id row).WellFormed := by
  refine ⟨wf.sorted, fun id' => ?_, wf.below, rows.conforms, rows.unique⟩
  change id' ∈ t.order ↔ id' ∈ (t.rows.replace id row).keys
  rw [UnorderedMap.keys_replace, wf.listed]

end Table

namespace TableSound

variable {s : TableState ι ω}

omit [IIndex ι ω] [LawfulIndex ι ω] in
/-- An index of another column does not see the update of one column. -/
theorem tracks_withReplaced_of_ne {id : RowId} {row : Row ByteString} {column column' : Nat}
    {newValue : Value ByteString} {m : IndexMap} (hrow : s.table.rows.find? id = some row)
    (hne : column' ≠ column) (h : s.table.Tracks column' m) :
    (s.table.withReplaced id (row.set column newValue)).Tracks column' m := by
  intro v id'
  rw [h v id', Table.stored_withReplaced ⟨row, hrow⟩, List.getElem?_set_ne (Ne.symm hne)]
  by_cases hid : id' = id
  · simp [hid, Table.Stored, hrow]
  · simp [hid]

/-- The index of the updated column gives up the old key and takes the new one. -/
theorem ends_notifyIndexesUpdate (sound : TableSound s) {id : RowId} {row : Row ByteString}
    {column : Nat} {oldValue newValue : Value ByteString}
    (hrow : s.table.rows.find? id = some row) (hold : row[column]? = some oldValue)
    (conforms : Conforms s.table.schema (row.set column newValue))
    (fresh : ∀ id', s.table.schema.IsIndexed column → s.table.Stored id' column newValue → id' = id)
    (admits : AdmitsRow s (row.set column newValue)) :
    Ends (Table.notifyIndexesUpdate id column oldValue newValue) s
      (fun _ t => t.table = s.table ∧
        (∀ column' index, s.table.indexes.find? column' = some index →
          ∃ m, LawfulIndex.Holds t.world index m ∧
            (s.table.withReplaced id (row.set column newValue)).Tracks column' m) ∧ Framed s t)
      (fun _ t => t.Spent) := by
  have hnew : (row.set column newValue)[column]? = some newValue := by
    have hlt := (List.getElem?_eq_some_iff.mp hold).1
    simp [hlt]
  unfold Table.notifyIndexesUpdate
  rw [ends_bind, ends_get]
  cases hindex : s.table.indexes.find? column with
  | none =>
      refine ⟨rfl, fun column' index hindex' => ?_, .refl s⟩
      obtain ⟨m, hholds, htracks⟩ := sound.tracked column' index hindex'
      have hne : column' ≠ column := by
        rintro rfl
        simp [hindex] at hindex'
      exact ⟨m, hholds, tracks_withReplaced_of_ne hrow hne htracks⟩
  | some index =>
      obtain ⟨m, hholds, htracks⟩ := sound.tracked column index hindex
      have hflag := sound.flagged column index hindex
      have hstored : s.table.Stored id column oldValue := ⟨row, hrow, hold⟩
      obtain ⟨c, v, hc, hv, hpresent, hmatch⟩ := conforms.value hflag
      obtain rfl : v = newValue := Option.some.inj (hv.symm.trans hnew)
      -- Without the old key the index holds the new one only if another row has it.
      have hfree : Function.update m oldValue none v = none := by
        by_cases hk : v = oldValue
        · simp [hk]
        · rw [Function.update_of_ne hk]
          cases hm : m v with
          | none => rfl
          | some id' =>
              have hother := (htracks v id').mp hm
              obtain rfl := fresh id' hflag hother
              obtain ⟨row', hrow', hv'⟩ := hother
              obtain rfl : row' = row := Option.some.inj (hrow'.symm.trans hrow)
              exact absurd (Option.some.inj (hv'.symm.trans hold)) hk
      rw [ends_bind]
      refine (ends_onWorld_erase hholds (sound.admitted column index id oldValue hindex
        hstored)).mono ?_ fun _ _ h => h
      rintro _ t ⟨htable, hholds', hframe⟩
      refine (ends_onWorld_insert hholds' (admits column index c v hindex hc hnew hpresent hmatch)
        hfree).mono ?_ fun _ _ h => h
      rintro _ t' ⟨htable', hholds'', hframe'⟩
      refine ⟨htable'.trans htable, fun column' index' hindex' => ?_, fun j m' hapart hj =>
        hframe' j m' (hapart column index hindex) (hframe j m' (hapart column index hindex) hj)⟩
      by_cases hcol : column' = column
      · subst hcol
        obtain rfl : index' = index := Option.some.inj (hindex'.symm.trans hindex)
        refine ⟨_, hholds'', fun k id' => ?_⟩
        rw [Table.stored_withReplaced ⟨row, hrow⟩, hnew]
        by_cases hk : k = v
        · subst hk
          rw [Function.update_self]
          constructor
          · intro h
            exact .inl ⟨(Option.some.inj h).symm, rfl⟩
          · rintro (⟨rfl, -⟩ | ⟨hne, hother⟩)
            · rfl
            · exact absurd (fresh id' hflag hother) hne
        · rw [Function.update_of_ne hk]
          by_cases hko : k = oldValue
          · subst hko
            rw [Function.update_self]
            constructor
            · intro h
              cases h
            · rintro (⟨-, h⟩ | ⟨hne, hother⟩)
              · exact absurd (Option.some.inj h).symm hk
              · exact absurd (sound.rows.unique column' hflag id' id k hother hstored) hne
          · rw [Function.update_of_ne hko, htracks k id']
            constructor
            · intro h
              refine .inr ⟨?_, h⟩
              rintro rfl
              obtain ⟨row', hrow', hv'⟩ := h
              obtain rfl : row' = row := Option.some.inj (hrow'.symm.trans hrow)
              exact hko (Option.some.inj (hv'.symm.trans hold))
            · rintro (⟨-, h⟩ | ⟨-, h⟩)
              · exact absurd (Option.some.inj h).symm hk
              · exact h
      · obtain ⟨m', hm', htracks'⟩ := sound.tracked column' index' hindex'
        have hapart := sound.apart column column' index index' (Ne.symm hcol) hindex hindex'
        exact ⟨m', hframe' index' m' hapart (hframe index' m' hapart hm'),
          tracks_withReplaced_of_ne hrow hcol htracks'⟩

/-- `Table::update`. -/
theorem ends_update (sound : TableSound s) {id : RowId} {column : Nat} {newValue : Value ByteString}
    (admits : ∀ row, s.table.rows.find? id = some row → AdmitsRow s (row.set column newValue)) :
    Ends (Table.update id column newValue) s
      (fun _ s' => SoundFrom s s' ∧ ∃ row, s.table.rows.find? id = some row ∧
        s'.table = s.table.withReplaced id (row.set column newValue))
      (fun _ s' => s' = s ∨ s'.Spent) := by
  unfold Table.update
  rw [ends_bind, ends_get]
  cases hrow : s.table.rows.find? id with
  | none => exact .inl rfl
  | some row =>
      simp only
      rw [ends_ite]
      split
      · exact .inl rfl
      next hrange =>
      rw [ends_bind, ends_fromExcept]
      refine ⟨fun oldValue hold => ?_, fun _ _ => .inl rfl⟩
      have hold := vectorAt_eq_ok.mp hold
      rw [ends_bind, ends_fromExcept]
      refine ⟨?_, fun _ _ => .inl rfl⟩
      rintro ⟨⟩ hvalid
      obtain ⟨hconforms, hfree⟩ := sound.validate_ok hvalid
      have hnew : (row.set column newValue)[column]? = some newValue := by
        have hlt := (List.getElem?_eq_some_iff.mp hold).1
        simp [hlt]
      rw [ends_bind]
      refine (sound.ends_notifyIndexesUpdate hrow hold hconforms (fun id' hflag hstored =>
        (Option.some.inj (hfree column hflag id' newValue hnew hstored)).symm)
        (admits row hrow)).mono ?_ fun _ _ h => .inr h
      rintro _ t ⟨htable, htracked, hframed⟩
      have hrows : (s.table.withReplaced id (row.set column newValue)).RowsSound :=
        sound.rows.withReplaced ⟨row, hrow⟩ hconforms fun column' hflag id' v hv hstored =>
          (Option.some.inj (hfree column' hflag id' v hv hstored)).symm
      simp only [Table.modifyTable, ends_modify]
      rw [htable]
      refine ⟨⟨⟨hrows, sound.flagged, htracked, sound.readable, ?_, sound.apart⟩, hframed⟩, row,
        rfl, rfl⟩
      intro column' index id' v hindex hstored
      rcases (Table.stored_withReplaced ⟨row, hrow⟩).mp hstored with ⟨-, hv⟩ | ⟨-, h⟩
      · obtain ⟨c, v', hc, hv', hpresent, hmatch⟩ :=
          hconforms.value (sound.flagged column' index hindex)
        obtain rfl : v' = v := Option.some.inj (hv'.symm.trans hv)
        exact admits row hrow column' index c v' hindex hc hv hpresent hmatch
      · exact sound.admitted column' index id' v hindex h

end TableSound

/-- `Table::update`. -/
theorem TableInv.ends_update {s : TableState ι ω} (inv : TableInv s) {id : RowId} {column : Nat}
    {newValue : Value ByteString}
    (admits : ∀ row, s.table.rows.find? id = some row → AdmitsRow s (row.set column newValue)) :
    Ends (Table.update id column newValue) s
      (fun _ s' => TableInv s' ∧ ∃ row, s.table.rows.find? id = some row ∧
        s'.table = s.table.withReplaced id (row.set column newValue))
      (fun _ s' => s' = s ∨ s'.Spent) := by
  refine (inv.sound.ends_update admits).mono ?_ fun _ _ h => h
  rintro _ s' ⟨hsound, row, hrow, htable⟩
  refine ⟨hsound.sound.tableInv ?_, row, hrow, htable⟩
  rw [htable]
  exact inv.wellFormed.withReplaced (htable ▸ hsound.sound.rows)

/-! ## Erase -/

namespace Table

variable {t : Table ByteString ι} {id : RowId}

/-- The table without the row `id`. -/
def withoutRow (t : Table ByteString ι) (id : RowId) : Table ByteString ι :=
  { t with rows := t.rows.erase id, order := t.order.erase id }

theorem stored_withoutRow {id' : RowId} {column : Nat} {v : Value ByteString} :
    (t.withoutRow id).Stored id' column v ↔ id' ≠ id ∧ t.Stored id' column v := by
  unfold Stored withoutRow
  simp only [UnorderedMap.find?_erase]
  by_cases h : id' = id <;> simp [h]

theorem RowsSound.withoutRow (sound : t.RowsSound) : (t.withoutRow id).RowsSound := by
  refine ⟨?_, ?_, ?_⟩
  · intro id' hid
    obtain ⟨hne, hid⟩ := UnorderedMap.mem_keys_erase.mp hid
    exact (List.mem_erase_of_ne hne).mpr (sound.listed id' hid)
  · intro id' row hrow
    have hrow' : (t.rows.erase id).find? id' = some row := hrow
    rw [UnorderedMap.find?_erase] at hrow'
    split at hrow'
    · cases hrow'
    · exact sound.conforms id' row hrow'
  · intro column hidx id₁ id₂ v h₁ h₂
    exact sound.unique column hidx id₁ id₂ v (stored_withoutRow.mp h₁).2
      (stored_withoutRow.mp h₂).2

theorem WellFormed.withoutRow (wf : t.WellFormed) : (t.withoutRow id).WellFormed := by
  have hnodup : t.order.Nodup := wf.sorted.imp fun h => UInt64.ne_of_lt h
  have hrows : (t.withoutRow id).RowsSound := wf.rowsSound.withoutRow
  refine ⟨wf.sorted.sublist List.erase_sublist, ?_, ?_, hrows.conforms, hrows.unique⟩
  · intro id'
    change id' ∈ t.order.erase id ↔ id' ∈ (t.rows.erase id).keys
    rw [hnodup.mem_erase_iff, UnorderedMap.mem_keys_erase, wf.listed]
  · intro room id' hid
    exact wf.below room id' (List.mem_of_mem_erase hid)

end Table

namespace TableSound

variable {s : TableState ι ω}

/-- `Table::erase` of a row that is there. -/
theorem ends_erase_of_stored (sound : TableSound s) {id : RowId} {row : Row ByteString}
    (hrow : s.table.rows.find? id = some row) :
    Ends (Table.erase id) s
      (fun _ s' => SoundFrom s s' ∧ s'.table = s.table.withoutRow id)
      (fun _ s' => s'.Spent) := by
  unfold Table.erase
  rw [ends_bind, ends_get, hrow]
  simp only [Table.notifyIndexesErase, ends_bind, ends_get]
  have hconforms := sound.rows.conforms id row hrow
  refine Ends.mono (ends_forM_indexes (s := s) (J := (s.table.withoutRow id).Tracks)
    (E := fun _ s' => s'.Spent) sound.apart sound.tracked ?_) ?_ fun _ _ h => h
  swap
  · rintro _ t ⟨htable, htracked, hframed⟩
    simp only [Table.modifyTable, ends_modify]
    rw [htable]
    refine ⟨⟨⟨sound.rows.withoutRow, sound.flagged, htracked, sound.readable, ?_,
      sound.apart⟩, hframed⟩, rfl⟩
    intro column index id' v hindex hstored
    exact sound.admitted column index id' v hindex (Table.stored_withoutRow.mp hstored).2
  · intro column index t m hindex htable hholds htracks
    have hflag := sound.flagged column index hindex
    obtain ⟨c, v, -, hv, -, -⟩ := hconforms.value hflag
    have hstored : s.table.Stored id column v := ⟨row, hrow, hv⟩
    simp only [hv]
    rw [ends_bind]
    refine (ends_onWorld_erase hholds (sound.admitted column index id v hindex hstored)).mono
      ?_ fun _ _ h => h
    rintro _ t' ⟨htable', hholds', hframe⟩
    refine ⟨htable'.trans htable, ⟨_, hholds', fun k id' => ?_⟩, hframe⟩
    rw [Table.stored_withoutRow, ← htracks k id']
    by_cases hk : k = v
    · subst hk
      rw [Function.update_self]
      constructor
      · intro h
        cases h
      · rintro ⟨hne, h⟩
        have hstored' := (htracks k id').mp h
        exact absurd (sound.rows.unique column hflag id' id k hstored' hstored) hne
    · rw [Function.update_of_ne hk]
      constructor
      · intro h
        refine ⟨?_, h⟩
        rintro rfl
        obtain ⟨row', hrow', hv'⟩ := (htracks k id').mp h
        obtain rfl : row' = row := Option.some.inj (hrow'.symm.trans hrow)
        exact hk (Option.some.inj (hv'.symm.trans hv))
      · exact fun h => h.2

/-- `Table::erase`. -/
theorem ends_erase (sound : TableSound s) {id : RowId} :
    Ends (Table.erase id) s
      (fun _ s' => SoundFrom s s' ∧ s'.table = s.table.withoutRow id)
      (fun _ s' => s' = s ∨ s'.Spent) := by
  cases hrow : s.table.rows.find? id with
  | none =>
      unfold Table.erase
      rw [ends_bind, ends_get, hrow]
      exact .inl rfl
  | some row => exact (sound.ends_erase_of_stored hrow).mono (fun _ _ h => h) fun _ _ h => .inr h

end TableSound

/-- `Table::erase`. -/
theorem TableInv.ends_erase {s : TableState ι ω} (inv : TableInv s) {id : RowId} :
    Ends (Table.erase id) s
      (fun _ s' => TableInv s' ∧ s'.table = s.table.withoutRow id)
      (fun _ s' => s' = s ∨ s'.Spent) := by
  refine inv.sound.ends_erase.mono ?_ fun _ _ h => h
  rintro _ s' ⟨hsound, htable⟩
  refine ⟨hsound.sound.tableInv ?_, htable⟩
  rw [htable]
  exact inv.wellFormed.withoutRow

/-! ## Attaching and detaching -/

/-- An index object that may be attached to the column: it is empty, takes the values
of the column, and is not one of the objects attached elsewhere. -/
structure Attachable (s : TableState ι ω) (column : Nat) (index : ι) : Prop where
  flagged : column < s.table.schema.columnCount → s.table.schema.IsIndexed column
  empty : LawfulIndex.Holds s.world index fun _ => none
  reads : ∀ c v, s.table.schema.columns[column]? = some c → v ≠ .null →
    v.matches c.type = true → LawfulIndex.Reads index v
  admits : ∀ id v, s.table.Stored id column v → LawfulIndex.Admits index v
  apart : ∀ column' index', column' ≠ column →
    s.table.indexes.find? column' = some index' → LawfulIndex.Apart index index'

namespace TableSound

variable {s : TableState ι ω}

/-- `Table::attach_index` with `rebuild = true`; it may stop half-way where `order_` does
not list the stored rows, each once. -/
theorem ends_attachIndex (sound : TableSound s) {column : Nat} {index : Option ι}
    (attachable : ∀ i, index = some i → Attachable s column i) :
    Ends (Table.attachIndex column index true) s
      (fun _ s' => TableSound s' ∧ ∃ i, index = some i ∧
        s'.table = { s.table with indexes := s.table.indexes.assign column i } ∧
        ∀ j m, LawfulIndex.Apart i j → LawfulIndex.Holds s.world j m →
          LawfulIndex.Holds s'.world j m)
      (fun _ s' => s' = s ∨ s'.Spent ∨
        ¬ (s.table.order.Nodup ∧ ∀ id ∈ s.table.order, id ∈ s.table.rows.keys)) := by
  unfold Table.attachIndex
  rw [ends_bind, ends_get, ends_ite]
  split
  · exact .inl rfl
  next hrange =>
  cases index with
  | none => exact .inl rfl
  | some index =>
      have hnew := attachable index rfl
      have hflag := hnew.flagged (Nat.lt_of_not_le hrange)
      let attached : Table ByteString ι :=
        { s.table with indexes := s.table.indexes.assign column index }
      simp only [Table.modifyTable, ends_bind, ends_modify, if_true]
      have hloop := ends_forM (s := (⟨attached, s.world⟩ : TableState ι ω))
        (l := s.table.order)
        (f := fun rowId => (do
          let row ← fromExcept (s.table.rowAt rowId)
          let value ← fromExcept (vectorAt row column)
          Table.onWorld (IIndex.insert index value rowId) : TableM ι ω PUnit))
        (E := fun _ s' => s' = s ∨ s'.Spent ∨
          ¬ (s.table.order.Nodup ∧ ∀ id ∈ s.table.order, id ∈ s.table.rows.keys))
        (I := fun before t => t.table = attached ∧
          (∃ m, LawfulIndex.Holds t.world index m ∧
            ∀ v id, m v = some id ↔ id ∈ before ∧ s.table.Stored id column v) ∧
          ∀ j m', LawfulIndex.Apart index j → LawfulIndex.Holds s.world j m' →
            LawfulIndex.Holds t.world j m')
        ⟨rfl, ⟨_, hnew.empty, by simp⟩, fun _ _ _ h => h⟩ ?_
      · refine hloop.mono ?_ fun _ _ h => h
        rintro _ t ⟨htable, ⟨m, hholds, htracks⟩, hframe⟩
        have hfind : ∀ column', attached.indexes.find? column' =
            if column' = column then some index else s.table.indexes.find? column' :=
          fun column' => UnorderedMap.find?_assign
        refine ⟨⟨?_, ?_, ?_, ?_, ?_, ?_⟩, index, rfl, htable, hframe⟩
        · rw [htable]
          exact ⟨sound.rows.listed, sound.rows.conforms, sound.rows.unique⟩
        · intro column' index' hindex'
          rw [htable, hfind] at hindex'
          rw [htable]
          split at hindex'
          · next h => exact h ▸ hflag
          · exact sound.flagged column' index' hindex'
        · intro column' index' hindex'
          rw [htable, hfind] at hindex'
          rw [htable]
          split at hindex'
          · next h =>
              cases hindex'
              subst h
              refine ⟨m, hholds, fun v id => ?_⟩
              rw [htracks v id]
              refine ⟨fun h => h.2, fun h => ⟨?_, h⟩⟩
              obtain ⟨row, hrow, -⟩ := h
              exact sound.rows.listed id (UnorderedMap.mem_keys_iff.mpr ⟨row, hrow⟩)
          · next h =>
              obtain ⟨m', hm', htracks'⟩ := sound.tracked column' index' hindex'
              exact ⟨m', hframe index' m' (hnew.apart column' index' h hindex') hm', htracks'⟩
        · intro column' index' c v hindex' hc
          rw [htable, hfind] at hindex'
          rw [htable] at hc
          split at hindex'
          · next h =>
              cases hindex'
              subst h
              exact hnew.reads c v hc
          · exact sound.readable column' index' c v hindex' hc
        · intro column' index' id v hindex' hstored
          rw [htable, hfind] at hindex'
          rw [htable] at hstored
          split at hindex'
          · next h =>
              cases hindex'
              subst h
              exact hnew.admits id v hstored
          · exact sound.admitted column' index' id v hindex' hstored
        · intro column₁ column₂ index₁ index₂ hne h₁ h₂
          rw [htable, hfind] at h₁ h₂
          split at h₁
          · next heq₁ =>
              cases h₁
              split at h₂
              · next heq₂ => exact absurd (heq₁.trans heq₂.symm) hne
              · next heq₂ => exact hnew.apart column₂ index₂ heq₂ h₂
          · next heq₁ =>
              split at h₂
              · cases h₂
                exact LawfulIndex.apart_symm (hnew.apart column₁ index₁ heq₁ h₁)
              · exact sound.apart column₁ column₂ index₁ index₂ hne h₁ h₂
      · rintro before id after t hsplit ⟨htable, ⟨m, hholds, htracks⟩, hframe⟩
        have hid : id ∈ s.table.order := by rw [hsplit]; simp
        rw [ends_bind, ends_fromExcept]
        constructor
        swap
        · -- an id of `order_` that is not stored
          intro e he
          refine .inr (.inr fun hproper => ?_)
          obtain ⟨row, hrow⟩ := UnorderedMap.mem_keys_iff.mp (hproper.2 id hid)
          rw [Table.rowAt, hrow] at he
          cases he
        intro row hrow
        have hrow : s.table.rows.find? id = some row := by
          unfold Table.rowAt at hrow
          split at hrow
          · next stored hstored => exact hstored.trans (congrArg some (Except.ok.inj hrow))
          · simp [raise] at hrow
        obtain ⟨c, v, -, hv, -, -⟩ := (sound.rows.conforms id row hrow).value hflag
        have hstored : s.table.Stored id column v := ⟨row, hrow, hv⟩
        have hvalue : vectorAt row column = .ok v := vectorAt_eq_ok.mpr hv
        simp only [hvalue, fromExcept_ok, pure_bind]
        rw [Table.onWorld, ends_zoom]
        refine (LawfulIndex.insert_spec hholds (hnew.admits id v hstored)).mono ?_ ?_
        swap
        · rintro _ w' (hspent | ⟨hpresent, -⟩)
          · exact .inr (.inl hspent)
          · -- the key is there when `order_` lists the id twice
            refine .inr (.inr fun hproper => ?_)
            obtain ⟨id', hm⟩ := Option.isSome_iff_exists.mp hpresent
            obtain ⟨hbefore, hstored'⟩ := (htracks v id').mp hm
            rw [sound.rows.unique column hflag id' id v hstored' hstored] at hbefore
            have hnodup := hproper.1
            rw [hsplit, List.nodup_append] at hnodup
            exact hnodup.2.2 id hbefore id (by simp) rfl
        rintro _ w' ⟨-, hholds', hframe'⟩
        refine ⟨htable, ⟨_, hholds', fun k id' => ?_⟩,
          fun j m' hapart hj => hframe' j m' hapart (hframe j m' hapart hj)⟩
        rw [List.mem_append, List.mem_singleton]
        by_cases hk : k = v
        · subst hk
          rw [Function.update_self]
          constructor
          · intro h
            cases h
            exact ⟨.inr rfl, hstored⟩
          · rintro ⟨-, h⟩
            rw [sound.rows.unique column hflag id' id k h hstored]
        · rw [Function.update_of_ne hk, htracks k id']
          constructor
          · exact fun h => ⟨.inl h.1, h.2⟩
          · rintro ⟨h | rfl, hst⟩
            · exact ⟨h, hst⟩
            · obtain ⟨row', hrow', hv'⟩ := hst
              obtain rfl : row' = row := Option.some.inj (hrow'.symm.trans hrow)
              exact absurd (Option.some.inj (hv'.symm.trans hv)) hk

end TableSound

omit [LawfulIndex ι ω] in
/-- Without rows there is nothing to insert into the index. -/
theorem Table.ends_attachIndex_noRow {s : TableState ι ω} {column : Nat} {i : ι}
    (column_lt : column < s.table.schema.columnCount) (noRow : s.table.order = []) :
    Ends (Table.attachIndex column (some i) true) s
      (fun _ s' => s' = ⟨{ s.table with indexes := s.table.indexes.assign column i }, s.world⟩)
      (fun _ _ => False) := by
  have hrows : ∀ f : RowId → TableM ι ω PUnit, s.table.order.forM f = pure ⟨⟩ := by
    intro f
    rw [noRow]
    rfl
  unfold Table.attachIndex
  rw [ends_bind, ends_get, ends_ite, if_neg (Nat.not_le.mpr column_lt)]
  dsimp only
  rw [Table.modifyTable, ends_bind, ends_modify, if_pos rfl, hrows, ends_pure]

/-- `Table::detach_index`. -/
theorem TableSound.ends_detachIndex {s : TableState ι ω} (sound : TableSound s) {column : Nat}
    {E : Fault → TableState ι ω → Prop} :
    Ends (Table.detachIndex column) s
      (fun _ s' => TableSound s' ∧
        s' = ⟨{ s.table with indexes := s.table.indexes.erase column }, s.world⟩) E := by
  unfold Table.detachIndex Table.modifyTable
  rw [ends_modify]
  have hkept : ∀ column' index, (s.table.indexes.erase column).find? column' = some index →
      s.table.indexes.find? column' = some index := by
    intro column' index h
    rw [UnorderedMap.find?_erase] at h
    split at h
    · cases h
    · exact h
  refine ⟨⟨⟨sound.rows.listed, sound.rows.conforms, sound.rows.unique⟩, ?_, ?_, ?_, ?_, ?_⟩, rfl⟩
  · exact fun column' index h => sound.flagged column' index (hkept column' index h)
  · exact fun column' index h => sound.tracked column' index (hkept column' index h)
  · exact fun column' index c v h => sound.readable column' index c v (hkept column' index h)
  · exact fun column' index id v h => sound.admitted column' index id v (hkept column' index h)
  · exact fun column₁ column₂ index₁ index₂ hne h₁ h₂ =>
      sound.apart column₁ column₂ index₁ index₂ hne (hkept _ _ h₁) (hkept _ _ h₂)

namespace TableInv

variable {s : TableState ι ω}

/-- `Table::attach_index` with `rebuild = true`. -/
theorem ends_attachIndex (inv : TableInv s) {column : Nat} {o : Option ι}
    (attachable : ∀ i, o = some i → Attachable s column i) :
    Ends (Table.attachIndex column o true) s
      (fun _ s' => TableInv s' ∧ ∃ i, o = some i ∧
        s'.table = { s.table with indexes := s.table.indexes.assign column i })
      (fun _ s' => s' = s ∨ s'.Spent) := by
  refine (inv.sound.ends_attachIndex attachable).mono ?_ ?_
  · rintro _ s' ⟨hsound, i, hi, htable, -⟩
    refine ⟨hsound.tableInv ?_, i, hi, htable⟩
    rw [htable]
    exact ⟨inv.wellFormed.sorted, inv.wellFormed.listed, inv.wellFormed.below,
      inv.wellFormed.conforms, inv.wellFormed.unique⟩
  · rintro _ s' (h | h | hnot)
    · exact .inl h
    · exact .inr h
    · exact absurd ⟨inv.wellFormed.order_nodup, fun id h => (inv.wellFormed.listed id).mp h⟩ hnot

/-- `Table::detach_index`. -/
theorem ends_detachIndex (inv : TableInv s) {column : Nat} {E : Fault → TableState ι ω → Prop} :
    Ends (Table.detachIndex column) s
      (fun _ s' => TableInv s' ∧
        s' = ⟨{ s.table with indexes := s.table.indexes.erase column }, s.world⟩) E := by
  refine inv.sound.ends_detachIndex.mono ?_ fun _ _ h => h
  rintro _ s' ⟨hsound, rfl⟩
  exact ⟨hsound.tableInv ⟨inv.wellFormed.sorted, inv.wellFormed.listed, inv.wellFormed.below,
    inv.wellFormed.conforms, inv.wellFormed.unique⟩, rfl⟩

end TableInv
end CwDb.Storage
