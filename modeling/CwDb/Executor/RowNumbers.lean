/-
  Executor/RowNumbers.lean --- how far `next_id_` of a table has come.

  As long as a table has been given fewer than 2^64 - 1 rows, the numbers of its rows are
  different and below `next_id_`, so every number that it lists has a row.
-/
import CwDb.Executor.StatementFrames
import CwDb.Storage.LoadedTables
import CwDb.Storage.SavedTables

set_option autoImplicit false

namespace CwDb.Executor

open CwDb.Cpp
open CwDb.Foundation
open CwDb.Sql
open CwDb.Storage

variable {ι ω : Type} {n k : Nat}

/-- A table that has been given at most `n` rows. -/
structure Numbered (n : Nat) (t : Table ByteString ι) : Prop where
  listed : t.Listed
  nodup : t.order.Nodup
  below : ∀ id ∈ t.order, id.toNat < t.nextId.toNat
  next : t.nextId.toNat ≤ n + 1

/-- The same, unless the numbers have run out. -/
def WithinNumbers (n : Nat) (t : Table ByteString ι) : Prop := n + 1 < 2 ^ 64 → Numbered n t

section Tables

variable {t : Table ByteString ι}

theorem WithinNumbers.mono (le : n ≤ k) (h : WithinNumbers n t) : WithinNumbers k t := by
  intro few
  obtain ⟨listed, nodup, below, next⟩ := h (by omega)
  exact ⟨listed, nodup, below, by omega⟩

theorem WithinNumbers.withIndexes (h : WithinNumbers n t) (indexes : UnorderedMap Nat ι) :
    WithinNumbers n { t with indexes } := fun few =>
  let ⟨listed, nodup, below, next⟩ := h few
  ⟨listed, nodup, below, next⟩

theorem withinNumbers_ofSchema (n : Nat) (name : ByteString) (schema : TableSchema ByteString) :
    WithinNumbers n (Table.ofSchema name schema : Table ByteString ι) :=
  fun _ => ⟨nofun, List.nodup_nil, nofun, Nat.succ_le_succ (Nat.zero_le n)⟩

theorem WithinNumbers.withRow (h : WithinNumbers n t) (row : Row ByteString) :
    WithinNumbers (n + 1) { t with
      nextId := t.nextId + 1, rows := t.rows.emplace t.nextId row, order := t.order ++ [t.nextId] } := by
  intro few
  obtain ⟨listed, nodup, below, next⟩ := h (by omega)
  have hsucc : (t.nextId + 1).toNat = t.nextId.toNat + 1 := by
    rw [UInt64.toNat_add]
    exact Nat.mod_eq_of_lt (by change _ + 1 < _; omega)
  have hnew : t.nextId ∉ t.order := fun hid => lt_irrefl _ (below _ hid)
  refine ⟨fun id hid => ?_, ?_, fun id hid => ?_, by rw [hsucc]; omega⟩
  · rcases List.mem_append.mp hid with hid | hid
    · exact UnorderedMap.mem_keys_emplace.mpr (.inr (listed id hid))
    · exact UnorderedMap.mem_keys_emplace.mpr (.inl (List.mem_singleton.mp hid))
  · exact List.nodup_append.mpr ⟨nodup, List.nodup_singleton _, fun a ha b hb heq =>
      hnew (List.mem_singleton.mp hb ▸ heq ▸ ha)⟩
  · rw [hsucc]
    rcases List.mem_append.mp hid with hid | hid
    · exact Nat.lt_succ_of_lt (below id hid)
    · rw [List.mem_singleton.mp hid]
      exact Nat.lt_succ_self _

/-- The changes of rows there are leave the numbers alone, in whatever world. -/
theorem closedUnderChanges_numbers [IIndex ι ω] (n : Nat) :
    ClosedUnderChanges (WithinNumbers n : Table ByteString ι → Prop) (fun _ : ω => True) where
  update t id row h := by
    intro few
    obtain ⟨listed, nodup, below, next⟩ := h few
    refine ⟨fun id' hid => ?_, nodup, below, next⟩
    change id' ∈ (t.rows.replace id row).keys
    rw [UnorderedMap.keys_replace]
    exact listed id' hid
  erase t id h := by
    intro few
    obtain ⟨listed, nodup, below, next⟩ := h few
    refine ⟨fun id' hid => ?_, nodup.erase id, fun id' hid => ?_, next⟩
    · obtain ⟨hne, hid⟩ := nodup.mem_erase_iff.mp hid
      exact UnorderedMap.mem_keys_erase.mpr ⟨hne, listed id' hid⟩
    · exact below id' (List.mem_of_mem_erase hid)
  indexInsert _ _ _ := fun _ _ => by unfold Ends; split <;> trivial
  indexErase _ _ := fun _ _ => by unfold Ends; split <;> trivial

end Tables

/-! ## Tables that are loaded -/

section Loaded

variable {image : TableImage} {saved loaded : Table ByteString ι}

theorem eq_tableOfRows (load : image.load = .ok loaded) :
    ∃ schema, loaded = tableOfRows image.name schema image.rows := by
  unfold TableImage.load at load
  cases hschema : TableSchema.ofColumns image.columns with
  | error fault =>
      rw [hschema] at load
      cases load
  | ok schema =>
      rw [hschema] at load
      exact ⟨schema, (Except.ok.inj load).symm⟩

theorem filed_load (load : image.load = .ok loaded) : loaded.Filed := by
  obtain ⟨schema, rfl⟩ := eq_tableOfRows load
  exact fun _ hid => mem_order_tableOfRows.mpr hid

/-- A loaded table goes on behind the greatest number that it has. -/
theorem withinNumbers_load (h : WithinNumbers n saved)
    (made : TableImage.ofTable saved = .ok image) (load : image.load = .ok loaded) :
    WithinNumbers n loaded := by
  intro few
  obtain ⟨listed, nodup, below, next⟩ := h few
  obtain ⟨-, -, hids, -⟩ := TableImage.ofTable_ok made
  obtain ⟨schema, rfl⟩ := eq_tableOfRows load
  have horder : (tableOfRows (ι := ι) image.name schema image.rows).order = saved.order := hids
  have hle : ∀ id ∈ saved.order, id.toNat ≤ n := fun id hid =>
    Nat.lt_succ_iff.mp (lt_of_lt_of_le (below id hid) next)
  have hlast : ∀ entry ∈ image.rows, entry.1 ≠ 0xFFFFFFFFFFFFFFFF := by
    intro entry hentry heq
    have hlast := hle entry.1 (hids ▸ List.mem_map_of_mem hentry)
    rw [heq] at hlast
    change 2 ^ 64 - 1 ≤ n at hlast
    omega
  refine ⟨fun id hid => mem_order_tableOfRows.mp hid, horder ▸ nodup, fun id hid =>
    UInt64.lt_iff_toNat_lt.mp (below_nextId_tableOfRows_iff.mpr hlast id hid), ?_⟩
  cases hrows : image.rows with
  | nil => exact Nat.succ_le_succ (Nat.zero_le n)
  | cons entry rest =>
      rw [← hrows, nextId_tableOfRows (hrows ▸ List.mem_cons_self), hids]
      have hfilled : saved.order ≠ [] := by
        rw [← hids, hrows]
        nofun
      have hmax := hle _ (maxElement_mem hfilled)
      have hsucc : (maxElement saved.order + 1).toNat = (maxElement saved.order).toNat + 1 := by
        rw [UInt64.toNat_add]
        exact Nat.mod_eq_of_lt (by change _ + 1 < _; omega)
      rcases max_choice (maxElement saved.order + 1) 1 with hchoice | hchoice
      · rw [hchoice, hsucc]
        exact Nat.succ_le_succ hmax
      · rw [hchoice]
        exact Nat.succ_le_succ (Nat.zero_le n)

end Loaded

/-! ## INSERT -/

section Insert

variable [IIndex ι ω]

/-- A table in a state with at most `n` rows given to it. -/
def NumberedState (n : Nat) (s : TableState ι ω) : Prop :=
  Within (WithinNumbers n) (fun _ : ω => True) s

omit [IIndex ι ω] in
theorem numberedState_mono (n n' : Nat) (s : TableState ι ω) (le : n ≤ n')
    (h : NumberedState n s) : NumberedState n' s := ⟨h.1.mono le, trivial⟩

theorem raises_insert (row : Row ByteString) :
    Raises NumberedState 1 (Table.insert row : TableM ι ω RowId) := by
  intro n s h
  unfold Table.insert
  rw [ends_bind, ends_get, ends_bind, ends_fromExcept]
  refine ⟨fun _ _ => ?_, fun _ _ => numberedState_mono n _ s (Nat.le_add_right n 1) h⟩
  dsimp only
  rw [Table.modifyTable, ends_bind, ends_modify]
  have hrest : Maintains (NumberedState (n + 1)) (do
      let s' ← get
      let stored ← fromExcept (s'.table.rowAt s.table.nextId)
      Table.notifyIndexesInsert s.table.nextId stored
      pure s.table.nextId : TableM ι ω RowId) := by
    refine .get_bind fun s _ => (Maintains.fromExcept _).bind fun stored => ?_
    exact ((closedUnderChanges_numbers (n + 1)).notifyIndexesInsert _ stored).bind fun _ => .pure _
  exact hrest _ ⟨h.1.withRow row, trivial⟩

theorem raises_insertParserRow (columns : List ByteString) (positions : List Nat)
    (parserRow : List (Option ParserValue)) :
    Raises NumberedState 1 (insertParserRow columns positions parserRow : TableM ι ω PUnit) := by
  have hinsert : ∀ row, Raises NumberedState 1 (do
      let _ ← Table.insert row
      pure ⟨⟩ : TableM ι ω PUnit) := fun row =>
    Raises.bind (l := 0) numberedState_mono (raises_insert row)
      fun _ => .of_maintains fun _ => .pure _
  unfold insertParserRow
  refine .ite (fun _ => ?_) fun _ n s h => ?_
  · intro n s h
    unfold Table.insertRow
    rw [ends_bind, ends_get, ends_ite]
    split
    · exact numberedState_mono n _ s (Nat.le_add_right n 1) h
    · exact Raises.after numberedState_mono (fun _ => .fromExcept _) hinsert n s h
  · rw [ends_bind, ends_get]
    exact Raises.after numberedState_mono (fun _ => .fromExcept _) hinsert n s h

/-- INSERT gives the table the rows that it has. -/
theorem raises_insertRows (columns : List ByteString)
    (rows : List (List (Option ParserValue))) :
    Raises NumberedState rows.length (insertRows columns rows : TableM ι ω PUnit) := by
  intro n s h
  unfold insertRows
  rw [ends_bind, ends_get]
  refine Raises.after numberedState_mono (fun _ => .fromExcept _) (fun positions => ?_) n s h
  have hrows := Raises.forM numberedState_mono fun row (_ : row ∈ rows) =>
    raises_insertParserRow (ι := ι) (ω := ω) columns positions row
  rwa [Nat.mul_one] at hrows

end Insert
end CwDb.Executor
