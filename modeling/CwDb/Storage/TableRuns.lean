/-
  Storage/TableRuns.lean --- runs of a table from its creation.

  `next_id_` counts the insertions modulo 2^64, so the ids stay distinct and in order as
  long as fewer than 2^64 rows have been inserted.
-/
import CwDb.Storage.TableOperations

set_option autoImplicit false

namespace CwDb.Storage

open CwDb.Cpp
open CwDb.Foundation

/-- The calls that change a table. -/
inductive TableOp (ι : Type) where
  | insertRow (values : List (Option (Value ByteString)))
  | insert (row : Row ByteString)
  | update (id : RowId) (column : Nat) (newValue : Value ByteString)
  | erase (id : RowId)
  | attachIndex (column : Nat) (index : Option ι) (rebuild : Bool)
  | detachIndex (column : Nat)

namespace TableOp

variable {ι ω : Type} [IIndex ι ω]

/-- The operation that is called; a returned row id is dropped. -/
def exec : TableOp ι → TableM ι ω PUnit
  | insertRow values => Table.insertRow values
  | insert row => do
      let _ ← Table.insert row
      pure ⟨⟩
  | update id column newValue => Table.update id column newValue
  | erase id => Table.erase id
  | attachIndex column index rebuild => Table.attachIndex column index rebuild
  | detachIndex column => Table.detachIndex column

/-- Whether the call inserts a row when it returns. -/
def inserts : TableOp ι → Bool
  | insertRow _ => true
  | insert _ => true
  | _ => false

/-- The state after a call, whether it returned or threw, and the rows it inserted. -/
def next (op : TableOp ι) (s : TableState ι ω) : TableState ι ω × Nat :=
  match op.exec s with
  | .ok _ s' => (s', if op.inserts then 1 else 0)
  | .error _ s' => (s', 0)

variable [LawfulIndex ι ω]

/-- What the caller of `attach_index` sees to: the column is flagged `indexed`, the rows
are put into the index, and the index is a new and empty one for that column's values. -/
def Proper (s : TableState ι ω) : TableOp ι → Prop
  | attachIndex column (some index) rebuild =>
      rebuild = true ∧ LawfulIndex.Holds s.world index (fun _ => none) ∧
      (∀ c, s.table.schema.columns[column]? = some c → c.indexed = true ∧
        ∀ v, v ≠ .null → v.matches c.type = true → LawfulIndex.Admits index v) ∧
      ∀ column' index', column' ≠ column →
        s.table.indexes.find? column' = some index' → LawfulIndex.Apart index index'
  | _ => True

end TableOp

variable {ι ω : Type} [IIndex ι ω] [LawfulIndex ι ω]

/-- `TableRun s₀ n s`: calls that lead from `s₀` to `s` and insert `n` rows on the way. -/
inductive TableRun (s₀ : TableState ι ω) : Nat → TableState ι ω → Prop
  | start : TableRun s₀ 0 s₀
  | step {n : Nat} {s : TableState ι ω} (op : TableOp ι) :
      TableRun s₀ n s → op.Proper s → TableRun s₀ (n + (op.next s).2) (op.next s).1

/-! ## What a run keeps -/

/-- The attached indexes take all values of their columns. -/
def TakesColumns (s : TableState ι ω) : Prop :=
  ∀ column index c v, s.table.indexes.find? column = some index →
    s.table.schema.columns[column]? = some c → v ≠ .null → v.matches c.type = true →
    LawfulIndex.Admits index v

/-- The ids after `n` insertions. -/
structure Numbered (n : Nat) (t : Table ByteString ι) : Prop where
  next : t.nextId.toNat = (n + 1) % 2 ^ 64
  issued : ∀ id ∈ t.order, 0 < id.toNat ∧ id.toNat ≤ n

/-- The invariant of a run with `n` insertions so far. -/
structure RunInv (schema : TableSchema ByteString) (n : Nat) (s : TableState ι ω) : Prop where
  inv : TableInv s
  same : s.table.schema = schema
  takes : TakesColumns s
  numbered : Numbered n s.table

namespace RunInv

variable {schema : TableSchema ByteString} {n : Nat} {s : TableState ι ω}

theorem nextId_fresh (h : RunInv schema n s) (few : n < 2 ^ 64) :
    s.table.nextId ∉ s.table.rows.keys := by
  rw [← h.inv.wellFormed.listed]
  intro hmem
  obtain ⟨hpos, hle⟩ := h.numbered.issued _ hmem
  have hnext := h.numbered.next
  by_cases hlast : n + 1 = 2 ^ 64
  · rw [hlast, Nat.mod_self] at hnext
    omega
  · rw [Nat.mod_eq_of_lt (by omega)] at hnext
    omega

theorem nextId_ne_zero (h : RunInv schema n s) (few : n + 1 < 2 ^ 64) : s.table.nextId ≠ 0 := by
  intro hzero
  have hnext := h.numbered.next
  rw [hzero, Nat.mod_eq_of_lt few] at hnext
  exact absurd hnext (by simp)

/-- A new row takes the number `n + 1`. -/
theorem numbered_withRow (h : RunInv schema n s) (few : n + 1 < 2 ^ 64) (row : Row ByteString) :
    Numbered (n + 1) (s.table.withRow row) := by
  have hnext := h.numbered.next
  rw [Nat.mod_eq_of_lt few] at hnext
  refine ⟨?_, fun id hid => ?_⟩
  · change (s.table.nextId + 1).toNat = _
    rw [UInt64.toNat_add, hnext]
    rfl
  · rcases List.mem_append.mp hid with hid | hid
    · obtain ⟨hpos, hle⟩ := h.numbered.issued id hid
      exact ⟨hpos, Nat.le_succ_of_le hle⟩
    · obtain rfl : id = s.table.nextId := by simpa using hid
      omega

end RunInv

/-- How an operation ends in a run: the state satisfies the invariant of the rows
inserted so far, provided the ids have not run out. -/
theorem TableOp.ends_exec {schema : TableSchema ByteString} {n : Nat} {s : TableState ι ω}
    (unspent : ∀ t : TableState ι ω, ¬ t.Spent) (h : RunInv schema n s) (few : n < 2 ^ 64)
    (op : TableOp ι) (proper : op.Proper s) :
    Ends op.exec s
      (fun _ s' => n + (if op.inserts then 1 else 0) < 2 ^ 64 →
        RunInv schema (n + if op.inserts then 1 else 0) s')
      (fun _ s' => s' = s) := by
  have same : ∀ (e : Fault) (s' : TableState ι ω), s' = s ∨ s'.Spent → s' = s :=
    fun _ s' hs => hs.resolve_right (unspent s')
  have hadmits : ∀ row, AdmitsRow s row := fun row column index c v hindex hc _ =>
    h.takes column index c v hindex hc
  have hfresh := h.nextId_fresh few
  cases op with
  | insertRow values =>
      refine (h.inv.ends_insertRow hfresh fun row _ => hadmits row).mono ?_ same
      rintro _ s' ⟨hinv, row, -, htable⟩ hroom
      have hroom : n + 1 < 2 ^ 64 := hroom
      refine ⟨hinv (h.nextId_ne_zero hroom), htable ▸ h.same, ?_, ?_⟩
      · rw [TakesColumns, htable]
        exact h.takes
      · rw [htable]
        exact h.numbered_withRow hroom row
  | insert row =>
      rw [TableOp.exec, ends_bind]
      refine (h.inv.ends_insert hfresh (hadmits row)).mono ?_ same
      rintro _ s' ⟨hinv, htable, -⟩ hroom
      have hroom : n + 1 < 2 ^ 64 := hroom
      refine ⟨hinv (h.nextId_ne_zero hroom), htable ▸ h.same, ?_, ?_⟩
      · rw [TakesColumns, htable]
        exact h.takes
      · rw [htable]
        exact h.numbered_withRow hroom row
  | update id column newValue =>
      refine (h.inv.ends_update fun row _ => hadmits (row.set column newValue)).mono ?_ same
      rintro _ s' ⟨hinv, row, -, htable⟩ -
      refine ⟨hinv, htable ▸ h.same, ?_, ?_⟩
      · rw [TakesColumns, htable]
        exact h.takes
      · rw [htable]
        exact ⟨h.numbered.next, h.numbered.issued⟩
  | erase id =>
      refine h.inv.ends_erase.mono ?_ same
      rintro _ s' ⟨hinv, htable⟩ -
      refine ⟨hinv, htable ▸ h.same, ?_, ?_⟩
      · rw [TakesColumns, htable]
        exact h.takes
      · rw [htable]
        exact ⟨h.numbered.next, fun id' hid => h.numbered.issued id' (List.mem_of_mem_erase hid)⟩
  | attachIndex column index rebuild =>
      cases index with
      | none =>
          unfold TableOp.exec Table.attachIndex
          rw [ends_bind, ends_get, ends_ite]
          split <;> rfl
      | some index =>
          obtain ⟨rfl, hempty, htype, hapart⟩ := proper
          refine (TableInv.ends_attachIndex (o := some index) h.inv ?_).mono ?_ same
          · rintro i ⟨⟩
            refine ⟨fun hlt => ?_, hempty, fun c v hc hpresent hmatch =>
              LawfulIndex.reads_of_admits ((htype c hc).2 v hpresent hmatch), ?_, hapart⟩
            · exact ⟨_, List.getElem?_eq_getElem hlt, (htype _ (List.getElem?_eq_getElem hlt)).1⟩
            · rintro id v ⟨row, hrow, hv⟩
              have hconforms := h.inv.wellFormed.conforms id row hrow
              have hlt : column < s.table.schema.columns.length := by
                have := (List.getElem?_eq_some_iff.mp hv).1
                rwa [hconforms.arity] at this
              have hc := List.getElem?_eq_getElem hlt
              exact (htype _ hc).2 v (hconforms.present column _ v hc hv (.inr (htype _ hc).1))
                (hconforms.typed column _ v hc hv)
          · rintro _ s' ⟨hinv, i, hi, htable⟩ -
            cases hi
            refine ⟨hinv, htable ▸ h.same, ?_, ?_⟩
            · rw [TakesColumns, htable]
              intro column' index' c v hindex hc
              have hindex' : (s.table.indexes.assign column index).find? column' = some index' :=
                hindex
              rw [UnorderedMap.find?_assign] at hindex'
              split at hindex'
              · next heq =>
                  cases hindex'
                  subst heq
                  exact (htype c hc).2 v
              · exact h.takes column' index' c v hindex' hc
            · rw [htable]
              exact ⟨h.numbered.next, h.numbered.issued⟩
  | detachIndex column =>
      refine h.inv.ends_detachIndex.mono ?_ fun _ _ hs => hs
      rintro _ s' ⟨hinv, rfl⟩ -
      refine ⟨hinv, h.same, ?_, h.numbered.next, h.numbered.issued⟩
      intro column' index' c v hindex hc
      have hindex' : (s.table.indexes.erase column).find? column' = some index' := hindex
      rw [UnorderedMap.find?_erase] at hindex'
      split at hindex'
      · cases hindex'
      · exact h.takes column' index' c v hindex' hc

theorem RunInv.next {schema : TableSchema ByteString} {n : Nat} {s : TableState ι ω}
    (unspent : ∀ t : TableState ι ω, ¬ t.Spent) (h : RunInv schema n s) (op : TableOp ι)
    (proper : op.Proper s)
    (few : n + (op.next s).2 < 2 ^ 64) : RunInv schema (n + (op.next s).2) (op.next s).1 := by
  have hends := op.ends_exec unspent h (by omega) proper
  unfold TableOp.next at few ⊢
  unfold Ends at hends
  cases hrun : op.exec s with
  | ok u s' =>
      rw [hrun] at hends few
      exact hends few
  | error e s' =>
      rw [hrun] at hends
      exact hends ▸ h

/-- A new table satisfies the invariant, whatever index objects there are. -/
theorem runInv_start (name : ByteString) (schema : TableSchema ByteString) (w : ω) :
    RunInv (ι := ι) schema 0 ⟨Table.ofSchema name schema, w⟩ := by
  refine ⟨⟨⟨?_, ?_, ?_, ?_, ?_⟩, ?_, ?_, ?_, ?_, ?_⟩, rfl, ?_, ?_, ?_⟩
  · exact List.Pairwise.nil
  · simp [Table.ofSchema]
  · simp [Table.ofSchema]
  · simp [Table.ofSchema]
  · simp [Table.ofSchema, Table.Stored]
  · simp [Table.ofSchema]
  · simp [Table.ofSchema]
  · simp [Table.ofSchema]
  · simp [Table.ofSchema]
  · simp [Table.ofSchema]
  · simp [TakesColumns, Table.ofSchema]
  · rfl
  · simp [Table.ofSchema]

theorem TableRun.runInv {schema : TableSchema ByteString} {s₀ s : TableState ι ω} {n : Nat}
    (unspent : ∀ t : TableState ι ω, ¬ t.Spent) (start : RunInv schema 0 s₀)
    (run : TableRun s₀ n s) (few : n < 2 ^ 64) : RunInv schema n s := by
  induction run with
  | start => exact start
  | step op _ proper ih => exact (ih (by omega)).next unspent op proper few

/-- The representation invariant of a table over whole runs. -/
theorem table_run_invariant {name : ByteString} {schema : TableSchema ByteString} {w : ω}
    {n : Nat} {s : TableState ι ω} (unspent : ∀ t : TableState ι ω, ¬ t.Spent)
    (run : TableRun ⟨Table.ofSchema name schema, w⟩ n s) (few : n < 2 ^ 64) :
    s.table.schema = schema ∧
    s.table.order.Pairwise (· < ·) ∧
    (∀ id, id ∈ s.table.order ↔ id ∈ s.table.rows.keys) ∧
    (n + 1 < 2 ^ 64 → ∀ id ∈ s.table.order, id < s.table.nextId) ∧
    (n + 1 = 2 ^ 64 → s.table.nextId = 0) ∧
    (∀ id row, s.table.rows.find? id = some row → Conforms schema row) ∧
    (∀ column, schema.IsIndexed column → ∀ id id' v,
      s.table.Stored id column v → s.table.Stored id' column v → id = id') ∧
    (∀ column index, s.table.indexes.find? column = some index →
      ∃ m, LawfulIndex.Holds s.world index m ∧
        ∀ v id, m v = some id ↔ s.table.Stored id column v) := by
  have h := run.runInv unspent (runInv_start name schema w) few
  have hwf := h.inv.wellFormed
  refine ⟨h.same, hwf.sorted, hwf.listed, fun hroom => hwf.below (h.nextId_ne_zero hroom), ?_,
    h.same ▸ hwf.conforms, h.same ▸ hwf.unique, h.inv.tracked⟩
  intro hlast
  have hnext := h.numbered.next
  rw [hlast, Nat.mod_self] at hnext
  exact UInt64.toNat_inj.mp (by simpa using hnext)

section Instances

private theorem unspent_mapStore (t : TableState Nat MapStore) : ¬ t.Spent := fun h => h

/-- A table of one indexed INT column. -/
private def indexedIds : TableSchema ByteString :=
  ⟨[{ name := text "id", notNull := true, indexed := true }], by decide, by decide⟩

private def indexedStart : TableState Nat MapStore :=
  ⟨Table.ofSchema (text "t") indexedIds, [.empty]⟩

private def attached : TableState Nat MapStore :=
  ((TableOp.attachIndex 0 (some 0) true).next indexedStart).1

private def inserted : TableState Nat MapStore :=
  ((TableOp.insertRow [some (.int 5)]).next attached).1

/-- An index is attached, a row is inserted, its twin is rejected, and the row is updated. -/
theorem table_run_invariant_of_update : ∃ s : TableState Nat MapStore,
    TableRun indexedStart 1 s ∧ s.table.order = [1] ∧ s.table.nextId = 2 ∧
      (∀ id ∈ s.table.order, id < s.table.nextId) ∧
      ∃ m, LawfulIndex.Holds s.world 0 m ∧ m (.int 6) = some 1 ∧
        ∀ v id, m v = some id ↔ s.table.Stored id 0 v := by
  have proper : (TableOp.attachIndex 0 (some 0) true).Proper indexedStart := by
    refine ⟨rfl, ⟨by decide, fun _ => rfl⟩, ?_, fun column index _ h => ?_⟩
    · intro c hc
      obtain rfl : _ = c := Option.some.inj hc
      exact ⟨rfl, fun _ hv _ => hv⟩
    · cases h
  have run : TableRun indexedStart 1 ((TableOp.update 1 0 (.int 6)).next
      ((TableOp.insertRow [some (.int 5)]).next inserted).1).1 :=
    (((TableRun.start.step _ proper).step (.insertRow [some (.int 5)]) trivial).step
      (.insertRow [some (.int 5)]) trivial).step (.update 1 0 (.int 6)) trivial
  obtain ⟨-, -, -, hbelow, -, -, -, htracked⟩ :=
    table_run_invariant unspent_mapStore run (by decide)
  obtain ⟨m, hholds, hm⟩ := htracked 0 0 rfl
  exact ⟨_, run, rfl, rfl, hbelow (by decide), m, hholds,
    (hm _ _).mpr ⟨[.int 6], rfl, rfl⟩, hm⟩

/-- A table of one plain INT column. -/
private def plainIds : TableSchema ByteString := ⟨[{ name := text "id" }], by decide, by decide⟩

/-- Empty, with the given next id. -/
private def idle (id : RowId) : TableState Nat MapStore :=
  ⟨{ Table.ofSchema (text "t") plainIds with nextId := id }, []⟩

private theorem next_insert_idle (id : RowId) : (TableOp.insert [.int 7]).next (idle id) =
    (⟨(idle id).table.withRow [.int 7], []⟩, 1) := by
  have hvalid : (idle id).table.validate (idle id).world [.int 7] none = .ok ⟨⟩ := rfl
  have hrow : ((idle id).table.withRow [.int 7]).rowAt id = .ok [.int 7] := by
    have hfind : ((idle id).table.withRow [.int 7]).rows.find? id = _ :=
      Table.find?_withRow (by simp [idle, Table.ofSchema]) id
    rw [Table.rowAt, hfind]
    simp [idle]
  have hexec : (TableOp.insert [.int 7]).exec (idle id) =
      .ok ⟨⟩ ⟨(idle id).table.withRow [.int 7], []⟩ := by
    have hinsert : Table.insert [.int 7] (idle id) =
        .ok id ⟨(idle id).table.withRow [.int 7], []⟩ := by
      unfold Table.insert
      rw [bind_ok get_run, hvalid, fromExcept_ok, pure_bind, Table.modifyTable,
        bind_ok modify_run, bind_ok get_run]
      change (fromExcept (((idle id).table.withRow [.int 7]).rowAt id) >>= _ :
        TableM Nat MapStore RowId) _ = _
      rw [hrow]
      rfl
    rw [TableOp.exec, bind_ok hinsert]
    rfl
  rw [TableOp.next, hexec]
  rfl

private theorem next_erase_idle (id : RowId) :
    (TableOp.erase id).next ⟨(idle id).table.withRow [.int 7], []⟩ = (idle (id + 1), 0) := by
  have hfind : ((idle id).table.withRow [.int 7]).rows.find? id = some [.int 7] := by
    rw [Table.find?_withRow (by simp [idle, Table.ofSchema])]
    simp [idle]
  have herase : Table.erase id ⟨(idle id).table.withRow [.int 7], []⟩ =
      .ok ⟨⟩ (⟨((idle id).table.withRow [.int 7]).withoutRow id, []⟩ :
        TableState Nat MapStore) := by
    unfold Table.erase
    rw [bind_ok get_run]
    simp only [hfind]
    rfl
  have hsame : ((idle id).table.withRow [.int 7]).withoutRow id = (idle (id + 1)).table := by
    simp [Table.withRow, Table.withoutRow, idle, Table.ofSchema, UnorderedMap.emplace,
      UnorderedMap.erase, UnorderedMap.empty, UnorderedMap.keys]
  rw [TableOp.next, TableOp.exec, herase, hsame]
  rfl

/-- A table in which `n` rows have been inserted and erased again. -/
private theorem run_idle : ∀ n : Nat, TableRun (idle 1) n (idle (UInt64.ofNat (n + 1)))
  | 0 => .start
  | n + 1 => by
      have insert := (run_idle n).step (.insert [.int 7]) trivial
      rw [next_insert_idle] at insert
      have erase := insert.step (.erase (UInt64.ofNat (n + 1))) trivial
      rw [next_erase_idle] at erase
      have hid : UInt64.ofNat (n + 1) + 1 = UInt64.ofNat (n + 1 + 1) := by
        rw [UInt64.ofNat_add (n + 1) 1]
        rfl
      rwa [hid] at erase

/-- After exactly 2^64 - 1 insertions `next_id_` has wrapped around to 0, below the ids
that are in use. -/
theorem nextId_wraps_after_last_insertion : ∃ (n : Nat) (s : TableState Nat MapStore),
    n < 2 ^ 64 ∧ TableRun ⟨Table.ofSchema (text "t") plainIds, []⟩ n s ∧
      ∃ id ∈ s.table.order, ¬ id < s.table.nextId := by
  have run := (run_idle (2 ^ 64 - 2)).step (.insert [.int 7]) trivial
  rw [next_insert_idle] at run
  exact ⟨_, _, by decide, run, _, List.mem_append_right _ List.mem_cons_self, by decide⟩

end Instances

end CwDb.Storage
