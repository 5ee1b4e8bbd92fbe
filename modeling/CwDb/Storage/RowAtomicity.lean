/-
  Storage/RowAtomicity.lean --- calls of a table that throw.

  A row is stored before the indexes hear of it, and an update erases the old key before it
  inserts the new one.  A call that throws leaves no trace when the indexes take the keys of
  every row that `validate` lets through, and its number is not in use.
-/
import CwDb.Storage.IndexObjects
import CwDb.Storage.TableRuns

set_option autoImplicit false

namespace CwDb.Storage

open CwDb.Cpp
open CwDb.Foundation

section Calls

variable {ι ω : Type} [IIndex ι ω] [LawfulIndex ι ω]

/-- A row that passes `validate` has a number that no row has, and keys that the indexes take. -/
def SuitsRow (s : TableState ι ω) (row : Row ByteString) : Prop :=
  s.table.validate s.world row none = .ok ⟨⟩ →
    s.table.nextId ∉ s.table.rows.keys ∧ AdmitsRow s row

/-- The call hands the indexes keys that they take. -/
def TableOp.Suits (s : TableState ι ω) : TableOp ι → Prop
  | insertRow values => ∀ row, s.table.schema.columns.zipIdx.mapM
      (fun (col, i) => Table.rowValue values col i) = .ok row → SuitsRow s row
  | insert row => SuitsRow s row
  | update id column newValue => ∀ row, s.table.rows.find? id = some row →
      s.table.validate s.world (row.set column newValue) (some id) = .ok ⟨⟩ →
        AdmitsRow s (row.set column newValue)
  | erase _ => True
  | attachIndex column (some index) rebuild => rebuild = true ∧ Attachable s column index
  | attachIndex _ none _ => True
  | detachIndex _ => True

/-- `SuitedRun s₀ s`: calls that lead from `s₀` to `s`, whether they return or throw, and leave
the indexes room. -/
inductive SuitedRun (s₀ : TableState ι ω) : TableState ι ω → Prop
  | start : SuitedRun s₀ s₀
  | step {s : TableState ι ω} (op : TableOp ι) (run : SuitedRun s₀ s) (suits : op.Suits s)
      (room : ¬ (op.next s).1.Spent) : SuitedRun s₀ (op.next s).1

/-- `order_` lists the stored rows, each once. -/
structure Listed (t : Table ByteString ι) : Prop where
  nodup : t.order.Nodup
  stored : ∀ id ∈ t.order, id ∈ t.rows.keys

namespace Listed

omit [IIndex ι ω] [LawfulIndex ι ω]

variable {t : Table ByteString ι} {id : RowId} {row : Row ByteString}

theorem withRow (listed : Listed t) (fresh : t.nextId ∉ t.rows.keys) : Listed (t.withRow row) := by
  constructor
  · refine List.nodup_append.mpr ⟨listed.nodup, List.nodup_singleton _, ?_⟩
    intro id hid other hother
    obtain rfl := List.mem_singleton.mp hother
    rintro rfl
    exact fresh (listed.stored _ hid)
  · intro id hid
    refine UnorderedMap.mem_keys_emplace.mpr ?_
    rcases List.mem_append.mp hid with hid | hid
    · exact .inr (listed.stored id hid)
    · exact .inl (List.mem_singleton.mp hid)

theorem withReplaced (listed : Listed t) (here : ∃ old, t.rows.find? id = some old) :
    Listed (t.withReplaced id row) := by
  refine ⟨listed.nodup, fun other hother => ?_⟩
  obtain ⟨old, hold⟩ := UnorderedMap.mem_keys_iff.mp (listed.stored other hother)
  rw [UnorderedMap.mem_keys_iff, Table.find?_withReplaced here]
  split
  · exact ⟨row, rfl⟩
  · exact ⟨old, hold⟩

theorem withoutRow (listed : Listed t) : Listed (t.withoutRow id) := by
  refine ⟨listed.nodup.erase id, fun other hother => ?_⟩
  obtain ⟨hne, hmem⟩ := listed.nodup.mem_erase_iff.mp hother
  exact UnorderedMap.mem_keys_erase.mpr ⟨hne, listed.stored other hmem⟩

end Listed

/-! ## One call -/

variable {s : TableState ι ω} {row : Row ByteString}

/-- What is kept of the table and its indexes. -/
structure Kept (s : TableState ι ω) : Prop where
  sound : TableSound s
  listed : Listed s.table

/-- `Table::insert`. -/
theorem Kept.ends_insert (kept : Kept s) (suits : SuitsRow s row) :
    Ends (Table.insert row) s (fun _ s' => Kept s') (fun _ s' => s' = s ∨ s'.Spent) := by
  cases hvalid : s.table.validate s.world row none with
  | error fault =>
      rw [Table.insert, ends_bind, ends_get, hvalid, fromExcept_error, ends_bind, ends_throw]
      exact .inl rfl
  | ok _ =>
      obtain ⟨hfresh, hadmits⟩ := suits hvalid
      refine (kept.sound.ends_insert hadmits).mono ?_ ?_
      · rintro id s' ⟨hsound, htable, -⟩
        exact ⟨hsound.sound, htable ▸ kept.listed.withRow hfresh⟩
      · rintro _ s' (h | h | ⟨htaken, -⟩)
        · exact .inl h
        · exact .inr h
        · exact absurd htaken hfresh

/-- `Table::insert_row`. -/
theorem Kept.ends_insertRow {values : List (Option (Value ByteString))} (kept : Kept s)
    (suits : ∀ row, s.table.schema.columns.zipIdx.mapM
      (fun (col, i) => Table.rowValue values col i) = .ok row → SuitsRow s row) :
    Ends (Table.insertRow values) s (fun _ s' => Kept s') (fun _ s' => s' = s ∨ s'.Spent) := by
  unfold Table.insertRow
  rw [ends_bind, ends_get, ends_ite]
  split
  · exact .inl rfl
  · rw [ends_bind, ends_fromExcept]
    refine ⟨fun row hrow => ?_, fun _ _ => .inl rfl⟩
    rw [ends_bind]
    exact (kept.ends_insert (suits row hrow)).mono (fun _ _ h => h) fun _ _ h => h

/-- `Table::update`. -/
theorem Kept.ends_update {id : RowId} {column : Nat} {newValue : Value ByteString} (kept : Kept s)
    (suits : (TableOp.update id column newValue : TableOp ι).Suits s) :
    Ends (Table.update id column newValue) s (fun _ s' => Kept s')
      (fun _ s' => s' = s ∨ s'.Spent) := by
  have hupdate : (∀ row, s.table.rows.find? id = some row → AdmitsRow s (row.set column newValue)) →
      Ends (Table.update id column newValue) s _ fun _ s' => s' = s ∨ s'.Spent :=
    kept.sound.ends_update
  have hupdated : ∀ s', (SoundFrom s s' ∧ ∃ row, s.table.rows.find? id = some row ∧
      s'.table = s.table.withReplaced id (row.set column newValue)) → Kept s' := by
    rintro s' ⟨hsound, row, hrow, htable⟩
    exact ⟨hsound.sound, htable ▸ kept.listed.withReplaced ⟨row, hrow⟩⟩
  cases hrow : s.table.rows.find? id with
  | none =>
      refine (hupdate fun row h => ?_).mono (fun _ s' => hupdated s') fun _ _ h => h
      rw [hrow] at h
      cases h
  | some row =>
      cases hvalid : s.table.validate s.world (row.set column newValue) (some id) with
      | ok _ =>
          refine (hupdate fun row' h => ?_).mono (fun _ s' => hupdated s') fun _ _ h => h
          obtain rfl : row = row' := Option.some.inj (hrow.symm.trans h)
          exact suits row hrow hvalid
      | error fault =>
          unfold Table.update
          rw [ends_bind, ends_get, hrow]
          dsimp only
          rw [ends_ite]
          split
          · exact .inl rfl
          · rw [ends_bind, ends_fromExcept]
            refine ⟨fun _ _ => ?_, fun _ _ => .inl rfl⟩
            rw [hvalid, fromExcept_error, ends_bind, ends_throw]
            exact .inl rfl

/-- A call that suits the indexes keeps what it does not change, and changes nothing when it
throws. -/
theorem TableOp.ends_suited (op : TableOp ι) (kept : Kept s) (suits : op.Suits s) :
    Ends op.exec s (fun _ s' => Kept s') (fun _ s' => s' = s ∨ s'.Spent) := by
  cases op with
  | insertRow values => exact kept.ends_insertRow suits
  | insert row =>
      rw [TableOp.exec, ends_bind]
      exact (kept.ends_insert suits).mono (fun _ _ h => h) fun _ _ h => h
  | update id column newValue => exact kept.ends_update suits
  | erase id =>
      refine kept.sound.ends_erase.mono ?_ fun _ _ h => h
      rintro _ s' ⟨hsound, htable⟩
      exact ⟨hsound.sound, htable ▸ kept.listed.withoutRow⟩
  | attachIndex column index rebuild =>
      cases index with
      | none =>
          unfold TableOp.exec Table.attachIndex
          rw [ends_bind, ends_get, ends_ite]
          split <;> exact .inl rfl
      | some index =>
          obtain ⟨rfl, attachable⟩ := suits
          have hattachable : ∀ i, some index = some i → Attachable s column i := fun i hi =>
            Option.some.inj hi ▸ attachable
          refine (kept.sound.ends_attachIndex hattachable).mono ?_ ?_
          · rintro _ s' ⟨hsound, i, -, htable, -⟩
            exact ⟨hsound, htable ▸ ⟨kept.listed.nodup, kept.listed.stored⟩⟩
          · rintro _ s' (h | h | hnot)
            · exact .inl h
            · exact .inr h
            · exact absurd ⟨kept.listed.nodup, kept.listed.stored⟩ hnot
  | detachIndex column =>
      refine kept.sound.ends_detachIndex.mono ?_ fun _ _ h => h
      rintro _ s' ⟨hsound, rfl⟩
      exact ⟨hsound, ⟨kept.listed.nodup, kept.listed.stored⟩⟩

/-! ## Runs -/

theorem kept_ofSchema (name : ByteString) (schema : TableSchema ByteString) (w : ω) :
    Kept (ι := ι) ⟨Table.ofSchema name schema, w⟩ :=
  ⟨(runInv_start name schema w).inv.sound, List.nodup_nil, List.forall_mem_nil _⟩

theorem SuitedRun.kept {s₀ : TableState ι ω} (start : Kept s₀) (run : SuitedRun s₀ s) : Kept s := by
  induction run with
  | start => exact start
  | @step s op _ suits room ih =>
      have hends := op.ends_suited ih suits
      unfold TableOp.next at room ⊢
      unfold Ends at hends
      cases hrun : op.exec s with
      | ok _ s' =>
          rw [hrun] at hends
          exact hends
      | error fault s' =>
          rw [hrun] at hends room
          rw [hends.resolve_right room]
          exact ih

end Calls

/-- In a run whose calls hand the `BStarPlusIndex` objects keys that they take, a call that throws
leaves the rows, `order_`, `next_id_` and all indexes as they were, and every stored row is found
through every index. -/
theorem failed_call_changes_nothing {name : ByteString} {schema : TableSchema ByteString}
    {w : IndexObjects} {s s' : TableState ObjectRef IndexObjects} {fault : Fault}
    (run : SuitedRun ⟨Table.ofSchema name schema, w⟩ s) (op : TableOp ObjectRef)
    (suits : op.Suits s) (threw : op.exec s = .error fault s')
    (room : ∀ idx ∈ s'.world, ¬ idx.disk.Full) :
    s' = s ∧ ∀ column index id v, s'.table.indexes.find? column = some index →
      s'.table.Stored id column v → IIndex.find index v s'.world = .ok (some id) := by
  have kept := run.kept (kept_ofSchema name schema w)
  have spent : ¬ s'.Spent := fun ⟨idx, hidx, full⟩ => room idx hidx full
  obtain rfl := ((op.ends_suited kept suits).of_error threw).resolve_right spent
  refine ⟨rfl, fun column index id v hindex hstored => ?_⟩
  obtain ⟨m, hholds, htracks⟩ := kept.sound.tracked column index hindex
  have hreads := LawfulIndex.reads_of_admits (kept.sound.admitted column index id v hindex hstored)
  rw [LawfulIndex.find_spec hholds hreads, (htracks v id).mpr hstored]

section Instances

/-- Whether the call throws. -/
private def throws (op : TableOp ObjectRef) (s : TableState ObjectRef IndexObjects) : Bool :=
  match op.exec s with
  | .ok _ _ => false
  | .error _ _ => true

private theorem exists_of_throws (op : TableOp ObjectRef) (s : TableState ObjectRef IndexObjects)
    (h : throws op s = true) : ∃ fault, op.exec s = .error fault (op.next s).1 := by
  unfold throws at h
  unfold TableOp.next
  cases hrun : op.exec s with
  | ok _ s' =>
      rw [hrun] at h
      cases h
  | error fault s' => exact ⟨fault, rfl⟩

/-- Whether the files take another page. -/
private def hasRoom (s : TableState ObjectRef IndexObjects) : Bool :=
  s.world.all fun idx => decide (idx.disk.file.size < 2 ^ 63)

private theorem hasRoom_iff {s : TableState ObjectRef IndexObjects} :
    hasRoom s = true ↔ ∀ idx ∈ s.world, idx.disk.file.size < 2 ^ 63 := by
  simp [hasRoom]

/-- A table of one indexed STRING column. -/
private def names : TableSchema ByteString :=
  ⟨[{ name := text "name", type := .str, notNull := true, indexed := true }], by decide, by decide⟩

/-- It is empty, and there is an empty index object. -/
private def namesStart : TableState ObjectRef IndexObjects :=
  ⟨Table.ofSchema (text "t") names, [Index.BStarPlusIndex.created .string]⟩

private def nameIndex : ObjectRef := ⟨⟨0, .string⟩⟩

/-- The index object is attached to it. -/
private def namesAttached : TableState ObjectRef IndexObjects :=
  ((TableOp.attachIndex 0 (some nameIndex) true).next namesStart).1

/-- A row is inserted. -/
private def insertA : TableOp ObjectRef := .insertRow [some (.str [97])]

private def oneName : TableState ObjectRef IndexObjects := (insertA.next namesAttached).1

private theorem attachable_nameIndex : Attachable namesStart 0 nameIndex := by
  refine ⟨fun _ => ⟨_, rfl, rfl⟩, ?_, ?_, ?_, ?_⟩
  · refine ⟨Index.BStarPlusIndex.created .string, .empty, rfl, ⟨?_, rfl⟩, ?_⟩
    · exact Index.BStarPlusIndex.contents_created (.inr rfl)
    · funext v
      cases v <;> rfl
  · intro c v hc present hmatch
    obtain rfl := Option.some.inj hc
    exact MapDirectory.exists_key_of_matches present hmatch
  · rintro id v ⟨row, hrow, -⟩
    cases hrow
  · intro column' index' _ hindex
    cases hindex

private theorem run_namesAttached : SuitedRun namesStart namesAttached :=
  SuitedRun.start.step _ ⟨rfl, attachable_nameIndex⟩ fun ⟨idx, hidx, full⟩ => by
    obtain rfl := List.mem_singleton.mp hidx
    exact absurd full (Nat.not_le.mpr (by decide))

/-- The index takes the name, before and after there is a row. -/
private theorem suits_insertA {s : TableState ObjectRef IndexObjects}
    (row : s.table.schema.columns.zipIdx.mapM
      (fun (col, i) => Table.rowValue [some (.str [97])] col i) = .ok [.str [97]])
    (fresh : s.table.nextId ∉ s.table.rows.keys)
    (attached : s.table.indexes.entries = [(0, nameIndex)]) : insertA.Suits s := by
  intro row' hrow _
  obtain rfl := Except.ok.inj (row.symm.trans hrow)
  refine ⟨fresh, fun column index c v hindex _ hv _ _ => ?_⟩
  rw [UnorderedMap.find?_eq_some_iff, attached, List.mem_singleton] at hindex
  obtain ⟨rfl, rfl⟩ := Prod.mk.inj hindex
  obtain rfl := Option.some.inj hv
  exact ⟨.str [97], rfl, by decide⟩

private theorem run_oneName : SuitedRun namesStart oneName := by
  have hroom : hasRoom (insertA.next namesAttached).1 = true := by decide +kernel
  exact run_namesAttached.step insertA
    (suits_insertA (by decide +kernel) (by decide +kernel) (by decide +kernel))
    fun ⟨idx, hidx, full⟩ => absurd full (Nat.not_le.mpr (hasRoom_iff.mp hroom idx hidx))

/-- The name is inserted once more, which fails, and is found as before. -/
theorem failed_call_changes_nothing_of_duplicate : ∃ fault, insertA.exec oneName =
    .error fault (insertA.next oneName).1 ∧
      IIndex.find nameIndex (.str [97]) (insertA.next oneName).1.world = .ok (some 1) := by
  obtain ⟨fault, threw⟩ := exists_of_throws insertA oneName (by decide +kernel)
  have hroom : hasRoom (insertA.next oneName).1 = true := by decide +kernel
  have hfound := (failed_call_changes_nothing run_oneName insertA
    (suits_insertA (by decide +kernel) (by decide +kernel) (by decide +kernel)) threw
    fun idx hidx => Nat.not_le.mpr (hasRoom_iff.mp hroom idx hidx)).2
  exact ⟨fault, threw, hfound 0 nameIndex 1 (.str [97]) (by decide +kernel)
    ⟨[.str [97]], by decide +kernel, rfl⟩⟩

/-- The name is set to a zero byte, which no index takes: the row keeps its name, and is found by
it no more. -/
theorem failed_update_loses_key :
    SuitedRun namesStart oneName ∧ oneName.table.Stored 1 0 (.str [97]) ∧
    IIndex.find nameIndex (.str [97]) oneName.world = .ok (some 1) ∧
    ∃ fault s', (TableOp.update 1 0 (.str [0])).exec oneName = .error fault s' ∧
      s'.table.Stored 1 0 (.str [97]) ∧
      IIndex.find nameIndex (.str [97]) s'.world = .ok none := by
  obtain ⟨fault, threw⟩ := exists_of_throws (.update 1 0 (.str [0])) oneName (by decide +kernel)
  exact ⟨run_oneName, ⟨[.str [97]], by decide +kernel, rfl⟩, by decide +kernel, fault, _, threw,
    ⟨[.str [97]], by decide +kernel, rfl⟩, by decide +kernel⟩

end Instances
end CwDb.Storage
