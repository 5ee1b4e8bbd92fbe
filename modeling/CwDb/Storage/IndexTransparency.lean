/-
  Storage/IndexTransparency.lean --- a table with indexes against its twin without.

  What a call makes of the rows is said once, by a verdict: the call returns or throws as
  the verdict does, with indexes and without.  The verdicts of twins are the same, since
  both ways of looking for a value find it in the same rows.
-/
import CwDb.Storage.TableRuns

set_option autoImplicit false

namespace CwDb.Storage

open CwDb.Cpp
open CwDb.Foundation

variable {ι ω : Type} [IIndex ι ω]

/-! ## Verdicts -/

namespace TableState

/-- What `Table::insert` leads to under a free id, the index objects aside. -/
def insertVerdict (s : TableState ι ω) (row : Row ByteString) :
    Except Fault (Table ByteString ι) := do
  s.table.validate s.world row none
  pure (s.table.withRow row)

/-- `Table::insert_row`. -/
def insertRowVerdict (s : TableState ι ω) (values : List (Option (Value ByteString))) :
    Except Fault (Table ByteString ι) :=
  if s.table.schema.columnCount < values.length then
    raise .invalidArgument (text "Table::insert_row: too many values")
  else do
    let row ← s.table.schema.columns.zipIdx.mapM fun (col, i) => Table.rowValue values col i
    s.insertVerdict row

/-- `Table::update`. -/
def updateVerdict (s : TableState ι ω) (id : RowId) (column : Nat) (newValue : Value ByteString) :
    Except Fault (Table ByteString ι) :=
  match s.table.rows.find? id with
  | none => raise .outOfRange (text "Table::update: row id not found")
  | some row =>
      if s.table.schema.columnCount ≤ column then
        raise .outOfRange (text "Table::update: column out of range")
      else do
        let _ ← vectorAt row column
        s.table.validate s.world (row.set column newValue) (some id)
        pure (s.table.withReplaced id (row.set column newValue))

/-- `Table::erase`. -/
def eraseVerdict (s : TableState ι ω) (id : RowId) : Except Fault (Table ByteString ι) :=
  match s.table.rows.find? id with
  | none => raise .outOfRange (text "Table::erase: row id not found")
  | some _ => pure (s.table.withoutRow id)

end TableState

/-- What a call leads to; the calls on indexes change no row. -/
def TableOp.verdict (s : TableState ι ω) : TableOp ι → Except Fault (Table ByteString ι)
  | insertRow values => s.insertRowVerdict values
  | insert row => s.insertVerdict row
  | update id column newValue => s.updateVerdict id column newValue
  | erase id => s.eraseVerdict id
  | attachIndex _ _ _ | detachIndex _ => pure s.table

/-- The calls on rows. -/
def TableOp.onRows : TableOp ι → Bool
  | insertRow _ | insert _ | update _ _ _ | erase _ => true
  | attachIndex _ _ _ | detachIndex _ => false

variable [LawfulIndex ι ω]

/-! ## Calls against verdicts -/

/-- A call ends as the verdict says, and leaves the state alone when it throws. -/
def FollowsVerdict {α : Type} (m : TableM ι ω α) (s : TableState ι ω)
    (verdict : Except Fault (Table ByteString ι)) : Prop :=
  Ends m s (fun _ s' => verdict = .ok s'.table) (fun e s' => verdict = .error e ∧ s' = s)

namespace TableSound

variable {s : TableState ι ω}

theorem admitsRow (takes : TakesColumns s) (row : Row ByteString) : AdmitsRow s row :=
  fun column index c v hindex hc _ => takes column index c v hindex hc

theorem insert_follows (sound : TableSound s) (takes : TakesColumns s)
    (unspent : ∀ t : TableState ι ω, ¬ t.Spent) (hnew : s.table.nextId ∉ s.table.rows.keys)
    (row : Row ByteString) : FollowsVerdict (Table.insert row) s (s.insertVerdict row) := by
  unfold FollowsVerdict Table.insert TableState.insertVerdict
  rw [ends_bind, ends_get, ends_bind, ends_fromExcept]
  refine ⟨?_, fun e he => by rw [he]; exact ⟨rfl, rfl⟩⟩
  rintro ⟨⟩ hvalid
  obtain ⟨hconforms, hfree⟩ := sound.validate_ok hvalid
  rw [hvalid]
  simp only [Table.modifyTable, ends_bind, ends_modify, ends_get]
  have hrowAt : (s.table.withRow row).rowAt s.table.nextId = .ok row := by
    simp [Table.rowAt, Table.find?_withRow hnew]
  change Ends (fromExcept ((s.table.withRow row).rowAt s.table.nextId))
    (⟨s.table.withRow row, s.world⟩ : TableState ι ω) _ _
  rw [hrowAt]
  refine (sound.ends_notifyIndexesInsert hnew hconforms (fun column hidx id v hv hstored => by
    cases hfree column hidx id v hv hstored) (admitsRow takes row)).mono ?_
    fun _ t h => absurd h (unspent t)
  rintro _ t ⟨-, htable⟩
  exact congrArg Except.ok htable.symm

theorem insertRow_follows (sound : TableSound s) (takes : TakesColumns s)
    (unspent : ∀ t : TableState ι ω, ¬ t.Spent) (hnew : s.table.nextId ∉ s.table.rows.keys)
    (values : List (Option (Value ByteString))) :
    FollowsVerdict (Table.insertRow values) s (s.insertRowVerdict values) := by
  unfold FollowsVerdict Table.insertRow TableState.insertRowVerdict
  rw [ends_bind, ends_get]
  split
  · exact ⟨rfl, rfl⟩
  rw [ends_bind, ends_fromExcept]
  refine ⟨fun row hrow => ?_, fun e he => by rw [he]; exact ⟨rfl, rfl⟩⟩
  rw [hrow, ends_bind]
  exact sound.insert_follows takes unspent hnew row

theorem update_follows (sound : TableSound s) (takes : TakesColumns s)
    (unspent : ∀ t : TableState ι ω, ¬ t.Spent) (id : RowId) (column : Nat)
    (newValue : Value ByteString) :
    FollowsVerdict (Table.update id column newValue) s (s.updateVerdict id column newValue) := by
  unfold FollowsVerdict Table.update TableState.updateVerdict
  rw [ends_bind, ends_get]
  cases hrow : s.table.rows.find? id with
  | none => exact ⟨rfl, rfl⟩
  | some row =>
      dsimp only
      split
      · exact ⟨rfl, rfl⟩
      rw [ends_bind, ends_fromExcept]
      refine ⟨fun oldValue hold => ?_, fun e he => by rw [he]; exact ⟨rfl, rfl⟩⟩
      rw [hold, ends_bind, ends_fromExcept]
      have hold := vectorAt_eq_ok.mp hold
      refine ⟨?_, fun e he => ⟨by rw [he]; rfl, rfl⟩⟩
      rintro ⟨⟩ hvalid
      obtain ⟨hconforms, hfree⟩ := sound.validate_ok hvalid
      have hnew : (row.set column newValue)[column]? = some newValue := by
        have hlt := (List.getElem?_eq_some_iff.mp hold).1
        simp [hlt]
      rw [hvalid, ends_bind]
      refine (sound.ends_notifyIndexesUpdate hrow hold hconforms (fun id' hflag hstored =>
        (Option.some.inj (hfree column hflag id' newValue hnew hstored)).symm)
        (admitsRow takes _)).mono ?_ fun _ t h => absurd h (unspent t)
      rintro _ t ⟨htable, -, -⟩
      rw [Table.modifyTable, ends_modify, htable]
      rfl

theorem erase_follows (sound : TableSound s) (unspent : ∀ t : TableState ι ω, ¬ t.Spent)
    (id : RowId) : FollowsVerdict (Table.erase id) s (s.eraseVerdict id) := by
  unfold FollowsVerdict TableState.eraseVerdict
  cases hrow : s.table.rows.find? id with
  | none =>
      unfold Table.erase
      rw [ends_bind, ends_get, hrow]
      exact ⟨rfl, rfl⟩
  | some row =>
      refine (sound.ends_erase_of_stored hrow).mono ?_ fun _ t h => absurd h (unspent t)
      rintro _ t ⟨-, htable⟩
      rw [htable]
      rfl

end TableSound

theorem TableOp.follows {s : TableState ι ω} (sound : TableSound s) (takes : TakesColumns s)
    (unspent : ∀ t : TableState ι ω, ¬ t.Spent) (hnew : s.table.nextId ∉ s.table.rows.keys)
    {op : TableOp ι} (onRows : op.onRows = true) :
    FollowsVerdict op.exec s (op.verdict s) := by
  cases op with
  | insertRow values => exact sound.insertRow_follows takes unspent hnew values
  | insert row =>
      unfold FollowsVerdict TableOp.exec
      rw [ends_bind]
      exact sound.insert_follows takes unspent hnew row
  | update id column newValue => exact sound.update_follows takes unspent id column newValue
  | erase id => exact sound.erase_follows unspent id
  | attachIndex column index rebuild => cases onRows
  | detachIndex column => cases onRows

/-! ## Twins -/

/-- The table without its indexes. -/
def Table.unindexed (t : Table ByteString ι) : Table ByteString ι := { t with indexes := .empty }

/-- `p` has the rows, ids and order of `s`, and no indexes. -/
def TableState.Twin (s p : TableState ι ω) : Prop := p.table = s.table.unindexed

namespace TableState.Twin

variable {s p : TableState ι ω}

theorem sound (twin : s.Twin p) (h : TableSound s) : TableSound p := by
  have hnone : ∀ {column : Nat} {index : ι}, p.table.indexes.find? column = some index → False := by
    intro column index hindex
    rw [twin] at hindex
    cases hindex
  have hrows : p.table.RowsSound := by
    rw [twin]
    exact ⟨h.rows.listed, h.rows.conforms, h.rows.unique⟩
  exact ⟨hrows, fun _ _ hi => (hnone hi).elim, fun _ _ hi => (hnone hi).elim,
    fun _ _ _ _ hi => (hnone hi).elim, fun _ _ _ _ hi => (hnone hi).elim,
    fun _ _ _ _ _ hi => (hnone hi).elim⟩

theorem takes (twin : s.Twin p) : TakesColumns p := by
  intro column index c v hindex
  rw [twin] at hindex
  cases hindex

omit [IIndex ι ω] [LawfulIndex ι ω] in
theorem schema (twin : s.Twin p) : p.table.schema = s.table.schema := by
  rw [twin]
  rfl

/-- Both tables find a value in the same rows. -/
theorem valueExistsInColumn (twin : s.Twin p) (h : TableSound s) {column : Nat}
    {c : ColumnDef ByteString} (hc : s.table.schema.columns[column]? = some c)
    {value : Value ByteString} (present : value ≠ .null) (typed : value.matches c.type = true)
    (o : Option RowId) :
    p.table.valueExistsInColumn p.world column value o =
      s.table.valueExistsInColumn s.world column value o := by
  have hlt : column < s.table.schema.columnCount := (List.getElem?_eq_some_iff.mp hc).1
  obtain ⟨found, hfound, hiff⟩ := h.valueExistsInColumn_spec (o := o) hlt present
    fun index hindex => h.readable column index c value hindex hc present typed
  have hlt' : column < p.table.schema.columnCount := by
    rw [twin.schema]
    exact hlt
  obtain ⟨found', hfound', hiff'⟩ := (twin.sound h).valueExistsInColumn_spec (o := o) hlt' present
    fun index hindex => (twin.sound h).readable column index c value hindex
      (by rw [twin.schema]; exact hc) present typed
  have hstored : ∀ id, p.table.Stored id column value ↔ s.table.Stored id column value := by
    intro id
    rw [twin]
    rfl
  simp only [hstored] at hiff'
  rw [hfound, hfound', Bool.eq_iff_iff.mpr (hiff'.trans hiff.symm)]

theorem validate (twin : s.Twin p) (h : TableSound s) (row : Row ByteString)
    (o : Option RowId) : p.table.validate p.world row o = s.table.validate s.world row o := by
  unfold Table.validate
  rw [twin.schema]
  split
  · rfl
  refine forM_congr fun i _ => ?_
  unfold Table.validateColumn
  rw [twin.schema]
  cases hc : s.table.schema.at i with
  | error e => rfl
  | ok c =>
      cases hv : vectorAt row i with
      | error e => rfl
      | ok v =>
          simp only [bind, Except.bind]
          cases hnull : v.isNull with
          | true => rfl
          | false =>
              cases hmatch : v.matches c.type with
              | false => rfl
              | true =>
                  have hpresent : v ≠ .null := by
                    rintro rfl
                    cases hnull
                  rw [twin.valueExistsInColumn h (vectorAt_eq_ok.mp hc) hpresent hmatch]

/-- The verdicts of twins are the same. -/
theorem verdict (twin : s.Twin p) (h : TableSound s) (op : TableOp ι) :
    op.verdict p = (op.verdict s).map Table.unindexed := by
  have hinsert : ∀ row, p.insertVerdict row = (s.insertVerdict row).map Table.unindexed := by
    intro row
    unfold insertVerdict
    rw [twin.validate h, twin]
    cases s.table.validate s.world row none <;> rfl
  have hrows : p.table.rows = s.table.rows := by
    rw [twin]
    rfl
  cases op with
  | insertRow values =>
      change p.insertRowVerdict values = (s.insertRowVerdict values).map _
      unfold insertRowVerdict
      rw [twin.schema]
      split
      · rfl
      have hbind : ∀ x : Except Fault (Row ByteString),
          (x >>= p.insertVerdict) = (x >>= s.insertVerdict).map Table.unindexed := by
        intro x
        cases x with
        | error e => rfl
        | ok row => exact hinsert row
      exact hbind _
  | insert row => exact hinsert row
  | update id column newValue =>
      change p.updateVerdict id column newValue = (s.updateVerdict id column newValue).map _
      unfold updateVerdict
      rw [hrows, twin.schema]
      cases s.table.rows.find? id with
      | none => rfl
      | some row =>
          dsimp only
          split
          · rfl
          cases vectorAt row column with
          | error e => rfl
          | ok oldValue =>
              simp only [bind, Except.bind]
              rw [twin.validate h, twin]
              cases s.table.validate s.world (row.set column newValue) (some id) <;> rfl
  | erase id =>
      change p.eraseVerdict id = (s.eraseVerdict id).map _
      unfold eraseVerdict
      rw [hrows, twin]
      cases s.table.rows.find? id <;> rfl
  | attachIndex column index rebuild => exact congrArg Except.ok twin
  | detachIndex column => exact congrArg Except.ok twin

end TableState.Twin

/-! ## Runs of twins -/

/-- Both calls return or both throw the same, and leave twins behind. -/
inductive SameAnswer : EStateM.Result Fault (TableState ι ω) PUnit →
    EStateM.Result Fault (TableState ι ω) PUnit → Prop where
  | returned {s p : TableState ι ω} (twin : s.Twin p) : SameAnswer (.ok ⟨⟩ s) (.ok ⟨⟩ p)
  | thrown {s p : TableState ι ω} (e : Fault) (twin : s.Twin p) :
      SameAnswer (.error e s) (.error e p)

omit [LawfulIndex ι ω] in
theorem SameAnswer.next {s p : TableState ι ω} {op : TableOp ι}
    (h : SameAnswer (op.exec s) (op.exec p)) : (op.next s).1.Twin (op.next p).1 := by
  unfold TableOp.next
  cases hs : op.exec s with
  | ok u s' =>
      cases hp : op.exec p with
      | ok u' p' =>
          rw [hs, hp] at h
          cases h with
          | returned twin => exact twin
      | error e p' =>
          rw [hs, hp] at h
          cases h
  | error e s' =>
      cases hp : op.exec p with
      | ok u' p' =>
          rw [hs, hp] at h
          cases h
      | error e' p' =>
          rw [hs, hp] at h
          cases h with
          | thrown _ twin => exact twin

/-- One call on twins. -/
theorem TableState.Twin.sameAnswer {s p : TableState ι ω} (twin : s.Twin p) (sound : TableSound s)
    (takes : TakesColumns s) (unspent : ∀ t : TableState ι ω, ¬ t.Spent)
    (hnew : s.table.nextId ∉ s.table.rows.keys) {op : TableOp ι} (onRows : op.onRows = true) :
    SameAnswer (op.exec s) (op.exec p) := by
  have hs := op.follows sound takes unspent hnew onRows
  have hp := op.follows (twin.sound sound) twin.takes unspent (by rw [twin]; exact hnew) onRows
  have hverdict := twin.verdict sound op
  unfold FollowsVerdict Ends at hs hp
  cases hrun : op.exec s with
  | ok u s' =>
      rw [hrun] at hs
      rw [hverdict, hs] at hp
      cases hrun' : op.exec p with
      | ok u' p' =>
          rw [hrun'] at hp
          exact .returned (Except.ok.inj hp).symm
      | error e p' =>
          rw [hrun'] at hp
          cases hp.1
  | error e s' =>
      rw [hrun] at hs
      rw [hverdict, hs.1] at hp
      cases hrun' : op.exec p with
      | ok u' p' =>
          rw [hrun'] at hp
          cases hp
      | error e' p' =>
          rw [hrun'] at hp
          obtain rfl := Except.error.inj hp.1
          obtain ⟨-, rfl⟩ := hp
          obtain ⟨-, rfl⟩ := hs
          exact .thrown e twin

/-- `TwinRun s₀ p₀ n s p`: calls on rows that lead from `s₀` to `s`, where they insert `n` rows,
and from `p₀` to `p`. -/
inductive TwinRun (s₀ p₀ : TableState ι ω) : Nat → TableState ι ω → TableState ι ω → Prop
  | start : TwinRun s₀ p₀ 0 s₀ p₀
  | step {n : Nat} {s p : TableState ι ω} (op : TableOp ι) :
      TwinRun s₀ p₀ n s p → op.onRows = true →
      TwinRun s₀ p₀ (n + (op.next s).2) (op.next s).1 (op.next p).1

/-- A new table with indexes attached. -/
def Table.withIndexes (name : ByteString) (schema : TableSchema ByteString)
    (indexes : UnorderedMap Nat ι) : Table ByteString ι := { name, schema, indexes }

/-- Indexes that are empty, each of its own, on columns flagged `indexed` whose values they
take. -/
structure FreshIndexes (schema : TableSchema ByteString) (indexes : UnorderedMap Nat ι) (w : ω) :
    Prop where
  flagged : ∀ column index, indexes.find? column = some index → schema.IsIndexed column
  empty : ∀ column index, indexes.find? column = some index →
    LawfulIndex.Holds w index fun _ => none
  takes : ∀ column index c v, indexes.find? column = some index →
    schema.columns[column]? = some c → v ≠ .null → v.matches c.type = true →
    LawfulIndex.Admits index v
  apart : ∀ column column' index index', column ≠ column' →
    indexes.find? column = some index → indexes.find? column' = some index' →
    LawfulIndex.Apart index index'

theorem FreshIndexes.runInv {name : ByteString} {schema : TableSchema ByteString}
    {indexes : UnorderedMap Nat ι} {w : ω} (fresh : FreshIndexes schema indexes w) :
    RunInv schema 0 ⟨Table.withIndexes name schema indexes, w⟩ := by
  have hnone : ∀ {id : RowId} {column : Nat} {v : Value ByteString},
      ¬ (Table.withIndexes name schema indexes).Stored id column v := by
    rintro id column v ⟨row, hrow, -⟩
    cases hrow
  have start := runInv_start (ι := ι) name schema w
  refine ⟨⟨?_, fresh.flagged, ?_, ?_, ?_, fresh.apart⟩, rfl, fresh.takes, start.numbered.next,
    start.numbered.issued⟩
  · exact ⟨start.inv.wellFormed.sorted, start.inv.wellFormed.listed,
      start.inv.wellFormed.below, start.inv.wellFormed.conforms, start.inv.wellFormed.unique⟩
  · intro column index hindex
    exact ⟨_, fresh.empty column index hindex, fun v id => ⟨nofun, fun h => (hnone h).elim⟩⟩
  · intro column index c v hindex hc present typed
    exact LawfulIndex.reads_of_admits (fresh.takes column index c v hindex hc present typed)
  · exact fun column index id v _ h => (hnone h).elim

theorem TwinRun.runInv {schema : TableSchema ByteString} {s₀ p₀ s p : TableState ι ω} {n : Nat}
    (unspent : ∀ t : TableState ι ω, ¬ t.Spent) (start : RunInv schema 0 s₀) (twin : s₀.Twin p₀)
    (run : TwinRun s₀ p₀ n s p) (few : n < 2 ^ 64) : RunInv schema n s ∧ s.Twin p := by
  induction run with
  | start => exact ⟨start, twin⟩
  | @step n s p op _ onRows ih =>
      obtain ⟨hinv, htwin⟩ := ih (by omega)
      have proper : op.Proper s := by
        cases op with
        | attachIndex column index rebuild => cases onRows
        | _ => trivial
      exact ⟨hinv.next unspent op proper few, (htwin.sameAnswer hinv.inv.sound hinv.takes unspent
        (hinv.nextId_fresh (by omega)) onRows).next⟩

/-- A table with indexes and one without answer every call alike and hold the same rows, as long
as fewer than 2^64 rows have been inserted before the call. -/
theorem indexes_are_transparent {name : ByteString} {schema : TableSchema ByteString}
    {indexes : UnorderedMap Nat ι} {w w' : ω} {n : Nat} {s p : TableState ι ω}
    (unspent : ∀ t : TableState ι ω, ¬ t.Spent) (fresh : FreshIndexes schema indexes w)
    (run : TwinRun ⟨Table.withIndexes name schema indexes, w⟩
      ⟨Table.ofSchema name schema, w'⟩ n s p) (few : n < 2 ^ 64) :
    s.Twin p ∧ ∀ op : TableOp ι, op.onRows = true → SameAnswer (op.exec s) (op.exec p) := by
  have twin : TableState.Twin (⟨Table.withIndexes name schema indexes, w⟩ : TableState ι ω)
      ⟨Table.ofSchema name schema, w'⟩ := rfl
  obtain ⟨hinv, htwin⟩ := run.runInv unspent fresh.runInv twin few
  exact ⟨htwin, fun op onRows => htwin.sameAnswer hinv.inv.sound hinv.takes unspent
    (hinv.nextId_fresh few) onRows⟩

section Instances

/-- A table of one indexed INT column. -/
private def uniqueIds : TableSchema ByteString :=
  ⟨[{ name := text "key", notNull := true, indexed := true }], by decide, by decide⟩

private def firstColumn : UnorderedMap Nat Nat := UnorderedMap.empty.emplace 0 0

private theorem freshFirst : FreshIndexes uniqueIds firstColumn ([.empty] : MapStore) := by
  have hfirst : ∀ {column index : Nat}, firstColumn.find? column = some index →
      column = 0 ∧ index = 0 := by
    intro column index h
    unfold firstColumn at h
    rw [UnorderedMap.find?_emplace] at h
    split at h
    · next hcolumn => exact ⟨hcolumn, (Option.some.inj h).symm⟩
    · cases h
  refine ⟨fun column index h => ?_, fun column index h => ?_, fun _ _ _ _ _ _ hv _ => hv, ?_⟩
  · obtain ⟨rfl, -⟩ := hfirst h
    exact ⟨_, rfl, rfl⟩
  · obtain ⟨-, rfl⟩ := hfirst h
    exact ⟨Nat.zero_lt_one, fun _ => rfl⟩
  · intro column column' index index' hne h h'
    exact absurd ((hfirst h).1.trans (hfirst h').1.symm) hne

private def indexedNew : TableState Nat MapStore :=
  ⟨Table.withIndexes (text "t") uniqueIds firstColumn, [.empty]⟩

private def plainNew : TableState Nat MapStore := ⟨Table.ofSchema (text "t") uniqueIds, []⟩

private theorem unspent_maps (t : TableState Nat MapStore) : ¬ t.Spent := fun h => h

/-- Both tables reject the value they hold already. -/
theorem indexes_are_transparent_of_duplicate : ∃ (s p : TableState Nat MapStore),
    s.table.order = [1] ∧ SameAnswer ((TableOp.insert [.int 5]).exec s)
      ((TableOp.insert [.int 5]).exec p) := by
  have run : TwinRun indexedNew plainNew _ _ _ := TwinRun.start.step (.insert [.int 5]) rfl
  exact ⟨_, _, rfl, (indexes_are_transparent unspent_maps freshFirst run (by decide)).2
    (.insert [.int 5]) rfl⟩

/-- The row 1 is there, and the next row gets `id`. -/
private def keptRow (indexes : UnorderedMap Nat Nat) (id : RowId) : Table ByteString Nat where
  name := text "t"
  schema := uniqueIds
  rows := UnorderedMap.empty.emplace 1 [.int 5]
  order := [1]
  indexes
  nextId := id

private def keptKeys : UnorderedMap (Value ByteString) RowId := UnorderedMap.empty.emplace (.int 5) 1

private def keptIndexed (id : RowId) : TableState Nat MapStore := ⟨keptRow firstColumn id, [keptKeys]⟩

private def keptPlain (id : RowId) : TableState Nat MapStore := ⟨keptRow .empty id, []⟩

private theorem keptRow_rowAt {indexes : UnorderedMap Nat Nat} {id : RowId} (h : id ≠ 1)
    (row : Row ByteString) : ((keptRow indexes id).withRow row).rows.find? id = some row := by
  have hfresh : (keptRow indexes id).nextId ∉ (keptRow indexes id).rows.keys := by
    simpa [keptRow, UnorderedMap.emplace, UnorderedMap.empty, UnorderedMap.keys] using h
  exact (Table.find?_withRow hfresh id).trans (if_pos rfl)

private theorem keptRow_withoutRow {indexes : UnorderedMap Nat Nat} {id : RowId} (h : id ≠ 1) :
    ((keptRow indexes id).withRow [.int 7]).withoutRow id = keptRow indexes (id + 1) := by
  simp [keptRow, Table.withRow, Table.withoutRow, UnorderedMap.emplace, UnorderedMap.erase,
    UnorderedMap.empty, UnorderedMap.keys, h, Ne.symm h]

/-- `Table::insert` after `validate`. -/
private theorem insert_after_validate {s : TableState Nat MapStore} {row stored : Row ByteString}
    (valid : s.table.validate s.world row none = .ok ⟨⟩)
    (found : (s.table.withRow row).rows.find? s.table.nextId = some stored) :
    Table.insert row s = (Table.notifyIndexesInsert s.table.nextId stored >>= fun _ =>
      pure s.table.nextId) ⟨s.table.withRow row, s.world⟩ := by
  have hrow : (s.table.withRow row).rowAt s.table.nextId = .ok stored := by
    rw [Table.rowAt, found]
  unfold Table.insert
  rw [bind_ok get_run, valid, fromExcept_ok, pure_bind, Table.modifyTable, bind_ok modify_run,
    bind_ok get_run]
  change (fromExcept ((s.table.withRow row).rowAt s.table.nextId) >>= _ :
    TableM Nat MapStore RowId) _ = _
  rw [hrow]
  rfl

private theorem next_insert {s : TableState Nat MapStore} {row : Row ByteString} {w : MapStore}
    (valid : s.table.validate s.world row none = .ok ⟨⟩)
    (found : (s.table.withRow row).rows.find? s.table.nextId = some row)
    (told : Table.notifyIndexesInsert s.table.nextId row
      (⟨s.table.withRow row, s.world⟩ : TableState Nat MapStore) =
        .ok ⟨⟩ ⟨s.table.withRow row, w⟩) :
    (TableOp.insert row).next s = (⟨s.table.withRow row, w⟩, 1) := by
  have hinsert : Table.insert row s = .ok s.table.nextId ⟨s.table.withRow row, w⟩ := by
    rw [insert_after_validate valid found, bind_ok told]
    rfl
  rw [TableOp.next, TableOp.exec, bind_ok hinsert]
  rfl

private theorem next_erase {s : TableState Nat MapStore} {id : RowId} {row : Row ByteString}
    {w : MapStore} (found : s.table.rows.find? id = some row)
    (told : Table.notifyIndexesErase row s = .ok ⟨⟩ ⟨s.table, w⟩) :
    (TableOp.erase id).next s = (⟨s.table.withoutRow id, w⟩, 0) := by
  have herase : Table.erase id s = .ok ⟨⟩ ⟨s.table.withoutRow id, w⟩ := by
    unfold Table.erase
    rw [bind_ok get_run, found]
    exact bind_ok told
  rw [TableOp.next, TableOp.exec, herase]
  rfl

/-- A row has come and gone often enough for the ids to be at `k + 2`. -/
private theorem run_kept (k : Nat) (few : k < 2 ^ 64) :
    TwinRun indexedNew plainNew (k + 1) (keptIndexed (UInt64.ofNat (k + 2)))
      (keptPlain (UInt64.ofNat (k + 2))) := by
  induction k with
  | zero => exact TwinRun.start.step (.insert [.int 5]) rfl
  | succ k ih =>
      have run := ih (by omega)
      have hne : UInt64.ofNat (k + 2) ≠ 1 := by
        intro h
        have := congrArg UInt64.toNat h
        rw [UInt64.toNat_ofNat'] at this
        have hone : (1 : UInt64).toNat = 1 := rfl
        omega
      have hnext : UInt64.ofNat (k + 2) + 1 = UInt64.ofNat (k + 1 + 2) := by
        rw [UInt64.ofNat_add (k + 2) 1]
        rfl
      generalize UInt64.ofNat (k + 2) = id at run hne hnext
      have hkeys : (keptKeys.emplace (.int 7) id).erase (.int 7) = keptKeys := by
        simp [keptKeys, UnorderedMap.emplace, UnorderedMap.erase, UnorderedMap.empty,
          UnorderedMap.keys]
      have inserted := run.step (.insert [.int 7]) rfl
      rw [next_insert (s := keptIndexed id) (w := [keptKeys.emplace (.int 7) id]) rfl
        (keptRow_rowAt hne [.int 7]) rfl,
        next_insert (s := keptPlain id) (w := []) rfl (keptRow_rowAt hne [.int 7]) rfl] at inserted
      have erased := inserted.step (.erase id) rfl
      rw [next_erase (w := [(keptKeys.emplace (.int 7) id).erase (.int 7)])
        (keptRow_rowAt hne [.int 7]) rfl, hkeys,
        next_erase (w := []) (keptRow_rowAt hne [.int 7]) rfl] at erased
      have hindexed := @keptRow_withoutRow firstColumn id hne
      have hplain := @keptRow_withoutRow .empty id hne
      rw [hnext] at hindexed hplain
      change TwinRun _ _ (k + 1 + 1)
        ⟨((keptRow firstColumn id).withRow [.int 7]).withoutRow id, [keptKeys]⟩
        ⟨((keptRow .empty id).withRow [.int 7]).withoutRow id, []⟩ at erased
      rw [hindexed, hplain] at erased
      exact erased

/-- When the ids have been round once, a new row meets the one of id 1: its index refuses the
row 1 a second time, and without an index nothing is said. -/
theorem exhausted_ids_tell_tables_apart : ∃ (n : Nat) (s p : TableState Nat MapStore),
    FreshIndexes uniqueIds firstColumn ([.empty] : MapStore) ∧
    TwinRun ⟨Table.withIndexes (text "t") uniqueIds firstColumn, [.empty]⟩
      ⟨Table.ofSchema (text "t") uniqueIds, []⟩ n s p ∧
    ¬ SameAnswer ((TableOp.insert [.int 8]).exec s) ((TableOp.insert [.int 8]).exec p) := by
  have run := run_kept (2 ^ 64 - 1) (by decide)
  refine ⟨_, _, _, freshFirst, run, ?_⟩
  have hid : UInt64.ofNat (2 ^ 64 - 1 + 2) = 1 := by decide
  rw [hid]
  intro same
  obtain ⟨e, s', hs⟩ : ∃ e s', (TableOp.insert [.int 8]).exec (keptIndexed 1) = .error e s' :=
    ⟨_, _, rfl⟩
  obtain ⟨p', hp⟩ : ∃ p', (TableOp.insert [.int 8]).exec (keptPlain 1) = .ok ⟨⟩ p' := ⟨_, rfl⟩
  rw [hs, hp] at same
  cases same

end Instances
end CwDb.Storage
