/-
  Executor/StatementAtomicity.lean --- what is left behind by a statement that throws.

  INSERT and UPDATE work on the live table row after row, and nothing takes the rows
  before the failing one back.  The call that fails changes nothing itself, unless the
  fault comes from below the table, that is from an index or from a file.
-/
import CwDb.Executor.EngineRuns

set_option autoImplicit false

namespace CwDb.Executor

open CwDb.Cpp
open CwDb.Foundation
open CwDb.Sql
open CwDb.Storage

variable {ι ω : Type} [IIndex ι ω]

/-! ## One row -/

/-- The fault was thrown by an index object, which left the world as it is. -/
def IndexFault (ι : Type) {ω : Type} [IIndex ι ω] (fault : Fault) (w' : ω) : Prop :=
  (∃ (i : ι) (k : Value ByteString) (id : RowId) (w : ω),
    IIndex.insert i k id w = .error fault w') ∨
  ∃ (i : ι) (k : Value ByteString) (w : ω), IIndex.erase i k w = .error fault w'

section Rows

variable {s : TableState ι ω}

omit [IIndex ι ω] in
theorem ends_onWorld_fault {α : Type} (m : EStateM Fault ω α) :
    Ends (Table.onWorld m) s (fun _ s' => s'.table = s.table)
      (fun e s' => m s.world = .error e s'.world) := by
  rw [Table.onWorld, ends_zoom]
  unfold Ends
  cases m s.world <;> rfl

/-- The index hooks throw what an index throws. -/
theorem ends_notifyIndexesInsert_fault (rowId : RowId) (row : Row ByteString) :
    Ends (Table.notifyIndexesInsert rowId row) s (fun _ _ => True)
      (fun e s' => IndexFault ι e s'.world) := by
  unfold Table.notifyIndexesInsert
  rw [ends_bind, ends_get]
  refine ends_forM (I := fun _ (_ : TableState ι ω) => True) trivial ?_
  rintro - ⟨column, index⟩ - t - -
  dsimp only
  cases row[column]? with
  | none => trivial
  | some value =>
      exact (ends_onWorld_fault _).mono (fun _ _ _ => trivial) fun e t' h =>
        .inl ⟨index, value, rowId, t.world, h⟩

theorem ends_notifyIndexesErase_fault (row : Row ByteString) :
    Ends (Table.notifyIndexesErase row) s (fun _ s' => s'.table = s.table)
      (fun e s' => IndexFault ι e s'.world) := by
  unfold Table.notifyIndexesErase
  rw [ends_bind, ends_get]
  refine ends_forM (I := fun _ (t : TableState ι ω) => t.table = s.table) rfl ?_
  rintro - ⟨column, index⟩ - t - ht
  dsimp only
  cases row[column]? with
  | none => exact ht
  | some value =>
      rw [ends_bind, Table.onWorld, ends_zoom]
      unfold Ends
      cases h : IIndex.erase index value t.world with
      | ok _ w' => exact ht
      | error e w' => exact .inr ⟨index, value, t.world, h⟩

theorem ends_notifyIndexesUpdate_fault (id : RowId) (column : Nat)
    (oldValue newValue : Value ByteString) :
    Ends (Table.notifyIndexesUpdate id column oldValue newValue) s
      (fun _ s' => s'.table = s.table) (fun e s' => IndexFault ι e s'.world) := by
  unfold Table.notifyIndexesUpdate
  rw [ends_bind, ends_get]
  cases s.table.indexes.find? column with
  | none => rfl
  | some index =>
      dsimp only
      rw [ends_bind]
      refine (ends_onWorld_fault _).mono (fun _ t ht => ?_) fun e t h =>
        .inr ⟨index, oldValue, s.world, h⟩
      exact (ends_onWorld_fault _).mono (fun _ _ ht' => ht'.trans ht) fun e t' h =>
        .inl ⟨index, newValue, id, t.world, h⟩

/-- `Table::insert` either throws before it has changed anything or lets an index's
exception through. -/
theorem ends_insert_fault (row : Row ByteString) :
    Ends (Table.insert row) s (fun _ _ => True)
      (fun e s' => s' = s ∨ IndexFault ι e s'.world) := by
  unfold Table.insert
  rw [ends_bind, ends_get, ends_bind, ends_fromExcept]
  refine ⟨fun _ _ => ?_, fun _ _ => .inl rfl⟩
  simp only [Table.modifyTable, ends_bind, ends_modify, ends_get]
  rw [ends_fromExcept]
  refine ⟨fun stored _ => ?_, fun e he => ?_⟩
  · exact (ends_notifyIndexesInsert_fault _ stored).mono (fun _ _ _ => trivial)
      fun _ _ h => .inr h
  · -- the row has just been put there
    obtain ⟨stored, hstored⟩ : ∃ stored,
        (s.table.rows.emplace s.table.nextId row).find? s.table.nextId = some stored :=
      UnorderedMap.mem_keys_iff.mp (UnorderedMap.mem_keys_emplace.mpr (.inl rfl))
    have hrowAt : (s.table.withRow row).rowAt s.table.nextId = .ok stored := by
      have hfind : (s.table.withRow row).rows.find? s.table.nextId = some stored := hstored
      rw [Table.rowAt, hfind]
    change (s.table.withRow row).rowAt s.table.nextId = .error e at he
    rw [hrowAt] at he
    cases he

/-- `Table::update`. -/
theorem ends_update_fault (id : RowId) (column : Nat) (newValue : Value ByteString) :
    Ends (Table.update id column newValue) s (fun _ _ => True)
      (fun e s' => s' = s ∨ IndexFault ι e s'.world) := by
  unfold Table.update
  rw [ends_bind, ends_get]
  cases s.table.rows.find? id with
  | none => exact .inl rfl
  | some row =>
      dsimp only
      rw [ends_ite]
      split
      · exact .inl rfl
      rw [ends_bind, ends_fromExcept]
      refine ⟨fun oldValue _ => ?_, fun _ _ => .inl rfl⟩
      rw [ends_bind, ends_fromExcept]
      refine ⟨fun _ _ => ?_, fun _ _ => .inl rfl⟩
      rw [ends_bind]
      exact (ends_notifyIndexesUpdate_fault id column oldValue newValue).mono
        (fun _ _ _ => trivial) fun _ _ h => .inr h

/-- `Table::erase` throws of itself only where the row is not stored. -/
theorem ends_erase_fault (id : RowId) :
    Ends (Table.erase id) s
      (fun _ s' => ∀ id', id' ≠ id → s'.table.rows.find? id' = s.table.rows.find? id')
      (fun e s' => s' = s ∧ s.table.rows.find? id = none ∨ IndexFault ι e s'.world) := by
  unfold Table.erase
  rw [ends_bind, ends_get]
  cases hrow : s.table.rows.find? id with
  | none => exact .inl ⟨rfl, rfl⟩
  | some row =>
      dsimp only
      rw [ends_bind]
      refine (ends_notifyIndexesErase_fault row).mono (fun _ t ht => ?_) fun _ _ h => .inr h
      intro id' hne
      change (t.table.rows.erase id).find? id' = _
      rw [UnorderedMap.find?_erase, if_neg hne, ht]

/-- One row of INSERT. -/
theorem ends_insertParserRow_fault (columns : List ByteString) (positions : List Nat)
    (parserRow : List (Option ParserValue)) :
    Ends (insertParserRow columns positions parserRow) s (fun _ _ => True)
      (fun e s' => s' = s ∨ IndexFault ι e s'.world) := by
  unfold insertParserRow
  rw [ends_ite]
  split
  · unfold Table.insertRow
    rw [ends_bind, ends_get, ends_ite]
    split
    · exact .inl rfl
    · rw [ends_bind, ends_fromExcept]
      refine ⟨fun row _ => ?_, fun _ _ => .inl rfl⟩
      rw [ends_bind]
      exact (ends_insert_fault row).mono (fun _ _ _ => trivial) fun _ _ h => h
  · rw [ends_bind, ends_get, ends_bind, ends_fromExcept]
    refine ⟨fun row _ => ?_, fun _ _ => .inl rfl⟩
    rw [ends_bind]
    exact (ends_insert_fault row).mono (fun _ _ _ => trivial) fun _ _ h => h

/-- One assignment of UPDATE. -/
theorem ends_assignColumn_fault (id : RowId) (a : Assignment) :
    Ends (assignColumn id a) s (fun _ _ => True)
      (fun e s' => s' = s ∨ IndexFault ι e s'.world) := by
  unfold assignColumn
  rw [ends_bind, ends_get, ends_bind, ends_fromExcept]
  exact ⟨fun column _ => ends_update_fault id column _, fun _ _ => .inl rfl⟩

end Rows

/-! ## Statements -/

/-- The rows of an INSERT before the one that fails have been inserted. -/
structure InsertStopped (cmd : InsertCmd) (fault : Fault) (s s' : TableState ι ω) : Prop where
  stopped : ∃ positions before parserRow after,
    cmd.columns.mapM s.table.requireColumn = .ok positions ∧
    cmd.rows = before ++ parserRow :: after ∧
    before.forM (insertParserRow cmd.columns positions) s = .ok ⟨⟩ s' ∧
    insertParserRow cmd.columns positions parserRow s' = .error fault s'

/-- The candidates of an UPDATE before the failing one have been updated, and of that one
the assignments before the failing one have been made. -/
structure UpdateStopped (regexMatch : RegexMatch) (cmd : UpdateCmd) (fault : Fault)
    (s s' : TableState ι ω) : Prop where
  stopped : ∃ candidates used before id after s₁ made,
    collectCandidateRows s.table s.world cmd.where_ = .ok (candidates, used) ∧
    candidates = before ++ id :: after ∧
    before.forM (updateRow regexMatch cmd.assignments cmd.where_) s = .ok ⟨⟩ s₁ ∧
    made.forM (assignColumn id) s₁ = .ok ⟨⟩ s' ∧
    (made = [] ∧ (∃ row, s₁.table.rows.find? id = some row ∧
        passes regexMatch s₁.table row cmd.where_ = .error fault) ∨
      ∃ a rest, cmd.assignments = made ++ a :: rest ∧ assignColumn id a s' = .error fault s')

/-- A DELETE that is stopped by a row id which its list of candidates has twice. -/
structure DeleteStopped (regexMatch : RegexMatch) (cmd : DeleteCmd) (fault : Fault)
    (s s' : TableState ι ω) : Prop where
  stopped : ∃ candidates used toDelete before id after,
    collectCandidateRows s.table s.world cmd.where_ = .ok (candidates, used) ∧
    filterRows regexMatch s.table cmd.where_ candidates = .ok toDelete ∧
    toDelete = before ++ id :: after ∧ id ∈ before ∧
    before.forM Table.erase s = .ok ⟨⟩ s' ∧ Table.erase id s' = .error fault s'

section Statements

variable {s s' : TableState ι ω} {fault : Fault} {regexMatch : RegexMatch}

theorem insertRows_error {cmd : InsertCmd}
    (run : insertRows cmd.columns cmd.rows s = .error fault s') :
    s' = s ∨ InsertStopped cmd fault s s' ∨ IndexFault ι fault s'.world := by
  unfold insertRows at run
  rw [bind_ok get_run] at run
  cases hpositions : cmd.columns.mapM s.table.requireColumn with
  | error e =>
      rw [hpositions] at run
      cases run
      exact .inl rfl
  | ok positions =>
      rw [hpositions, fromExcept_ok, pure_bind] at run
      obtain ⟨before, parserRow, after, s₁, hrows, hbefore, hrow⟩ := forM_eq_error run
      rcases (ends_insertParserRow_fault _ _ _).of_error hrow with rfl | hindex
      · exact .inr (.inl ⟨positions, before, parserRow, after, hpositions, hrows, hbefore, hrow⟩)
      · exact .inr (.inr hindex)

theorem updateRows_error {cmd : UpdateCmd}
    (run : updateRows regexMatch cmd.assignments cmd.where_ s = .error fault s') :
    s' = s ∨ UpdateStopped regexMatch cmd fault s s' ∨ IndexFault ι fault s'.world := by
  unfold updateRows at run
  rw [bind_ok get_run] at run
  cases hcandidates : collectCandidateRows s.table s.world cmd.where_ with
  | error e =>
      rw [hcandidates] at run
      cases run
      exact .inl rfl
  | ok collected =>
      obtain ⟨candidates, used⟩ := collected
      rw [hcandidates, fromExcept_ok, pure_bind] at run
      obtain ⟨before, id, after, s₁, hsplit, hbefore, hrow⟩ := forM_eq_error run
      unfold updateRow at hrow
      rw [bind_ok get_run] at hrow
      cases hfound : s₁.table.rows.find? id with
      | none =>
          rw [hfound] at hrow
          cases hrow
      | some row =>
          rw [hfound] at hrow
          dsimp only at hrow
          cases hpass : passes regexMatch s₁.table row cmd.where_ with
          | error e =>
              rw [hpass] at hrow
              cases hrow
              exact .inr (.inl ⟨candidates, used, before, id, after, s', [], hcandidates, hsplit,
                hbefore, rfl, .inl ⟨rfl, row, hfound, hpass⟩⟩)
          | ok pass =>
              rw [hpass, fromExcept_ok, pure_bind] at hrow
              cases pass with
              | false => cases hrow
              | true =>
                  rw [if_pos rfl] at hrow
                  obtain ⟨made, a, rest, s₂, hassign, hmade, ha⟩ := forM_eq_error hrow
                  rcases (ends_assignColumn_fault id a).of_error ha with hsame | hindex
                  · rw [← hsame] at ha hmade
                    exact .inr (.inl ⟨candidates, used, before, id, after, s₁, made, hcandidates,
                      hsplit, hbefore, hmade, .inr ⟨a, rest, hassign, ha⟩⟩)
                  · exact .inr (.inr hindex)

theorem deleteRows_error {cmd : DeleteCmd}
    (run : deleteRows regexMatch cmd.where_ s = .error fault s') :
    s' = s ∨ DeleteStopped regexMatch cmd fault s s' ∨ IndexFault ι fault s'.world := by
  unfold deleteRows at run
  rw [bind_ok get_run] at run
  cases hcandidates : collectCandidateRows s.table s.world cmd.where_ with
  | error e =>
      rw [hcandidates] at run
      cases run
      exact .inl rfl
  | ok collected =>
      obtain ⟨candidates, used⟩ := collected
      rw [hcandidates, fromExcept_ok, pure_bind] at run
      dsimp only at run
      cases hdelete : filterRows regexMatch s.table cmd.where_ candidates with
      | error e =>
          rw [hdelete] at run
          cases run
          exact .inl rfl
      | ok toDelete =>
          rw [hdelete, fromExcept_ok, pure_bind] at run
          obtain ⟨before, id, after, s₁, hsplit, hbefore, herase⟩ := forM_eq_error run
          rcases (ends_erase_fault id).of_error herase with ⟨hsame, hnone⟩ | hindex
          · subst hsame
            refine .inr (.inl ⟨candidates, used, toDelete, before, id, after, hcandidates,
              hdelete, hsplit, ?_, hbefore, herase⟩)
            -- an id to delete is stored, and only its own erasure removes it
            by_contra hnew
            have hkept : Ends (before.forM Table.erase) s
                (fun _ t => t.table.rows.find? id = s.table.rows.find? id) (fun _ _ => True) := by
              refine ends_forM
                (I := fun _ (t : TableState ι ω) =>
                  t.table.rows.find? id = s.table.rows.find? id) rfl ?_
              intro done x rest t hlist ht
              refine (ends_erase_fault x).mono (fun _ _ h => ?_) fun _ _ _ => trivial
              have hx : id ≠ x := by
                rintro rfl
                exact hnew (by rw [hlist]; simp)
              exact (h id hx).trans ht
            obtain ⟨-, row, hrow, -⟩ := ((mem_filterRows hdelete).1 id).mp (by rw [hsplit]; simp)
            have hkeeps := hkept.of_ok hbefore
            rw [hnone, hrow] at hkeeps
            cases hkeeps
          · exact .inr (.inr hindex)

end Statements

/-! ## The engine -/

section Engine

variable [DataRoot ι ω]

/-- The fault was thrown by the data directory. -/
def FileFault (ι : Type) {ω : Type} [DataRoot ι ω] (fault : Fault) (w' : ω) : Prop :=
  (∃ (name : ByteString) (w : ω),
    DataRoot.createDirectories (ι := ι) name w = .error fault w') ∨
  (∃ (name : ByteString) (db : Database ι) (w : ω),
    DataRoot.saveTo name db w = .error fault w') ∨
  ∃ (dbName tableName : ByteString) (c : ColumnDef ByteString) (w : ω),
    DataRoot.makeIndexForColumn (ι := ι) dbName tableName c w = .error fault w'

/-- A statement has changed the table it is for, and nothing else. -/
def LeavesTable (explicitDbName tableName : ByteString)
    (stopped : TableState ι ω → TableState ι ω → Prop) (st st' : DbmsState ι ω) : Prop :=
  ∃ dbName table s',
    Engine.resolveTable st.dbms explicitDbName tableName = .ok (dbName, table) ∧
    stopped ⟨table, st.world⟩ s' ∧
    st' = { dbms := st.dbms.setTable dbName tableName s'.table, world := s'.world }

/-- What a statement that was stopped by `fault` in the middle of its rows leaves. -/
def Stopped (regexMatch : RegexMatch) (fault : Fault) (st st' : DbmsState ι ω) :
    Command → Prop
  | .insert cmd => LeavesTable cmd.dbName cmd.tableName (InsertStopped cmd fault) st st'
  | .update cmd => LeavesTable cmd.dbName cmd.tableName (UpdateStopped regexMatch cmd fault) st st'
  | .delete cmd => LeavesTable cmd.dbName cmd.tableName (DeleteStopped regexMatch cmd fault) st st'
  | _ => False

variable {e : EngineState ι ω} {regexMatch : RegexMatch}

omit [IIndex ι ω] in
/-- `Dbms::save_all` throws what a file throws. -/
theorem ends_saveAll_fault {st : DbmsState ι ω} :
    Ends (Dbms.saveAll : DbmsM ι ω PUnit) st (fun _ _ => True)
      (fun fault st' => FileFault ι fault st'.world) := by
  unfold Dbms.saveAll
  rw [ends_bind, ends_get]
  refine ends_forM (I := fun _ (_ : DbmsState ι ω) => True) trivial ?_
  rintro - ⟨name, db⟩ - t - -
  dsimp only
  rw [Dbms.onWorld, ends_zoom]
  unfold Ends
  cases h : DataRoot.saveTo name db t.world with
  | ok _ _ => trivial
  | error fault w' => exact .inr (.inl ⟨name, db, t.world, h⟩)

omit [IIndex ι ω] in
/-- The end of every statement that changes something. -/
theorem ends_saveAll_ok {st : DbmsState ι ω} {E : Fault → DbmsState ι ω → Prop}
    (file : ∀ fault st', FileFault ι fault st'.world → E fault st') :
    Ends (do
        Dbms.saveAll
        pure (text "OK") : DbmsM ι ω ByteString) st (fun _ _ => True) E := by
  rw [ends_bind]
  exact ends_saveAll_fault.mono (fun _ _ _ => trivial) file

/-- The indexes of a table without rows: only their files can make them fail. -/
theorem ends_attachIndexesForTable_fault {table : Table ByteString ι} {w : ω}
    (noRow : table.order = []) (dbName tableName : ByteString) :
    Ends (Engine.attachIndexesForTable dbName tableName : TableM ι ω PUnit) ⟨table, w⟩
      (fun _ _ => True) (fun fault s' => FileFault ι fault s'.world) := by
  unfold Engine.attachIndexesForTable
  rw [ends_bind, ends_get]
  refine Ends.mono (E := fun fault s' => FileFault ι fault s'.world)
    (ends_forM (I := fun _ (t : TableState ι ω) =>
      t.table.schema = table.schema ∧ t.table.order = []) ?_ ?_) (fun _ _ _ => trivial)
    fun _ _ h => h
  · exact ⟨rfl, noRow⟩
  rintro before ⟨c, column⟩ rest t hlist ⟨hschema, horder⟩
  have hcolumn : column < t.table.schema.columnCount := by
    have hmem : (c, column) ∈ table.schema.columns.zipIdx := by rw [hlist]; simp
    rw [hschema]
    exact List.snd_lt_of_mem_zipIdx hmem
  rw [ends_bind, ends_get, ends_ite]
  split
  · rw [ends_ite]
    split
    · exact ⟨hschema, horder⟩
    · rw [ends_bind, Table.onWorld, ends_zoom]
      unfold Ends
      cases h : DataRoot.makeIndexForColumn (ι := ι) dbName tableName c t.world with
      | error fault w' => exact .inr (.inr ⟨dbName, tableName, c, t.world, h⟩)
      | ok index w' =>
          change Ends (Table.attachIndex column (some index) true) ⟨t.table, w'⟩ _ _
          unfold Table.attachIndex
          rw [ends_bind, ends_get, ends_ite, if_neg (Nat.not_le.mpr hcolumn)]
          dsimp only
          rw [Table.modifyTable, ends_bind, ends_modify, if_pos rfl, horder]
          exact ⟨hschema, rfl⟩
  · exact ⟨hschema, horder⟩

/-- INSERT, UPDATE and DELETE, whose rows are changed by `m`. -/
theorem ends_executeOnTable_fault {explicitDbName tableName : ByteString} {m : TableM ι ω PUnit}
    {stopped : Fault → TableState ι ω → TableState ι ω → Prop}
    (rows : ∀ s s' fault, m s = .error fault s' →
      s' = s ∨ stopped fault s s' ∨ IndexFault ι fault s'.world) :
    Ends (Engine.executeOnTable explicitDbName tableName m) e (fun _ _ => True)
      (fun fault e' => e'.toDbmsState = e.toDbmsState ∨ IndexFault ι fault e'.world ∨
        FileFault ι fault e'.world ∨
        LeavesTable explicitDbName tableName (stopped fault) e.toDbmsState e'.toDbmsState) := by
  unfold Engine.executeOnTable
  rw [Engine.onDbms, ends_zoom, ends_bind, ends_get, ends_bind, ends_fromExcept]
  refine ⟨?_, fun _ _ => .inl rfl⟩
  rintro ⟨dbName, table⟩ hresolve
  dsimp only
  rw [ends_bind, Dbms.onTable, ends_zoom]
  unfold Ends
  cases hrows : m ⟨table, e.world⟩ with
  | ok _ s' => exact ends_saveAll_ok fun _ _ h => .inr (.inr (.inl h))
  | error fault s' =>
      rcases rows _ _ _ hrows with hsame | hstopped | hindex
      · subst hsame
        refine .inl ?_
        change (⟨e.dbms.setTable dbName tableName table, e.world⟩ : DbmsState ι ω) = _
        rw [Dbms.setTable_self (resolveTable_ok hresolve)]
      · exact .inr (.inr (.inr ⟨dbName, table, s', hresolve, hstopped, rfl⟩))
      · exact .inr (.inl hindex)

/-- What a call that throws leaves behind. -/
theorem execute_error {e' : EngineState ι ω} {query : ByteString} {fault : Fault}
    (run : Engine.execute regexMatch query e = .error fault e') :
    e'.toDbmsState = e.toDbmsState ∨ IndexFault ι fault e'.world ∨ FileFault ι fault e'.world ∨
      ∃ command, parseQuery query = .ok command ∧
        Stopped regexMatch fault e.toDbmsState e'.toDbmsState command := by
  have hends : Ends (Engine.execute regexMatch query) e (fun _ _ => True)
      (fun fault e' => e'.toDbmsState = e.toDbmsState ∨ IndexFault ι fault e'.world ∨
        FileFault ι fault e'.world ∨ ∃ command, parseQuery query = .ok command ∧
          Stopped regexMatch fault e.toDbmsState e'.toDbmsState command) := by
    unfold Engine.execute
    rw [ends_bind, ends_fromExcept]
    refine ⟨fun command hparse => ?_, fun _ _ => .inl rfl⟩
    have hfile : ∀ fault (st : DbmsState ι ω), FileFault ι fault st.world →
        st = e.toDbmsState ∨ IndexFault ι fault st.world ∨ FileFault ι fault st.world ∨
          ∃ command, parseQuery query = .ok command ∧
            Stopped regexMatch fault e.toDbmsState st command :=
      fun _ _ h => .inr (.inr (.inl h))
    cases command with
    | createDatabase dbName =>
        change Ends (Engine.executeCreateDatabase dbName) e _ _
        unfold Engine.executeCreateDatabase
        rw [Engine.onDbms, ends_zoom, ends_bind]
        unfold Dbms.createDatabase
        rw [ends_bind, ends_get, ends_ite]
        split
        · exact .inl rfl
        · rw [Dbms.modifyDbms, ends_bind, ends_modify, Dbms.onWorld, ends_zoom]
          unfold Ends
          cases h : DataRoot.createDirectories (ι := ι) dbName e.world with
          | ok _ w' => exact ends_saveAll_ok hfile
          | error fault w' => exact hfile _ _ (.inl ⟨dbName, e.world, h⟩)
    | dropDatabase dbName =>
        change Ends (Engine.executeDropDatabase dbName) e _ _
        unfold Engine.executeDropDatabase
        rw [Engine.onDbms, ends_zoom, ends_bind]
        unfold Dbms.dropDatabase
        rw [ends_bind, ends_get, ends_ite]
        split
        · exact ends_saveAll_ok hfile
        · exact .inl rfl
    | useDatabase dbName =>
        change Ends (Engine.executeUseDatabase dbName) e _ _
        unfold Engine.executeUseDatabase Dbms.useDatabase
        rw [Engine.onDbms, ends_zoom, ends_bind, ends_bind, ends_get, ends_bind, ends_fromExcept]
        exact ⟨fun _ _ => trivial, fun _ _ => .inl rfl⟩
    | createTable cmd =>
        change Ends (Engine.executeCreateTable cmd) e _ _
        unfold Engine.executeCreateTable
        rw [Engine.onDbms, ends_zoom, ends_bind, ends_get, ends_bind, ends_fromExcept]
        refine ⟨?_, fun _ _ => .inl rfl⟩
        rintro ⟨dbName, db⟩ -
        dsimp only
        rw [ends_bind, ends_fromExcept]
        refine ⟨fun schema _ => ?_, fun _ _ => .inl rfl⟩
        rw [ends_bind, ends_fromExcept]
        refine ⟨fun db' _ => ?_, fun _ _ => .inl rfl⟩
        rw [Dbms.modifyDbms, ends_bind, ends_modify, ends_bind, Dbms.onTable, ends_zoom]
        exact (ends_attachIndexesForTable_fault rfl
          db.name cmd.tableName).mono (fun _ _ _ => ends_saveAll_ok hfile) fun _ _ h => hfile _ _ h
    | dropTable cmd =>
        change Ends (Engine.executeDropTable cmd) e _ _
        unfold Engine.executeDropTable
        rw [Engine.onDbms, ends_zoom, ends_bind, ends_get, ends_bind, ends_fromExcept]
        refine ⟨?_, fun _ _ => .inl rfl⟩
        rintro ⟨dbName, db⟩ -
        dsimp only
        rw [ends_bind, ends_fromExcept]
        refine ⟨fun db' _ => ?_, fun _ _ => .inl rfl⟩
        rw [Dbms.modifyDbms, ends_bind, ends_modify]
        exact ends_saveAll_ok hfile
    | insert cmd =>
        refine (ends_executeOnTable_fault
          fun _ _ _ h => insertRows_error h).mono (fun _ _ _ => trivial) ?_
        exact fun _ _ h => h.imp_right (.imp_right (.imp_right fun h => ⟨_, hparse, h⟩))
    | update cmd =>
        refine (ends_executeOnTable_fault
          fun _ _ _ h => updateRows_error h).mono (fun _ _ _ => trivial) ?_
        exact fun _ _ h => h.imp_right (.imp_right (.imp_right fun h => ⟨_, hparse, h⟩))
    | delete cmd =>
        refine (ends_executeOnTable_fault
          fun _ _ _ h => deleteRows_error h).mono (fun _ _ _ => trivial) ?_
        exact fun _ _ h => h.imp_right (.imp_right (.imp_right fun h => ⟨_, hparse, h⟩))
    | select cmd =>
        change Ends (Engine.executeSelect regexMatch cmd) e _ _
        unfold Engine.executeSelect
        rw [ends_bind, ends_get, ends_bind, ends_fromExcept]
        refine ⟨fun resolved _ => ?_, fun _ _ => .inl rfl⟩
        rw [ends_bind, ends_fromExcept]
        refine ⟨fun candidates _ => ?_, fun _ _ => .inl rfl⟩
        rw [ends_bind, ends_modify, ends_bind, ends_fromExcept]
        exact ⟨fun _ _ => trivial, fun _ _ => .inl rfl⟩
  exact hends.of_error run

end Engine

section Instances

/-- No pattern matches. -/
private def unmatched : RegexMatch := fun _ _ => .ok false

/-- A database with a table whose column `id` has an index. -/
private def schemaQueries : List ByteString :=
  [text "CREATE DATABASE d", text "USE d", text "CREATE TABLE t (id INT INDEXED, n INT)"]

private def runs (e : EngineState Nat MapStore) (query : ByteString) :
    Option (EngineState Nat MapStore) :=
  match Engine.execute unmatched query e with
  | .ok _ e' => some e'
  | .error _ _ => none

private def atStart : EngineState Nat MapStore := { dbms := {}, world := [] }

private def withTable : EngineState Nat MapStore := (schemaQueries.foldlM runs atStart).getD atStart

private theorem reachable_withTable : Reachable unmatched withTable := by
  have reachable : ∀ (qs : List ByteString) (e e' : EngineState Nat MapStore),
      Reachable unmatched e → qs.foldlM runs e = some e' → Reachable unmatched e' := by
    intro qs
    induction qs with
    | nil =>
        intro e e' he h
        cases h
        exact he
    | cons q qs ih =>
        intro e e' he h
        rw [List.foldlM_cons, Option.bind_eq_bind, Option.bind_eq_some_iff] at h
        obtain ⟨e₁, h₁, h⟩ := h
        refine ih e₁ e' ?_ h
        unfold runs at h₁
        split at h₁
        · next hrun => exact Option.some.inj h₁ ▸ he.answered q hrun
        · cases h₁
  have all : (schemaQueries.foldlM runs atStart).isSome = true := by decide +kernel
  obtain ⟨e, he⟩ := Option.isSome_iff_exists.mp all
  rw [withTable, he]
  refine reachable schemaQueries atStart e ?_ he
  exact .start (w := []) rfl (fun _ _ _ h => nomatch h) rfl

/-- The second row repeats the key of the first. -/
private def insertTwice : ByteString := text "INSERT INTO t (id, n) VALUES (1, 10), (1, 20)"

/-- The rows of the table `d.t`. -/
private def rowCount (e : EngineState Nat MapStore) : Option Nat :=
  (e.dbms.table? (text "d") (text "t")).map fun table => table.order.length

/-- The number of rows after a query that throws. -/
private def countAfterThrow (e : EngineState Nat MapStore) (query : ByteString) : Option Nat :=
  match Engine.execute unmatched query e with
  | .ok _ _ => none
  | .error _ e' => rowCount e'

private theorem throws_of_count {e : EngineState Nat MapStore} {query : ByteString} {n : Nat}
    (h : countAfterThrow e query = some n) : ∃ fault e',
      Engine.execute unmatched query e = .error fault e' ∧ rowCount e' = some n := by
  unfold countAfterThrow at h
  split at h
  · cases h
  · next fault e' hrun => exact ⟨fault, e', hrun, h⟩

/-- An INSERT of two rows throws at the second, and the first one stays. -/
theorem failed_insert_keeps_first_row :
    ¬ ∀ (e e' : EngineState Nat MapStore) (query : ByteString) (fault : Fault),
      Reachable unmatched e → Engine.execute unmatched query e = .error fault e' →
        e'.toDbmsState = e.toDbmsState := by
  intro atomic
  have counts : rowCount withTable = some 0 ∧ countAfterThrow withTable insertTwice = some 1 := by
    decide +kernel
  obtain ⟨fault, e', run, hcount⟩ := throws_of_count counts.2
  have hsame := atomic withTable e' insertTwice fault reachable_withTable run
  have hrows : rowCount e' = rowCount withTable := by
    unfold rowCount
    rw [show e'.dbms = withTable.dbms from congrArg DbmsState.dbms hsame]
  rw [hcount, counts.1] at hrows
  cases hrows

/-- What the INSERT of two rows leaves behind. -/
theorem execute_error_of_insertTwice : ∃ fault e',
    Engine.execute unmatched insertTwice withTable = .error fault e' ∧
    rowCount e' = some 1 ∧
    (e'.toDbmsState = withTable.toDbmsState ∨ IndexFault Nat fault e'.world ∨
      FileFault Nat fault e'.world ∨ ∃ command, parseQuery insertTwice = .ok command ∧
        Stopped unmatched fault withTable.toDbmsState e'.toDbmsState command) := by
  have count : countAfterThrow withTable insertTwice = some 1 := by decide +kernel
  obtain ⟨fault, e', run, hcount⟩ := throws_of_count count
  exact ⟨fault, e', run, hcount, execute_error run⟩

end Instances

end CwDb.Executor
