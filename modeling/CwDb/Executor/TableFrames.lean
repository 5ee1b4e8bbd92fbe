/-
  Executor/TableFrames.lean --- what a statement on a table reads and writes.

  A statement on a table reads and writes the indexes of that table and no others.  What it
  finds there it finds again in any world that has the same under their numbers.
-/
import CwDb.Executor.Durability
import CwDb.Executor.Service

set_option autoImplicit false

namespace CwDb.Executor

open CwDb.Cpp
open CwDb.Foundation
open CwDb.Index
open CwDb.Sql
open CwDb.Storage

/-! ## Worlds that share index objects -/

/-- An index object with the file that it has open. -/
def part (w : DataDirectory) (n : Nat) : Option (IndexObject × Option IndexFile) :=
  (w.objects[n]?).map fun object => (object, w.files[object.file]?)

/-- Two index objects, with a file each. -/
def FilesApart (w : DataDirectory) (k n : Nat) : Prop :=
  k ≠ n ∧ ∀ object object', w.objects[k]? = some object → w.objects[n]? = some object' →
    object.file ≠ object'.file

section Parts

variable {w w' : DataDirectory} {n k : Nat} {idx : BStarPlusIndex}

theorem object?_eq_part (w : DataDirectory) (n : Nat) : w.object? n =
    (part w n).bind fun (object, file) =>
      file.map fun file => ⟨⟨file, object.pageCount⟩, object.metadata⟩ := by
  unfold DataDirectory.object? part
  cases w.objects[n]? with
  | none => rfl
  | some object =>
      simp only [Option.bind_eq_bind, Option.bind_some, Option.map_some]
      cases w.files[object.file]? <;> rfl

/-- An object that is written, the others with its file, and those with other files. -/
theorem part_setObject {object : IndexObject} (here : w.objects[k]? = some object)
    (file : object.file < w.files.length) : part (DataDirectory.setObject k w idx) n =
      if n = k then
        some (⟨object.file, idx.disk.pageCount, idx.metadata⟩, some idx.disk.file)
      else (part w n).map fun (other, kept) =>
        (other, if other.file = object.file then some idx.disk.file else kept) := by
  unfold DataDirectory.setObject
  simp only [here]
  unfold part
  have hk := (List.getElem?_eq_some_iff.mp here).1
  split
  · next h =>
      rw [h, List.getElem?_set_self hk, Option.map_some, List.getElem?_set_self file]
  · next h =>
      rw [List.getElem?_set_ne fun heq => h heq.symm]
      cases w.objects[n]? with
      | none => rfl
      | some other =>
          simp only [Option.map_some]
          split
          · next hfile => rw [hfile, List.getElem?_set_self file]
          · next hfile => rw [List.getElem?_set_ne fun heq => hfile heq.symm]

/-- Where the index of a number can be used. -/
theorem exists_object_of_object? (h : w.object? n = some idx) :
    ∃ object, w.objects[n]? = some object ∧ object.file < w.files.length := by
  unfold DataDirectory.object? at h
  obtain ⟨object, hobject, h⟩ := Option.bind_eq_some_iff.mp h
  obtain ⟨file, hfile, -⟩ := Option.bind_eq_some_iff.mp h
  exact ⟨object, hobject, (List.getElem?_eq_some_iff.mp hfile).1⟩

theorem objects_of_part (h : part w n = part w' n) : w.objects[n]? = w'.objects[n]? := by
  have hobject := congrArg (Option.map Prod.fst) h
  simpa [part, Option.map_map, Function.comp_def] using hobject

end Parts

/-- The same index objects and files under the numbers of `S`; what is apart from them is as it is
in `u`. -/
def sharedObjects (S : Nat → Prop) (u : DataDirectory) :
    Coupling Fault DataDirectory DataDirectory where
  Related w w' := w.directories = u.directories ∧ (∀ n, S n → part w n = part w' n) ∧
    (∀ n : Nat, (w.objects[n]?).map IndexObject.file = (u.objects[n]?).map IndexObject.file) ∧
    ∀ n, (∀ k, S k → FilesApart u k n) → part w n = part u n
  Spent _ := False
  NoAnswer _ := False

section SharedObjects

variable {S : Nat → Prop} {u u' w w' : DataDirectory} {p : IndexPointer}

theorem sharedObjects_self (same : ∀ n, S n → part u n = part u' n) :
    (sharedObjects S u).Related u u' := ⟨rfl, same, fun _ => rfl, fun _ _ => rfl⟩

theorem object?_sharedObjects (covered : S p.number) (related : (sharedObjects S u).Related w w') :
    w.object? p.number = w'.object? p.number := by
  rw [object?_eq_part, object?_eq_part, related.2.1 _ covered]

theorem sharedObjects_setObject (covered : S p.number)
    (related : (sharedObjects S u).Related w w') {idx idx' : BStarPlusIndex}
    (found : w'.object? p.number = some idx) :
    (sharedObjects S u).Related (DataDirectory.setObject p.number w idx')
      (DataDirectory.setObject p.number w' idx') := by
  obtain ⟨object', hobject', hfile'⟩ := exists_object_of_object? found
  obtain ⟨object, hobject, hfile⟩ :=
    exists_object_of_object? ((object?_sharedObjects covered related).trans found)
  obtain ⟨hdirectories, hsame, hfiles, hkept⟩ := related
  obtain rfl : object = object' := Option.some.inj
    (hobject.symm.trans ((objects_of_part (hsame _ covered)).trans hobject'))
  refine ⟨?_, fun n hn => ?_, fun n => ?_, fun n apart => ?_⟩
  · unfold DataDirectory.setObject
    rw [hobject]
    exact hdirectories
  · rw [part_setObject hobject hfile, part_setObject hobject' hfile', hsame n hn]
  · rw [← hfiles n]
    unfold DataDirectory.setObject
    rw [hobject]
    dsimp only
    by_cases hn : p.number = n
    · rw [← hn, List.getElem?_set_self (List.getElem?_eq_some_iff.mp hobject).1, hobject]
      rfl
    · rw [List.getElem?_set_ne hn]
  · obtain ⟨hne, hfiles'⟩ := apart _ covered
    rw [part_setObject hobject hfile, if_neg (Ne.symm hne), hkept n apart]
    -- Objects keep their files, and the one of `n` is another one.
    have hown := hfiles p.number
    rw [hobject, Option.map_some] at hown
    obtain ⟨first, hfirst, hfile₁⟩ := Option.map_eq_some_iff.mp hown.symm
    unfold part
    cases hother : u.objects[n]? with
    | none => rfl
    | some other =>
        have hapart := hfiles' first other hfirst hother
        rw [hfile₁] at hapart
        simp only [Option.map_some, if_neg (Ne.symm hapart)]

theorem follows_onObject_shared {α : Type} {m : IndexM α} (covered : S p.number)
    (related : (sharedObjects S u).Related w w') :
    Follows (sharedObjects S u) (DataDirectory.onObject p m) (DataDirectory.onObject p m) w w' := by
  unfold DataDirectory.onObject
  rw [follows_get_bind, object?_sharedObjects covered related]
  cases found : w'.object? p.number with
  | none => exact follows_throw _ related
  | some idx =>
      have hrun : Follows (.same fun _ => False) m m idx idx := follows_same
      exact follows_zoom hrun
        (fun idx₁ idx₂ h => h ▸ sharedObjects_setObject covered related found)
        (fun _ h => h) fun _ h => h

/-- What is done to an index object that is shared is the same in both worlds. -/
theorem sharedObjects_follow (S : Nat → Prop) (u : DataDirectory) :
    IndexesFollow (fun i => S i.index.number) DataDirectory.index DataDirectory.index
      (sharedObjects S u) :=
  KeyIndexesFollow.adapter (P := fun p : IndexPointer => S p.number)
    { find := fun p key covered related => by
        change DataDirectory.readObject p _ _ = DataDirectory.readObject p _ _
        rw [DataDirectory.readObject, DataDirectory.readObject,
          object?_sharedObjects covered related]
      rangeSearch := fun p low high covered related => by
        change DataDirectory.readObject p _ _ = DataDirectory.readObject p _ _
        rw [DataDirectory.readObject, DataDirectory.readObject,
          object?_sharedObjects covered related]
      insert := fun _ _ _ covered => follows_onObject_shared covered
      erase := fun _ _ covered => follows_onObject_shared covered }

end SharedObjects

/-- `m` does the same to a table and its indexes whatever else there is. -/
def OwnIndexes (m : TableM IndexRef DataDirectory PUnit) : Prop :=
  ∀ (S : Nat → Prop) (u : DataDirectory) (s t : TableState IndexRef DataDirectory),
    (tableCoupling (fun i => S i.index.number) (sharedObjects S u)).Related s t →
    Follows (tableCoupling (fun i => S i.index.number) (sharedObjects S u)) m m s t

/-! ## What a statement leaves alone -/

/-- The number of an index of the table. -/
def IndexNumber (table : Table ByteString IndexRef) (n : Nat) : Prop :=
  ∃ column i, table.indexes.find? column = some i ∧ i.index.number = n

theorem covered_indexNumber (table : Table ByteString IndexRef) :
    table.Covered fun i => IndexNumber table i.index.number :=
  fun column i h => ⟨column, i, h, rfl⟩

/-- Nothing has changed but one table and the files of its indexes. -/
structure Beside (dbName tableName : ByteString) (st st' : DbmsState IndexRef DataDirectory) :
    Prop where
  active : st'.dbms.active = st.dbms.active
  keys : st'.dbms.databases.keys = st.dbms.databases.keys
  tables : ∀ d t, (d, t) ≠ (dbName, tableName) → st'.dbms.table? d t = st.dbms.table? d t
  parts : ∀ n, (∀ table k, st.dbms.table? dbName tableName = some table → IndexNumber table k →
    FilesApart st.world k n) → part st'.world n = part st.world n

theorem Beside.refl (dbName tableName : ByteString) (st : DbmsState IndexRef DataDirectory) :
    Beside dbName tableName st st := ⟨rfl, rfl, fun _ _ _ => rfl, fun _ _ => rfl⟩

/-- The table of a name is the same, with the same files for its indexes. -/
structure AlikeAt (dbName tableName : ByteString) (st st' : DbmsState IndexRef DataDirectory) :
    Prop where
  active : st'.dbms.active = st.dbms.active
  keys : st'.dbms.databases.keys = st.dbms.databases.keys
  table : st'.dbms.table? dbName tableName = st.dbms.table? dbName tableName
  parts : ∀ table, st.dbms.table? dbName tableName = some table → ∀ n, IndexNumber table n →
    part st'.world n = part st.world n

/-- The indexes of two tables have their files apart. -/
def TablesApart (st : DbmsState IndexRef DataDirectory) (names names' : ByteString × ByteString) :
    Prop :=
  ∀ table table' k n, st.dbms.table? names.1 names.2 = some table →
    st.dbms.table? names'.1 names'.2 = some table' → IndexNumber table k → IndexNumber table' n →
    FilesApart st.world k n

/-- What a statement on another table leaves alike. -/
theorem Beside.alikeAt {st st' : DbmsState IndexRef DataDirectory}
    {dbName tableName dbName' tableName' : ByteString} (beside : Beside dbName tableName st st')
    (other : (dbName', tableName') ≠ (dbName, tableName))
    (apart : TablesApart st (dbName, tableName) (dbName', tableName')) :
    AlikeAt dbName' tableName' st st' :=
  ⟨beside.active, beside.keys, beside.tables _ _ other, fun table' found' n index =>
    beside.parts n fun table k found hk => apart table table' k n found found' hk index⟩

/-- The database that a statement names, or the one in use. -/
def namedDatabase (active explicitDbName : ByteString) : ByteString :=
  if explicitDbName.isEmpty then active else explicitDbName

section Resolving

variable {dbms dbms' : Dbms IndexRef} {explicitDbName tableName dbName : ByteString}

theorem resolveTable_eq : Engine.resolveTable dbms explicitDbName tableName =
    if explicitDbName.isEmpty ∧ dbms.active.isEmpty then
      raise .runtimeError (text "No database selected (use USE first)")
    else dbms.requireDatabase (namedDatabase dbms.active explicitDbName) >>= fun db =>
      db.requireTable tableName >>= fun table =>
        pure (namedDatabase dbms.active explicitDbName, table) := by
  unfold Engine.resolveTable Engine.resolveDatabase Dbms.activeDb namedDatabase
  cases hname : explicitDbName.isEmpty with
  | true =>
      cases hactive : dbms.active.isEmpty with
      | true => rfl
      | false =>
          simp only [if_true, Bool.false_eq_true, and_false, if_false]
          cases dbms.requireDatabase dbms.active <;> rfl
  | false =>
      simp only [Bool.false_eq_true, false_and, if_false]
      cases dbms.requireDatabase explicitDbName <;> rfl

theorem resolveTable_name {table : Table ByteString IndexRef}
    (h : Engine.resolveTable dbms explicitDbName tableName = .ok (dbName, table)) :
    dbName = namedDatabase dbms.active explicitDbName := by
  rw [resolveTable_eq] at h
  split at h
  · cases h
  · cases hdb : dbms.requireDatabase (namedDatabase dbms.active explicitDbName) with
    | error fault =>
        rw [hdb] at h
        cases h
    | ok db =>
        rw [hdb] at h
        cases htable : db.requireTable tableName with
        | error fault =>
            simp only [htable, bind, Except.bind] at h
            cases h
        | ok found =>
            simp only [htable, bind, Except.bind, pure, Except.pure] at h
            cases h
            rfl

/-- A name resolves alike where the databases and the table are the same. -/
theorem resolveTable_congr (active : dbms'.active = dbms.active)
    (keys : dbms'.databases.keys = dbms.databases.keys)
    (table : dbms'.table? (namedDatabase dbms.active explicitDbName) tableName =
      dbms.table? (namedDatabase dbms.active explicitDbName) tableName) :
    Engine.resolveTable dbms' explicitDbName tableName =
      Engine.resolveTable dbms explicitDbName tableName := by
  rw [resolveTable_eq, resolveTable_eq, active]
  unfold Dbms.requireDatabase
  generalize namedDatabase dbms.active explicitDbName = name at table ⊢
  have hmem : name ∈ dbms'.databases.keys ↔ name ∈ dbms.databases.keys := by rw [keys]
  rw [UnorderedMap.mem_keys_iff, UnorderedMap.mem_keys_iff] at hmem
  unfold Dbms.table? at table
  cases hdb : dbms.databases.find? name with
  | none =>
      cases hdb' : dbms'.databases.find? name with
      | none => rfl
      | some db' =>
          obtain ⟨db, hfound⟩ := hmem.mp ⟨db', hdb'⟩
          rw [hdb] at hfound
          cases hfound
  | some db =>
      obtain ⟨db', hdb'⟩ := hmem.mpr ⟨db, hdb⟩
      rw [hdb, hdb', Option.bind_some, Option.bind_some] at table
      rw [hdb']
      simp only [Database.requireTable, table, bind, Except.bind]

end Resolving

/-! ## Statements -/

section Statements

variable [x : IIndex IndexRef DataDirectory] [d : DataRoot IndexRef DataDirectory]
  {regexMatch : RegexMatch} {e e' : EngineState IndexRef DataDirectory}
  {m : TableM IndexRef DataDirectory PUnit} {explicitDbName tableName dbName : ByteString}
  {table : Table ByteString IndexRef}

/-- A statement on a table ends as its rows do, unless there is a table that cannot be saved,
and leaves alone what has nothing in common with the files of its indexes. -/
theorem ends_executeOnTable_own
    (layered : OverDirectories x d DataDirectory.directories
      fun w directories => { w with directories })
    (own : OwnIndexes m) (houses : e.world.directories.Houses e.dbms)
    (resolved : Engine.resolveTable e.dbms explicitDbName tableName = .ok (dbName, table)) :
    Ends (Engine.executeOnTable explicitDbName tableName m) e
      (fun answer e' => Beside dbName tableName e.toDbmsState e'.toDbmsState ∧
        answer = text "OK" ∧ (answerOf m ⟨table, e.world⟩).1 = .ok ⟨⟩)
      (fun fault e' => Beside dbName tableName e.toDbmsState e'.toDbmsState ∧
        ((answerOf m ⟨table, e.world⟩).1 = .error fault ∨ ¬ e'.dbms.Listed)) := by
  have hfound := resolveTable_ok resolved
  let worlds := sharedObjects (IndexNumber table) e.world
  have hbeside : ∀ s' : TableState IndexRef DataDirectory, worlds.Related s'.world s'.world →
      Beside dbName tableName e.toDbmsState
        ⟨e.dbms.setTable dbName tableName s'.table, s'.world⟩ := by
    intro s' related
    refine ⟨Dbms.keys_setTable.2, Dbms.keys_setTable.1, fun k t hne => ?_, fun n hn => ?_⟩
    · rw [Dbms.table?_setTable ⟨table, hfound⟩, if_neg]
      rintro ⟨rfl, rfl⟩
      exact hne rfl
    · exact related.2.2.2 n fun k => hn table k hfound
  have hown := own (IndexNumber table) e.world ⟨table, e.world⟩ ⟨table, e.world⟩
    ⟨rfl, covered_indexNumber table, sharedObjects_self fun _ _ => rfl⟩
  unfold Engine.executeOnTable
  rw [Engine.onDbms, ends_zoom, ends_bind, ends_get, ends_bind, resolved, fromExcept_ok, ends_pure,
    ends_bind]
  change Ends (Dbms.onTable dbName tableName table m) e.toDbmsState _ _
  rw [Dbms.onTable, ends_zoom]
  unfold Follows at hown
  cases hrun : m ⟨table, e.world⟩ with
  | error fault s' =>
      rw [hrun] at hown
      rw [ends_of_error hrun]
      refine ⟨?_, .inl (by rw [answerOf, hrun])⟩
      cases hown with
      | error _ related => exact hbeside s' related.2.2
      | spent spent => exact spent.elim
      | noAnswer refused => exact refused.elim
  | ok _ s' =>
      rw [hrun] at hown
      rw [ends_of_ok hrun]
      cases hown with
      | ok _ related =>
          have hrows := hbeside s' related.2.2
          have hsaved : ∀ dirs, Beside dbName tableName e.toDbmsState
              ⟨e.dbms.setTable dbName tableName s'.table, { s'.world with directories := dirs }⟩ :=
            fun dirs => ⟨hrows.active, hrows.keys, hrows.tables, hrows.parts⟩
          have hhouses : s'.world.directories.Houses (e.dbms.setTable dbName tableName s'.table) := by
            rw [related.2.2.1]
            exact houses.setTable dbName tableName s'.table
          rw [ends_bind]
          refine (layered.ends_saveAll hhouses).mono ?_ ?_
          · rintro _ _ ⟨dirs, rfl, -⟩
            exact ⟨hsaved dirs, rfl, by rw [answerOf, hrun]⟩
          · rintro _ _ ⟨dirs, rfl, -, -, unlisted⟩
            exact ⟨hsaved dirs, .inr unlisted⟩

/-- The answer to a statement on a table is that of its rows. -/
theorem answer_executeOnTable
    (layered : OverDirectories x d DataDirectory.directories
      fun w directories => { w with directories })
    (own : OwnIndexes m) (houses : e.world.directories.Houses e.dbms)
    (resolved : Engine.resolveTable e.dbms explicitDbName tableName = .ok (dbName, table))
    (listed : (answerOf (Engine.executeOnTable explicitDbName tableName m) e).2.dbms.Listed) :
    (answerOf (Engine.executeOnTable explicitDbName tableName m) e).1 =
      (answerOf m ⟨table, e.world⟩).1.map fun _ => text "OK" := by
  have hends := ends_executeOnTable_own layered own houses resolved
  unfold Ends at hends
  rw [answerOf] at listed ⊢
  cases hrun : Engine.executeOnTable explicitDbName tableName m e with
  | ok answer e' =>
      rw [hrun] at hends
      obtain ⟨-, rfl, hrows⟩ := hends
      rw [hrows]
      rfl
  | error fault e' =>
      rw [hrun] at hends listed
      rw [hends.2.resolve_right (not_not.mpr listed)]
      rfl

theorem answer_executeOnTable_alike
    (layered : OverDirectories x d DataDirectory.directories
      fun w directories => { w with directories })
    (own : OwnIndexes m) (houses : e.world.directories.Houses e.dbms)
    (houses' : e'.world.directories.Houses e'.dbms)
    (alike : AlikeAt (namedDatabase e.dbms.active explicitDbName) tableName e.toDbmsState
      e'.toDbmsState)
    (listed : (answerOf (Engine.executeOnTable explicitDbName tableName m) e).2.dbms.Listed)
    (listed' : (answerOf (Engine.executeOnTable explicitDbName tableName m) e').2.dbms.Listed) :
    (answerOf (Engine.executeOnTable explicitDbName tableName m) e').1 =
      (answerOf (Engine.executeOnTable explicitDbName tableName m) e).1 := by
  have hsame := resolveTable_congr alike.active alike.keys alike.table
  have hunresolved : ∀ (e : EngineState IndexRef DataDirectory) fault,
      Engine.resolveTable e.dbms explicitDbName tableName = .error fault →
      (answerOf (Engine.executeOnTable explicitDbName tableName m) e).1 = .error fault := by
    intro e fault h
    have hrun : Engine.executeOnTable explicitDbName tableName m e = .error fault e := by
      unfold Engine.executeOnTable
      rw [ExecutorService.onDbms_get, h]
      rfl
    rw [answerOf, hrun]
  cases resolved : Engine.resolveTable e.dbms explicitDbName tableName with
  | error fault => rw [hunresolved e fault resolved, hunresolved e' fault (hsame.trans resolved)]
  | ok found =>
      obtain ⟨dbName, table⟩ := found
      have hfound := resolveTable_ok resolved
      rw [resolveTable_name resolved] at hfound
      rw [answer_executeOnTable layered own houses resolved listed,
        answer_executeOnTable layered own houses' (hsame.trans resolved) listed']
      have hrows := own (IndexNumber table) e'.world ⟨table, e'.world⟩ ⟨table, e.world⟩
        ⟨rfl, covered_indexNumber table, sharedObjects_self (alike.parts table hfound)⟩
      rw [(hrows.answerOf_eq (fun _ _ h => h) fun h => h).1]

omit d in
/-- SELECT only reads. -/
theorem ends_executeSelect_same (cmd : SelectCmd) :
    Ends (Engine.executeSelect regexMatch cmd) e (fun _ e' => e'.toDbmsState = e.toDbmsState)
      (fun _ e' => e'.toDbmsState = e.toDbmsState) := by
  unfold Engine.executeSelect
  rw [ends_bind, ends_get, ends_bind, ends_fromExcept]
  refine ⟨?_, fun _ _ => rfl⟩
  rintro ⟨dbName, table⟩ -
  rw [ends_bind, ends_fromExcept]
  refine ⟨?_, fun _ _ => rfl⟩
  rintro ⟨candidates, usedIndex⟩ -
  rw [ends_bind, ends_modify, ends_bind, ends_fromExcept]
  exact ⟨fun _ _ => rfl, fun _ _ => rfl⟩

omit d in
theorem answer_executeSelect_alike
    (follow : ∀ S u, IndexesFollow (fun i => S i.index.number) x x (sharedObjects S u))
    (cmd : SelectCmd)
    (alike : AlikeAt (namedDatabase e.dbms.active cmd.dbName) cmd.tableName e.toDbmsState
      e'.toDbmsState) :
    (answerOf (Engine.executeSelect regexMatch cmd) e').1 =
      (answerOf (Engine.executeSelect regexMatch cmd) e).1 := by
  have hsame := resolveTable_congr alike.active alike.keys alike.table
  -- The answers are all that is compared.
  let answers : Coupling Fault (EngineState IndexRef DataDirectory)
      (EngineState IndexRef DataDirectory) := ⟨fun _ _ => True, fun _ => False, fun _ => False⟩
  have hfollows : Follows answers (Engine.executeSelect regexMatch cmd)
      (Engine.executeSelect regexMatch cmd) e' e := by
    unfold Engine.executeSelect
    rw [follows_get_bind, hsame]
    cases resolved : Engine.resolveTable e.dbms cmd.dbName cmd.tableName with
    | error fault => exact follows_throw fault trivial
    | ok found =>
        obtain ⟨dbName, table⟩ := found
        have hfound := resolveTable_ok resolved
        rw [resolveTable_name resolved] at hfound
        rw [fromExcept_ok, pure_bind, pure_bind]
        dsimp only
        rw [collectCandidateRows_eq (follow (IndexNumber table) e'.world)
          (covered_indexNumber table) (sharedObjects_self (alike.parts table hfound))]
        refine (follows_fromExcept _ trivial).bind ?_
        rintro ⟨candidates, usedIndex⟩ e₁ e₁' -
        refine (follows_modify trivial).bind fun _ e₂ e₂' _ => ?_
        exact (follows_fromExcept _ trivial).bind fun _ _ _ _ => follows_pure _ trivial
  exact (hfollows.answerOf_eq (fun _ _ h => h) fun h => h).1

/-! ## Commands -/

/-- The table on which a statement reads or changes rows. -/
def namedTable (active : ByteString) : Command → Option (ByteString × ByteString)
  | .insert cmd => some (namedDatabase active cmd.dbName, cmd.tableName)
  | .update cmd => some (namedDatabase active cmd.dbName, cmd.tableName)
  | .delete cmd => some (namedDatabase active cmd.dbName, cmd.tableName)
  | .select cmd => some (namedDatabase active cmd.dbName, cmd.tableName)
  | _ => none

section OwnIndexes

variable (follow : ∀ S u, IndexesFollow (fun i => S i.index.number) x x (sharedObjects S u))

include follow

omit d in
theorem ownIndexes_insertRows (columns : List ByteString)
    (rows : List (List (Option ParserValue))) : OwnIndexes (insertRows columns rows) :=
  fun S u _ _ related => follows_insertRows (follow S u) columns rows related

omit d in
theorem ownIndexes_updateRows (assignments : List Assignment) (where_ : Option Condition) :
    OwnIndexes (updateRows regexMatch assignments where_) :=
  fun S u _ _ related => follows_updateRows (follow S u) assignments where_ related

omit d in
theorem ownIndexes_deleteRows (where_ : Option Condition) :
    OwnIndexes (deleteRows regexMatch where_) :=
  fun S u _ _ related => follows_deleteRows (follow S u) where_ related

end OwnIndexes

theorem ends_executeOnTable_beside
    (layered : OverDirectories x d DataDirectory.directories
      fun w directories => { w with directories })
    (own : OwnIndexes m) (houses : e.world.directories.Houses e.dbms) :
    Ends (Engine.executeOnTable explicitDbName tableName m) e
      (fun _ e' => Beside (namedDatabase e.dbms.active explicitDbName) tableName e.toDbmsState
        e'.toDbmsState)
      (fun _ e' => Beside (namedDatabase e.dbms.active explicitDbName) tableName e.toDbmsState
        e'.toDbmsState) := by
  cases resolved : Engine.resolveTable e.dbms explicitDbName tableName with
  | error fault =>
      unfold Engine.executeOnTable
      rw [Engine.onDbms, ends_zoom, ends_bind, ends_get, ends_bind, resolved]
      exact .refl _ _ _
  | ok found =>
      obtain ⟨dbName, table⟩ := found
      rw [← resolveTable_name resolved]
      exact (ends_executeOnTable_own layered own houses resolved).mono (fun _ _ h => h.1)
        fun _ _ h => h.1

variable {command : Command}

theorem ends_executeCommand_beside
    (layered : OverDirectories x d DataDirectory.directories
      fun w directories => { w with directories })
    (follow : ∀ S u, IndexesFollow (fun i => S i.index.number) x x (sharedObjects S u))
    (houses : e.world.directories.Houses e.dbms)
    (named : namedTable e.dbms.active command = some (dbName, tableName)) :
    Ends (Engine.executeCommand regexMatch command) e
      (fun _ e' => Beside dbName tableName e.toDbmsState e'.toDbmsState)
      (fun _ e' => Beside dbName tableName e.toDbmsState e'.toDbmsState) := by
  cases command with
  | insert cmd =>
      cases named
      exact ends_executeOnTable_beside layered (ownIndexes_insertRows follow _ _) houses
  | update cmd =>
      cases named
      exact ends_executeOnTable_beside layered (ownIndexes_updateRows follow _ _) houses
  | delete cmd =>
      cases named
      exact ends_executeOnTable_beside layered (ownIndexes_deleteRows follow _) houses
  | select cmd =>
      have hrefl : ∀ e' : EngineState IndexRef DataDirectory, e'.toDbmsState = e.toDbmsState →
          Beside dbName tableName e.toDbmsState e'.toDbmsState :=
        fun _ h => h ▸ .refl _ _ _
      exact (ends_executeSelect_same cmd).mono (fun _ e' h => hrefl e' h) fun _ e' h => hrefl e' h
  | _ => cases named

theorem answer_executeCommand_alike
    (layered : OverDirectories x d DataDirectory.directories
      fun w directories => { w with directories })
    (follow : ∀ S u, IndexesFollow (fun i => S i.index.number) x x (sharedObjects S u))
    (houses : e.world.directories.Houses e.dbms) (houses' : e'.world.directories.Houses e'.dbms)
    (named : namedTable e.dbms.active command = some (dbName, tableName))
    (alike : AlikeAt dbName tableName e.toDbmsState e'.toDbmsState)
    (listed : changesData command = true →
      (answerOf (Engine.executeCommand regexMatch command) e).2.dbms.Listed)
    (listed' : changesData command = true →
      (answerOf (Engine.executeCommand regexMatch command) e').2.dbms.Listed) :
    (answerOf (Engine.executeCommand regexMatch command) e').1 =
      (answerOf (Engine.executeCommand regexMatch command) e).1 := by
  cases command with
  | insert cmd =>
      cases named
      exact answer_executeOnTable_alike layered (ownIndexes_insertRows follow _ _) houses houses'
        alike (listed rfl) (listed' rfl)
  | update cmd =>
      cases named
      exact answer_executeOnTable_alike layered (ownIndexes_updateRows follow _ _) houses houses'
        alike (listed rfl) (listed' rfl)
  | delete cmd =>
      cases named
      exact answer_executeOnTable_alike layered (ownIndexes_deleteRows follow _) houses houses'
        alike (listed rfl) (listed' rfl)
  | select cmd =>
      cases named
      exact answer_executeSelect_alike follow cmd alike
  | _ => cases named

end Statements

/-! ## Queries -/

open Engine

/-- The table on which a query reads or changes rows, given the database in use. -/
def queryTable (active query : ByteString) : Option (ByteString × ByteString) :=
  match parseQuery query with
  | .ok command => namedTable active command
  | .error _ => none

theorem queryTable_eq_some {active query : ByteString} {names : ByteString × ByteString}
    (h : queryTable active query = some names) :
    ∃ command, parseQuery query = .ok command ∧ namedTable active command = some names := by
  unfold queryTable at h
  cases hparse : parseQuery query with
  | ok command =>
      rw [hparse] at h
      exact ⟨command, rfl, h⟩
  | error fault =>
      rw [hparse] at h
      cases h

/-- A statement on one table does not change what a statement on another one answers, where the
files of their indexes are apart and, if it saves the databases, every table can be saved. -/
theorem answer_onFiles_other {regexMatch : RegexMatch} {e : EngineState IndexRef DataDirectory}
    {first second : ByteString} {names names' : ByteString × ByteString}
    (orderly : Orderly e.world.directories e.dbms)
    (named : queryTable e.dbms.active first = some names)
    (named' : queryTable e.dbms.active second = some names') (other : names' ≠ names)
    (apart : TablesApart e.toDbmsState names names')
    (listed : ∀ command, parseQuery second = .ok command → changesData command = true →
      (onFiles regexMatch second e).2.dbms.Listed ∧
      (onFiles regexMatch second (onFiles regexMatch first e).2).2.dbms.Listed) :
    (onFiles regexMatch second (onFiles regexMatch first e).2).1 =
      (onFiles regexMatch second e).1 := by
  let := DataDirectory.index
  let := DataDirectory.root
  obtain ⟨command, parsed, named⟩ := queryTable_eq_some named
  obtain ⟨command', parsed', named'⟩ := queryTable_eq_some named'
  have hquery : ∀ {query command} (_ : parseQuery query = .ok command) e,
      onFiles regexMatch query e = answerOf (Engine.executeCommand regexMatch command) e := by
    intro query command parsed e
    rw [onFiles, answerOf, answerOf, execute_parsed parsed e]
  have hbeside : Beside names.1 names.2 e.toDbmsState (onFiles regexMatch first e).2.toDbmsState := by
    rw [hquery parsed]
    exact (ends_executeCommand_beside overDirectories_files sharedObjects_follow orderly.houses
      named).of_answerOf
  have hafter : Orderly (onFiles regexMatch first e).2.world.directories
      (onFiles regexMatch first e).2.dbms := (step_onFiles first orderly).1
  rw [hquery parsed', hquery parsed']
  rw [hquery parsed', hquery parsed'] at listed
  exact answer_executeCommand_alike overDirectories_files sharedObjects_follow orderly.houses
    hafter.houses named' (hbeside.alikeAt other apart) (fun h => (listed _ parsed' h).1)
    fun h => (listed _ parsed' h).2

/-- Every query leaves the directories in order. -/
theorem orderly_onFiles {regexMatch : RegexMatch} : ∀ (queries : List ByteString)
    {e : EngineState IndexRef DataDirectory}, Orderly e.world.directories e.dbms →
    Orderly (runMachine (onFiles regexMatch) queries e).2.world.directories
      (runMachine (onFiles regexMatch) queries e).2.dbms
  | [], _, orderly => orderly
  | query :: queries, _, orderly => by
      rw [runMachine]
      exact orderly_onFiles queries (step_onFiles query orderly).1

end CwDb.Executor
