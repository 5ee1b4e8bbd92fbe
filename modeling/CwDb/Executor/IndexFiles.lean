/-
  Executor/IndexFiles.lean --- the engine with its index files.

  An index file gives out an error or loses its keys where a key is too long for it, and it
  outlives its table.  The engine over maps within the limits of index files has no answer
  there; everywhere else the engine answers as if its indexes were maps.
-/
import CwDb.Executor.EngineRuns
import CwDb.Executor.EngineSimulation
import CwDb.Foundation.Machine
import CwDb.Index.TreeShape

set_option autoImplicit false

namespace CwDb.Executor

open CwDb.Cpp
open CwDb.Foundation
open CwDb.Index
open CwDb.Sql
open CwDb.Storage

/-! ## The engines -/

namespace Engine

/-- The engine before the first query, with no database. -/
def start {ι ω : Type} (w : ω) : EngineState ι ω := { dbms := {}, world := w }

/-- `DbmsQueryEngine::execute` over the data directory. -/
def onFiles (regexMatch : RegexMatch) (query : ByteString)
    (e : EngineState IndexRef DataDirectory) :
    Except Fault ByteString × EngineState IndexRef DataDirectory :=
  answerOf (@execute _ _ DataDirectory.index DataDirectory.root regexMatch query) e

/-- The same with maps for indexes. -/
def onMaps (regexMatch : RegexMatch) (query : ByteString) (e : EngineState IndexRef MapDirectory) :
    Except Fault ByteString × EngineState IndexRef MapDirectory :=
  answerOf (execute regexMatch query) e

/-- The same within the limits of index files. -/
def withinLimits (regexMatch : RegexMatch) (query : ByteString)
    (e : EngineState IndexRef MapDirectory) :
    Except Fault ByteString × EngineState IndexRef MapDirectory :=
  answerOf (@execute _ _ MapDirectory.storableIndex MapDirectory.freshRoot regexMatch query) e

/-- The constructor finds nothing in an empty directory. -/
theorem construct_start : @construct _ _ DataDirectory.index DataDirectory.root
    (start (ι := IndexRef) {}) = .ok ⟨⟩ (start {}) := rfl

end Engine

open Engine

variable {regexMatch : RegexMatch}

/-! ## Answers -/

/-- An engine that follows the one within the limits answers as that one does. -/
theorem mimics_withinLimits {ω : Type} {x : IIndex IndexRef ω} {d : DataRoot IndexRef ω}
    {c : Coupling Fault ω MapDirectory}
    (h : IndexesFollow (fun _ => True) x MapDirectory.storableIndex c)
    (hd : RootFollows d MapDirectory.freshRoot c) (refuses : ∀ e, c.NoAnswer e → e = .diverges) :
    Mimics (fun query e' => (withinLimits regexMatch query e').1 ≠ .error .diverges)
      (fun e => ¬ c.Spent e.world) (engineCoupling c).Related
      (fun query => answerOf (@execute _ _ x d regexMatch query)) (withinLimits regexMatch) := by
  have hstep : ∀ query e e', (withinLimits regexMatch query e').1 ≠ .error .diverges →
      (engineCoupling c).Related e e' →
      ¬ c.Spent (answerOf (@execute _ _ x d regexMatch query) e).2.world →
      (answerOf (@execute _ _ x d regexMatch query) e).1 = (withinLimits regexMatch query e').1 ∧
        (engineCoupling c).Related (answerOf (@execute _ _ x d regexMatch query) e).2
          (withinLimits regexMatch query e').2 := by
    intro query e e' answered related unspent
    refine (follows_execute h hd query related).answerOf_eq (fun fault hfault hno => ?_) unspent
    rw [refuses fault hno] at hfault
    exact answered hfault
  exact ⟨fun query e e' answered related unspent => (hstep query e e' answered related unspent).1,
    fun query e e' answered related unspent => (hstep query e e' answered related unspent).2⟩

section Runs

variable {queries : List ByteString}

/-- The engine over files, as long as they have room, answers as the one within the limits. -/
theorem run_onFiles
    (room : StaysIn (fun e => e.world.HasRoom) (onFiles regexMatch) queries (start {}))
    (answered : ∀ a ∈ (runMachine (withinLimits regexMatch) queries (start {})).1,
      a ≠ .error .diverges) :
    (runMachine (onFiles regexMatch) queries (start {})).1 =
        (runMachine (withinLimits regexMatch) queries (start {})).1 ∧
      (engineCoupling filesCoupling).Related
        (runMachine (onFiles regexMatch) queries (start {})).2
        (runMachine (withinLimits regexMatch) queries (start {})).2 :=
  (mimics_withinLimits files_follow files_root_follow fun _ h => h).run queries
    ⟨⟨rfl, rfl, rfl, rfl, nofun⟩, rfl⟩ (allowedAlong_of_answers answered)
    fun n => not_not.mpr (room n)

/-- The engine over maps answers as the one within the limits, and is in the same state. -/
theorem run_onMaps
    (answered : ∀ a ∈ (runMachine (withinLimits regexMatch) queries (start {})).1,
      a ≠ .error .diverges) :
    (runMachine (onMaps regexMatch) queries (start {})).1 =
        (runMachine (withinLimits regexMatch) queries (start {})).1 ∧
      (engineCoupling limitsCoupling).Related
        (runMachine (onMaps regexMatch) queries (start {})).2
        (runMachine (withinLimits regexMatch) queries (start {})).2 :=
  (mimics_withinLimits maps_follow maps_root_follow fun _ h => h).run queries
    ⟨⟨rfl, rfl⟩, rfl⟩ (allowedAlong_of_answers answered) fun _ h => h

/-- Files and maps are in related states. -/
theorem run_mirrored
    (room : StaysIn (fun e => e.world.HasRoom) (onFiles regexMatch) queries (start {}))
    (answered : ∀ a ∈ (runMachine (withinLimits regexMatch) queries (start {})).1,
      a ≠ .error .diverges) :
    (engineCoupling filesCoupling).Related
      (runMachine (onFiles regexMatch) queries (start {})).2
      (runMachine (onMaps regexMatch) queries (start {})).2 := by
  obtain ⟨⟨hdbms, hworld⟩, hused⟩ := (run_onFiles room answered).2
  obtain ⟨⟨hdbms', hworld'⟩, hused'⟩ := (run_onMaps answered).2
  refine ⟨⟨hdbms.trans hdbms'.symm, ?_⟩, hused.trans hused'.symm⟩
  have hsame : (runMachine (onMaps regexMatch) queries (start {})).2.world = _ := hworld'
  rw [hsame]
  exact hworld

/-- The engine answers as if its indexes were maps: from an empty data directory on, whatever
the queries, as long as no index file is full, no key is too long for an index file, and no
table is created over the index file of an earlier one. -/
theorem files_answer_as_maps
    (room : StaysIn (fun e => e.world.HasRoom) (onFiles regexMatch) queries (start {}))
    (answered : ∀ a ∈ (runMachine (withinLimits regexMatch) queries (start {})).1,
      a ≠ .error .diverges) :
    (runMachine (onFiles regexMatch) queries (start {})).1 =
        (runMachine (onMaps regexMatch) queries (start {})).1 ∧
      (runMachine (onFiles regexMatch) queries (start {})).2.dbms =
        (runMachine (onMaps regexMatch) queries (start {})).2.dbms :=
  ⟨(run_onFiles room answered).1.trans (run_onMaps answered).1.symm,
    (run_mirrored room answered).1.1⟩

/-! ## What the index files hold -/

theorem inv_onMaps (queries : List ByteString) :
    EngineInv (runMachine (onMaps regexMatch) queries (start {})).2.toDbmsState := by
  have hreach : ReachableClear regexMatch
      (runMachine (onMaps regexMatch) queries (start {})).2 := by
    refine runMachine_keeps (fun query e reach => ?_) queries
      (.start (w := {}) rfl (EngineInv.of_noTable fun _ _ => rfl))
    -- every index is a new map
    have hclear : ∀ cmd, parseQuery query = .ok (.createTable cmd) → MakesClear cmd e :=
      fun _ _ _ _ _ _ _ _ _ _ => trivial
    unfold onMaps answerOf
    cases hrun : execute regexMatch query e with
    | ok response e' => exact reach.answered query hclear hrun
    | error fault e' => exact reach.thrown query hclear hrun
  exact hreach.inv fun _ spent => spent

/-- An index answers for a column of a table: all values in the column are keys of its kind, and
it is a tree that leads from every one of them to the row with that value. -/
structure AnswersFor (idx : BStarPlusIndex) (table : Table ByteString IndexRef) (column : Nat) :
    Prop where
  wellFormed : idx.WellFormed
  keys : ∀ id v, table.Stored id column v →
    ∃ key, v = ofIndexKey key ∧ keyMatchesKind key idx.metadata.keyKind = true
  answers : ∃ m, table.Tracks column m ∧
    (∀ key, keyMatchesKind key idx.metadata.keyKind = true →
      idx.find key = .ok (m (ofIndexKey key))) ∧
    ∀ low high, keyMatchesKind low idx.metadata.keyKind = true →
      keyMatchesKind high idx.metadata.keyKind = true →
      ∃ records, idx.rangeSearch low high = .ok records ∧
        m.IsRange (ofIndexKey low) (ofIndexKey high) records

theorem answersFor_of_mirrors {idx : BStarPlusIndex} {map : KeyedMap}
    {table : Table ByteString IndexRef} {column : Nat}
    (mirrors : BStarPlusIndex.Mirrors map.kind idx map.map)
    (tracks : table.Tracks column map.values)
    (keys : ∀ id v, table.Stored id column v →
      ∃ key, v = ofIndexKey key ∧ keyMatchesKind key map.kind = true) :
    AnswersFor idx table column := by
  refine ⟨mirrors.contents.wellFormed, mirrors.kind ▸ keys, map.values, tracks, ?_, ?_⟩
  · intro key valid
    rw [mirrors.kind] at valid
    rw [find_mirrors mirrors, KeyedMap.find_eq valid, KeyedMap.values_ofIndexKey]
  · intro low high validLow validHigh
    rw [mirrors.kind] at validLow validHigh
    exact ⟨_, (rangeSearch_mirrors mirrors).trans (KeyedMap.rangeSearch_eq validLow validHigh),
      KeyedMap.isRange_range validLow validHigh⟩

/-- Index files hold what the columns hold: after any queries every index that a table has is a
well-formed tree over exactly the values of its column, and no two columns share an index. -/
theorem index_files_hold_columns
    (room : StaysIn (fun e => e.world.HasRoom) (onFiles regexMatch) queries (start {}))
    (answered : ∀ a ∈ (runMachine (withinLimits regexMatch) queries (start {})).1,
      a ≠ .error .diverges)
    {dbName tableName : ByteString} {table : Table ByteString IndexRef} {column : Nat}
    {i : IndexRef}
    (found : (runMachine (onFiles regexMatch) queries (start {})).2.dbms.table? dbName tableName =
      some table)
    (attached : table.indexes.find? column = some i) :
    (∃ idx, (runMachine (onFiles regexMatch) queries (start {})).2.world.object? i.index.number =
      some idx ∧ idx.metadata.keyKind = i.index.keyKind ∧ AnswersFor idx table column) ∧
    ∀ dbName' tableName' table' column' i',
      (runMachine (onFiles regexMatch) queries (start {})).2.dbms.table? dbName' tableName' =
        some table' → table'.indexes.find? column' = some i' →
      i'.index.number = i.index.number →
      dbName' = dbName ∧ tableName' = tableName ∧ column' = column := by
  obtain ⟨hdbms, hmirrored⟩ := (run_mirrored room answered).1
  have inv : EngineInv (runMachine (onMaps regexMatch) queries (start {})).2.toDbmsState :=
    inv_onMaps queries
  rw [hdbms] at found ⊢
  refine ⟨?_, ?_⟩
  · obtain ⟨_, ⟨map, hmap, hkind, rfl⟩, htracks⟩ :=
      (inv.sound dbName tableName table found).tracked column i attached
    rcases hmirrored.cases i.index.number with ⟨-, hnone⟩ | ⟨idx, map', hidx, hmap', hmirrors⟩
    · rw [hmap] at hnone
      cases hnone
    · obtain rfl : map' = map := Option.some.inj (hmap'.symm.trans hmap)
      have hkeys : ∀ id v, table.Stored id column v → LawfulIndex.Admits (ω := MapDirectory) i v :=
        fun id v => (inv.sound dbName tableName table found).admitted column i id v attached
      exact ⟨idx, hidx, hmirrors.kind.trans hkind,
        answersFor_of_mirrors hmirrors htracks (hkind ▸ hkeys)⟩
  · intro dbName' tableName' table' column' i' found' attached' same
    by_cases hname : (dbName', tableName') = (dbName, tableName)
    · obtain ⟨rfl, rfl⟩ := Prod.mk.inj hname
      obtain rfl : table' = table := Option.some.inj (found'.symm.trans found)
      refine ⟨rfl, rfl, by_contra fun hne => ?_⟩
      exact (inv.sound _ _ _ found).apart column' column i' i hne attached' attached same
    · exact absurd same (inv.apart _ _ table' _ _ table column' column i' i hname found' found
        attached' attached)

end Runs

/-! ## A duplicate -/

/-- An answer that a program gives. -/
def isAnswer : Except Fault ByteString → Bool
  | .error .diverges => false
  | .error .outOfBounds => false
  | _ => true

theorem ne_diverges_of_isAnswer {a : Except Fault ByteString} (h : isAnswer a = true) :
    a ≠ .error .diverges := by
  rintro rfl
  cases h

theorem hasRoom_of_all {w : DataDirectory}
    (h : (w.files.all fun file => file.size < 2 ^ 63) = true) : w.HasRoom :=
  fun file hfile => by simpa using List.all_eq_true.mp h file hfile

/-- One row is inserted twice. -/
def insertedTwice : List ByteString :=
  [text "CREATE DATABASE d", text "USE d", text "CREATE TABLE t (id INT INDEXED)",
    text "INSERT INTO t VALUE (5)", text "INSERT INTO t VALUE (5)",
    text "SELECT id FROM t WHERE id == 5"]

theorem room_insertedTwice : StaysIn (fun e => e.world.HasRoom) (onFiles fun _ _ => .ok false)
    insertedTwice (start {}) := by
  refine staysIn_of_le fun n hn => hasRoom_of_all ?_
  revert n
  decide +kernel

theorem answered_insertedTwice :
    ∀ a ∈ (runMachine (withinLimits fun _ _ => .ok false) insertedTwice (start {})).1,
      a ≠ .error .diverges := by
  refine fun a ha => ne_diverges_of_isAnswer ?_
  revert a
  decide +kernel

theorem files_answer_as_maps_of_duplicate :
    (runMachine (onFiles fun _ _ => .ok false) insertedTwice (start {})).1 =
      [.ok (text "OK"), .ok (text "OK"), .ok (text "OK"), .ok (text "OK"),
        raise .invalidArgument (text "Table::validate: duplicate value in indexed column 'id'"),
        .ok (text "[\x7b\"id\":5\x7d]")] := by
  refine (files_answer_as_maps room_insertedTwice answered_insertedTwice).1.trans ?_
  decide +kernel

theorem index_files_hold_columns_of_duplicate : ∃ table : Table ByteString IndexRef,
    ∃ (i : IndexRef) (idx : BStarPlusIndex),
      (runMachine (onFiles fun _ _ => .ok false) insertedTwice (start {})).2.dbms.table? (text "d")
        (text "t") = some table ∧ table.order = [1] ∧ table.indexes.find? 0 = some i ∧
      (runMachine (onFiles fun _ _ => .ok false) insertedTwice (start {})).2.world.object?
        i.index.number = some idx ∧ AnswersFor idx table 0 := by
  have attached : (((runMachine (onFiles fun _ _ => .ok false) insertedTwice
      (start {})).2.dbms.table? (text "d") (text "t")).map
        fun table => (table.order, (table.indexes.find? 0).isSome)) = some ([1], true) := by
    decide +kernel
  obtain ⟨table, found, hview⟩ := Option.map_eq_some_iff.mp attached
  obtain ⟨horder, hsome⟩ := Prod.mk.inj hview
  obtain ⟨i, hi⟩ := Option.isSome_iff_exists.mp hsome
  obtain ⟨⟨idx, hobject, -, answers⟩, -⟩ :=
    index_files_hold_columns room_insertedTwice answered_insertedTwice found hi
  exact ⟨table, i, idx, found, horder, hi, hobject, answers⟩

end CwDb.Executor
