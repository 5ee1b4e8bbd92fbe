/-
  Executor/RowChanges.lean --- what UPDATE and DELETE do to a database.

  Where every index began empty, an UPDATE or a DELETE changes just the rows that its
  condition picks.  DROP TABLE leaves the index files behind, and CREATE TABLE opens them
  again with the keys of the old rows; after that a DELETE can miss a row.
-/
import CwDb.Executor.EngineRuns
import CwDb.Executor.IndexFiles
import CwDb.Storage.ReopenedIndexes

set_option autoImplicit false

namespace CwDb.Executor

open CwDb.Cpp
open CwDb.Foundation
open CwDb.Sql
open CwDb.Storage

section Effect

variable {ι ω : Type} [IIndex ι ω] [LawfulIndex ι ω]

/-- The statement has changed the named table alone, and its indexes hold its rows. -/
structure ChangedOnly (dbName tableName : ByteString) (table' : Table ByteString ι)
    (st st' : DbmsState ι ω) : Prop where
  databases : st'.dbms.databases.keys = st.dbms.databases.keys
  active : st'.dbms.active = st.dbms.active
  exact_ : ∀ column index, table'.indexes.find? column = some index →
    ∃ m, LawfulIndex.Holds st'.world index m ∧
      ∀ v id, m v = some id ↔ table'.Stored id column v
  tables : ∀ d t, (d, t) ≠ (dbName, tableName) → st'.dbms.table? d t = st.dbms.table? d t
  indexes : ∀ d t table column index m, (d, t) ≠ (dbName, tableName) →
    st.dbms.table? d t = some table → table.indexes.find? column = some index →
    LawfulIndex.Holds st.world index m → LawfulIndex.Holds st'.world index m

theorem OnlyTable.changedOnly {dbName tableName : ByteString} {st st' : DbmsState ι ω}
    {table' : Table ByteString ι} (only : OnlyTable dbName tableName st st')
    (found : st'.dbms.table? dbName tableName = some table') :
    ChangedOnly dbName tableName table' st st' :=
  ⟨only.databases, only.active, (only.inv.sound dbName tableName table' found).tracked,
    only.tables, only.indexes⟩

/-- The effect of an UPDATE or a DELETE that returns, as a function of the state before it and
by every access path, in every run that attaches only clear indexes. -/
theorem update_delete_effect [DataRoot ι ω] [LawfulDataRoot ι ω] {regexMatch : RegexMatch}
    {e e' : EngineState ι ω} {query response : ByteString} {command : Command}
    (unspent : ∀ t : TableState ι ω, ¬ t.Spent) (reach : ReachableClear regexMatch e)
    (parsed : parseQuery query = .ok command)
    (run : Engine.execute regexMatch query e = .ok response e') :
    (∀ cmd, command = .delete cmd →
      (∀ condition, cmd.where_ = some condition → LiteralBounds condition) →
      ∃ dbName table table',
        Engine.resolveTable e.dbms cmd.dbName cmd.tableName = .ok (dbName, table) ∧
        e'.dbms.table? dbName cmd.tableName = some table' ∧
        Deleted regexMatch cmd.where_ table table' ∧
        ChangedOnly dbName cmd.tableName table' e.toDbmsState e'.toDbmsState) ∧
    (∀ cmd, command = .update cmd →
      (∀ condition, cmd.where_ = some condition → LiteralBounds condition) →
      ∃ dbName table table',
        Engine.resolveTable e.dbms cmd.dbName cmd.tableName = .ok (dbName, table) ∧
        e'.dbms.table? dbName cmd.tableName = some table' ∧
        Updated regexMatch cmd.assignments cmd.where_ table table' ∧
        ChangedOnly dbName cmd.tableName table' e.toDbmsState e'.toDbmsState) := by
  have inv := reach.inv unspent
  unfold Engine.execute at run
  rw [parsed, fromExcept_ok, pure_bind] at run
  constructor
  · rintro cmd rfl literal
    have hends := inv.ends_executeOnTable (d := cmd.dbName) (t := cmd.tableName)
      (m := deleteRows regexMatch cmd.where_)
      (Q := Deleted regexMatch cmd.where_) fun s sound takes =>
        (ends_deleteRows unspent sound).mono (fun _ _ h => ⟨h.1, h.2 literal⟩) fun _ _ h => h
    obtain ⟨dbName, table, table', hresolve, hfound, honly, hdeleted⟩ := hends.of_ok run
    exact ⟨dbName, table, table', hresolve, hfound, hdeleted, honly.changedOnly hfound⟩
  · rintro cmd rfl literal
    have hends := inv.ends_executeOnTable (d := cmd.dbName) (t := cmd.tableName)
      (m := updateRows regexMatch cmd.assignments cmd.where_)
      (Q := Updated regexMatch cmd.assignments cmd.where_) fun s sound takes =>
        (ends_updateRows unspent sound takes).mono (fun _ _ h => ⟨h.1, h.2 literal⟩)
          fun _ _ h => h
    obtain ⟨dbName, table, table', hresolve, hfound, honly, hupdated⟩ := hends.of_ok run
    exact ⟨dbName, table, table', hresolve, hfound, hupdated, honly.changedOnly hfound⟩

end Effect

/-! ## Maps that outlive their tables -/

/-- `DbmsQueryEngine::execute` over maps that are opened again under the name of an index file. -/
def Engine.onKeptMaps (regexMatch : RegexMatch) (query : ByteString)
    (e : EngineState IndexRef MapDirectory) :
    Except Fault ByteString × EngineState IndexRef MapDirectory :=
  answerOf (@Engine.execute _ _ _ MapDirectory.reopeningRoot regexMatch query) e

open Engine

/-- A CREATE TABLE finds no index file of its columns. -/
def createsFresh (query : ByteString) (e : EngineState IndexRef MapDirectory) : Bool :=
  match parseQuery query with
  | .ok (.createTable cmd) =>
      match resolveDatabase e.dbms cmd.dbName, buildSchema cmd.columns with
      | .ok (_, db), .ok schema =>
          schema.columns.all fun c =>
            (e.world.directories.indexFile? db.name (indexFileName cmd.tableName c.name)).isNone
      | _, _ => true
  | _ => true

def createsFreshAlong (regexMatch : RegexMatch) :
    List ByteString → EngineState IndexRef MapDirectory → Bool
  | [], _ => true
  | query :: queries, e =>
      createsFresh query e && createsFreshAlong regexMatch queries (onKeptMaps regexMatch query e).2

theorem makesClear_of_createsFresh {query : ByteString} {e : EngineState IndexRef MapDirectory}
    (fresh : createsFresh query e = true) (cmd : CreateTableCmd)
    (parsed : parseQuery query = .ok (.createTable cmd)) :
    @MakesClear _ _ _ _ MapDirectory.reopeningRoot MapDirectory.lawfulReopeningRoot cmd e := by
  intro dbName db schema resolved built c hc _ number found
  simp only [createsFresh, parsed, resolved, built] at fresh
  rw [List.all_eq_true] at fresh
  have hnone := fresh c hc
  rw [found] at hnone
  cases hnone

section Runs

variable {regexMatch : RegexMatch}

/-- The engine starts over an empty data directory, and no CREATE TABLE finds an index file. -/
theorem reachableClear_of_fresh {queries : List ByteString}
    (fresh : createsFreshAlong regexMatch queries (start {}) = true) :
    @ReachableClear _ _ _ _ MapDirectory.reopeningRoot MapDirectory.lawfulReopeningRoot regexMatch
      (runMachine (onKeptMaps regexMatch) queries (start {})).2 := by
  let := MapDirectory.reopeningRoot
  let := MapDirectory.lawfulReopeningRoot
  have hrun : ∀ (queries : List ByteString) (e : EngineState IndexRef MapDirectory),
      ReachableClear regexMatch e → createsFreshAlong regexMatch queries e = true →
      ReachableClear regexMatch (runMachine (onKeptMaps regexMatch) queries e).2 := by
    intro queries
    induction queries with
    | nil => exact fun _ reach _ => reach
    | cons query queries ih =>
        intro e reach fresh
        rw [createsFreshAlong, Bool.and_eq_true] at fresh
        refine ih _ ?_ fresh.2
        have hclear := makesClear_of_createsFresh fresh.1
        unfold onKeptMaps answerOf
        cases hexecute : Engine.execute regexMatch query e with
        | ok response e' => exact reach.answered query hclear hexecute
        | error fault e' => exact reach.thrown query hclear hexecute
  exact hrun queries _ (.start (w := {}) rfl (EngineInv.of_noTable fun _ _ => rfl)) fresh

theorem reachable_onKeptMaps (queries : List ByteString) :
    @Reachable _ _ _ MapDirectory.reopeningRoot regexMatch
      (runMachine (onKeptMaps regexMatch) queries (start {})).2 := by
  let := MapDirectory.reopeningRoot
  refine runMachine_keeps (fun query e reach => ?_) queries
    (@Reachable.start _ _ _ _ _ {} {} .empty _ rfl (fun _ _ _ h => by cases h) rfl)
  unfold onKeptMaps answerOf
  cases hexecute : Engine.execute regexMatch query e with
  | ok response e' => exact reach.answered query hexecute
  | error fault e' => exact reach.thrown query hexecute

end Runs

/-! ## Two runs -/

section Instances

/-- No pattern matches. -/
private def noPattern : RegexMatch := fun _ _ => .ok false

private def columnIs (left right : ByteString) : Condition :=
  .ofSimple { left, leftIsColumn := true, op := .eq, right }

private theorem literalBounds_columnIs (left right : ByteString) :
    ∀ condition, some (columnIs left right) = some condition → LiteralBounds condition := by
  rintro _ ⟨⟩ a ha hop
  obtain rfl := List.mem_singleton.mp ha
  cases hop

/-- A table of two columns, the first with an index, and three rows. -/
private def threeRows : List ByteString :=
  [text "CREATE DATABASE d", text "USE d", text "CREATE TABLE t (id INT INDEXED, n INT)",
    text "INSERT INTO t (id, n) VALUES (1, 10), (2, 20), (3, 30)"]

/-- `n` is assigned twice. -/
private def updateOfTwo : ByteString := text "UPDATE t SET n = 5, n = 6 WHERE id == 2"

private def deleteOfTwo : ByteString := text "DELETE FROM t WHERE id == 2"

private def assignments : List Assignment := [⟨text "n", .int 5⟩, ⟨text "n", .int 6⟩]

private def updateTokens : List Token :=
  [⟨.kwUpdate, text "UPDATE", 1⟩, ⟨.identifier, text "t", 1⟩, ⟨.kwSet, text "SET", 1⟩,
    ⟨.identifier, text "n", 1⟩, ⟨.opAssign, text "=", 1⟩, ⟨.intLiteral, text "5", 1⟩,
    ⟨.comma, text ",", 1⟩, ⟨.identifier, text "n", 1⟩, ⟨.opAssign, text "=", 1⟩,
    ⟨.intLiteral, text "6", 1⟩, ⟨.kwWhere, text "WHERE", 1⟩, ⟨.identifier, text "id", 1⟩,
    ⟨.opEq, text "==", 1⟩, ⟨.intLiteral, text "2", 1⟩, ⟨.semicolon, text ";", 1⟩,
    ⟨.end_, [], 1⟩]

private def deleteTokens (value : ByteString) : List Token :=
  [⟨.kwDelete, text "DELETE", 1⟩, ⟨.kwFrom, text "FROM", 1⟩, ⟨.identifier, text "t", 1⟩,
    ⟨.kwWhere, text "WHERE", 1⟩, ⟨.identifier, text "id", 1⟩, ⟨.opEq, text "==", 1⟩,
    ⟨.intLiteral, value, 1⟩, ⟨.semicolon, text ";", 1⟩, ⟨.end_, [], 1⟩]

private theorem parse_updateOfTwo : parseQuery updateOfTwo =
    .ok (.update ⟨[], text "t", assignments, some (columnIs (text "id") (text "2"))⟩) :=
  parseQuery_ok (l := updateTokens) (by decide +kernel) rfl

private theorem parse_deleteOfTwo : parseQuery deleteOfTwo =
    .ok (.delete ⟨[], text "t", some (columnIs (text "id") (text "2"))⟩) :=
  parseQuery_ok (l := deleteTokens (text "2")) (by decide +kernel) rfl

private abbrev afterQueries (queries : List ByteString) : EngineState IndexRef MapDirectory :=
  (runMachine (onKeptMaps noPattern) queries (start {})).2

private abbrev executeOnKeptMaps (query : ByteString) (e : EngineState IndexRef MapDirectory) :
    EStateM.Result Fault (EngineState IndexRef MapDirectory) ByteString :=
  @Engine.execute _ _ _ MapDirectory.reopeningRoot noPattern query e

private theorem execute_of_answer {queries : List ByteString} {query response : ByteString}
    (answer : (onKeptMaps noPattern query (afterQueries queries)).1 = .ok response) :
    executeOnKeptMaps query (afterQueries queries) =
      .ok response (afterQueries (queries ++ [query])) := by
  have hnext : afterQueries (queries ++ [query]) =
      (onKeptMaps noPattern query (afterQueries queries)).2 := runMachine_concat_snd _ _ _ _
  rw [hnext]
  exact eq_ok_of_answerOf answer

/-- What is seen of the table that a statement on `t` resolves. -/
private def viewOfT {ω β : Type} (view : Table ByteString IndexRef → β)
    (e : EngineState IndexRef ω) : Option (ByteString × β) :=
  (resolveTable e.dbms [] (text "t")).toOption.map fun resolved => (resolved.1, view resolved.2)

private theorem viewOfT_eq_some {ω β : Type} {view : Table ByteString IndexRef → β}
    {e : EngineState IndexRef ω} {dbName : ByteString} {b : β}
    (h : viewOfT view e = some (dbName, b)) :
    ∃ table, resolveTable e.dbms [] (text "t") = .ok (dbName, table) ∧ view table = b := by
  unfold viewOfT at h
  cases hok : resolveTable e.dbms [] (text "t") with
  | ok resolved =>
      rw [hok] at h
      obtain ⟨rfl, rfl⟩ := Prod.mk.inj (Option.some.inj h)
      exact ⟨resolved.2, rfl, rfl⟩
  | error fault =>
      rw [hok] at h
      cases h

/-- A row is found through the index and updated, then found again and deleted. -/
theorem update_delete_effect_of_key : ∃ t t' t'' : Table ByteString IndexRef,
    @ReachableClear _ _ _ _ MapDirectory.reopeningRoot MapDirectory.lawfulReopeningRoot noPattern
      (afterQueries threeRows) ∧
    executeOnKeptMaps updateOfTwo (afterQueries threeRows) =
      .ok (text "OK") (afterQueries (threeRows ++ [updateOfTwo])) ∧
    executeOnKeptMaps deleteOfTwo (afterQueries (threeRows ++ [updateOfTwo])) =
      .ok (text "OK") (afterQueries (threeRows ++ [updateOfTwo] ++ [deleteOfTwo])) ∧
    resolveTable (afterQueries threeRows).dbms [] (text "t") = .ok (text "d", t) ∧
    resolveTable (afterQueries (threeRows ++ [updateOfTwo])).dbms [] (text "t") =
      .ok (text "d", t') ∧
    Updated noPattern assignments (some (columnIs (text "id") (text "2"))) t t' ∧
    Deleted noPattern (some (columnIs (text "id") (text "2"))) t' t'' ∧
    t.order = [1, 2, 3] ∧ t.rows.find? 2 = some [.int 2, .int 20] ∧
    t'.rows.find? 2 = some [.int 2, .int 6] ∧ t''.order = [1, 3] ∧
    ChangedOnly (text "d") (text "t") t''
      (afterQueries (threeRows ++ [updateOfTwo])).toDbmsState
      (afterQueries (threeRows ++ [updateOfTwo] ++ [deleteOfTwo])).toDbmsState := by
  let := MapDirectory.reopeningRoot
  let := MapDirectory.lawfulReopeningRoot
  have hunspent : ∀ t : TableState IndexRef MapDirectory, ¬ t.Spent := fun _ h => h
  have hreach : ReachableClear noPattern (afterQueries threeRows) :=
    reachableClear_of_fresh (by decide +kernel)
  have hupdate := @execute_of_answer threeRows updateOfTwo (text "OK") (by decide +kernel)
  have hdelete := @execute_of_answer (threeRows ++ [updateOfTwo]) deleteOfTwo (text "OK")
    (by decide +kernel)
  have hreach' : ReachableClear noPattern (afterQueries (threeRows ++ [updateOfTwo])) :=
    hreach.answered updateOfTwo (fun cmd h => by cases parse_updateOfTwo.symm.trans h) hupdate
  have hbefore : viewOfT (fun t => (t.order, t.rows.find? 2)) (afterQueries threeRows) =
      some (text "d", [1, 2, 3], some [.int 2, .int 20]) := by decide +kernel
  have hbetween : viewOfT (fun t => t.rows.find? 2)
      (afterQueries (threeRows ++ [updateOfTwo])) = some (text "d", some [.int 2, .int 6]) := by
    decide +kernel
  have hafter : viewOfT Table.order
      (afterQueries (threeRows ++ [updateOfTwo] ++ [deleteOfTwo])) = some (text "d", [1, 3]) := by
    decide +kernel
  obtain ⟨t, hresolve, ht⟩ := viewOfT_eq_some hbefore
  obtain ⟨horder, hrow⟩ := Prod.mk.inj ht
  obtain ⟨t', hresolve', hrow'⟩ := viewOfT_eq_some hbetween
  obtain ⟨t'', hresolve'', horder''⟩ := viewOfT_eq_some hafter
  obtain ⟨dbName, u, u', hu, hu', hupdated, -⟩ :=
    (update_delete_effect hunspent hreach parse_updateOfTwo hupdate).2 _ rfl
      (literalBounds_columnIs _ _)
  obtain ⟨rfl, rfl⟩ := Prod.mk.inj (Except.ok.inj (hu.symm.trans hresolve))
  obtain rfl : u' = t' := Option.some.inj (hu'.symm.trans (resolveTable_ok hresolve'))
  obtain ⟨dbName, v, v', hv, hv', hdeleted, honly⟩ :=
    (update_delete_effect hunspent hreach' parse_deleteOfTwo hdelete).1 _ rfl
      (literalBounds_columnIs _ _)
  obtain ⟨rfl, rfl⟩ := Prod.mk.inj (Except.ok.inj (hv.symm.trans hresolve'))
  obtain rfl : v' = t'' := Option.some.inj (hv'.symm.trans (resolveTable_ok hresolve''))
  exact ⟨_, _, _, hreach, hupdate, hdelete, hresolve, hresolve', hupdated, hdeleted, horder, hrow,
    hrow', horder'', honly⟩

/-- A table is dropped and created again, over the index file in which 5 is the key of row 1.
The UPDATE takes 6 out of the index and then throws, since it cannot put 5 in. -/
private def leftBehind : List ByteString :=
  [text "CREATE DATABASE d", text "USE d", text "CREATE TABLE t (id INT INDEXED)",
    text "INSERT INTO t VALUE (5)", text "DROP TABLE t", text "CREATE TABLE t (id INT INDEXED)",
    text "INSERT INTO t VALUE (6)", text "UPDATE t SET id = 5 WHERE id == 6"]

private def deleteOfSix : ByteString := text "DELETE FROM t WHERE id == 6"

private theorem parse_deleteOfSix : parseQuery deleteOfSix =
    .ok (.delete ⟨[], text "t", some (columnIs (text "id") (text "6"))⟩) :=
  parseQuery_ok (l := deleteTokens (text "6")) (by decide +kernel) rfl

/-- The row of the key 6 survives a DELETE of it, and the index keeps a key that no row has.
Over the files it is the same. -/
theorem delete_misses_row_of_recreated_table :
    (∃ t t' : Table ByteString IndexRef,
      @Reachable _ _ _ MapDirectory.reopeningRoot noPattern (afterQueries leftBehind) ∧
      parseQuery deleteOfSix =
        .ok (.delete ⟨[], text "t", some (columnIs (text "id") (text "6"))⟩) ∧
      executeOnKeptMaps deleteOfSix (afterQueries leftBehind) =
        .ok (text "OK") (afterQueries (leftBehind ++ [deleteOfSix])) ∧
      resolveTable (afterQueries leftBehind).dbms [] (text "t") = .ok (text "d", t) ∧
      (afterQueries (leftBehind ++ [deleteOfSix])).dbms.table? (text "d") (text "t") = some t' ∧
      passes noPattern t [.int 6] (some (columnIs (text "id") (text "6"))) = .ok true ∧
      t.rows.find? 1 = some [.int 6] ∧ t'.rows.find? 1 = some [.int 6] ∧
      ¬ Deleted noPattern (some (columnIs (text "id") (text "6"))) t t' ∧
      ∃ index m, t'.indexes.find? 0 = some index ∧
        LawfulIndex.Holds (afterQueries (leftBehind ++ [deleteOfSix])).world index m ∧
        m (.int 5) = some 1 ∧ ¬ t'.Stored 1 0 (.int 5)) ∧
    (runMachine (onFiles noPattern) (leftBehind ++ [deleteOfSix]) (start {})).1.getLast? =
      some (.ok (text "OK")) ∧
    viewOfT (fun t => t.rows.find? 1)
        (runMachine (onFiles noPattern) (leftBehind ++ [deleteOfSix]) (start {})).2 =
      some (text "d", some [.int 6]) := by
  refine ⟨?_, by decide +kernel, by decide +kernel⟩
  have hdelete := @execute_of_answer leftBehind deleteOfSix (text "OK") (by decide +kernel)
  have hbefore : viewOfT (fun t => (decide (passes noPattern t [.int 6]
      (some (columnIs (text "id") (text "6"))) = .ok true), t.rows.find? 1))
      (afterQueries leftBehind) = some (text "d", true, some [.int 6]) := by decide +kernel
  have hafter : viewOfT (fun t => (t.indexes.find? 0, t.rows.find? 1))
      (afterQueries (leftBehind ++ [deleteOfSix])) =
        some (text "d", some ⟨⟨0, .int64⟩⟩, some [.int 6]) := by decide +kernel
  have hmap : ((afterQueries (leftBehind ++ [deleteOfSix])).world.maps[0]?.map
      fun map => (map.kind, map.values (.int 5))) = some (.int64, some 1) := by decide +kernel
  obtain ⟨t, hresolve, ht⟩ := viewOfT_eq_some hbefore
  obtain ⟨hpasses, hrow⟩ := Prod.mk.inj ht
  have hpasses := of_decide_eq_true hpasses
  obtain ⟨t', hresolve', ht'⟩ := viewOfT_eq_some hafter
  obtain ⟨hindex, hrow'⟩ := Prod.mk.inj ht'
  obtain ⟨map, hmap, hvalues⟩ := Option.map_eq_some_iff.mp hmap
  obtain ⟨hkind, hfive⟩ := Prod.mk.inj hvalues
  refine ⟨t, t', reachable_onKeptMaps leftBehind, parse_deleteOfSix, hdelete, hresolve,
    resolveTable_ok hresolve', hpasses, hrow, hrow', fun deleted => ?_,
    _, map.values, hindex, ⟨map, hmap, hkind, rfl⟩, hfive, ?_⟩
  · have hfalse := ((deleted.rows 1 _).mp hrow').2
    rw [hpasses] at hfalse
    cases hfalse
  · rintro ⟨row, hfound, hvalue⟩
    obtain rfl := Option.some.inj (hrow'.symm.trans hfound)
    cases hvalue

end Instances

end CwDb.Executor
