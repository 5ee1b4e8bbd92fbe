/-
  Executor/OtherTables.lean --- one table while another one is changed.

  In every state that queries and restarts lead to, a statement on one table leaves the answers
  of another one as they are, unless an index of the one has the file of an index of the other.
-/
import CwDb.Executor.IndexFileNames
import CwDb.Executor.RowNumbers
import CwDb.Executor.TableFrames

set_option autoImplicit false

namespace CwDb.Executor

open CwDb.Cpp
open CwDb.Foundation
open CwDb.Sql
open CwDb.Storage
open Engine

/-! ## The invariant -/

/-- The indexes have the files of their names, and at most `n` rows have been given. -/
def Kept (n : Nat) : TableProperty IndexRef DataDirectory := fun dbName tableName table w =>
  HasNamedFiles dbName tableName table w ∧ WithinNumbers n table

section Invariant

variable {n k : Nat}

theorem keptByDirectories (n : Nat) : KeptByDirectories DataDirectory.directories
    (fun w directories => { w with directories }) DistinctFiles (Kept n) where
  same hsame distinct := by
    refine ⟨fun d f n hn => ?_, fun d f d' f' n hn hn' => ?_⟩
    · exact distinct.below d f n ((hsame d f).symm.trans hn)
    · exact distinct.oneName d f d' f' n ((hsame d f).symm.trans hn) ((hsame d' f').symm.trans hn')
  sameTable hsame kept := ⟨kept.1.keepsNames ⟨fun _ object h => ⟨object, h, rfl⟩,
    fun d f n hn => (hsame d f).trans hn⟩, kept.2⟩
  erase {w} name distinct := by
    have herased : ∀ {d f n}, Directories.indexFile? (w.directories.erase name) d f = some n →
        w.directories.indexFile? d f = some n := by
      intro d f n hn
      rw [Directories.indexFile?, UnorderedMap.find?_erase] at hn
      split at hn
      · cases hn
      · exact hn
    exact ⟨fun d f n hn => distinct.below d f n (herased hn), fun d f d' f' n hn hn' =>
      distinct.oneName d f d' f' n (herased hn) (herased hn')⟩
  eraseTable {w name d t table} hd kept := by
    refine ⟨fun column i hi => ?_, kept.2⟩
    obtain ⟨c, object, hc, hobject, hname⟩ := kept.1 column i hi
    refine ⟨c, object, hc, hobject, ?_⟩
    rw [Directories.indexFile?, UnorderedMap.find?_erase, if_neg hd]
    exact hname

theorem attachingKeeps (n : Nat) : @AttachingKeeps _ _ DataDirectory.index DataDirectory.root
    DataDirectory.directories DistinctFiles (Kept n) := by
  intro w dbName tableName dir table distinct here kept
  have hnumbers := @maintains_attachIndexesForTable _ _ DataDirectory.index DataDirectory.root _ _
    overDirectories_files _ (WithinNumbers n) (fun _ _ h => h.withIndexes _) _ _ here tableName
    ⟨table, w⟩ ⟨kept.2, .refl _⟩
  have hset : ∀ s', Attaching w dbName tableName table.schema s' ∧
      Within (WithinNumbers n) (fun w' => w.directories.SameFiles w'.directories) s' →
      AmongOthers DistinctFiles (Kept n) (Kept n) dbName tableName w s' := fun s' h =>
    ⟨h.1.distinct, ⟨h.1.named, h.2.1⟩, fun _ _ _ _ other =>
      ⟨other.1.keepsNames h.1.keeps, other.2⟩⟩
  exact ((ends_attachIndexesForTable_files distinct here kept.1).and hnumbers).mono
    (fun _ s' h => hset s' h) fun _ s' h => hset s' h

/-- The rows that a command has for a table. -/
def givenRows : Command → Nat
  | .insert cmd => cmd.rows.length
  | _ => 0

/-- The rows of a statement. -/
theorem ends_rowsOf {regexMatch : RegexMatch} {command : Command}
    {m : TableM IndexRef DataDirectory PUnit}
    (rows : @rowsOf _ _ DataDirectory.index regexMatch command = some m) {w : DataDirectory}
    (distinct : DistinctFiles w) {dbName tableName : ByteString}
    {table : Table ByteString IndexRef} (kept : Kept n dbName tableName table w) :
    Ends m ⟨table, w⟩
      (fun _ s' => AmongOthers DistinctFiles (Kept n) (Kept (n + givenRows command)) dbName
        tableName w s' ∧ s'.world.directories = w.directories)
      (fun _ s' => AmongOthers DistinctFiles (Kept n) (Kept (n + givenRows command)) dbName
        tableName w s') := by
  let := DataDirectory.index
  have hplaces : ∀ s', Within (fun t : Table ByteString IndexRef =>
      t.schema = table.schema ∧ t.indexes = table.indexes) (SamePlaces w) s' →
      NumberedState (n + givenRows command) s' →
      AmongOthers DistinctFiles (Kept n) (Kept (n + givenRows command)) dbName tableName w s' ∧
        s'.world.directories = w.directories := by
    rintro s' ⟨⟨hschema, hindexes⟩, hsame⟩ hnumbers
    refine ⟨⟨hsame.distinctFiles distinct, ⟨?_, hnumbers.1⟩, fun _ _ _ _ other =>
      ⟨other.1.keepsNames hsame.keeps, other.2.mono (Nat.le_add_right n _)⟩⟩, hsame.directories⟩
    refine HasNamedFiles.keepsNames (fun column i hi => ?_) hsame.keeps
    rw [hindexes] at hi
    rw [hschema]
    exact kept.1 column i hi
  have hends : Maintains (Within (fun t : Table ByteString IndexRef =>
        t.schema = table.schema ∧ t.indexes = table.indexes) (SamePlaces w)) m →
      Raises NumberedState (givenRows command) m →
      Ends m ⟨table, w⟩
        (fun _ s' => AmongOthers DistinctFiles (Kept n) (Kept (n + givenRows command)) dbName
          tableName w s' ∧ s'.world.directories = w.directories)
        (fun _ s' => AmongOthers DistinctFiles (Kept n) (Kept (n + givenRows command)) dbName
          tableName w s') := fun hfiles hnumbers =>
    ((hfiles ⟨table, w⟩ ⟨⟨rfl, rfl⟩, .refl w⟩).and
      (hnumbers n ⟨table, w⟩ ⟨kept.2, trivial⟩)).mono (fun _ s' h => hplaces s' h.1 h.2)
        fun _ s' h => (hplaces s' h.1 h.2).1
  have hclosed := SamePlaces.closedUnderRows w table
  cases command with
  | insert cmd =>
      cases rows
      exact hends (hclosed.insertRows _ _) (raises_insertRows _ _)
  | update cmd =>
      cases rows
      exact hends (hclosed.updateRows _ _)
        (.of_maintains fun n => (closedUnderChanges_numbers n).updateRows _ _)
  | delete cmd =>
      cases rows
      exact hends (hclosed.deleteRows _)
        (.of_maintains fun n => (closedUnderChanges_numbers n).deleteRows _)
  | _ => cases rows

/-- The rows that a query has for a table. -/
def queryRows (query : ByteString) : Nat :=
  match parseQuery query with
  | .ok command => givenRows command
  | .error _ => 0

/-- One query. -/
theorem everyTable_onFiles {regexMatch : RegexMatch} (query : ByteString)
    {e : EngineState IndexRef DataDirectory} (orderly : Orderly e.world.directories e.dbms)
    (h : EveryTable DistinctFiles (Kept n) e.toDbmsState) :
    EveryTable DistinctFiles (Kept (n + queryRows query))
      (onFiles regexMatch query e).2.toDbmsState := by
  let := DataDirectory.index
  let := DataDirectory.root
  unfold queryRows
  cases hparse : parseQuery query with
  | error fault =>
      have hrun : execute regexMatch query e = .error fault e := by
        unfold execute
        rw [hparse]
        rfl
      rw [onFiles, answerOf, hrun]
      exact h
  | ok command =>
      have hends : Ends (executeCommand regexMatch command) e
          (fun _ e' => EveryTable DistinctFiles (Kept (n + givenRows command)) e'.toDbmsState)
          (fun _ e' => EveryTable DistinctFiles (Kept (n + givenRows command)) e'.toDbmsState) :=
        h.ends_executeCommand overDirectories_files (keptByDirectories n) (keptByDirectories _)
          orderly.houses (fun _ _ _ _ kept => ⟨kept.1, kept.2.mono (Nat.le_add_right n _)⟩)
          (fun _ tableName schema => ⟨fun _ _ hi => (by cases hi),
            withinNumbers_ofSchema n tableName schema⟩)
          (attachingKeeps n) fun m rows dbName tableName table kept => ends_rowsOf rows h.world kept
      have hafter := hends.of_answerOf
      rwa [answerOf, ← execute_parsed hparse e] at hafter

end Invariant

/-! ## States that are reached -/

/-- The states that queries and restarts lead to from an empty data directory, with the number of
rows that the queries have had for tables. -/
inductive ReachedWith (regexMatch : RegexMatch) :
    Nat → EngineState IndexRef DataDirectory → Prop
  | start : ReachedWith regexMatch 0 (start {})
  | query {n : Nat} {e : EngineState IndexRef DataDirectory} (query : ByteString)
      (reached : ReachedWith regexMatch n e) :
      ReachedWith regexMatch (n + queryRows query) (onFiles regexMatch query e).2
  | restart {n : Nat} {e e' : EngineState IndexRef DataDirectory}
      (reached : ReachedWith regexMatch n e)
      (constructed : @construct _ _ DataDirectory.index DataDirectory.root (Engine.start e.world) =
        .ok ⟨⟩ e') : ReachedWith regexMatch n e'

/-- What holds there: the table files are those of databases with at most `n` rows as well. -/
structure InOrder (n : Nat) (e : EngineState IndexRef DataDirectory) : Prop where
  orderly : Orderly e.world.directories e.dbms
  tables : EveryTable DistinctFiles (Kept n) e.toDbmsState
  saved : n + 1 < 2 ^ 64 → ∃ saved : Dbms IndexRef, e.world.directories.Keeps saved ∧
    ∀ dbName tableName table, saved.table? dbName tableName = some table → WithinNumbers n table

namespace InOrder

variable {n : Nat} {e e' : EngineState IndexRef DataDirectory} {regexMatch : RegexMatch}

theorem listed (h : InOrder n e) (few : n + 1 < 2 ^ 64) : e.dbms.Listed :=
  fun dbName tableName table found => ((h.tables.tables dbName tableName table found).2 few).listed

theorem start : InOrder 0 (Engine.start {}) :=
  ⟨⟨fun _ => .none, nofun⟩, ⟨⟨nofun, nofun⟩, nofun⟩, fun _ => ⟨{}, fun _ => .none, nofun⟩⟩

/-- Queries that save the databases save these, the others leave what was saved. -/
theorem query (h : InOrder n e) (query : ByteString) :
    InOrder (n + queryRows query) (onFiles regexMatch query e).2 := by
  have htables : EveryTable DistinctFiles (Kept (n + queryRows query))
    (onFiles regexMatch query e).2.toDbmsState := everyTable_onFiles query h.orderly h.tables
  obtain ⟨horderly, hsaved⟩ := @step_onFiles regexMatch query e h.orderly
  refine ⟨horderly, htables, fun few => ?_⟩
  split at hsaved
  · exact ⟨_, hsaved, fun d t table found => (htables.tables d t table found).2⟩
  · have hlisted : (onFiles regexMatch query e).2.dbms.Listed := fun d t table found =>
      ((htables.tables d t table found).2 few).listed
    obtain ⟨saved, hkeeps, hnumbers⟩ := h.saved (by omega)
    exact ⟨saved, hkeeps.congr (hsaved.resolve_right (not_not.mpr hlisted)),
      fun d t table found => (hnumbers d t table found).mono (Nat.le_add_right n _)⟩

/-- A table that is loaded has been saved. -/
theorem withinNumbers_loadAll (h : InOrder n e)
    {databases : UnorderedMap ByteString (Database IndexRef)} {active : ByteString}
    (load : Directories.loadAll e.world.directories = .ok databases e.world.directories)
    {dbName tableName : ByteString} {loaded : Table ByteString IndexRef}
    (found : Dbms.table? ⟨databases, active⟩ dbName tableName = some loaded) :
    WithinNumbers n loaded := by
  intro few
  obtain ⟨saved, hkeeps, hnumbers⟩ := h.saved few
  obtain ⟨dir, image, hdir, himage, hload⟩ := Directories.exists_image_of_loadAll load found
  have hk := hkeeps dbName
  rw [hdir] at hk
  generalize hdb : saved.databases.find? dbName = db at hk
  cases hk with
  | @some db _ hkept =>
      have ht := hkept tableName
      rw [himage] at ht
      generalize htable : db.tables.find? tableName = table at ht
      cases ht with
      | some hmade =>
          exact withinNumbers_load (hnumbers dbName tableName _
            ((Dbms.table?_of_find? hdb).trans htable)) hmade hload few

/-- The constructor on the directory there is. -/
theorem restart (h : InOrder n e)
    (constructed : @construct _ _ DataDirectory.index DataDirectory.root (Engine.start e.world) =
      .ok ⟨⟩ e') : InOrder n e' := by
  let := DataDirectory.index
  let := DataDirectory.root
  have hends : Ends construct (Engine.start e.world : EngineState IndexRef DataDirectory)
      (fun _ e' => InOrder n e') (fun _ _ => True) := by
    unfold construct Dbms.loadAll
    rw [Engine.onDbms, ends_zoom, ends_bind, ends_bind, Dbms.onWorld, ends_zoom]
    change Ends (DataDirectory.onDirectories Directories.loadAll) e.world _ _
    rw [DataDirectory.onDirectories, ends_zoom]
    cases hload : (Directories.loadAll : EStateM Fault Directories
        (UnorderedMap ByteString (Database IndexRef))) e.world.directories with
    | error fault dirs =>
        rw [ends_of_error hload]
        trivial
    | ok databases dirs =>
        obtain ⟨-, rfl⟩ := Directories.loadAll_eq_ok_iff.mp hload
        rw [ends_of_ok hload, Dbms.modifyDbms, ends_modify]
        have hloaded : Orderly e.world.directories (⟨databases, []⟩ : Dbms IndexRef) := by
          refine ⟨Directories.houses_loadAll hload [], fun d t table found => ?_⟩
          obtain ⟨-, image, -, -, hmade⟩ := Directories.exists_image_of_loadAll hload found
          exact filed_load hmade
        have htables : EveryTable DistinctFiles (Kept n)
            (⟨⟨databases, []⟩, e.world⟩ : DbmsState IndexRef DataDirectory) := by
          refine ⟨h.tables.world, fun d t table found => ⟨fun column i hi => ?_,
            h.withinNumbers_loadAll hload found⟩⟩
          rw [Directories.indexes_loadAll hload found] at hi
          cases hi
        refine (htables.ends_attachIndexesForLoadedData overDirectories_files hloaded
          (attachingKeeps n)).mono ?_ fun _ _ h => h
        rintro - st' ⟨hst', horderly, hsame⟩
        refine ⟨horderly, hst', fun few => ?_⟩
        obtain ⟨saved, hkeeps, hnumbers⟩ := h.saved few
        exact ⟨saved, hkeeps.congr hsame, hnumbers⟩
  exact hends.of_ok constructed

end InOrder

theorem ReachedWith.inOrder {regexMatch : RegexMatch} {n : Nat}
    {e : EngineState IndexRef DataDirectory} (reached : ReachedWith regexMatch n e) :
    InOrder n e := by
  induction reached with
  | start => exact .start
  | query query _ ih => exact ih.query query
  | restart _ constructed ih => exact ih.restart constructed

theorem ReachedWith.runMachine {regexMatch : RegexMatch} (queries : List ByteString) {n : Nat}
    {e : EngineState IndexRef DataDirectory} (reached : ReachedWith regexMatch n e) :
    ReachedWith regexMatch (n + (queries.map queryRows).sum)
      (runMachine (onFiles regexMatch) queries e).2 := by
  induction queries generalizing n e with
  | nil => exact reached
  | cons query queries ih =>
      rw [List.map_cons, List.sum_cons, ← Nat.add_assoc]
      exact ih (reached.query query)

/-! ## Statements on different tables -/

/-- No two indexes of the tables have files of one name in one database. -/
def NamesApart (dbms : Dbms IndexRef) (names names' : ByteString × ByteString) : Prop :=
  names.1 = names'.1 → ∀ table table', dbms.table? names.1 names.2 = some table →
    dbms.table? names'.1 names'.2 = some table' →
    ∀ column column' c c', table.hasIndex column = true → table'.hasIndex column' = true →
      table.schema.columns[column]? = some c → table'.schema.columns[column']? = some c' →
      indexFileName names.2 c.name ≠ indexFileName names'.2 c'.name

theorem InOrder.tablesApart {n : Nat} {e : EngineState IndexRef DataDirectory} (h : InOrder n e)
    {names names' : ByteString × ByteString} (apart : NamesApart e.dbms names names') :
    TablesApart e.toDbmsState names names' := by
  rintro table table' - - found found' ⟨column, i, hi, rfl⟩ ⟨column', i', hi', rfl⟩
  have hnamed := (h.tables.tables _ _ table found).1
  have hnamed' := (h.tables.tables _ _ table' found').1
  have hfiles : ∀ object object', e.world.objects[i.index.number]? = some object →
      e.world.objects[i'.index.number]? = some object' → object.file ≠ object'.file := by
    intro object object' hobject hobject' hsame
    obtain ⟨c, c', hc, hc', hdb, hname⟩ :=
      hnamed.names_eq hnamed' h.tables.world hi hi' hobject hobject' hsame
    exact apart hdb table table' found found' column column' c c'
      (Option.isSome_iff_exists.mpr ⟨i, hi⟩) (Option.isSome_iff_exists.mpr ⟨i', hi'⟩) hc hc' hname
  refine ⟨fun hsame => ?_, hfiles⟩
  obtain ⟨-, object, -, hobject, -⟩ := hnamed column i hi
  exact hfiles object object hobject (hsame ▸ hobject) rfl

/-- A statement on one table does not change what a statement on another one answers, if no
indexes of the two have files of one name and, where the other statement changes rows, fewer than
2^64 - 1 rows have been given to tables. -/
theorem other_table_answers_alike {regexMatch : RegexMatch} {n : Nat}
    {e : EngineState IndexRef DataDirectory} {first second : ByteString}
    {names names' : ByteString × ByteString} (reached : ReachedWith regexMatch n e)
    (named : queryTable e.dbms.active first = some names)
    (named' : queryTable e.dbms.active second = some names') (other : names' ≠ names)
    (apart : NamesApart e.dbms names names')
    (few : ∀ command, parseQuery second = .ok command → changesData command = true →
      n + queryRows first + queryRows second + 1 < 2 ^ 64) :
    (onFiles regexMatch second (onFiles regexMatch first e).2).1 =
      (onFiles regexMatch second e).1 := by
  have h := reached.inOrder
  refine answer_onFiles_other h.orderly named named' other (h.tablesApart apart)
    fun command parsed changes => ?_
  have hfew := few command parsed changes
  exact ⟨(h.query second).listed (by omega), ((h.query first).query second).listed hfew⟩

/-! ## One file -/

/-- Two tables, the second of which has an index on the column. -/
def tablesWith (column : ByteString) : List ByteString :=
  [text "CREATE DATABASE d", text "USE d", text "CREATE TABLE t (a_b INT INDEXED)",
    text "INSERT INTO t VALUE (5)", text "CREATE TABLE t_a (" ++ column ++ text " INT INDEXED)"]

/-- The index of `c` has a file of its own. -/
theorem other_table_answers_alike_of_columns :
    let e := (runMachine (onFiles fun _ _ => .ok false) (tablesWith (text "c")) (start {})).2
    (onFiles (fun _ _ => .ok false) (text "INSERT INTO t VALUE (6)")
        (onFiles (fun _ _ => .ok false) (text "INSERT INTO t_a VALUE (6)") e).2).1 =
      (onFiles (fun _ _ => .ok false) (text "INSERT INTO t VALUE (6)") e).1 ∧
    (onFiles (fun _ _ => .ok false) (text "INSERT INTO t VALUE (6)") e).1 = .ok (text "OK") := by
  intro e
  have hcolumns : (e.dbms.table? (text "d") (text "t")).map
      (fun table => table.schema.columns.map ColumnDef.name) = some [text "a_b"] := by
    decide +kernel
  have hcolumns' : (e.dbms.table? (text "d") (text "t_a")).map
      (fun table => table.schema.columns.map ColumnDef.name) = some [text "c"] := by
    decide +kernel
  have hname : ∀ {d t name : ByteString} {table : Table ByteString IndexRef} {column : Nat}
      {c : ColumnDef ByteString}, (e.dbms.table? d t).map
        (fun table => table.schema.columns.map ColumnDef.name) = some [name] →
      e.dbms.table? d t = some table → table.schema.columns[column]? = some c →
      c.name = name := by
    intro d t name table column c hcolumns found hc
    rw [found, Option.map_some, Option.some.injEq] at hcolumns
    exact List.mem_singleton.mp
      (hcolumns ▸ List.mem_map_of_mem (List.mem_of_getElem? hc))
  refine ⟨@other_table_answers_alike (fun _ _ => .ok false) _ e (text "INSERT INTO t_a VALUE (6)")
    (text "INSERT INTO t VALUE (6)") (text "d", text "t_a") (text "d", text "t")
    (ReachedWith.start.runMachine _) (by decide +kernel) (by decide +kernel) (by decide) ?_ ?_,
    by decide +kernel⟩
  · rintro - table table' found found' column column' c c' - - hc hc'
    rw [hname hcolumns' found hc, hname hcolumns found' hc']
    decide
  · exact fun _ _ _ => by decide +kernel

/-- The index of the column `b` of `t_a` has the file of that of the column `a_b` of `t`. -/
theorem other_table_refuses_row :
    let e := (runMachine (onFiles fun _ _ => .ok false) (tablesWith (text "b")) (start {})).2
    ReachedWith (fun _ _ => .ok false) 1 e ∧
    queryTable e.dbms.active (text "INSERT INTO t_a VALUE (6)") = some (text "d", text "t_a") ∧
    queryTable e.dbms.active (text "INSERT INTO t VALUE (6)") = some (text "d", text "t") ∧
    (onFiles (fun _ _ => .ok false) (text "INSERT INTO t_a VALUE (6)") e).1 = .ok (text "OK") ∧
    (onFiles (fun _ _ => .ok false) (text "INSERT INTO t VALUE (6)") e).1 = .ok (text "OK") ∧
    (onFiles (fun _ _ => .ok false) (text "INSERT INTO t VALUE (6)")
      (onFiles (fun _ _ => .ok false) (text "INSERT INTO t_a VALUE (6)") e).2).1 =
        .error (.throws .invalidArgument
          (text "Table::validate: duplicate value in indexed column 'a_b'")) := by
  have hrows : 0 + ((tablesWith (text "b")).map queryRows).sum = 1 := by decide +kernel
  refine ⟨hrows ▸ ReachedWith.start.runMachine _, ?_, ?_, ?_, ?_, ?_⟩ <;> decide +kernel

end CwDb.Executor
