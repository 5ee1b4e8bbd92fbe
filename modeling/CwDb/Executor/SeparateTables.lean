/-
  Executor/SeparateTables.lean --- statements on different tables.

  A statement on a table reads and writes the indexes of that table and no others.  So what a
  statement on another table finds is the same with and without it.
-/
import CwDb.Executor.NamedIndexes
import CwDb.Executor.TableFrames

set_option autoImplicit false

namespace CwDb.Executor

open CwDb.Cpp
open CwDb.Foundation
open CwDb.Sql
open CwDb.Storage

/-! ## Runs -/

open Engine

variable {regexMatch : RegexMatch} {queries : List ByteString}

/-- A run without a limit on its way: no index file is full, no key is too long for an index
file, no index is made over the file of an earlier one, no table lists an id without a row. -/
structure MeetsNoLimit (regexMatch : RegexMatch) (queries : List ByteString) : Prop where
  room : StaysIn (fun e => e.world.HasRoom) (onFiles regexMatch) queries (start {})
  answered : ∀ a ∈ (runMachine (withinLimits regexMatch) queries (start {})).1,
    a ≠ .error .diverges
  listed : StaysIn (fun e => e.dbms.Listed) (onFiles regexMatch) queries (start {})

namespace MeetsNoLimit

variable {query : ByteString}

theorem of_append {more : List ByteString} (h : MeetsNoLimit regexMatch (queries ++ more)) :
    MeetsNoLimit regexMatch queries := by
  refine ⟨h.room.of_append, fun a ha => h.answered a ?_, h.listed.of_append⟩
  rw [runMachine_append]
  exact List.mem_append_left _ ha

/-- Different tables have different indexes, each in a file of its own. -/
theorem tablesApart (h : MeetsNoLimit regexMatch queries) {names names' : ByteString × ByteString}
    (other : names' ≠ names) :
    TablesApart (runMachine (onFiles regexMatch) queries (start {})).2.toDbmsState names
      names' := by
  obtain ⟨⟨hdbms, hmirrored⟩, -⟩ := run_mirrored h.room h.answered
  have inv : EngineInv (runMachine (onMaps regexMatch) queries (start {})).2.toDbmsState :=
    inv_onMaps queries
  have hown : ∀ (n : Nat) object, (runMachine (onFiles regexMatch) queries
      (start {})).2.world.objects[n]? = some object → object.file = n := by
    intro n object hobject
    have hn := (List.getElem?_eq_some_iff.mp hobject).1
    have hfile := List.getElem?_eq_getElem (hmirrored.files.symm ▸ hmirrored.objects ▸ hn :
      n < (runMachine (onFiles regexMatch) queries (start {})).2.world.files.length)
    have hmap := List.getElem?_eq_getElem (hmirrored.objects ▸ hn :
      n < (runMachine (onMaps regexMatch) queries (start {})).2.world.maps.length)
    exact (hmirrored.mirrors n object _ _ hobject hfile hmap).1
  rintro table table' - - found found' ⟨column, i, hi, rfl⟩ ⟨column', i', hi', rfl⟩
  have hne : i.index.number ≠ i'.index.number :=
    inv.apart _ _ _ _ _ _ column column' i i' other.symm (hdbms ▸ found) (hdbms ▸ found') hi hi'
  refine ⟨hne, fun object object' hobject hobject' hsame => hne ?_⟩
  rw [← hown _ object hobject, ← hown _ object' hobject', hsame]

end MeetsNoLimit

/-- Tables do not interfere: what a statement on one table answers is the same whether or not a
statement on another table has come before it, however that one has ended. -/
theorem tables_do_not_interfere {first second dbName tableName dbName' tableName' : ByteString}
    (limits : MeetsNoLimit regexMatch (queries ++ [first] ++ [second]))
    (limits' : MeetsNoLimit regexMatch (queries ++ [second]))
    (named : queryTable (runMachine (onFiles regexMatch) queries (start {})).2.dbms.active first =
      some (dbName, tableName))
    (named' : queryTable (runMachine (onFiles regexMatch) queries (start {})).2.dbms.active second =
      some (dbName', tableName'))
    (apart : (dbName', tableName') ≠ (dbName, tableName)) :
    (onFiles regexMatch second (onFiles regexMatch first
        (runMachine (onFiles regexMatch) queries (start {})).2).2).1 =
      (onFiles regexMatch second (runMachine (onFiles regexMatch) queries (start {})).2).1 := by
  have hlisted := limits.listed.last
  have hlisted' := limits'.listed.last
  rw [runMachine_append, runMachine_append] at hlisted
  rw [runMachine_append] at hlisted'
  have horderly : Orderly (runMachine (onFiles regexMatch) queries (start {})).2.world.directories
      (runMachine (onFiles regexMatch) queries (start {})).2.dbms :=
    orderly_onFiles queries ⟨fun _ => .none, nofun⟩
  exact answer_onFiles_other horderly named named' apart (limits'.of_append.tablesApart apart)
    fun _ _ _ => ⟨hlisted', hlisted⟩

/-! ## Two tables -/

/-- Two tables with a column of one name. -/
def twoTables : List ByteString :=
  [text "CREATE DATABASE d", text "USE d", text "CREATE TABLE t (id INT INDEXED)",
    text "CREATE TABLE u (id INT INDEXED)"]

/-- What the limits of a run come to on the states that it leads through. -/
theorem meetsNoLimit_of_all {queries : List ByteString}
    (room : ∀ n ≤ queries.length, ((runMachine (onFiles fun _ _ => .ok false) (queries.take n)
      (start {})).2.world.files.all fun file => file.size < 2 ^ 63) = true)
    (answered : ∀ a ∈ (runMachine (withinLimits fun _ _ => .ok false) queries (start {})).1,
      isAnswer a = true)
    (listed : ∀ n ≤ queries.length, ((runMachine (onFiles fun _ _ => .ok false) (queries.take n)
      (start {})).2.dbms.databases.entries.all fun db => db.2.tables.entries.all fun table =>
        table.2.order.all table.2.rows.contains) = true) :
    MeetsNoLimit (fun _ _ => .ok false) queries :=
  ⟨staysIn_of_le fun n hn => hasRoom_of_all (room n hn),
    fun a ha => ne_diverges_of_isAnswer (answered a ha),
    staysIn_of_le fun n hn => listed_of_all (listed n hn)⟩

/-- The same value goes into the index of the other table. -/
theorem tables_do_not_interfere_of_insertions :
    (onFiles (fun _ _ => .ok false) (text "INSERT INTO u VALUE (5)")
        (onFiles (fun _ _ => .ok false) (text "INSERT INTO t VALUE (5)")
          (runMachine (onFiles fun _ _ => .ok false) twoTables (start {})).2).2).1 =
      (onFiles (fun _ _ => .ok false) (text "INSERT INTO u VALUE (5)")
        (runMachine (onFiles fun _ _ => .ok false) twoTables (start {})).2).1 := by
  refine @tables_do_not_interfere (fun _ _ => .ok false) twoTables _ _ (text "d") (text "t")
    (text "d") (text "u") ?_ ?_ ?_ ?_ (by decide)
  · exact meetsNoLimit_of_all (by decide +kernel) (by decide +kernel) (by decide +kernel)
  · exact meetsNoLimit_of_all (by decide +kernel) (by decide +kernel) (by decide +kernel)
  · decide +kernel
  · decide +kernel

end CwDb.Executor
