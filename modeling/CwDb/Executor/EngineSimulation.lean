/-
  Executor/EngineSimulation.lean --- the engine over one data directory against the engine
  over another.
-/
import CwDb.Executor.Engine
import CwDb.Storage.TableSimulation

set_option autoImplicit false

namespace CwDb.Executor

open CwDb.Cpp
open CwDb.Foundation
open CwDb.Sql
open CwDb.Storage

variable {ι ω ω' : Type} {P : ι → Prop} {x : IIndex ι ω} {y : IIndex ι ω'} {d : DataRoot ι ω}
  {d' : DataRoot ι ω'} {c : Coupling Fault ω ω'} {regexMatch : RegexMatch}

/-! ## Statements on a table -/

section Tables

variable {s : TableState ι ω} {t : TableState ι ω'} {table : Table ByteString ι} {w : ω} {w' : ω'}

theorem collectCandidateRows_eq (h : IndexesFollow P x y c) (covered : table.Covered P)
    (related : c.Related w w') (where_ : Option Condition) :
    @collectCandidateRows ι ω x table w where_ =
      @collectCandidateRows ι ω' y table w' where_ := by
  unfold collectCandidateRows
  cases where_ with
  | none => rfl
  | some condition =>
      dsimp only
      split
      · refine bind_congr fun column => ?_
        cases hindex : table.indexes.find? column with
        | none => rfl
        | some index =>
            have hcovered := covered _ _ hindex
            simp only [h.find _ _ hcovered related, h.rangeSearch _ _ _ hcovered related]
      · rfl

theorem follows_insertParserRow (h : IndexesFollow P x y c) (columns : List ByteString)
    (positions : List Nat) (parserRow : List (Option ParserValue))
    (related : (tableCoupling P c).Related s t) :
    Follows (tableCoupling P c) (@insertParserRow ι ω x columns positions parserRow)
      (@insertParserRow ι ω' y columns positions parserRow) s t := by
  unfold insertParserRow
  refine follows_ite (fun _ => h.insertRow _ related) fun _ => ?_
  dsimp only
  rw [follows_get_bind, related.1]
  refine (follows_fromExcept _ related).bind fun row s' t' related' => ?_
  refine (h.insert_row row related').bind fun _ s' t' related' => ?_
  exact follows_pure _ related'

theorem follows_insertRows (h : IndexesFollow P x y c) (columns : List ByteString)
    (rows : List (List (Option ParserValue))) (related : (tableCoupling P c).Related s t) :
    Follows (tableCoupling P c) (@insertRows ι ω x columns rows) (@insertRows ι ω' y columns rows)
      s t := by
  unfold insertRows
  rw [follows_get_bind, related.1]
  refine (follows_fromExcept _ related).bind fun positions s' t' related' => ?_
  exact follows_forM related' fun row _ s t related =>
    follows_insertParserRow h columns positions row related

theorem follows_assignColumn (h : IndexesFollow P x y c) (id : RowId) (assignment : Assignment)
    (related : (tableCoupling P c).Related s t) :
    Follows (tableCoupling P c) (@assignColumn ι ω x id assignment)
      (@assignColumn ι ω' y id assignment) s t := by
  unfold assignColumn
  rw [follows_get_bind, related.1]
  refine (follows_fromExcept _ related).bind fun col s' t' related' => ?_
  exact h.update id col _ related'

theorem follows_updateRow (h : IndexesFollow P x y c) (assignments : List Assignment)
    (where_ : Option Condition) (id : RowId) (related : (tableCoupling P c).Related s t) :
    Follows (tableCoupling P c) (@updateRow ι ω x regexMatch assignments where_ id)
      (@updateRow ι ω' y regexMatch assignments where_ id) s t := by
  unfold updateRow
  rw [follows_get_bind, related.1]
  cases t.table.rows.find? id with
  | none => exact follows_pure _ related
  | some row =>
      refine (follows_fromExcept _ related).bind fun kept s' t' related' => ?_
      refine follows_ite (fun _ => ?_) fun _ => follows_pure _ related'
      exact follows_forM related' fun assignment _ s t related =>
        follows_assignColumn h id assignment related

theorem follows_updateRows (h : IndexesFollow P x y c) (assignments : List Assignment)
    (where_ : Option Condition) (related : (tableCoupling P c).Related s t) :
    Follows (tableCoupling P c) (@updateRows ι ω x regexMatch assignments where_)
      (@updateRows ι ω' y regexMatch assignments where_) s t := by
  unfold updateRows
  rw [follows_get_bind, related.1, collectCandidateRows_eq h related.2.1 related.2.2]
  refine (follows_fromExcept _ related).bind fun candidates s' t' related' => ?_
  exact follows_forM related' fun id _ s t related =>
    follows_updateRow h assignments where_ id related

theorem follows_deleteRows (h : IndexesFollow P x y c) (where_ : Option Condition)
    (related : (tableCoupling P c).Related s t) :
    Follows (tableCoupling P c) (@deleteRows ι ω x regexMatch where_)
      (@deleteRows ι ω' y regexMatch where_) s t := by
  unfold deleteRows
  rw [follows_get_bind, related.1, collectCandidateRows_eq h related.2.1 related.2.2]
  refine (follows_fromExcept _ related).bind fun candidates s' t' related' => ?_
  refine (follows_fromExcept _ related').bind fun toDelete s' t' related' => ?_
  exact follows_forM related' fun id _ s t related => h.erase_row id related

theorem follows_attachIndexesForTable (h : IndexesFollow (fun _ => True) x y c)
    (hd : RootFollows d d' c)
    (dbName tableName : ByteString) (related : (tableCoupling (fun _ => True) c).Related s t) :
    Follows (tableCoupling (fun _ => True) c)
      (@Engine.attachIndexesForTable ι ω x d dbName tableName)
      (@Engine.attachIndexesForTable ι ω' y d' dbName tableName) s t := by
  unfold Engine.attachIndexesForTable
  rw [follows_get_bind, related.1]
  refine follows_forM related ?_
  rintro ⟨col, i⟩ - s t related
  dsimp only
  rw [follows_get_bind, related.1]
  refine follows_ite (fun _ => ?_) fun _ => follows_pure _ related
  refine follows_ite (fun _ => follows_pure _ related) fun _ => ?_
  refine (IndexesFollow.follows_onWorld related
    (hd.makeIndexForColumn dbName tableName col related.2.2)).bind fun index s' t' related' => ?_
  exact h.attachIndex i (some index) true (fun _ _ => trivial) related'

end Tables

/-! ## The databases -/

/-- The same databases over related directories. -/
def dbmsCoupling (c : Coupling Fault ω ω') : Coupling Fault (DbmsState ι ω) (DbmsState ι ω') where
  Related st st' := st.dbms = st'.dbms ∧ c.Related st.world st'.world
  Spent st := c.Spent st.world
  NoAnswer := c.NoAnswer

section Databases

variable {st : DbmsState ι ω} {st' : DbmsState ι ω'}

theorem follows_onWorld {α : Type} {m : EStateM Fault ω α} {m' : EStateM Fault ω' α}
    (related : (dbmsCoupling c).Related st st') (h : Follows c m m' st.world st'.world) :
    Follows (dbmsCoupling c) (Dbms.onWorld m : DbmsM ι ω α) (Dbms.onWorld m') st st' :=
  follows_zoom h (fun _ _ hw => ⟨related.1, hw⟩) (fun _ hw => hw) fun _ he => he

theorem follows_modifyDbms (f : Dbms ι → Dbms ι) (related : (dbmsCoupling c).Related st st') :
    Follows (dbmsCoupling c) (Dbms.modifyDbms f : DbmsM ι ω PUnit) (Dbms.modifyDbms f) st st' :=
  follows_modify ⟨congrArg f related.1, related.2⟩

theorem follows_onTable {α : Type} (dbName tableName : ByteString) (table : Table ByteString ι)
    {m : TableM ι ω α} {m' : TableM ι ω' α} (related : (dbmsCoupling c).Related st st')
    (h : ∀ s t, (tableCoupling (fun _ => True) c).Related s t →
      Follows (tableCoupling (fun _ => True) c) m m' s t) :
    Follows (dbmsCoupling c) (Dbms.onTable dbName tableName table m)
      (Dbms.onTable dbName tableName table m') st st' := by
  refine follows_zoom
    (h ⟨table, st.world⟩ ⟨table, st'.world⟩ ⟨rfl, fun _ _ _ => trivial, related.2⟩) ?_
    (fun _ hs => hs) fun _ he => he
  rintro s t ⟨htable, -, hworld⟩
  exact ⟨by rw [related.1, htable], hworld⟩

theorem follows_saveAll (hd : RootFollows d d' c) (related : (dbmsCoupling c).Related st st') :
    Follows (dbmsCoupling c) (@Dbms.saveAll ι ω d) (@Dbms.saveAll ι ω' d') st st' := by
  unfold Dbms.saveAll
  rw [follows_get_bind, related.1]
  refine follows_forM related ?_
  rintro ⟨name, db⟩ - s t related
  exact follows_onWorld related (hd.saveTo name db related.2)

theorem follows_saved (hd : RootFollows d d' c) (related : (dbmsCoupling c).Related st st')
    (answer : ByteString) :
    Follows (dbmsCoupling c) (@Dbms.saveAll ι ω d >>= fun _ => pure answer)
      (@Dbms.saveAll ι ω' d' >>= fun _ => pure answer) st st' :=
  (follows_saveAll hd related).bind fun _ _ _ related => follows_pure _ related

theorem follows_createDatabase (hd : RootFollows d d' c) (name : ByteString)
    (related : (dbmsCoupling c).Related st st') :
    Follows (dbmsCoupling c) (@Dbms.createDatabase ι ω d name)
      (@Dbms.createDatabase ι ω' d' name) st st' := by
  unfold Dbms.createDatabase
  rw [follows_get_bind, related.1]
  refine follows_ite (fun _ => follows_throw _ related) fun _ => ?_
  refine (follows_modifyDbms _ related).bind fun _ s t related => ?_
  exact follows_onWorld related (hd.createDirectories name related.2)

theorem follows_dropDatabase (hd : RootFollows d d' c) (name : ByteString)
    (related : (dbmsCoupling c).Related st st') :
    Follows (dbmsCoupling c) (@Dbms.dropDatabase ι ω d name)
      (@Dbms.dropDatabase ι ω' d' name) st st' := by
  unfold Dbms.dropDatabase
  rw [follows_get_bind, related.1]
  refine follows_ite (fun _ => follows_modify ⟨?_, hd.removeAll name related.2⟩) fun _ =>
    follows_throw _ related
  dsimp only
  rw [related.1]

theorem follows_useDatabase (name : ByteString) (related : (dbmsCoupling c).Related st st') :
    Follows (dbmsCoupling c) (Dbms.useDatabase name : DbmsM ι ω PUnit) (Dbms.useDatabase name)
      st st' := by
  unfold Dbms.useDatabase
  rw [follows_get_bind, related.1]
  refine (follows_fromExcept _ related).bind fun _ s t related => ?_
  exact follows_modifyDbms _ related

end Databases

/-! ## Commands -/

/-- The same engine over related directories. -/
def engineCoupling (c : Coupling Fault ω ω') :
    Coupling Fault (EngineState ι ω) (EngineState ι ω') where
  Related e e' := (dbmsCoupling c).Related e.toDbmsState e'.toDbmsState ∧
    e.lastSelectUsedIndex = e'.lastSelectUsedIndex
  Spent e := c.Spent e.world
  NoAnswer := c.NoAnswer

section Commands

variable {e : EngineState ι ω} {e' : EngineState ι ω'}

theorem follows_onDbms {α : Type} {m : DbmsM ι ω α} {m' : DbmsM ι ω' α}
    (related : (engineCoupling c).Related e e')
    (h : ∀ st st', (dbmsCoupling c).Related st st' → Follows (dbmsCoupling c) m m' st st') :
    Follows (engineCoupling c) (Engine.onDbms m) (Engine.onDbms m') e e' :=
  follows_zoom (h _ _ related.1) (fun _ _ hst => ⟨hst, related.2⟩) (fun _ hs => hs) fun _ he => he

theorem follows_executeOnTable (hd : RootFollows d d' c) (explicitDbName tableName : ByteString)
    {m : TableM ι ω PUnit} {m' : TableM ι ω' PUnit} (related : (engineCoupling c).Related e e')
    (h : ∀ s t, (tableCoupling (fun _ => True) c).Related s t →
      Follows (tableCoupling (fun _ => True) c) m m' s t) :
    Follows (engineCoupling c) (@Engine.executeOnTable ι ω d explicitDbName tableName m)
      (@Engine.executeOnTable ι ω' d' explicitDbName tableName m') e e' := by
  refine follows_onDbms related fun st st' related => ?_
  rw [follows_get_bind, related.1]
  refine (follows_fromExcept _ related).bind ?_
  rintro ⟨dbName, table⟩ st st' related
  refine (follows_onTable dbName tableName table related h).bind fun _ st st' related => ?_
  exact follows_saved hd related _

theorem follows_executeCreateTable (h : IndexesFollow (fun _ => True) x y c)
    (hd : RootFollows d d' c) (cmd : CreateTableCmd) (related : (engineCoupling c).Related e e') :
    Follows (engineCoupling c) (@Engine.executeCreateTable ι ω x d cmd)
      (@Engine.executeCreateTable ι ω' y d' cmd) e e' := by
  refine follows_onDbms related fun st st' related => ?_
  rw [follows_get_bind, related.1]
  refine (follows_fromExcept _ related).bind ?_
  rintro ⟨dbName, db⟩ st st' related
  refine (follows_fromExcept _ related).bind fun schema st st' related => ?_
  refine (follows_fromExcept _ related).bind fun db' st st' related => ?_
  refine (follows_modifyDbms _ related).bind fun _ st st' related => ?_
  refine (follows_onTable _ _ _ related fun s t related =>
    follows_attachIndexesForTable h hd _ _ related).bind fun _ st st' related => ?_
  exact follows_saved hd related _

theorem follows_executeDropTable (hd : RootFollows d d' c) (cmd : DropTableCmd)
    (related : (engineCoupling c).Related e e') :
    Follows (engineCoupling c) (@Engine.executeDropTable ι ω d cmd)
      (@Engine.executeDropTable ι ω' d' cmd) e e' := by
  refine follows_onDbms related fun st st' related => ?_
  rw [follows_get_bind, related.1]
  refine (follows_fromExcept _ related).bind ?_
  rintro ⟨dbName, db⟩ st st' related
  refine (follows_fromExcept _ related).bind fun db' st st' related => ?_
  refine (follows_modifyDbms _ related).bind fun _ st st' related => ?_
  exact follows_saved hd related _

theorem follows_executeSelect (h : IndexesFollow (fun _ => True) x y c) (cmd : SelectCmd)
    (related : (engineCoupling c).Related e e') :
    Follows (engineCoupling c) (@Engine.executeSelect ι ω x regexMatch cmd)
      (@Engine.executeSelect ι ω' y regexMatch cmd) e e' := by
  unfold Engine.executeSelect
  rw [follows_get_bind, related.1.1]
  refine (follows_fromExcept _ related).bind ?_
  rintro ⟨dbName, table⟩ e₁ e₁' related₁
  dsimp only
  rw [collectCandidateRows_eq h (fun _ _ _ => trivial) related.1.2]
  refine (follows_fromExcept _ related₁).bind ?_
  rintro ⟨candidates, usedIndex⟩ e₂ e₂' related₂
  refine (follows_modify (c := engineCoupling c) ⟨related₂.1, rfl⟩).bind fun _ e₃ e₃' related₃ => ?_
  refine (follows_fromExcept _ related₃).bind fun objects e₄ e₄' related₄ => ?_
  exact follows_pure _ related₄

/-- Every query is answered alike. -/
theorem follows_execute (h : IndexesFollow (fun _ => True) x y c) (hd : RootFollows d d' c)
    (query : ByteString) (related : (engineCoupling c).Related e e') :
    Follows (engineCoupling c) (@Engine.execute ι ω x d regexMatch query)
      (@Engine.execute ι ω' y d' regexMatch query) e e' := by
  unfold Engine.execute
  refine (follows_fromExcept _ related).bind fun command e e' related => ?_
  cases command with
  | createDatabase dbName =>
      refine follows_onDbms related fun st st' related => ?_
      refine (follows_createDatabase hd dbName related).bind fun _ st st' related => ?_
      exact follows_saved hd related _
  | dropDatabase dbName =>
      refine follows_onDbms related fun st st' related => ?_
      refine (follows_dropDatabase hd dbName related).bind fun _ st st' related => ?_
      exact follows_saved hd related _
  | useDatabase dbName =>
      refine follows_onDbms related fun st st' related => ?_
      refine (follows_useDatabase dbName related).bind fun _ st st' related => ?_
      exact follows_pure _ related
  | createTable cmd => exact follows_executeCreateTable h hd cmd related
  | dropTable cmd => exact follows_executeDropTable hd cmd related
  | insert cmd =>
      exact follows_executeOnTable hd _ _ related fun s t related =>
        follows_insertRows h cmd.columns cmd.rows related
  | update cmd =>
      exact follows_executeOnTable hd _ _ related fun s t related =>
        follows_updateRows h cmd.assignments cmd.where_ related
  | delete cmd =>
      exact follows_executeOnTable hd _ _ related fun s t related =>
        follows_deleteRows h cmd.where_ related
  | select cmd => exact follows_executeSelect h cmd related

end Commands
end CwDb.Executor
