/-
  Executor/AccessPathErrors.lean --- when the index access path throws where the filter
  does not.

  `resolve_operand` reads every literal: what is no number is a text, and NULL compares
  with nothing.  `parse_literal_for_column` lets `stoll` throw, and `to_index_key`
  refuses NULL.
-/
import CwDb.Executor.CandidateRows
import CwDb.Storage.BStarPlusAdapter

set_option autoImplicit false

namespace CwDb.Executor

open CwDb.Cpp
open CwDb.Foundation
open CwDb.Sql
open CwDb.Storage

/-- The index of a column of the type can be asked for the literal. -/
def Keyed (literal : ByteString) (t : DataType) : Prop :=
  literal ≠ text "NULL" ∧ (t = .int → ∃ parsed, stoll literal = .ok parsed)

/-- What a key is made of: any literal but NULL that `parse_literal_for_column` reads. -/
theorem keyed_iff {literal : ByteString} {t : DataType} :
    Keyed literal t ↔ ∃ key, parseLiteralForColumn literal t = .ok key ∧ key ≠ .null := by
  unfold Keyed parseLiteralForColumn
  by_cases hnull : literal = text "NULL"
  · rw [if_pos hnull]
    constructor
    · intro h
      exact absurd hnull h.1
    · rintro ⟨key, hkey, present⟩
      exact absurd (Except.ok.inj hkey).symm present
  · rw [if_neg hnull]
    cases t with
    | str =>
        constructor
        · intro _
          exact ⟨_, rfl, nofun⟩
        · intro _
          exact ⟨hnull, nofun⟩
    | int =>
        cases hnum : stoll literal with
        | error fault =>
            constructor
            · rintro ⟨-, h⟩
              obtain ⟨parsed, hparsed⟩ := h rfl
              cases hparsed
            · rintro ⟨key, hkey, -⟩
              cases hkey
        | ok parsed =>
            constructor
            · intro _
              exact ⟨.int parsed.1, rfl, nofun⟩
            · intro _
              exact ⟨hnull, fun _ => ⟨parsed, rfl⟩⟩

section Access

variable {π ω : Type} [KeyIndex π ω]

/-- The condition can be evaluated on every stored row. -/
def Evaluates (regexMatch : RegexMatch) {ι : Type} (table : Table ByteString ι)
    (condition : Condition) : Prop :=
  ∀ id row, table.rows.find? id = some row →
    ∃ b, evaluateCondition regexMatch table row condition = .ok b

/-- The access path has an answer for the condition. -/
def Answers {ι : Type} [IIndex ι ω] (table : Table ByteString ι) (w : ω)
    (condition : Condition) : Prop :=
  ∃ candidates, collectCandidateRows table w (some condition) = .ok candidates

/-- One comparison of a column with a literal has its column, which the filter misses only
where there are rows, and its literals are keys where an index is asked for them. -/
def Keyable {ι : Type} (table : Table ByteString ι) (condition : Condition) : Prop :=
  Indexable condition →
    (table.rows.entries = [] → table.schema.findIndex condition.simple.left ≠ none) ∧
    ∀ column c, table.schema.findIndex condition.simple.left = some column →
      table.hasIndex column = true → table.schema.columns[column]? = some c →
      (condition.simple.op = .eq → Keyed condition.simple.right c.type) ∧
      (condition.simple.op = .between →
        Keyed condition.simple.right c.type ∧ Keyed condition.simple.right2 c.type)

variable {regexMatch : RegexMatch} {condition : Condition}

/-- Any other condition leaves all rows to the filter. -/
theorem answers_of_not_indexable {ι : Type} [IIndex ι ω] {table : Table ByteString ι} {w : ω}
    (other : ¬ Indexable condition) : Answers table w condition := by
  refine ⟨(table.order, false), ?_⟩
  unfold collectCandidateRows
  dsimp only
  split
  · next h =>
      simp only [Bool.and_eq_true, Option.isNone_iff_eq_none, Bool.not_eq_true'] at h
      exact absurd ⟨h.1.1.1, h.1.1.2, h.1.2, h.2⟩ other
  · rfl

/-- A comparison with an unknown column throws. -/
theorem Indexable.not_answers {ι : Type} [IIndex ι ω] {table : Table ByteString ι} {w : ω}
    (single : Indexable condition)
    (missing : table.schema.findIndex condition.simple.left = none) :
    ¬ Answers table w condition := by
  rintro ⟨candidates, h⟩
  unfold collectCandidateRows at h
  simp [single.noTree, single.noNext, single.leftColumn, single.rightLiteral,
    Table.requireColumn, missing, raise, bind, Except.bind] at h

/-- A column without an index leaves all rows to the filter. -/
theorem Indexable.answers_of_no_index {ι : Type} [IIndex ι ω] {table : Table ByteString ι}
    {w : ω} (single : Indexable condition) {column : Nat}
    (hcolumn : table.schema.findIndex condition.simple.left = some column)
    (hindex : table.indexes.find? column = none) : Answers table w condition := by
  refine ⟨(table.order, false), ?_⟩
  unfold collectCandidateRows
  simp [single.noTree, single.noNext, single.leftColumn, single.rightLiteral,
    Table.requireColumn, hcolumn, hindex, bind, Except.bind, pure, Except.pure]

/-- What is asked of the index of the column. -/
theorem Indexable.collectCandidateRows_indexed {ι : Type} [IIndex ι ω]
    {table : Table ByteString ι} {w : ω} (single : Indexable condition) {column : Nat}
    {index : ι} {c : ColumnDef ByteString}
    (hcolumn : table.schema.findIndex condition.simple.left = some column)
    (hindex : table.indexes.find? column = some index)
    (hc : table.schema.columns[column]? = some c) :
    collectCandidateRows table w (some condition) =
      if condition.simple.op = .eq then do
        let key ← parseLiteralForColumn condition.simple.right c.type
        let found ← IIndex.find index key w
        pure (found.toList, true)
      else if condition.simple.op = .between then do
        let low ← parseLiteralForColumn condition.simple.right c.type
        let high ← parseLiteralForColumn condition.simple.right2 c.type
        let ids ← IIndex.rangeSearch index low high w
        pure (ids, true)
      else pure (table.order, false) := by
  have hat : table.schema.at column = .ok c := vectorAt_eq_ok.mpr hc
  unfold collectCandidateRows
  simp only [single.noTree, single.noNext, single.leftColumn, single.rightLiteral,
    Option.isNone_none, Bool.not_false, Bool.and_self, if_true, Table.requireColumn, hcolumn,
    hindex, hat, bind, Except.bind]

/-- Where there is a row, the filter has found the column that the comparison names. -/
theorem Indexable.found_of_evaluates {ι : Type} {table : Table ByteString ι}
    (single : Indexable condition) (evaluates : Evaluates regexMatch table condition)
    {id : RowId} {row : Row ByteString} (stored : table.rows.find? id = some row) :
    table.schema.findIndex condition.simple.left ≠ none := by
  intro missing
  obtain ⟨b, hb⟩ := evaluates id row stored
  rw [single.evaluateCondition_eq] at hb
  unfold evaluateSimpleCondition at hb
  rw [single.leftColumn] at hb
  simp [resolveOperand, Table.requireColumn, missing, raise, bind, Except.bind] at hb

variable [LawfulIndex (BStarPlusIndexAdapter π) ω]
  {s : TableState (BStarPlusIndexAdapter π) ω} {column : Nat} {index : BStarPlusIndexAdapter π}
  {c : ColumnDef ByteString}

/-- An index is asked with success for every literal that is a key of its column. -/
theorem find_answers_iff (inv : TableInv s) (hindex : s.table.indexes.find? column = some index)
    (hc : s.table.schema.columns[column]? = some c) {literal : ByteString} :
    (∃ candidates, (do
      let key ← parseLiteralForColumn literal c.type
      let found ← IIndex.find index key s.world
      pure (found.toList, true) : Except Fault (List RowId × Bool)) = .ok candidates) ↔
      Keyed literal c.type := by
  obtain ⟨m, holds, -⟩ := inv.tracked column index hindex
  rw [exists_bind_ok, keyed_iff]
  constructor
  · rintro ⟨key, hkey, hfind⟩
    refine ⟨key, hkey, ?_⟩
    rintro rfl
    obtain ⟨found, hfound, -⟩ := exists_bind_ok.mp hfind
    rw [find_null] at hfound
    cases hfound
  · rintro ⟨key, hkey, present⟩
    have reads := inv.readable column index c key hindex hc present
      (parseLiteralForColumn_matches hkey)
    exact ⟨key, hkey, exists_bind_ok.mpr ⟨_, LawfulIndex.find_spec holds reads, _, rfl⟩⟩

/-- And for every range between two of them. -/
theorem rangeSearch_answers_iff (inv : TableInv s)
    (hindex : s.table.indexes.find? column = some index)
    (hc : s.table.schema.columns[column]? = some c) {first last : ByteString} :
    (∃ candidates, (do
      let low ← parseLiteralForColumn first c.type
      let high ← parseLiteralForColumn last c.type
      let ids ← IIndex.rangeSearch index low high s.world
      pure (ids, true) : Except Fault (List RowId × Bool)) = .ok candidates) ↔
      Keyed first c.type ∧ Keyed last c.type := by
  obtain ⟨m, holds, -⟩ := inv.tracked column index hindex
  rw [exists_bind_ok, keyed_iff, keyed_iff]
  constructor
  · rintro ⟨low, hlow, hrest⟩
    obtain ⟨high, hhigh, hrest⟩ := exists_bind_ok.mp hrest
    obtain ⟨ids, hids, -⟩ := exists_bind_ok.mp hrest
    have bounds := rangeSearch_ok_bounds hids
    exact ⟨⟨low, hlow, bounds.1⟩, ⟨high, hhigh, bounds.2⟩⟩
  · rintro ⟨⟨low, hlow, lowPresent⟩, ⟨high, hhigh, highPresent⟩⟩
    have readsLow := inv.readable column index c low hindex hc lowPresent
      (parseLiteralForColumn_matches hlow)
    have readsHigh := inv.readable column index c high hindex hc highPresent
      (parseLiteralForColumn_matches hhigh)
    obtain ⟨ids, hids⟩ := LawfulIndex.rangeSearch_spec holds readsLow readsHigh
    exact ⟨low, hlow, exists_bind_ok.mpr ⟨high, hhigh, exists_bind_ok.mpr ⟨ids, hids, _, rfl⟩⟩⟩

/-- One comparison with an indexed column throws only on a literal that is no key. -/
theorem Indexable.answers_iff (inv : TableInv s) (single : Indexable condition)
    (hcolumn : s.table.schema.findIndex condition.simple.left = some column)
    (hindex : s.table.indexes.find? column = some index)
    (hc : s.table.schema.columns[column]? = some c) :
    Answers s.table s.world condition ↔
      (condition.simple.op = .eq → Keyed condition.simple.right c.type) ∧
      (condition.simple.op = .between →
        Keyed condition.simple.right c.type ∧ Keyed condition.simple.right2 c.type) := by
  unfold Answers
  rw [single.collectCandidateRows_indexed hcolumn hindex hc]
  by_cases isEq : condition.simple.op = .eq
  · simp only [isEq, if_true, forall_const, reduceCtorEq, false_imp_iff, and_true]
    exact find_answers_iff inv hindex hc
  · rw [if_neg isEq]
    by_cases isBetween : condition.simple.op = .between
    · simp only [isBetween, if_true, forall_const, reduceCtorEq, false_imp_iff, true_and]
      exact rangeSearch_answers_iff inv hindex hc
    · rw [if_neg isBetween]
      constructor
      · intro _
        exact ⟨fun h => absurd h isEq, fun h => absurd h isBetween⟩
      · intro _
        exact ⟨_, rfl⟩

/-- Where the filter raises nothing, the access path raises nothing exactly when its
literals are keys. -/
theorem access_path_answers_iff (inv : TableInv s)
    (evaluates : Evaluates regexMatch s.table condition) :
    Answers s.table s.world condition ↔ Keyable s.table condition := by
  by_cases single : Indexable condition
  swap
  · exact ⟨fun _ h => absurd h single, fun _ => answers_of_not_indexable single⟩
  cases hcolumn : s.table.schema.findIndex condition.simple.left with
  | none =>
      constructor
      · intro h
        exact absurd h (single.not_answers hcolumn)
      · intro keyable
        -- there is a row, and the filter has looked for the column on it
        have hrows : s.table.rows.entries ≠ [] := fun h => (keyable single).1 h hcolumn
        obtain ⟨⟨id, row⟩, hmem⟩ := List.exists_mem_of_ne_nil _ hrows
        exact absurd hcolumn
          (single.found_of_evaluates evaluates (UnorderedMap.find?_eq_some_iff.mpr hmem))
  | some column =>
      cases hindex : s.table.indexes.find? column with
      | none =>
          refine ⟨fun _ _ => ⟨fun _ => by simp [hcolumn], fun column' c hcolumn' hhas => ?_⟩,
            fun _ => single.answers_of_no_index hcolumn hindex⟩
          obtain rfl : column = column' := Option.some.inj (hcolumn.symm.trans hcolumn')
          simp [Table.hasIndex, UnorderedMap.contains, hindex] at hhas
      | some index =>
          obtain ⟨c, hc, -⟩ := inv.flagged column index hindex
          rw [single.answers_iff inv hcolumn hindex hc]
          constructor
          · intro h _
            refine ⟨fun _ => by simp [hcolumn], fun column' c' hcolumn' _ hc' => ?_⟩
            obtain rfl : column = column' := Option.some.inj (hcolumn.symm.trans hcolumn')
            obtain rfl : c = c' := Option.some.inj (hc.symm.trans hc')
            exact h
          · intro keyable
            have indexed : s.table.hasIndex column = true := by
              simp [Table.hasIndex, UnorderedMap.contains, hindex]
            exact (keyable single).2 column c hcolumn indexed hc

end Access

section Instances

/-- `id INT INDEXED`. -/
private def keyedIds : TableSchema ByteString :=
  ⟨[{ name := text "id", type := .int, indexed := true }], by decide, by decide⟩

private def keyedStart : TableState (BStarPlusIndexAdapter Nat) MapStore :=
  ⟨Table.ofSchema (text "t") keyedIds, [.empty]⟩

private def keyedAttached : TableState (BStarPlusIndexAdapter Nat) MapStore :=
  ((TableOp.attachIndex 0 (some ⟨0⟩) true).next keyedStart).1

/-- One row, with `id` 5. -/
private def keyedStored : TableState (BStarPlusIndexAdapter Nat) MapStore :=
  ((TableOp.insertRow [some (.int 5)]).next keyedAttached).1

private theorem keyedStored_inv : TableInv keyedStored := by
  have proper : (TableOp.attachIndex 0 (some ⟨0⟩) true).Proper keyedStart := by
    refine ⟨rfl, ⟨by decide, fun _ => rfl⟩, ?_, fun column index _ h => ?_⟩
    · intro c hc
      obtain rfl : _ = c := Option.some.inj hc
      exact ⟨rfl, fun _ hv _ => ⟨hv, hv⟩⟩
    · cases h
  have unspent : ∀ t : TableState (BStarPlusIndexAdapter Nat) MapStore, ¬ t.Spent := fun _ h => h
  have start : RunInv keyedIds 0 keyedStart := runInv_start _ _ _
  have attached : RunInv keyedIds 0 keyedAttached :=
    start.next unspent (.attachIndex 0 (some ⟨0⟩) true) proper (by decide)
  exact (attached.next unspent (.insertRow [some (.int 5)]) trivial (by decide)).inv

/-- No pattern matches. -/
private def matchesNothing : RegexMatch := fun _ _ => .ok false

/-- The condition of the one stored row is enough. -/
private theorem evaluates_keyedStored {condition : Condition} {b : Bool}
    (h : evaluateCondition matchesNothing keyedStored.table [.int 5] condition = .ok b) :
    Evaluates matchesNothing keyedStored.table condition := by
  intro id row stored
  have hmem : (id, row) ∈ keyedStored.table.rows.entries :=
    UnorderedMap.find?_eq_some_iff.mp stored
  obtain ⟨-, rfl⟩ := Prod.mk.inj (List.mem_singleton.mp hmem)
  exact ⟨b, h⟩

/-- `id == 5` is looked up in the index. -/
theorem access_path_answers_of_number :
    Answers keyedStored.table keyedStored.world (.ofSimple
      { left := text "id", op := .eq, right := text "5", right2 := [], leftIsColumn := true }) := by
  refine (access_path_answers_iff keyedStored_inv
    (evaluates_keyedStored (b := true) (by decide +kernel))).mpr fun _ => ?_
  refine ⟨nofun, fun column c _ _ hc => ⟨fun _ => ?_, nofun⟩⟩
  exact ⟨by decide, fun _ => ⟨(5, 1), by decide +kernel⟩⟩

/-- `id == NULL`. -/
private def nullSimple : SimpleCondition :=
  { left := text "id", leftIsColumn := true, op := .eq, right := text "NULL", right2 := [] }

private def nullTokens : List Token :=
  [⟨.kwSelect, text "SELECT", 1⟩, ⟨.star, text "*", 1⟩, ⟨.kwFrom, text "FROM", 1⟩,
    ⟨.identifier, text "t", 1⟩, ⟨.kwWhere, text "WHERE", 1⟩, ⟨.identifier, text "id", 1⟩,
    ⟨.opEq, text "==", 1⟩, ⟨.kwNull, text "NULL", 1⟩, ⟨.semicolon, text ";", 1⟩, ⟨.end_, [], 1⟩]

/-- The comparison with NULL is false of the row, and the adapter refuses to look NULL up. -/
theorem null_comparison_throws_on_index : ∃ ts cmd rest condition,
    tokenize (text "SELECT * FROM t WHERE id == NULL;") = .ok ts ∧
      Parser.parse ts = .ok (.select cmd) rest ∧ cmd.where_ = some condition ∧
      TableInv keyedStored ∧ Evaluates matchesNothing keyedStored.table condition ∧
      collectCandidateRows keyedStored.table keyedStored.world (some condition) =
        raise .invalidArgument
          (text "BStarPlusIndexAdapter: NULL cannot be used as index key") := by
  have evaluates : Evaluates matchesNothing keyedStored.table (.ofSimple nullSimple) :=
    evaluates_keyedStored (b := false) (by decide +kernel)
  exact ⟨nullTokens, ⟨[], text "t", true, [], some (.ofSimple nullSimple)⟩,
    [⟨.semicolon, text ";", 1⟩, ⟨.end_, [], 1⟩], .ofSimple nullSimple, by decide +kernel, rfl,
    rfl, keyedStored_inv, evaluates, by decide +kernel⟩

end Instances
end CwDb.Executor
