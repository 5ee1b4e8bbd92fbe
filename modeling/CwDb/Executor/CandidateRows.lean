/-
  Executor/CandidateRows.lean --- which rows the index access path loses.

  `collect_candidate_rows` reads the operands of a comparison with
  `parse_literal_for_column`, the filter with `resolve_operand`.  The two agree on the
  literals that a value of the column compares with; they differ on the upper bound of
  a BETWEEN that is a column, of which the index is given the name.
-/
import CwDb.Executor.Conditions
import CwDb.Sql.Parser
import CwDb.Storage.TableRuns

set_option autoImplicit false

namespace CwDb.Executor

open CwDb.Cpp
open CwDb.Foundation
open CwDb.Sql
open CwDb.Storage

/-! ## Filtering the candidates -/

section Filter

variable {ι : Type} {regexMatch : RegexMatch} {table : Table ByteString ι}

/-- The row is stored and makes the condition true. -/
def Matches (regexMatch : RegexMatch) (table : Table ByteString ι) (condition : Condition)
    (id : RowId) : Prop :=
  ∃ row, table.rows.find? id = some row ∧ evaluateCondition regexMatch table row condition = .ok true

/-- Filtering keeps every occurrence of a matching id and no other id. -/
theorem count_filterRows {condition : Condition} : ∀ {ids kept : List RowId},
    filterRows regexMatch table (some condition) ids = .ok kept → ∀ id,
      (Matches regexMatch table condition id → kept.count id = ids.count id) ∧
      (¬ Matches regexMatch table condition id → kept.count id = 0)
  | [], kept, h, id => by
      obtain rfl : [] = kept := Except.ok.inj h
      simp
  | head :: rest, kept, h, id => by
      unfold filterRows at h
      cases hrow : table.rows.find? head with
      | none =>
          simp only [hrow] at h
          have ih := count_filterRows h id
          refine ⟨fun hmatch => ?_, ih.2⟩
          have hne : head ≠ id := by
            rintro rfl
            obtain ⟨row, hfound, -⟩ := hmatch
            rw [hrow] at hfound
            cases hfound
          rw [ih.1 hmatch, List.count_cons_of_ne hne]
      | some row =>
          simp only [hrow] at h
          cases hpass : passes regexMatch table row (some condition) with
          | error e => simp [hpass, bind, Except.bind] at h
          | ok pass =>
              cases hmore : filterRows regexMatch table (some condition) rest with
              | error e => simp [hpass, hmore, bind, Except.bind] at h
              | ok more =>
                  have ih := count_filterRows hmore id
                  have hkept : (if pass then head :: more else more) = kept := by
                    simpa [hpass, hmore, bind, Except.bind, pure, Except.pure] using h
                  have hself : Matches regexMatch table condition head ↔ pass = true := by
                    have heval : evaluateCondition regexMatch table row condition = .ok pass :=
                      hpass
                    constructor
                    · rintro ⟨row', hrow', htrue⟩
                      rw [hrow] at hrow'
                      cases hrow'
                      rw [heval] at htrue
                      exact Except.ok.inj htrue
                    · rintro rfl
                      exact ⟨row, hrow, heval⟩
                  subst hkept
                  cases pass with
                  | false =>
                      refine ⟨fun hmatch => ?_, ih.2⟩
                      have hne : head ≠ id := by
                        rintro rfl
                        exact Bool.false_ne_true (hself.mp hmatch)
                      rw [List.count_cons_of_ne hne]
                      exact ih.1 hmatch
                  | true =>
                      refine ⟨fun hmatch => ?_, fun hmatch => ?_⟩
                      · simp only [if_true, List.count_cons, ih.1 hmatch]
                      · have hne : head ≠ id := by
                          rintro rfl
                          exact hmatch (hself.mpr rfl)
                        rw [if_pos rfl, List.count_cons_of_ne hne]
                        exact ih.2 hmatch

end Filter

/-! ## The two readings of a literal -/

/-- Where a value of the column compares with the literal of the filter, the index is
asked for the same value. -/
theorem parseLiteralForColumn_eq {v : Value ByteString} {literal : ByteString} {t : DataType}
    (typed : v.matches t = true)
    (comparable : (v.compare (resolveLiteral literal)).isSome = true) :
    parseLiteralForColumn literal t = .ok (resolveLiteral literal) := by
  unfold resolveLiteral at comparable ⊢
  unfold parseLiteralForColumn
  by_cases hnull : literal = text "NULL"
  · simp [hnull, Value.compare] at comparable
  · rw [if_neg hnull] at comparable ⊢
    rw [if_neg hnull]
    cases hnum : stoll literal with
    | error e =>
        simp only [hnum] at comparable
        cases v <;> cases t <;> simp_all [Value.compare, Value.matches]
    | ok parsed =>
        obtain ⟨n, pos⟩ := parsed
        simp only [hnum] at comparable
        by_cases hpos : pos = literal.length <;> cases v <;> cases t <;>
          simp_all [Value.compare, Value.matches, bind, Except.bind, pure, Except.pure]

/-- What `parse_literal_for_column` returns has the type of the column. -/
theorem parseLiteralForColumn_matches {literal : ByteString} {t : DataType}
    {v : Value ByteString} (h : parseLiteralForColumn literal t = .ok v) : v.matches t = true := by
  unfold parseLiteralForColumn at h
  split at h
  · obtain rfl := Except.ok.inj h
    rfl
  · cases t with
    | str =>
        obtain rfl := Except.ok.inj h
        rfl
    | int =>
        cases hnum : stoll literal with
        | error e => simp [hnum, bind, Except.bind] at h
        | ok parsed =>
            obtain rfl : Value.int parsed.1 = v := by
              simpa [hnum, bind, Except.bind, pure, Except.pure] using h
            rfl

/-! ## Ranges of an index -/

section Index

variable {ι : Type} {t : Table ByteString ι}

/-- The rows of a range: those whose value lies in it, each once. -/
theorem range_rows {column : Nat} {m : IndexMap} {low high : Value ByteString}
    {ids : List RowId} (tracks : t.Tracks column m) (range : m.IsRange low high ids) :
    ids.Nodup ∧ ∀ id v, t.Stored id column v →
      (id ∈ ids ↔ Value.Le low v ∧ Value.Le v high) := by
  obtain ⟨keys, hsorted, hids, hkeys⟩ := range
  have hsame : ∀ k k' id, m k = some id → m k' = some id → k = k' := by
    intro k k' id hk hk'
    obtain ⟨row, hrow, hv⟩ := (tracks k id).mp hk
    obtain ⟨row', hrow', hv'⟩ := (tracks k' id).mp hk'
    rw [hrow] at hrow'
    cases hrow'
    rw [hv] at hv'
    exact Option.some.inj hv'
  constructor
  · have hnodup : (keys.map m).Nodup := by
      refine List.Nodup.map_on (fun k hk k' hk' heq => ?_) (hsorted.imp fun h => ?_)
      · obtain ⟨id, hid⟩ := Option.isSome_iff_exists.mp ((hkeys k).mp hk).1
        exact hsame k k' id hid (heq ▸ hid)
      · rintro rfl
        exact absurd (Value.compare_eq_some_lt_iff.mp h).1 (lt_irrefl _)
    rw [hids] at hnodup
    exact hnodup.of_map some
  · intro id v hstored
    have hm : m v = some id := (tracks v id).mpr hstored
    have hmem : id ∈ ids ↔ some id ∈ keys.map m := by
      rw [hids]
      simp
    rw [hmem, List.mem_map]
    constructor
    · rintro ⟨k, hk, hmk⟩
      obtain rfl : k = v := hsame k v id hmk hm
      exact ((hkeys k).mp hk).2
    · intro hle
      exact ⟨v, (hkeys v).mpr ⟨by simp [hm], hle⟩, hm⟩

end Index

/-! ## The comparisons that an index answers -/

section Comparison

variable {ι : Type} {regexMatch : RegexMatch} {table : Table ByteString ι} {row : Row ByteString}
  {c : SimpleCondition} {column : Nat}

theorem resolveOperand_column {name : ByteString} {v : Value ByteString}
    (found : table.schema.findIndex name = some column) :
    resolveOperand name true table row = .ok v ↔ row[column]? = some v := by
  simp [resolveOperand, Table.requireColumn, found, bind, Except.bind]

/-- An equality of a column with a literal. -/
theorem evaluateSimpleCondition_eq (isEq : c.op = .eq) (leftColumn : c.leftIsColumn = true)
    (rightLiteral : c.rightIsColumn = false)
    (found : table.schema.findIndex c.left = some column) :
    evaluateSimpleCondition regexMatch table row c = .ok true ↔
      row[column]? = some (resolveLiteral c.right) ∧ resolveLiteral c.right ≠ .null := by
  unfold evaluateSimpleCondition
  rw [leftColumn, rightLiteral, isEq]
  cases hv : resolveOperand c.left true table row with
  | error e =>
      simp only [bind, Except.bind, reduceCtorEq, false_iff, not_and, not_not]
      intro h
      rw [(resolveOperand_column found).mpr h] at hv
      cases hv
  | ok v =>
      rw [(resolveOperand_column found).mp hv]
      simp only [bind, Except.bind, resolveOperand, compareOperands, reduceCtorEq, if_false,
        Bool.false_eq_true, Except.ok.injEq, beq_iff_eq, Value.compare_eq_some_eq_iff,
        Option.some.injEq]
      exact ⟨fun ⟨h, hne⟩ => ⟨h, h ▸ hne⟩, fun ⟨h, hne⟩ => ⟨h, h ▸ hne⟩⟩

/-- A BETWEEN of a column from a literal. -/
theorem evaluateSimpleCondition_between (isBetween : c.op = .between)
    (leftColumn : c.leftIsColumn = true) (rightLiteral : c.rightIsColumn = false)
    (found : table.schema.findIndex c.left = some column) :
    evaluateSimpleCondition regexMatch table row c = .ok true ↔
      ∃ v bound, row[column]? = some v ∧ Value.Le (resolveLiteral c.right) v ∧
        resolveOperand c.right2 c.right2IsColumn table row = .ok bound ∧
        v.compare bound = some .lt := by
  unfold evaluateSimpleCondition
  rw [leftColumn, rightLiteral, isBetween]
  cases hv : resolveOperand c.left true table row with
  | error e =>
      simp only [bind, Except.bind, reduceCtorEq, false_iff]
      rintro ⟨v, bound, h, -⟩
      rw [(resolveOperand_column found).mpr h] at hv
      cases hv
  | ok v =>
      rw [(resolveOperand_column found).mp hv]
      cases hbound : resolveOperand c.right2 c.right2IsColumn table row with
      | error e => simp [bind, Except.bind, resolveOperand]
      | ok bound =>
          simp [bind, Except.bind, resolveOperand, compareOperands, Value.le_iff_compare]

end Comparison

/-! ## The access path -/

/-- One comparison of a column with a literal: the conditions an index is used for. -/
structure Indexable (condition : Condition) : Prop where
  noTree : condition.leftTree = none
  noNext : condition.next = none
  leftColumn : condition.simple.leftIsColumn = true
  rightLiteral : condition.simple.rightIsColumn = false

section Access

variable {ι ω : Type} {regexMatch : RegexMatch} {condition : Condition}

/-- Such a condition is its one comparison. -/
theorem Indexable.evaluateCondition_eq {table : Table ByteString ι} {row : Row ByteString}
    (single : Indexable condition) : evaluateCondition regexMatch table row condition =
      evaluateSimpleCondition regexMatch table row condition.simple := by
  obtain ⟨hleft, hnext, -, -⟩ := single
  cases condition with
  | mk c op next tree par =>
      obtain rfl : next = none := hnext
      obtain rfl : tree = none := hleft
      unfold evaluateCondition evaluateConditionWith
      rw [show (Condition.mk c op none none par).simple = c from rfl]
      cases evaluateSimpleCondition regexMatch table row c <;> rfl

theorem Indexable.simple_mem_treeAtoms (single : Indexable condition) :
    condition.simple ∈ treeAtoms condition := by
  obtain ⟨hleft, -, -, -⟩ := single
  cases condition with
  | mk c op next tree par =>
      obtain rfl : tree = none := hleft
      unfold treeAtoms
      exact List.mem_cons_self

theorem matches_iff {table : Table ByteString ι} {id : RowId} (single : Indexable condition) :
    Matches regexMatch table condition id ↔ ∃ row, table.rows.find? id = some row ∧
      evaluateSimpleCondition regexMatch table row condition.simple = .ok true := by
  unfold Matches
  simp only [single.evaluateCondition_eq]

variable [IIndex ι ω]

/-- Either all rows are candidates, or those an index has answered. -/
theorem collectCandidateRows_ok {table : Table ByteString ι} {w : ω} {ids : List RowId}
    {used : Bool} (h : collectCandidateRows table w (some condition) = .ok (ids, used)) :
    ids = table.order ∨ Indexable condition ∧ ∃ column index def_,
      table.schema.findIndex condition.simple.left = some column ∧
      table.indexes.find? column = some index ∧
      table.schema.columns[column]? = some def_ ∧
      ((condition.simple.op = .eq ∧ ∃ key found,
          parseLiteralForColumn condition.simple.right def_.type = .ok key ∧
          IIndex.find index key w = .ok found ∧ ids = found.toList) ∨
        (condition.simple.op = .between ∧ ∃ low high,
          parseLiteralForColumn condition.simple.right def_.type = .ok low ∧
          parseLiteralForColumn condition.simple.right2 def_.type = .ok high ∧
          IIndex.rangeSearch index low high w = .ok ids)) := by
  unfold collectCandidateRows at h
  dsimp only at h
  split at h
  swap
  · exact .inl (Prod.mk.inj (Except.ok.inj h)).1.symm
  next heligible =>
  simp only [Bool.and_eq_true, Option.isNone_iff_eq_none, Bool.not_eq_true'] at heligible
  cases hcol : table.schema.findIndex condition.simple.left with
  | none => simp [Table.requireColumn, hcol, raise, bind, Except.bind] at h
  | some column =>
  simp only [Table.requireColumn, hcol, bind, Except.bind] at h
  cases hindex : table.indexes.find? column with
  | none =>
      simp only [hindex] at h
      exact .inl (Prod.mk.inj (Except.ok.inj h)).1.symm
  | some index =>
  simp only [hindex] at h
  cases hdef : table.schema.at column with
  | error e => simp [hdef] at h
  | ok def_ =>
  simp only [hdef] at h
  split at h
  · next heq =>
      cases hkey : parseLiteralForColumn condition.simple.right def_.type with
      | error e => simp [hkey] at h
      | ok key =>
      cases hfound : IIndex.find index key w with
      | error e => simp [hkey, hfound] at h
      | ok found =>
          simp only [hkey, hfound] at h
          refine .inr ⟨⟨heligible.1.1.1, heligible.1.1.2, heligible.1.2, heligible.2⟩, column,
            index, def_, rfl, hindex, vectorAt_eq_ok.mp hdef, .inl ⟨heq, key, found, hkey, hfound, ?_⟩⟩
          exact (Prod.mk.inj (Except.ok.inj h)).1.symm
  · split at h
    · next hbetween =>
        cases hlow : parseLiteralForColumn condition.simple.right def_.type with
        | error e => simp [hlow] at h
        | ok low =>
        cases hhigh : parseLiteralForColumn condition.simple.right2 def_.type with
        | error e => simp [hlow, hhigh] at h
        | ok high =>
        cases hids : IIndex.rangeSearch index low high w with
        | error e => simp [hlow, hhigh, hids] at h
        | ok found =>
            simp only [hlow, hhigh, hids] at h
            obtain rfl := (Prod.mk.inj (Except.ok.inj h)).1
            exact .inr ⟨⟨heligible.1.1.1, heligible.1.1.2, heligible.1.2, heligible.2⟩, column,
              index, def_, rfl, hindex, vectorAt_eq_ok.mp hdef,
              .inr ⟨hbetween, low, high, hlow, hhigh, hids⟩⟩
    · exact .inl (Prod.mk.inj (Except.ok.inj h)).1.symm

/-! ## What is lost -/

/-- Every matching row is a candidate, exactly once; so filtering the candidates gives
the rows that filtering the whole table gives. -/
def LosesNoRow (regexMatch : RegexMatch) (table : Table ByteString ι) (w : ω)
    (condition : Condition) : Prop :=
  ∀ ids used, collectCandidateRows table w (some condition) = .ok (ids, used) →
    (∀ id, Matches regexMatch table condition id → ids.count id = 1) ∧
    ∀ kept whole, filterRows regexMatch table (some condition) ids = .ok kept →
      filterRows regexMatch table (some condition) table.order = .ok whole → kept.Perm whole

omit [IIndex ι ω] in
/-- The condition is one BETWEEN of an indexed column from a literal to a column, so that
the index takes the name of that column for the upper bound, and some row between the
two bounds is above that name. -/
def NameCutsRange (table : Table ByteString ι) (condition : Condition) : Prop :=
  Indexable condition ∧ condition.simple.op = .between ∧ condition.simple.right2IsColumn = true ∧
  ∃ column bound c high id row v upper,
    table.schema.findIndex condition.simple.left = some column ∧
    table.hasIndex column = true ∧
    table.schema.columns[column]? = some c ∧
    table.schema.findIndex condition.simple.right2 = some bound ∧
    parseLiteralForColumn condition.simple.right2 c.type = .ok high ∧
    table.rows.find? id = some row ∧ row[column]? = some v ∧ row[bound]? = some upper ∧
    Value.Le (resolveLiteral condition.simple.right) v ∧ v.compare upper = some .lt ∧
    v.compare high = some .gt

variable [LawfulIndex ι ω] {s : TableState ι ω}

omit [LawfulIndex ι ω] in
/-- Ids counted alike are filtered alike. -/
theorem losesNoRow_of_count {w : ω} {table : Table ByteString ι} (wf : table.WellFormed)
    (once : ∀ ids used, collectCandidateRows table w (some condition) = .ok (ids, used) →
      ∀ id, Matches regexMatch table condition id → ids.count id = 1) :
    LosesNoRow regexMatch table w condition := by
  intro ids used h
  refine ⟨once ids used h, fun kept whole hkept hwhole => ?_⟩
  rw [List.perm_iff_count]
  intro id
  by_cases hmatch : Matches regexMatch table condition id
  · have hone : table.order.count id = 1 := by
      obtain ⟨row, hrow, -⟩ := hmatch
      exact List.count_eq_one_of_mem wf.order_nodup (wf.mem_order hrow)
    rw [(count_filterRows hkept id).1 hmatch, (count_filterRows hwhole id).1 hmatch,
      once ids used h id hmatch, hone]
  · rw [(count_filterRows hkept id).2 hmatch, (count_filterRows hwhole id).2 hmatch]

/-- The value a lookup is answered with is the value of the matching row. -/
theorem count_find {column : Nat} {index : ι} {c : ColumnDef ByteString}
    {key : Value ByteString} {found : Option RowId} {id : RowId} (sound : TableSound s)
    (single : Indexable condition) (isEq : condition.simple.op = .eq)
    (hcolumn : s.table.schema.findIndex condition.simple.left = some column)
    (hindex : s.table.indexes.find? column = some index)
    (hc : s.table.schema.columns[column]? = some c)
    (hkey : parseLiteralForColumn condition.simple.right c.type = .ok key)
    (hfound : IIndex.find index key s.world = .ok found)
    (hmatch : Matches regexMatch s.table condition id) : found.toList.count id = 1 := by
  obtain ⟨row, hrow, htrue⟩ := (matches_iff single).mp hmatch
  obtain ⟨hv, hpresent⟩ := (evaluateSimpleCondition_eq isEq single.leftColumn
    single.rightLiteral hcolumn).mp htrue
  have htyped := (sound.rows.conforms id row hrow).typed column c _ hc hv
  have hsame := parseLiteralForColumn_eq htyped (Value.compare_isSome htyped htyped hpresent hpresent)
  obtain rfl : key = resolveLiteral condition.simple.right := by
    rw [hkey] at hsame
    exact Except.ok.inj hsame
  obtain ⟨m, hholds, htracks⟩ := sound.tracked column index hindex
  have hm : m (resolveLiteral condition.simple.right) = some id :=
    (htracks _ id).mpr ⟨row, hrow, hv⟩
  rw [LawfulIndex.find_ok hholds hfound, hm]
  simp

/-- What a row that lies between the bounds is compared with. -/
theorem matches_between {column : Nat} {c : ColumnDef ByteString} {id : RowId} (sound : TableSound s)
    (single : Indexable condition) (isBetween : condition.simple.op = .between)
    (hcolumn : s.table.schema.findIndex condition.simple.left = some column)
    (hc : s.table.schema.columns[column]? = some c) :
    Matches regexMatch s.table condition id ↔ ∃ row v upper, s.table.rows.find? id = some row ∧
      row[column]? = some v ∧ Value.Le (resolveLiteral condition.simple.right) v ∧
      parseLiteralForColumn condition.simple.right c.type =
        .ok (resolveLiteral condition.simple.right) ∧
      resolveOperand condition.simple.right2 condition.simple.right2IsColumn s.table row =
        .ok upper ∧
      v.compare upper = some .lt := by
  rw [matches_iff single]
  constructor
  · rintro ⟨row, hrow, htrue⟩
    obtain ⟨v, upper, hv, hle, hupper, hlt⟩ := (evaluateSimpleCondition_between isBetween
      single.leftColumn single.rightLiteral hcolumn).mp htrue
    have htyped := (sound.rows.conforms id row hrow).typed column c v hc hv
    refine ⟨row, v, upper, hrow, hv, hle, parseLiteralForColumn_eq htyped ?_, hupper, hlt⟩
    rcases Value.le_iff_compare.mp hle with h | h <;> rw [h] <;> rfl
  · rintro ⟨row, v, upper, hrow, hv, hle, -, hupper, hlt⟩
    exact ⟨row, hrow, (evaluateSimpleCondition_between isBetween single.leftColumn
      single.rightLiteral hcolumn).mpr ⟨v, upper, hv, hle, hupper, hlt⟩⟩

/-- The candidates of a range are the matching rows, unless the upper bound is the name of
a column. -/
theorem count_range {column : Nat} {index : ι} {c : ColumnDef ByteString}
    {low high : Value ByteString} {ids : List RowId} {id : RowId} (sound : TableSound s)
    (single : Indexable condition) (isBetween : condition.simple.op = .between)
    (hcolumn : s.table.schema.findIndex condition.simple.left = some column)
    (hindex : s.table.indexes.find? column = some index)
    (hc : s.table.schema.columns[column]? = some c)
    (hlow : parseLiteralForColumn condition.simple.right c.type = .ok low)
    (hhigh : parseLiteralForColumn condition.simple.right2 c.type = .ok high)
    (hids : IIndex.rangeSearch index low high s.world = .ok ids)
    (uncut : ¬ NameCutsRange s.table condition)
    (hmatch : Matches regexMatch s.table condition id) : ids.count id = 1 := by
  obtain ⟨row, v, upper, hrow, hv, hle, hright, hupper, hlt⟩ :=
    (matches_between sound single isBetween hcolumn hc).mp hmatch
  obtain rfl : low = resolveLiteral condition.simple.right := by
    rw [hlow] at hright
    exact Except.ok.inj hright
  have hconforms := sound.rows.conforms id row hrow
  have htyped := hconforms.typed column c v hc hv
  have hpresent : v ≠ .null := by
    rintro rfl
    cases upper <;> simp [Value.compare] at hlt
  have hcomparable : (v.compare high).isSome = true :=
    Value.compare_isSome htyped (parseLiteralForColumn_matches hhigh) hpresent
      (LawfulIndex.rangeSearch_bounds hids).2
  have hbelow : Value.Le v high := by
    cases hcolumn2 : condition.simple.right2IsColumn with
    | false =>
        -- the filter reads the same literal
        rw [hcolumn2] at hupper
        have hsame : resolveLiteral condition.simple.right2 = upper := Except.ok.inj hupper
        have hparse : parseLiteralForColumn condition.simple.right2 _ = _ :=
          parseLiteralForColumn_eq htyped (by rw [hsame, hlt]; rfl)
        rw [hhigh, hsame] at hparse
        obtain rfl := Except.ok.inj hparse
        simp [Value.Le, Value.le, hlt]
    | true =>
        rw [hcolumn2] at hupper
        cases hbound : s.table.schema.findIndex condition.simple.right2 with
        | none => simp [resolveOperand, Table.requireColumn, hbound, raise, bind, Except.bind] at hupper
        | some bound =>
            by_contra hnot
            refine uncut ⟨single, isBetween, hcolumn2, column, bound, c, high, id, row, v, upper,
              hcolumn, by simp [Table.hasIndex, UnorderedMap.contains, hindex], hc, hbound, hhigh,
              hrow, hv, (resolveOperand_column hbound).mp hupper, hle, hlt, ?_⟩
            cases hcmp : v.compare high with
            | none => simp [hcmp] at hcomparable
            | some o => cases o <;> simp_all [Value.Le, Value.le]
  obtain ⟨m, hholds, htracks⟩ := sound.tracked column index hindex
  obtain ⟨hnodup, hmem⟩ := range_rows htracks (LawfulIndex.rangeSearch_ok hholds hids)
  exact List.count_eq_one_of_mem hnodup ((hmem id v ⟨row, hrow, hv⟩).mpr ⟨hle, hbelow⟩)

/-- A table whose indexes map exactly its values loses no row to the access path exactly
when no range is cut off at the name of a column. -/
theorem access_path_loses_no_row_iff (inv : TableInv s) :
    LosesNoRow regexMatch s.table s.world condition ↔ ¬ NameCutsRange s.table condition := by
  constructor
  · rintro hloses ⟨single, isBetween, hright2, column, bound, c, high, id, row, v, upper, hcolumn,
      hhas, hc, hbound, hhigh, hrow, hv, hupper, hle, hlt, hgt⟩
    obtain ⟨index, hindex⟩ := Option.isSome_iff_exists.mp hhas
    have hconforms := inv.wellFormed.conforms id row hrow
    have hmatch : Matches regexMatch s.table condition id := by
      have htyped := hconforms.typed column c v hc hv
      refine (matches_between inv.sound single isBetween hcolumn hc).mpr ⟨row, v, upper, hrow, hv, hle,
        parseLiteralForColumn_eq htyped ?_, ?_, hlt⟩
      · rcases Value.le_iff_compare.mp hle with h | h <;> rw [h] <;> rfl
      · rw [hright2]
        exact (resolveOperand_column hbound).mpr hupper
    obtain ⟨-, -, -, -, -, -, hlow, -⟩ :=
      (matches_between inv.sound single isBetween hcolumn hc).mp hmatch
    have hlowpresent : resolveLiteral condition.simple.right ≠ .null := by
      intro h
      rw [h] at hle
      cases v <;> simp [Value.Le, Value.le, Value.compare] at hle
    have hhighpresent : high ≠ .null := by
      rintro rfl
      cases v <;> simp [Value.compare] at hgt
    obtain ⟨m, hholds, htracks⟩ := inv.tracked column index hindex
    obtain ⟨ids, hids⟩ := LawfulIndex.rangeSearch_spec hholds
      (inv.readable column index c _ hindex hc hlowpresent (parseLiteralForColumn_matches hlow))
      (inv.readable column index c _ hindex hc hhighpresent (parseLiteralForColumn_matches hhigh))
    have hcandidates : collectCandidateRows s.table s.world (some condition) = .ok (ids, true) := by
      have hdef : s.table.schema.at column = .ok c := vectorAt_eq_ok.mpr hc
      unfold collectCandidateRows
      simp [single.noTree, single.noNext, single.leftColumn, single.rightLiteral,
        Table.requireColumn, hcolumn, hindex, hdef, isBetween, hlow, hhigh, hids, bind,
        Except.bind, pure, Except.pure]
    have hone := (hloses ids true hcandidates).1 id hmatch
    have hmem : id ∈ ids := List.count_pos_iff.mp (by omega)
    have hbelow := (((range_rows htracks (LawfulIndex.rangeSearch_ok hholds hids)).2 id v
      ⟨row, hrow, hv⟩).mp hmem).2
    simp [Value.Le, Value.le, hgt] at hbelow
  · intro uncut
    refine losesNoRow_of_count inv.wellFormed fun ids used h id hmatch => ?_
    rcases collectCandidateRows_ok h with rfl | ⟨single, column, index, c, hcolumn, hindex, hc, h⟩
    · obtain ⟨row, hrow, -⟩ := hmatch
      exact List.count_eq_one_of_mem inv.wellFormed.order_nodup (inv.wellFormed.mem_order hrow)
    · rcases h with ⟨isEq, key, found, hkey, hfound, rfl⟩ |
        ⟨isBetween, low, high, hlow, hhigh, hids⟩
      · exact count_find inv.sound single isEq hcolumn hindex hc hkey hfound hmatch
      · exact count_range inv.sound single isBetween hcolumn hindex hc hlow hhigh hids uncut hmatch

end Access

section Instances

/-- `name STRING INDEXED, hi STRING`. -/
private def namedRanges : TableSchema ByteString :=
  ⟨[{ name := text "name", type := .str, indexed := true }, { name := text "hi", type := .str }],
    by decide, by decide⟩

private def rangesStart : TableState Nat MapStore :=
  ⟨Table.ofSchema (text "t") namedRanges, [.empty]⟩

private def rangesAttached : TableState Nat MapStore :=
  ((TableOp.attachIndex 0 (some 0) true).next rangesStart).1

/-- One row, with `name` x and `hi` z. -/
private def rangesStored : TableState Nat MapStore :=
  ((TableOp.insertRow [some (.str (text "x")), some (.str (text "z"))]).next rangesAttached).1

private theorem rangesStored_inv : TableInv rangesStored := by
  have proper : (TableOp.attachIndex 0 (some 0) true).Proper rangesStart := by
    refine ⟨rfl, ⟨by decide, fun _ => rfl⟩, ?_, fun column index _ h => ?_⟩
    · intro c hc
      obtain rfl : _ = c := Option.some.inj hc
      exact ⟨rfl, fun _ hv _ => hv⟩
    · cases h
  have unspent : ∀ t : TableState Nat MapStore, ¬ t.Spent := fun _ h => h
  have start : RunInv namedRanges 0 rangesStart := runInv_start _ _ _
  have attached : RunInv namedRanges 0 rangesAttached :=
    start.next unspent (.attachIndex 0 (some 0) true) proper (by decide)
  exact (attached.next unspent (.insertRow [some (.str (text "x")), some (.str (text "z"))])
    trivial (by decide)).inv

/-- No pattern matches. -/
private def noMatch : RegexMatch := fun _ _ => .ok false

/-- `name == x` is looked up in the index. -/
theorem access_path_loses_no_row_of_equality :
    LosesNoRow noMatch rangesStored.table rangesStored.world (.ofSimple
      { left := text "name", op := .eq, right := text "x", right2 := [], leftIsColumn := true }) := by
  refine (access_path_loses_no_row_iff rangesStored_inv).mpr ?_
  rintro ⟨-, isBetween, -⟩
  cases isBetween

/-- `name BETWEEN "a" AND hi`. -/
private def betweenSimple : SimpleCondition :=
  { left := text "name", leftIsColumn := true, op := .between, right := text "a",
    right2 := text "hi", right2IsColumn := true }

private def betweenTokens : List Token :=
  [⟨.kwSelect, text "SELECT", 1⟩, ⟨.star, text "*", 1⟩, ⟨.kwFrom, text "FROM", 1⟩,
    ⟨.identifier, text "t", 1⟩, ⟨.kwWhere, text "WHERE", 1⟩, ⟨.identifier, text "name", 1⟩,
    ⟨.kwBetween, text "BETWEEN", 1⟩, ⟨.strLiteral, text "a", 1⟩, ⟨.kwAnd, text "AND", 1⟩,
    ⟨.identifier, text "hi", 1⟩, ⟨.semicolon, text ";", 1⟩, ⟨.end_, [], 1⟩]

/-- The index looks for names up to the text hi, and the row with
`name` x and `hi` z is lost. -/
theorem access_path_loses_row_above_column_name : ∃ ts cmd rest condition,
    tokenize (text "SELECT * FROM t WHERE name BETWEEN \"a\" AND hi;") = .ok ts ∧
      Parser.parse ts = .ok (.select cmd) rest ∧ cmd.where_ = some condition ∧
      TableInv rangesStored ∧
      ¬ LosesNoRow noMatch rangesStored.table rangesStored.world condition := by
  have candidates : collectCandidateRows rangesStored.table rangesStored.world
      (some (.ofSimple betweenSimple)) = .ok ([], true) := by decide +kernel
  have lost : Matches noMatch rangesStored.table (.ofSimple betweenSimple) 1 :=
    ⟨[.str (text "x"), .str (text "z")], rfl, by decide +kernel⟩
  refine ⟨betweenTokens, ⟨[], text "t", true, [], some (.ofSimple betweenSimple)⟩,
    [⟨.semicolon, text ";", 1⟩, ⟨.end_, [], 1⟩], .ofSimple betweenSimple, by decide +kernel, rfl,
    rfl, rangesStored_inv, fun hloses => ?_⟩
  have hone := (hloses [] true candidates).1 1 lost
  cases hone

end Instances
end CwDb.Executor
