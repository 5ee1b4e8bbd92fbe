/-
  Executor/StatementEffects.lean --- what an INSERT, an UPDATE or a DELETE makes of its
  table.

  The statements change the table while they walk over a list of row ids taken before.
  A condition reads one row and the schema, so what the walk does to the rows it has
  passed does not matter to those ahead.
-/
import CwDb.Executor.CandidateRows
import CwDb.Executor.Statements

set_option autoImplicit false

namespace CwDb.Executor

open CwDb.Cpp
open CwDb.Foundation
open CwDb.Sql
open CwDb.Storage

/-! ## Conditions and rows -/

/-- The bounds of every BETWEEN are literals. -/
def LiteralBounds (condition : Condition) : Prop :=
  ∀ a ∈ treeAtoms condition, a.op = .between → a.rightIsColumn = false ∧ a.right2IsColumn = false

section Conditions

variable {ι : Type} {regexMatch : RegexMatch} {table table' : Table ByteString ι}
  {where_ : Option Condition} {row : Row ByteString}

/-- Of the table a condition reads the schema only. -/
theorem passes_congr (same : table'.schema = table.schema) :
    passes regexMatch table' row where_ = passes regexMatch table row where_ := by
  have hoperand : ∀ operand isColumn, resolveOperand operand isColumn table' row =
      resolveOperand operand isColumn table row := by
    intro operand isColumn
    unfold resolveOperand Table.requireColumn
    rw [same]
  have hsimple : evaluateSimpleCondition regexMatch table' row =
      evaluateSimpleCondition regexMatch table row := by
    funext c
    unfold evaluateSimpleCondition
    simp only [hoperand]
  unfold passes evaluateCondition
  rw [hsimple]

/-- The ids that are kept, and that the condition has a value on all that are stored. -/
theorem mem_filterRows : ∀ {ids kept : List RowId},
    filterRows regexMatch table where_ ids = .ok kept →
      (∀ id, id ∈ kept ↔ id ∈ ids ∧ ∃ row, table.rows.find? id = some row ∧
        passes regexMatch table row where_ = .ok true) ∧
      ∀ id ∈ ids, ∀ row, table.rows.find? id = some row →
        ∃ b, passes regexMatch table row where_ = .ok b
  | [], kept, h => by
      obtain rfl : [] = kept := Except.ok.inj h
      simp
  | head :: rest, kept, h => by
      unfold filterRows at h
      cases hrow : table.rows.find? head with
      | none =>
          simp only [hrow] at h
          obtain ⟨hmem, hdecided⟩ := mem_filterRows h
          refine ⟨fun id => ?_, fun id hid row hfound => ?_⟩
          · rw [hmem id, List.mem_cons]
            constructor
            · exact fun h => ⟨.inr h.1, h.2⟩
            · rintro ⟨rfl | hid, row, hfound, hpass⟩
              · rw [hrow] at hfound
                cases hfound
              · exact ⟨hid, row, hfound, hpass⟩
          · rcases List.mem_cons.mp hid with rfl | hid
            · rw [hrow] at hfound
              cases hfound
            · exact hdecided id hid row hfound
      | some row =>
          simp only [hrow] at h
          cases hpass : passes regexMatch table row where_ with
          | error e => simp [hpass, bind, Except.bind] at h
          | ok pass =>
              cases hmore : filterRows regexMatch table where_ rest with
              | error e => simp [hpass, hmore, bind, Except.bind] at h
              | ok more =>
                  obtain ⟨hmem, hdecided⟩ := mem_filterRows hmore
                  have hkept : (if pass then head :: more else more) = kept := by
                    simpa [hpass, hmore, bind, Except.bind, pure, Except.pure] using h
                  subst hkept
                  refine ⟨fun id => ?_, fun id hid row' hfound => ?_⟩
                  · rw [List.mem_cons]
                    constructor
                    · intro hid
                      cases pass with
                      | false => exact ⟨.inr ((hmem id).mp hid).1, ((hmem id).mp hid).2⟩
                      | true =>
                          rcases List.mem_cons.mp hid with rfl | hid
                          · exact ⟨.inl rfl, row, hrow, hpass⟩
                          · exact ⟨.inr ((hmem id).mp hid).1, ((hmem id).mp hid).2⟩
                    · rintro ⟨rfl | hid, hstored⟩
                      · obtain ⟨row', hfound, htrue⟩ := hstored
                        obtain rfl : row' = row := Option.some.inj (hfound.symm.trans hrow)
                        obtain rfl : pass = true := Except.ok.inj (hpass.symm.trans htrue)
                        exact List.mem_cons_self
                      · have hin := (hmem id).mpr ⟨hid, hstored⟩
                        cases pass with
                        | false => exact hin
                        | true => exact List.mem_cons_of_mem head hin
                  · rcases List.mem_cons.mp hid with rfl | hid
                    · obtain rfl : row' = row := Option.some.inj (hfound.symm.trans hrow)
                      exact ⟨pass, hpass⟩
                    · exact hdecided id hid row' hfound

/-- On a row of the table a comparison with a literal has a value. -/
theorem evaluateCondition_decided {column : Nat} {condition : Condition}
    (single : Indexable condition)
    (op : condition.simple.op = .eq ∨
      condition.simple.op = .between ∧ condition.simple.right2IsColumn = false)
    (conforms : Conforms table.schema row)
    (found : table.schema.findIndex condition.simple.left = some column) :
    ∃ b, evaluateCondition regexMatch table row condition = .ok b := by
  have hlt : column < row.length := by
    rw [conforms.arity]
    exact TableSchema.findIndex_lt found
  have hleft : resolveOperand condition.simple.left true table row = .ok row[column] :=
    (resolveOperand_column found).mpr (List.getElem?_eq_getElem hlt)
  rw [single.evaluateCondition_eq]
  unfold evaluateSimpleCondition
  rw [single.leftColumn, single.rightLiteral, hleft]
  rcases op with hop | ⟨hop, hright2⟩
  · simp [hop, resolveOperand, compareOperands, bind, Except.bind]
  · simp [hop, hright2, resolveOperand, compareOperands, bind, Except.bind]

end Conditions

/-! ## Candidates -/

section Candidates

variable {ι ω : Type} [IIndex ι ω] [LawfulIndex ι ω] {regexMatch : RegexMatch}
  {s : TableState ι ω} {where_ : Option Condition} {ids : List RowId} {used : Bool}

/-- On the stored rows that are no candidates the condition is false. -/
theorem mem_candidates (sound : TableSound s)
    (literal : ∀ condition, where_ = some condition → LiteralBounds condition)
    (h : collectCandidateRows s.table s.world where_ = .ok (ids, used)) {id : RowId}
    {row : Row ByteString} (stored : s.table.rows.find? id = some row) :
    id ∈ ids ∨ passes regexMatch s.table row where_ = .ok false := by
  have hlisted : id ∈ s.table.order :=
    sound.rows.listed id (UnorderedMap.mem_keys_iff.mpr ⟨row, stored⟩)
  cases where_ with
  | none =>
      obtain rfl : s.table.order = ids := (Prod.mk.inj (Except.ok.inj h)).1
      exact .inl hlisted
  | some condition =>
  rcases collectCandidateRows_ok h with rfl | ⟨single, column, index, c, hcolumn, hindex, hc, h⟩
  · exact .inl hlisted
  have hconforms := sound.rows.conforms id row stored
  have hbounds : condition.simple.op = .between → condition.simple.right2IsColumn = false :=
    fun hop => (literal condition rfl _ single.simple_mem_treeAtoms hop).2
  have hdecided : ∃ b, evaluateCondition regexMatch s.table row condition = .ok b := by
    refine evaluateCondition_decided single ?_ hconforms hcolumn
    rcases h with ⟨isEq, -⟩ | ⟨isBetween, -⟩
    · exact .inl isEq
    · exact .inr ⟨isBetween, hbounds isBetween⟩
  obtain ⟨b, hb⟩ := hdecided
  cases b with
  | false => exact .inr hb
  | true =>
      refine .inl (List.count_pos_iff.mp ?_)
      have hmatch : Matches regexMatch s.table condition id := ⟨row, stored, hb⟩
      rcases h with ⟨isEq, key, found, hkey, hfound, rfl⟩ |
        ⟨isBetween, low, high, hlow, hhigh, hids⟩
      · rw [count_find sound single isEq hcolumn hindex hc hkey hfound hmatch]
        exact Nat.one_pos
      · rw [count_range sound single isBetween hcolumn hindex hc hlow hhigh hids ?_ hmatch]
        · exact Nat.one_pos
        · rintro ⟨-, -, hright2, -⟩
          rw [hbounds isBetween] at hright2
          cases hright2

end Candidates

/-! ## Assignments -/

section Assignments

variable {schema : TableSchema ByteString}

/-- The value of the last assignment to a column. -/
def lastAssigned (schema : TableSchema ByteString) (assignments : List Assignment)
    (column : Nat) : Option (Value ByteString) :=
  (assignments.reverse.find? fun a => schema.findIndex a.column = some column).map fun a =>
    parserValueToStorage a.value

/-- The row with the last assigned value in every assigned column. -/
def assignedRow (schema : TableSchema ByteString) (assignments : List Assignment)
    (row : Row ByteString) : Row ByteString :=
  row.mapIdx fun column v => (lastAssigned schema assignments column).getD v

@[simp] theorem assignedRow_nil (row : Row ByteString) : assignedRow schema [] row = row := by
  refine List.ext_getElem? fun i => ?_
  rw [assignedRow, List.getElem?_mapIdx]
  simp [lastAssigned]

/-- One more assignment overwrites one column. -/
theorem assignedRow_append {assignments : List Assignment} {a : Assignment} {column : Nat}
    (found : schema.findIndex a.column = some column) (row : Row ByteString) :
    assignedRow schema (assignments ++ [a]) row =
      (assignedRow schema assignments row).set column (parserValueToStorage a.value) := by
  refine List.ext_getElem? fun i => ?_
  rw [List.getElem?_set, assignedRow, assignedRow, List.getElem?_mapIdx, List.length_mapIdx,
    List.getElem?_mapIdx]
  have hlast : lastAssigned schema (assignments ++ [a]) i =
      if column = i then some (parserValueToStorage a.value)
      else lastAssigned schema assignments i := by
    unfold lastAssigned
    rw [List.reverse_append, List.reverse_singleton, List.singleton_append, List.find?_cons]
    by_cases h : column = i <;> simp [found, h]
  rw [hlast]
  by_cases h : column = i
  · subst h
    by_cases hlt : column < row.length <;> simp [hlt]
  · simp [h]

/-- Assigning twice is assigning once. -/
theorem assignedRow_idem (assignments : List Assignment) (row : Row ByteString) :
    assignedRow schema assignments (assignedRow schema assignments row) =
      assignedRow schema assignments row := by
  refine List.ext_getElem? fun i => ?_
  simp only [assignedRow, List.getElem?_mapIdx, Option.map_map]
  congr 1
  funext v
  cases lastAssigned schema assignments i <;> simp

end Assignments

/-! ## Statements as steps of a table -/

section Steps

variable {ι ω : Type} [IIndex ι ω] [LawfulIndex ι ω]

/-- What a statement may do to its table and to the index objects. -/
structure StatementFrom (s s' : TableState ι ω) : Prop where
  soundFrom : SoundFrom s s'
  name : s'.table.name = s.table.name
  schema : s'.table.schema = s.table.schema
  indexes : s'.table.indexes = s.table.indexes

namespace StatementFrom

variable {s s' s'' : TableState ι ω}

theorem refl (sound : TableSound s) : StatementFrom s s := ⟨⟨sound, .refl s⟩, rfl, rfl, rfl⟩

theorem trans (h : StatementFrom s s') (h' : StatementFrom s' s'') : StatementFrom s s'' :=
  ⟨⟨h'.soundFrom.sound, h.soundFrom.framed.trans h.indexes h'.soundFrom.framed⟩,
    h'.name.trans h.name, h'.schema.trans h.schema, h'.indexes.trans h.indexes⟩

theorem takes (h : StatementFrom s s') (takes : TakesColumns s) : TakesColumns s' := by
  unfold TakesColumns
  rw [h.schema, h.indexes]
  exact takes

end StatementFrom

theorem admitsRow_of_takes {s : TableState ι ω} (takes : TakesColumns s)
    (row : Row ByteString) : AdmitsRow s row :=
  fun column index c v hindex hc _ => takes column index c v hindex hc

variable {regexMatch : RegexMatch} {s : TableState ι ω}

/-! ## INSERT -/

theorem ends_insert_statement (unspent : ∀ t : TableState ι ω, ¬ t.Spent) (sound : TableSound s)
    (takes : TakesColumns s) (row : Row ByteString) :
    Ends (Table.insert row) s (fun _ s' => StatementFrom s s') (fun _ s' => StatementFrom s s') := by
  have hsame : ∀ s', s'.table = s.table.withRow row → SoundFrom s s' → StatementFrom s s' := by
    intro s' htable hsound
    refine ⟨hsound, ?_, ?_, ?_⟩ <;> rw [htable] <;> rfl
  refine (sound.ends_insert (admitsRow_of_takes takes row)).mono ?_ ?_
  · rintro _ s' ⟨hsound, htable, -⟩
    exact hsame s' htable hsound
  · rintro _ s' (rfl | hspent | ⟨-, hsound, htable⟩)
    · exact .refl sound
    · exact absurd hspent (unspent s')
    · exact hsame s' htable hsound

theorem ends_insertRow_statement (unspent : ∀ t : TableState ι ω, ¬ t.Spent)
    (sound : TableSound s) (takes : TakesColumns s) (values : List (Option (Value ByteString))) :
    Ends (Table.insertRow values) s (fun _ s' => StatementFrom s s')
      (fun _ s' => StatementFrom s s') := by
  unfold Table.insertRow
  rw [ends_bind, ends_get, ends_ite]
  split
  · exact .refl sound
  · rw [ends_bind, ends_fromExcept]
    refine ⟨fun row _ => ?_, fun _ _ => .refl sound⟩
    rw [ends_bind]
    exact ends_insert_statement unspent sound takes row

/-- INSERT: each row goes in on its own, and the rows before one that is refused stay. -/
theorem ends_insertRows (unspent : ∀ t : TableState ι ω, ¬ t.Spent) (sound : TableSound s)
    (takes : TakesColumns s) (columns : List ByteString)
    (rows : List (List (Option ParserValue))) :
    Ends (insertRows columns rows) s (fun _ s' => StatementFrom s s')
      (fun _ s' => StatementFrom s s') := by
  unfold insertRows
  rw [ends_bind, ends_get, ends_bind, ends_fromExcept]
  refine ⟨fun positions _ => ?_, fun _ _ => .refl sound⟩
  have hloop := ends_forM (s := s) (l := rows) (f := insertParserRow columns positions)
    (E := fun _ s' => StatementFrom s s') (I := fun _ t => StatementFrom s t) (.refl sound) ?_
  · exact hloop.mono (fun _ _ h => h) fun _ _ h => h
  · intro before parserRow after t _ ht
    have htakes := ht.takes takes
    unfold insertParserRow
    rw [ends_ite]
    split
    · exact (ends_insertRow_statement unspent ht.soundFrom.sound htakes _).mono
        (fun _ _ h => ht.trans h) fun _ _ h => ht.trans h
    · rw [ends_bind, ends_get, ends_bind, ends_fromExcept]
      refine ⟨fun row _ => ?_, fun _ _ => ht⟩
      rw [ends_bind]
      exact (ends_insert_statement unspent ht.soundFrom.sound htakes row).mono
        (fun _ _ h => ht.trans h) fun _ _ h => ht.trans h

/-! ## UPDATE -/

/-- The walk over one row: all assignments so far, and no other row. -/
structure AssignedSoFar (id : RowId) (row : Row ByteString) (assignments : List Assignment)
    (s s' : TableState ι ω) : Prop where
  from_ : StatementFrom s s'
  others : s'.table = { s.table with rows := s'.table.rows }
  rows : ∀ id', s'.table.rows.find? id' =
    if id' = id then some (assignedRow s.table.schema assignments row)
    else s.table.rows.find? id'

theorem ends_assignColumns (unspent : ∀ t : TableState ι ω, ¬ t.Spent) (sound : TableSound s)
    (takes : TakesColumns s) {id : RowId} {row : Row ByteString}
    (stored : s.table.rows.find? id = some row) (assignments : List Assignment) :
    Ends (assignments.forM (assignColumn id)) s
      (fun _ s' => AssignedSoFar id row assignments s s') (fun _ s' => StatementFrom s s') := by
  have hstart : AssignedSoFar id row [] s s := by
    refine ⟨.refl sound, rfl, fun id' => ?_⟩
    rw [assignedRow_nil]
    by_cases h : id' = id
    · rw [if_pos h, h, stored]
    · rw [if_neg h]
  have hloop := ends_forM (s := s) (l := assignments) (f := assignColumn id)
    (E := fun _ s' => StatementFrom s s') (I := fun before t => AssignedSoFar id row before s t)
    hstart ?_
  · exact hloop
  · intro before a after t _ ht
    unfold assignColumn
    rw [ends_bind, ends_get, ends_bind, ends_fromExcept]
    refine ⟨fun column hcolumn => ?_, fun _ _ => ht.from_⟩
    have hfound : s.table.schema.findIndex a.column = some column := by
      rw [← ht.from_.schema]
      unfold Table.requireColumn at hcolumn
      split at hcolumn
      · next i hi => exact hi.trans (congrArg some (Except.ok.inj hcolumn))
      · simp [raise] at hcolumn
    have hrow : t.table.rows.find? id = some (assignedRow s.table.schema before row) := by
      rw [ht.rows id, if_pos rfl]
    refine (ht.from_.soundFrom.sound.ends_update fun row' _ =>
      admitsRow_of_takes (ht.from_.takes takes) _).mono ?_ ?_
    · rintro _ t' ⟨hsound, old, hold, htable⟩
      obtain rfl : old = assignedRow s.table.schema before row :=
        Option.some.inj (hold.symm.trans hrow)
      refine ⟨ht.from_.trans ⟨hsound, ?_, ?_, ?_⟩, ?_, fun id' => ?_⟩
      · rw [htable]
        rfl
      · rw [htable]
        rfl
      · rw [htable]
        rfl
      · rw [htable, Table.withReplaced, ht.others]
      · rw [htable, Table.find?_withReplaced ⟨_, hrow⟩, assignedRow_append hfound, ht.rows id']
        by_cases h : id' = id
        · rw [if_pos h, if_pos h]
        · rw [if_neg h, if_neg h, if_neg h]
    · rintro _ t' (rfl | hspent)
      · exact ht.from_
      · exact absurd hspent (unspent t')

/-- What UPDATE makes of a row. -/
def updatedRow (regexMatch : RegexMatch) (table : Table ByteString ι)
    (assignments : List Assignment) (where_ : Option Condition) (row : Row ByteString) :
    Row ByteString :=
  if passes regexMatch table row where_ = .ok true then
    assignedRow table.schema assignments row
  else row

/-- The walk over the candidates: the rows passed so far are as UPDATE makes them, the
others as they were. -/
structure UpdatedSoFar (regexMatch : RegexMatch) (assignments : List Assignment)
    (where_ : Option Condition) (passed : List RowId) (s s' : TableState ι ω) : Prop where
  from_ : StatementFrom s s'
  others : s'.table = { s.table with rows := s'.table.rows }
  decided : ∀ id ∈ passed, ∀ row, s.table.rows.find? id = some row →
    ∃ b, passes regexMatch s.table row where_ = .ok b
  rows : ∀ id, s'.table.rows.find? id =
    if id ∈ passed then
      (s.table.rows.find? id).map (updatedRow regexMatch s.table assignments where_)
    else s.table.rows.find? id

/-- One round of the loop.  A row that is met again is left as it is: its condition has
become another one, or the same values are assigned once more. -/
theorem UpdatedSoFar.ends_updateRow {assignments : List Assignment} {where_ : Option Condition}
    (unspent : ∀ t : TableState ι ω, ¬ t.Spent) (takes : TakesColumns s) {passed : List RowId}
    {t : TableState ι ω} (ht : UpdatedSoFar regexMatch assignments where_ passed s t)
    (id : RowId) :
    Ends (updateRow regexMatch assignments where_ id) t
      (fun _ t' => UpdatedSoFar regexMatch assignments where_ (passed ++ [id]) s t')
      (fun _ t' => StatementFrom s t') := by
  have hmem : ∀ id', id' ∈ passed ++ [id] ↔ id' ∈ passed ∨ id' = id := by simp
  unfold updateRow
  rw [ends_bind, ends_get]
  cases hrow : t.table.rows.find? id with
  | none =>
      have hnone : s.table.rows.find? id = none := by
        have h := ht.rows id
        rw [hrow] at h
        split at h
        · exact Option.map_eq_none_iff.mp h.symm
        · exact h.symm
      refine ⟨ht.from_, ht.others, fun id' hid row hfound => ?_, fun id' => ?_⟩
      · rcases (hmem id').mp hid with hid | rfl
        · exact ht.decided id' hid row hfound
        · rw [hnone] at hfound
          cases hfound
      · rw [ht.rows id']
        by_cases h : id' = id
        · subst h
          simp [hnone]
        · simp [h]
  | some current =>
      obtain ⟨row, hold⟩ : ∃ row, s.table.rows.find? id = some row := by
        have h := ht.rows id
        rw [hrow] at h
        split at h
        · exact (Option.map_eq_some_iff.mp h.symm).imp fun _ h => h.1
        · exact ⟨current, h.symm⟩
      simp only
      rw [ends_bind, ends_fromExcept]
      refine ⟨fun pass hpass => ?_, fun _ _ => ht.from_⟩
      rw [passes_congr ht.from_.schema] at hpass
      -- `current` is the old row unless the id has been passed already
      have hcurrent : current = if id ∈ passed
          then updatedRow regexMatch s.table assignments where_ row else row := by
        have h := ht.rows id
        rw [hrow, hold] at h
        split at h
        · next hin => exact (Option.some.inj h).trans (if_pos hin).symm
        · next hin => exact (Option.some.inj h).trans (if_neg hin).symm
      have hdecided : ∃ b, passes regexMatch s.table row where_ = .ok b := by
        by_cases hin : id ∈ passed
        · exact ht.decided id hin row hold
        · rw [if_neg hin] at hcurrent
          exact ⟨pass, hcurrent ▸ hpass⟩
      have hafter : ∀ t' : TableState ι ω, StatementFrom s t' →
          t'.table = { s.table with rows := t'.table.rows } →
          t'.table.rows.find? id = some (updatedRow regexMatch s.table assignments where_ row) →
          (∀ id', id' ≠ id → t'.table.rows.find? id' = t.table.rows.find? id') →
          UpdatedSoFar regexMatch assignments where_ (passed ++ [id]) s t' := by
        intro t' hfrom hothers hself hrest
        refine ⟨hfrom, hothers, fun id' hid row' hfound => ?_, fun id' => ?_⟩
        · rcases (hmem id').mp hid with hid | rfl
          · exact ht.decided id' hid row' hfound
          · obtain rfl : row' = row := Option.some.inj (hfound.symm.trans hold)
            exact hdecided
        · by_cases h : id' = id
          · subst h
            rw [hself, if_pos ((hmem id').mpr (.inr rfl)), hold, Option.map_some]
          · rw [hrest id' h, ht.rows id']
            simp only [hmem, h, or_false]
      have hskip : passes regexMatch s.table current where_ = .ok false →
          current = updatedRow regexMatch s.table assignments where_ row := by
        intro hfalse
        rw [hcurrent]
        split
        · rfl
        · next hin =>
            rw [hcurrent, if_neg hin] at hfalse
            rw [updatedRow, hfalse]
            simp
      have hassign : passes regexMatch s.table current where_ = .ok true →
          assignedRow s.table.schema assignments current =
            updatedRow regexMatch s.table assignments where_ row := by
        intro htrue
        by_cases hpassed : passes regexMatch s.table row where_ = .ok true
        · rw [updatedRow, if_pos hpassed, hcurrent]
          split
          · rw [updatedRow, if_pos hpassed, assignedRow_idem]
          · rfl
        · -- the condition would have become true without the row having changed
          have hsame : current = row := by
            rw [hcurrent, updatedRow, if_neg hpassed, ite_self]
          exact absurd (hsame ▸ htrue) hpassed
      cases pass with
      | false =>
          rw [if_neg Bool.false_ne_true]
          exact hafter t ht.from_ ht.others (by rw [hrow, hskip hpass]) fun _ _ => rfl
      | true =>
          rw [if_pos rfl]
          refine (ends_assignColumns unspent ht.from_.soundFrom.sound (ht.from_.takes takes)
            hrow assignments).mono ?_ fun _ _ h => ht.from_.trans h
          rintro _ t' ⟨hfrom, hothers, hrows⟩
          refine hafter t' (ht.from_.trans hfrom) ?_ ?_ fun id' hne => ?_
          · rw [hothers, ht.others]
          · rw [hrows id, if_pos rfl, ht.from_.schema, hassign hpass]
          · rw [hrows id', if_neg hne]

/-- What UPDATE makes of a table, said of the table before it. -/
structure Updated (regexMatch : RegexMatch) (assignments : List Assignment)
    (where_ : Option Condition) (t t' : Table ByteString ι) : Prop where
  others : t' = { t with rows := t'.rows }
  decided : ∀ id row, t.rows.find? id = some row → ∃ b, passes regexMatch t row where_ = .ok b
  rows : ∀ id, t'.rows.find? id =
    (t.rows.find? id).map (updatedRow regexMatch t assignments where_)

theorem ends_updateRows {assignments : List Assignment} {where_ : Option Condition}
    (unspent : ∀ t : TableState ι ω, ¬ t.Spent) (sound : TableSound s) (takes : TakesColumns s) :
    Ends (updateRows regexMatch assignments where_) s
      (fun _ s' => StatementFrom s s' ∧
        ((∀ condition, where_ = some condition → LiteralBounds condition) →
          Updated regexMatch assignments where_ s.table s'.table))
      (fun _ s' => StatementFrom s s') := by
  unfold updateRows
  rw [ends_bind, ends_get, ends_bind, ends_fromExcept]
  refine ⟨?_, fun _ _ => .refl sound⟩
  rintro ⟨candidates, used⟩ hcandidates
  have hloop := ends_forM (s := s) (l := candidates)
    (f := updateRow regexMatch assignments where_) (E := fun _ s' => StatementFrom s s')
    (I := fun passed t => UpdatedSoFar regexMatch assignments where_ passed s t)
    ⟨.refl sound, rfl, by simp, by simp⟩
    fun passed id after t _ ht => ht.ends_updateRow unspent takes id
  refine hloop.mono ?_ fun _ _ h => h
  rintro _ s' ⟨hfrom, hothers, hdecided, hrows⟩
  refine ⟨hfrom, fun literal => ⟨hothers, fun id row hrow => ?_, fun id => ?_⟩⟩
  · rcases mem_candidates sound literal hcandidates hrow with hid | hfalse
    · exact hdecided id hid row hrow
    · exact ⟨false, hfalse⟩
  · rw [hrows id]
    split
    · rfl
    · next hid =>
        cases hrow : s.table.rows.find? id with
        | none => rfl
        | some row =>
            have hfalse : passes regexMatch s.table row where_ = .ok false :=
              (mem_candidates sound literal hcandidates hrow).resolve_left hid
            rw [Option.map_some, updatedRow, hfalse]
            simp

/-! ## DELETE -/

/-- What DELETE makes of a table, said of the table before it. -/
structure Deleted (regexMatch : RegexMatch) (where_ : Option Condition)
    (t t' : Table ByteString ι) : Prop where
  others : t' = { t with rows := t'.rows, order := t'.order }
  decided : ∀ id row, t.rows.find? id = some row → ∃ b, passes regexMatch t row where_ = .ok b
  rows : ∀ id row, t'.rows.find? id = some row ↔
    t.rows.find? id = some row ∧ passes regexMatch t row where_ = .ok false
  order : t'.order.filter t'.rows.contains = t.order.filter t'.rows.contains
  sublist : t'.order.Sublist t.order

/-- The walk over the ids to delete. -/
structure DeletedSoFar (erased : List RowId) (s s' : TableState ι ω) : Prop where
  from_ : StatementFrom s s'
  others : s'.table = { s.table with rows := s'.table.rows, order := s'.table.order }
  rows : ∀ id, s'.table.rows.find? id = if id ∈ erased then none else s.table.rows.find? id
  order : ∀ p : RowId → Bool, (∀ id ∈ erased, p id = false) →
    s'.table.order.filter p = s.table.order.filter p
  sublist : s'.table.order.Sublist s.table.order

theorem ends_eraseRows (unspent : ∀ t : TableState ι ω, ¬ t.Spent) (sound : TableSound s)
    (toDelete : List RowId) :
    Ends (toDelete.forM Table.erase) s (fun _ s' => DeletedSoFar toDelete s s')
      (fun _ s' => StatementFrom s s') := by
  have hloop := ends_forM (s := s) (l := toDelete)
    (f := (Table.erase : RowId → TableM ι ω PUnit)) (E := fun _ s' => StatementFrom s s')
    (I := fun erased t => DeletedSoFar erased s t)
    ⟨.refl sound, rfl, by simp, fun _ _ => rfl, List.Sublist.refl _⟩ ?_
  · exact hloop
  · intro erased id after t _ ht
    refine ht.from_.soundFrom.sound.ends_erase.mono ?_ ?_
    · rintro _ t' ⟨hsound, htable⟩
      refine ⟨ht.from_.trans ⟨hsound, ?_, ?_, ?_⟩, ?_, fun id' => ?_, fun p hp => ?_, ?_⟩
      · rw [htable]
        rfl
      · rw [htable]
        rfl
      · rw [htable]
        rfl
      · rw [htable, Table.withoutRow, ht.others]
      · have hfind : t'.table.rows.find? id' = (t.table.rows.erase id).find? id' := by
          rw [htable, Table.withoutRow]
        rw [hfind, UnorderedMap.find?_erase, ht.rows id']
        by_cases h : id' = id <;> simp [h]
      · have horder : t'.table.order = t.table.order.erase id := by
          rw [htable, Table.withoutRow]
        have hfalse : p id = false := hp id (by simp)
        rw [horder, ← ht.order p fun id' hid => hp id' (List.mem_append_left _ hid),
          List.erase_filter.symm, List.erase_of_not_mem (by simp [hfalse])]
      · rw [htable]
        exact List.erase_sublist.trans ht.sublist
    · rintro _ t' (rfl | hspent)
      · exact ht.from_
      · exact absurd hspent (unspent t')

theorem ends_deleteRows {where_ : Option Condition} (unspent : ∀ t : TableState ι ω, ¬ t.Spent)
    (sound : TableSound s) :
    Ends (deleteRows regexMatch where_) s
      (fun _ s' => StatementFrom s s' ∧
        ((∀ condition, where_ = some condition → LiteralBounds condition) →
          Deleted regexMatch where_ s.table s'.table))
      (fun _ s' => StatementFrom s s') := by
  unfold deleteRows
  rw [ends_bind, ends_get, ends_bind, ends_fromExcept]
  refine ⟨?_, fun _ _ => .refl sound⟩
  rintro ⟨candidates, used⟩ hcandidates
  rw [ends_bind, ends_fromExcept]
  refine ⟨fun toDelete hdelete => ?_, fun _ _ => .refl sound⟩
  obtain ⟨hmem, hdecided⟩ := mem_filterRows hdelete
  refine (ends_eraseRows unspent sound toDelete).mono ?_ fun _ _ h => h
  rintro _ s' ⟨hfrom, hothers, hrows, horder, hsublist⟩
  refine ⟨hfrom, fun literal => ?_⟩
  have hcandidate : ∀ id row, s.table.rows.find? id = some row →
      id ∈ candidates ∨ passes regexMatch s.table row where_ = .ok false :=
    fun id row hrow => mem_candidates sound literal hcandidates hrow
  refine ⟨hothers, fun id row hrow => ?_, fun id row => ?_, ?_, hsublist⟩
  · rcases hcandidate id row hrow with hid | hfalse
    · exact hdecided id hid row hrow
    · exact ⟨false, hfalse⟩
  · rw [hrows id]
    constructor
    · intro h
      split at h
      · cases h
      · next hid =>
          refine ⟨h, ?_⟩
          rcases hcandidate id row h with hin | hfalse
          · obtain ⟨b, hb⟩ := hdecided id hin row h
            cases b with
            | false => exact hb
            | true => exact absurd ((hmem id).mpr ⟨hin, row, h, hb⟩) hid
          · exact hfalse
    · rintro ⟨hrow, hfalse⟩
      rw [if_neg, hrow]
      intro hid
      obtain ⟨-, row', hrow', htrue⟩ := (hmem id).mp hid
      obtain rfl : row' = row := Option.some.inj (hrow'.symm.trans hrow)
      rw [hfalse] at htrue
      cases htrue
  · refine horder _ fun id hid => ?_
    have hnone := hrows id
    rw [if_pos hid] at hnone
    rw [UnorderedMap.contains, hnone]
    rfl

end Steps

end CwDb.Executor
