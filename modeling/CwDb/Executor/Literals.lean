/-
  Executor/Literals.lean --- INSERT and WHERE reading one literal.

  INSERT converts a literal by the type of its token, WHERE keeps the text only and
  `resolve_operand` guesses the type from it.
-/
import CwDb.Executor.CandidateRows
import CwDb.Executor.Statements

set_option autoImplicit false

namespace CwDb.Executor

open CwDb.Cpp
open CwDb.Foundation
open CwDb.Sql
open CwDb.Storage

/-- A literal as the scanner makes it. -/
def IsLiteral (tok : Token) : Prop :=
  (tok.type = .intLiteral ∧ tok.value ≠ [] ∧ ∀ c ∈ tok.value, isDigit c = true) ∨
    tok.type = .strLiteral

/-- `resolve_operand` takes the text for a string. -/
def ReadAsString (s : ByteString) : Prop :=
  s ≠ text "NULL" ∧ ∀ n, stoll s ≠ .ok (n, s.length)

variable {ι ω : Type}

/-- An INSERT gives a column the value: by its place in the row, or by its name. -/
def GivenTo (table : Table ByteString ι) (columns : List ByteString)
    (row : List (Option ParserValue)) (column : Nat) (v : ParserValue) : Prop :=
  (columns = [] ∧ row[column]? = some (some v)) ∨
    ∃ (k : Nat) (name : ByteString), columns[k]? = some name ∧ row[k]? = some (some v) ∧
      table.schema.findIndex name = some column

/-! ## Literals -/

theorem takeWhile_eq_self {p : UInt8 → Bool} {s : ByteString} (h : ∀ c ∈ s, p c = true) :
    s.takeWhile p = s := by
  induction s with
  | nil => rfl
  | cons c s ih =>
      rw [List.takeWhile_cons_of_pos (h c List.mem_cons_self),
        ih fun d hd => h d (List.mem_cons_of_mem c hd)]

/-- A run of digits is read to its end. -/
theorem strtoInteger_digits {s : ByteString} (filled : s ≠ [])
    (digits : ∀ c ∈ s, isDigit c = true) :
    strtoInteger s = some ((digitsValue s : Int), s.length) := by
  obtain ⟨c, rest, rfl⟩ := List.exists_cons_of_ne_nil filled
  have hc := digits c List.mem_cons_self
  have hspace : isSpace c = false := by
    unfold isDigit at hc
    unfold isSpace
    grind
  have hminus : c ≠ 0x2d := by
    rintro rfl
    cases hc
  have hplus : c ≠ 0x2b := by
    rintro rfl
    cases hc
  unfold strtoInteger
  rw [List.dropWhile_cons_of_neg (by simp [hspace])]
  simp [hminus, hplus, takeWhile_eq_self digits]

/-- An int literal that INSERT accepts is the same number in a condition. -/
theorem resolveLiteral_digits {s : ByteString} {n : Int32} (filled : s ≠ [])
    (digits : ∀ c ∈ s, isDigit c = true) (accepted : stoi s = .ok n) :
    resolveLiteral s = .int n.toInt64 := by
  have hread := strtoInteger_digits filled digits
  unfold stoi at accepted
  rw [hread] at accepted
  dsimp only at accepted
  split at accepted
  · next hrange =>
      obtain rfl := Except.ok.inj accepted
      have hnull : s ≠ text "NULL" := by
        rintro rfl
        exact absurd (digits 0x4e (by decide)) (by decide)
      have hstoll : stoll s = .ok (Int64.ofInt (digitsValue s), s.length) := by
        unfold stoll
        rw [hread]
        exact if_pos ⟨by omega, by omega⟩
      have hsame : (Int32.ofInt (digitsValue s)).toInt64 = Int64.ofInt (digitsValue s) := by
        apply Int64.toInt_inj.mp
        rw [Int32.toInt_toInt64, Int32.toInt_ofInt_of_le (by omega) (by omega),
          Int64.toInt_ofInt_of_le (by omega) (by omega)]
      unfold resolveLiteral
      rw [if_neg hnull, hstoll, hsame]
      exact if_pos rfl
  · cases accepted

/-- A text that is not read as a string is read as NULL or as a number. -/
theorem resolveLiteral_str_iff {s : ByteString} : resolveLiteral s = .str s ↔ ReadAsString s := by
  unfold resolveLiteral ReadAsString
  by_cases hnull : s = text "NULL"
  · simp [hnull]
  · rw [if_neg hnull]
    cases hread : stoll s with
    | error e => simp [hnull]
    | ok r =>
        obtain ⟨n, pos⟩ := r
        by_cases hpos : pos = s.length
        · simp only [hpos, if_true, reduceCtorEq, false_iff]
          rintro ⟨-, h⟩
          exact h n rfl
        · simp [hpos, hnull]

/-- What `parse_value` makes of a literal. -/
theorem parseValue_literal {tok : Token} {rest : List Token} {v : ParserValue}
    (literal : IsLiteral tok) (parsed : Parser.parseValue (tok :: rest) = .ok v rest) :
    (tok.type = .intLiteral ∧ ∃ n, stoi tok.value = .ok n ∧ v = .int n) ∨
      tok.type = .strLiteral ∧ v = .str tok.value := by
  obtain ⟨type, value, line⟩ := tok
  rcases literal with ⟨htype, -⟩ | htype
  · obtain rfl : type = .intLiteral := htype
    refine .inl ⟨rfl, ?_⟩
    cases hread : stoi value with
    | error e =>
        have : Parser.parseValue (⟨.intLiteral, value, line⟩ :: rest) = .error e rest := by
          change (fromExcept (stoi value) >>= fun n => pure (ParserValue.int n)) rest = _
          rw [hread]
          rfl
        rw [this] at parsed
        cases parsed
    | ok n =>
        have : Parser.parseValue (⟨.intLiteral, value, line⟩ :: rest) = .ok (.int n) rest := by
          change (fromExcept (stoi value) >>= fun n => pure (ParserValue.int n)) rest = _
          rw [hread]
          rfl
        rw [this] at parsed
        cases parsed
        exact ⟨n, rfl, rfl⟩
  · obtain rfl : type = .strLiteral := htype
    refine .inr ⟨rfl, ?_⟩
    have : Parser.parseValue (⟨.strLiteral, value, line⟩ :: rest) = .ok (.str value) rest := rfl
    rw [this] at parsed
    cases parsed
    rfl

/-- A comparison of a column with a literal. -/
theorem parseSimpleCondition_literal {name : ByteString} {tok : Token} {rest : List Token}
    {op : Token} {compareOp : CompareOp} (literal : IsLiteral tok)
    (hop : Parser.compareOp? op.type = some compareOp) (single : compareOp ≠ .between)
    (line : Nat) : Parser.parseSimpleCondition (⟨.identifier, name, line⟩ :: op :: tok :: rest) =
      .ok (.ofSimple { left := name, leftIsColumn := true, op := compareOp, right := tok.value })
        rest := by
  obtain ⟨type, value, line'⟩ := tok
  obtain ⟨opType, opValue, opLine⟩ := op
  have hend : opType ≠ .end_ := by
    rintro rfl
    cases hop
  have hpeek : Parser.peek (⟨opType, opValue, opLine⟩ :: ⟨type, value, line'⟩ :: rest) =
      .ok ⟨opType, opValue, opLine⟩ (⟨opType, opValue, opLine⟩ :: ⟨type, value, line'⟩ :: rest) := by
    change (if opType = .end_ then _ else _ : Parser Token) _ = _
    rw [if_neg hend]
    rfl
  have hadvance : Parser.advance (⟨opType, opValue, opLine⟩ :: ⟨type, value, line'⟩ :: rest) =
      .ok ⟨opType, opValue, opLine⟩ (⟨type, value, line'⟩ :: rest) := by
    change (if opType = .end_ then _ else _ : Parser Token) _ = _
    rw [if_neg hend]
    rfl
  have hleft : Parser.parseOperand (⟨.identifier, name, line⟩ :: ⟨opType, opValue, opLine⟩ ::
      ⟨type, value, line'⟩ :: rest) =
        .ok (name, true) (⟨opType, opValue, opLine⟩ :: ⟨type, value, line'⟩ :: rest) := rfl
  have hright : Parser.parseOperand (⟨type, value, line'⟩ :: rest) = .ok (value, false) rest := by
    rcases literal with ⟨htype, -⟩ | htype
    · obtain rfl : type = .intLiteral := htype
      rfl
    · obtain rfl : type = .strLiteral := htype
      rfl
  unfold Parser.parseSimpleCondition
  rw [bind_ok hleft]
  dsimp only
  rw [bind_ok hpeek]
  dsimp only at hop ⊢
  rw [hop]
  dsimp only
  rw [bind_ok hadvance, bind_ok hright]
  dsimp only
  rw [if_neg single]
  rfl

/-! ## The stored row -/

theorem mapM_getElem? {α β : Type} {f : α → Except Fault β} {l : List α} {r : List β}
    (h : l.mapM f = .ok r) {i : Nat} {a : α} (ha : l[i]? = some a) :
    ∃ b, f a = .ok b ∧ r[i]? = some b := by
  induction mapM_eq_ok_iff.mp h generalizing i with
  | nil => simp at ha
  | cons hf hrest ih =>
      cases i with
      | zero =>
          obtain rfl := Option.some.inj ha
          exact ⟨_, hf, rfl⟩
      | succ i => exact ih (mapM_eq_ok_iff.mpr hrest) ha

/-- `materialize` puts every value where it belongs. -/
theorem materializeLoop_getElem? {count : Nat} : ∀ {pairs : List (Nat × Value ByteString)}
    {row r : Row ByteString} {assigned : List Nat}, row.length = count →
      Table.materializeLoop count pairs row assigned = .ok r →
        (∀ p ∈ assigned, r[p]? = row[p]?) ∧
          ∀ {k : Nat} {p : Nat} {v : Value ByteString}, pairs[k]? = some (p, v) → r[p]? = some v
  | [], row, r, assigned, _, h => by
      obtain rfl := Except.ok.inj h
      exact ⟨fun _ _ => rfl, fun h => by simp at h⟩
  | (pos, value) :: pairs, row, r, assigned, hlength, h => by
      unfold Table.materializeLoop at h
      split at h
      · cases h
      next hrange =>
      split at h
      · cases h
      next hfresh =>
      obtain ⟨hkept, hset⟩ := materializeLoop_getElem? (by simpa using hlength) h
      have hset_self : (row.set pos value)[pos]? = some value := by
        rw [List.getElem?_set_self]
        omega
      refine ⟨fun p hp => ?_, fun {k p v} hk => ?_⟩
      · have hne : pos ≠ p := by
          rintro rfl
          exact hfresh hp
        rw [hkept p (List.mem_cons_of_mem pos hp), List.getElem?_set_ne hne]
      · cases k with
        | zero =>
            obtain ⟨rfl, rfl⟩ := Prod.mk.inj (Option.some.inj hk)
            rw [hkept pos List.mem_cons_self, hset_self]
        | succ k => exact hset hk

variable [IIndex ι ω] {s s' : TableState ι ω}

/-- `Table::insert` stores the row; the indexes do not change that. -/
theorem insert_stores {row : Row ByteString} {id : RowId}
    (inserted : Table.insert row s = .ok id s') :
    s'.table = { s.table with nextId := s.table.nextId + 1,
                              rows := s.table.rows.emplace s.table.nextId row,
                              order := s.table.order ++ [s.table.nextId] } := by
  have hends : Ends (Table.insert row) s (fun _ t => t.table =
      { s.table with nextId := s.table.nextId + 1,
                     rows := s.table.rows.emplace s.table.nextId row,
                     order := s.table.order ++ [s.table.nextId] }) fun _ _ => True := by
    unfold Table.insert
    rw [ends_bind, ends_get, ends_bind, ends_fromExcept]
    refine ⟨fun _ _ => ?_, fun _ _ => trivial⟩
    simp only [Table.modifyTable, ends_bind, ends_modify, ends_get, ends_fromExcept]
    refine ⟨fun stored _ => ?_, fun _ _ => trivial⟩
    unfold Table.notifyIndexesInsert
    rw [ends_bind, ends_get]
    refine (ends_forM (I := fun _ (t : TableState ι ω) => t.table =
      { s.table with nextId := s.table.nextId + 1,
                     rows := s.table.rows.emplace s.table.nextId row,
                     order := s.table.order ++ [s.table.nextId] }) rfl ?_).mono
      (fun _ t ht => ht) fun _ _ h => h
    intro before x after t _ ht
    obtain ⟨column, index⟩ := x
    cases hvalue : stored[column]? with
    | none => simpa [hvalue] using ht
    | some value =>
        simp only [hvalue, Table.onWorld, ends_zoom]
        unfold Ends
        split
        · exact ht
        · trivial
  exact hends.of_ok inserted

/-- What `s` becomes when `Table::insert` stores `row`. -/
def Stores (s s' : TableState ι ω) (row : Row ByteString) : Prop :=
  s'.table = { s.table with nextId := s.table.nextId + 1,
                            rows := s.table.rows.emplace s.table.nextId row,
                            order := s.table.order ++ [s.table.nextId] }

/-- One row of an INSERT is stored with every value where it was given. -/
theorem insertParserRow_stores {columns : List ByteString} {positions : List Nat}
    {row : List (Option ParserValue)} (mapped : columns.mapM s.table.requireColumn = .ok positions)
    (inserted : insertParserRow columns positions row s = .ok ⟨⟩ s') :
    ∃ stored, Stores s s' stored ∧ ∀ {column : Nat} {v : ParserValue},
      column < s.table.schema.columnCount → GivenTo s.table columns row column v →
        stored[column]? = some (parserValueToStorage v) := by
  unfold insertParserRow at inserted
  cases columns with
  | nil =>
      rw [if_pos (by rfl)] at inserted
      unfold Table.insertRow at inserted
      rw [bind_ok get_run] at inserted
      split at inserted
      · cases inserted
      obtain ⟨r, t, hr, hinsert⟩ := bind_eq_ok.mp inserted
      obtain ⟨hm, rfl⟩ := fromExcept_eq_ok.mp hr
      obtain ⟨id, t', hid, hdone⟩ := bind_eq_ok.mp hinsert
      obtain rfl : t' = s' := by
        cases hdone
        rfl
      refine ⟨r, insert_stores hid, fun {column v} inRange given => ?_⟩
      rcases given with ⟨-, hgiven⟩ | ⟨k, name, hname, -⟩
      · have hlt : column < s.table.schema.columns.length := inRange
        have hcolumn : s.table.schema.columns.zipIdx[column]? =
            some (s.table.schema.columns[column], column) := by
          rw [List.getElem?_zipIdx, List.getElem?_eq_getElem hlt]
          simp
        obtain ⟨b, hb, hrb⟩ := mapM_getElem? hm hcolumn
        have hrow : Table.rowValue (row.map fun v => Option.map parserValueToStorage v)
            s.table.schema.columns[column] column = .ok (parserValueToStorage v) := by
          unfold Table.rowValue
          simp [hgiven]
        obtain rfl : parserValueToStorage v = b := Except.ok.inj (hrow.symm.trans hb)
        exact hrb
      · cases hname
  | cons first others =>
      rw [if_neg (by simp)] at inserted
      rw [bind_ok get_run] at inserted
      obtain ⟨r, t, hr, hinsert⟩ := bind_eq_ok.mp inserted
      cases hm : s.table.materialize positions
          (row.map fun v => (Option.map parserValueToStorage v).getD .null) with
      | error e =>
          rw [hm] at hr
          cases hr
      | ok r' =>
          rw [hm] at hr
          cases hr
          obtain ⟨id, t', hid, hdone⟩ := bind_eq_ok.mp hinsert
          obtain rfl : t' = s' := by
            cases hdone
            rfl
          refine ⟨r, insert_stores hid, fun {column v} _ given => ?_⟩
          rcases given with ⟨hempty, -⟩ | ⟨k, name, hname, hgiven, hfound⟩
          · cases hempty
          · unfold Table.materialize at hm
            split at hm
            · cases hm
            obtain ⟨p, hp, hposition⟩ := mapM_getElem? mapped hname
            obtain rfl : column = p := by
              rw [Table.requireColumn, hfound] at hp
              exact Except.ok.inj hp
            refine (materializeLoop_getElem? (by simp) hm).2 (k := k) ?_
            rw [List.getElem?_zip_eq_some]
            exact ⟨hposition, by simp [hgiven]⟩

/-- The rows of an INSERT keep the schema and the rows stored before. -/
theorem insertParserRows_keep {columns : List ByteString} {positions : List Nat} :
    ∀ {rows : List (List (Option ParserValue))} {s s' : TableState ι ω},
      columns.mapM s.table.requireColumn = .ok positions →
      rows.forM (insertParserRow columns positions) s = .ok ⟨⟩ s' →
        s'.table.schema = s.table.schema ∧ s'.table.requireColumn = s.table.requireColumn ∧
          ∀ {id : RowId} {r : Row ByteString}, s.table.rows.find? id = some r →
            s'.table.rows.find? id = some r
  | [], s, s', _, h => by
      cases h
      exact ⟨rfl, rfl, fun h => h⟩
  | row :: rows, s, s', mapped, h => by
      obtain ⟨_, t, hrow, hrows⟩ := bind_eq_ok.mp h
      obtain ⟨stored, hstored, -⟩ := insertParserRow_stores mapped hrow
      have hschema : t.table.schema = s.table.schema := by rw [hstored]
      have hrequire : t.table.requireColumn = s.table.requireColumn := by
        funext name
        unfold Table.requireColumn
        rw [hschema]
      obtain ⟨hschema', hrequire', hkept⟩ :=
        insertParserRows_keep (by rw [hrequire, mapped]) hrows
      refine ⟨hschema'.trans hschema, hrequire'.trans hrequire, fun {id r} hr => hkept ?_⟩
      rw [hstored, UnorderedMap.find?_emplace]
      split
      · next heq => rw [← heq, hr, Option.some_or]
      · exact hr

/-- The columns of an INSERT are looked up before its first row. -/
theorem insertRows_eq_ok {columns : List ByteString} {rows : List (List (Option ParserValue))}
    (inserted : insertRows columns rows s = .ok ⟨⟩ s') :
    ∃ positions, columns.mapM s.table.requireColumn = .ok positions ∧
      rows.forM (insertParserRow columns positions) s = .ok ⟨⟩ s' := by
  unfold insertRows at inserted
  rw [bind_ok get_run] at inserted
  obtain ⟨positions, t, hpositions, hrows⟩ := bind_eq_ok.mp inserted
  cases hm : columns.mapM s.table.requireColumn with
  | error e =>
      rw [hm] at hpositions
      cases hpositions
  | ok ps =>
      rw [hm] at hpositions
      cases hpositions
      exact ⟨positions, rfl, hrows⟩

/-- Every row of an INSERT is stored with the values where they were given; `t` is the
state its own turn starts in. -/
theorem insertRows_stores {columns : List ByteString}
    {before after : List (List (Option ParserValue))} {row : List (Option ParserValue)}
    {column : Nat} {v : ParserValue} {t : TableState ι ω}
    (reached : insertRows columns before s = .ok ⟨⟩ t)
    (fresh : t.table.nextId ∉ t.table.rows.keys)
    (inRange : column < s.table.schema.columnCount)
    (given : GivenTo s.table columns row column v)
    (inserted : insertRows columns (before ++ row :: after) s = .ok ⟨⟩ s') :
    s'.table.schema = s.table.schema ∧ ∃ stored, s'.table.rows.find? t.table.nextId = some stored ∧
      stored[column]? = some (parserValueToStorage v) := by
  obtain ⟨positions, mapped, hbefore⟩ := insertRows_eq_ok reached
  obtain ⟨positions', mapped', hall⟩ := insertRows_eq_ok inserted
  obtain rfl : positions = positions' := Except.ok.inj (mapped.symm.trans mapped')
  obtain ⟨_, u, hrow, hafter⟩ := bind_eq_ok.mp ((forM_append_run hbefore).symm.trans hall)
  obtain ⟨hschema, hrequire, -⟩ := insertParserRows_keep mapped hbefore
  have mapped_t : columns.mapM t.table.requireColumn = .ok positions := by rw [hrequire, mapped]
  obtain ⟨stored, hstored, hvalue⟩ := insertParserRow_stores mapped_t hrow
  have hschema_u : u.table.schema = t.table.schema := by rw [hstored]
  have hrequire_u : u.table.requireColumn = t.table.requireColumn := by
    funext name
    unfold Table.requireColumn
    rw [hschema_u]
  obtain ⟨hschema', -, hkept⟩ := insertParserRows_keep (by rw [hrequire_u, mapped_t]) hafter
  refine ⟨by rw [hschema', hschema_u, hschema], stored, hkept ?_, ?_⟩
  · have hnone := UnorderedMap.find?_eq_none_iff.mpr fresh
    rw [hstored]
    simp [UnorderedMap.find?_emplace, hnone]
  · refine hvalue (by rw [hschema]; exact inRange) ?_
    unfold GivenTo
    rw [hschema]
    exact given

/-! ## The law -/

/-- A comparison of the stored value with a literal. -/
theorem evaluate_literal {regexMatch : RegexMatch} {table : Table ByteString ι}
    {row : Row ByteString} {name literal : ByteString} {column : Nat} {v : Value ByteString}
    {op : CompareOp} (found : table.schema.findIndex name = some column)
    (value : row[column]? = some v) (single : op ≠ .between) :
    evaluateCondition regexMatch table row
        (.ofSimple { left := name, leftIsColumn := true, op, right := literal }) =
      compareOperands regexMatch op v (resolveLiteral literal) .null := by
  have hleft := (resolveOperand_column found).mpr value
  have hright : resolveOperand literal false table row = .ok (resolveLiteral literal) := rfl
  unfold evaluateCondition Condition.ofSimple evaluateConditionWith evaluateSimpleCondition
  simp only [hleft, hright, single, if_false, bind, Except.bind]
  cases compareOperands regexMatch op v (resolveLiteral literal) .null <;> rfl

/-- The row that an INSERT of a literal stores satisfies `col == literal` and not
`col != literal`, exactly when the literal is an int literal or a string literal that
`resolve_operand` takes for a string. -/
theorem inserted_literal_found_iff {regexMatch : RegexMatch} {tok : Token} {rest : List Token}
    {v : ParserValue} {columns : List ByteString}
    {before after : List (List (Option ParserValue))} {row : List (Option ParserValue)}
    {name : ByteString} {column : Nat} {t : TableState ι ω}
    (reached : insertRows columns before s = .ok ⟨⟩ t)
    (fresh : t.table.nextId ∉ t.table.rows.keys) (literal : IsLiteral tok)
    (parsed : Parser.parseValue (tok :: rest) = .ok v rest)
    (found : s.table.schema.findIndex name = some column)
    (given : GivenTo s.table columns row column v)
    (inserted : insertRows columns (before ++ row :: after) s = .ok ⟨⟩ s') (line : Nat) :
    ∃ stored equal unequal,
      s'.table.rows.find? t.table.nextId = some stored ∧
      Parser.parseSimpleCondition
        (⟨.identifier, name, line⟩ :: ⟨.opEq, text "==", line⟩ :: tok :: rest) = .ok equal rest ∧
      Parser.parseSimpleCondition
        (⟨.identifier, name, line⟩ :: ⟨.opNeq, text "!=", line⟩ :: tok :: rest) =
          .ok unequal rest ∧
      (evaluateCondition regexMatch s'.table stored equal = .ok true ∧
          evaluateCondition regexMatch s'.table stored unequal = .ok false ↔
        tok.type = .intLiteral ∨ ReadAsString tok.value) := by
  obtain ⟨hschema, stored, hstored, hvalue⟩ :=
    insertRows_stores reached fresh (TableSchema.findIndex_lt found) given inserted
  have hfound : s'.table.schema.findIndex name = some column := by rw [hschema, found]
  refine ⟨stored, _, _, hstored,
    parseSimpleCondition_literal literal rfl (by decide) line,
    parseSimpleCondition_literal literal rfl (by decide) line, ?_⟩
  rw [evaluate_literal hfound hvalue (by decide), evaluate_literal hfound hvalue (by decide)]
  have hsame : ∀ w : Value ByteString, w ≠ .null → w = resolveLiteral tok.value →
      compareOperands regexMatch .eq w (resolveLiteral tok.value) .null = .ok true ∧
        compareOperands regexMatch .neq w (resolveLiteral tok.value) .null = .ok false := by
    rintro w hw rfl
    have := Value.compare_eq_some_eq_iff.mpr
      (⟨rfl, hw⟩ : resolveLiteral tok.value = resolveLiteral tok.value ∧ _)
    simp [compareOperands, this]
  rcases parseValue_literal literal parsed with ⟨htype, n, hn, rfl⟩ | ⟨htype, rfl⟩
  · refine ⟨fun _ => .inl htype, fun _ => hsame _ (by simp [parserValueToStorage]) ?_⟩
    rcases literal with ⟨-, hfilled, hdigits⟩ | hstr
    · exact (resolveLiteral_digits hfilled hdigits hn).symm
    · rw [htype] at hstr
      cases hstr
  · rw [htype]
    simp only [reduceCtorEq, false_or, parserValueToStorage]
    constructor
    · rintro ⟨hequal, -⟩
      have : Value.compare (.str tok.value) (resolveLiteral tok.value) = some .eq := by
        simpa [compareOperands] using hequal
      exact resolveLiteral_str_iff.mp (Value.compare_eq_some_eq_iff.mp this).1.symm
    · intro hread
      exact hsame _ (by simp) (resolveLiteral_str_iff.mpr hread).symm

section Instances

/-- A table of one STRING column. -/
private def names : TableState Nat MapStore :=
  ⟨Table.ofSchema (text "t") ⟨[{ name := text "name", type := .str }], by decide, by decide⟩, []⟩

private def ann : ByteString := text "ann"

/-- `INSERT INTO t VALUE ("ann")` is found again. -/
theorem inserted_literal_found_of_text : ∃ (s' : TableState Nat MapStore) (stored : Row ByteString)
    (equal : Condition), insertRows [] [[some (.str ann)]] names = .ok ⟨⟩ s' ∧
      s'.table.rows.find? 1 = some stored ∧
      Parser.parseSimpleCondition
        [⟨.identifier, text "name", 1⟩, ⟨.opEq, text "==", 1⟩, ⟨.strLiteral, ann, 1⟩] =
          .ok equal [] ∧
      evaluateCondition (fun _ _ => .ok false) s'.table stored equal = .ok true := by
  obtain ⟨stored, equal, unequal, hstored, hequal, -, hiff⟩ :=
    inserted_literal_found_iff
      (show insertRows [] [] names = .ok ⟨⟩ names from rfl) (by decide) (.inr rfl)
      (show Parser.parseValue [⟨.strLiteral, ann, 1⟩] = .ok (.str ann) [] from rfl)
      (show names.table.schema.findIndex (text "name") = some 0 by decide)
      (show GivenTo names.table [] [some (.str ann)] 0 (.str ann) from .inl ⟨rfl, rfl⟩)
      (show insertRows [] ([] ++ [some (.str ann)] :: []) names = .ok ⟨⟩ _ from rfl) 1
  have hread : ReadAsString ann := by
    refine ⟨by decide, fun n => ?_⟩
    have : stoll ann = .error (.throws .invalidArgument (text "stoll")) := by decide
    rw [this]
    exact nofun
  exact ⟨_, stored, equal, rfl, hstored, hequal, (hiff.mpr (.inr hread)).1⟩

/-- `INSERT INTO t VALUE ("12")` stores a text that `name == "12"` compares with the
number 12. -/
theorem numeric_text_not_found : ∃ (s' : TableState Nat MapStore) (stored : Row ByteString)
    (equal : Condition),
      Parser.parseValue [⟨.strLiteral, text "12", 1⟩] = .ok (.str (text "12")) [] ∧
      insertRows [] [[some (.str (text "12"))]] names = .ok ⟨⟩ s' ∧
      s'.table.rows.find? 1 = some stored ∧
      Parser.parseSimpleCondition
        [⟨.identifier, text "name", 1⟩, ⟨.opEq, text "==", 1⟩, ⟨.strLiteral, text "12", 1⟩] =
          .ok equal [] ∧
      evaluateCondition (fun _ _ => .ok false) s'.table stored equal = .ok false :=
  ⟨_, [.str (text "12")], _, rfl, rfl, rfl, rfl, by decide +kernel⟩

end Instances
end CwDb.Executor
