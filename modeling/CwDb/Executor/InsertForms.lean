/-
  Executor/InsertForms.lean --- INSERT with a column list against positional INSERT.

  The positional form goes through `insert_row`, which fills in the defaults; the form
  with a column list goes through `materialize`, which leaves NULL.  The two agree as long
  as that makes no difference.
-/
import CwDb.Executor.Literals

set_option autoImplicit false

namespace CwDb.Executor

open CwDb.Cpp
open CwDb.Foundation
open CwDb.Sql
open CwDb.Storage

/-! ## The rows of the two forms -/

/-- What `(columns) VALUES (values)` gives the column `name`. -/
def givenValue (columns : List ByteString) (values : List (Option ParserValue))
    (name : ByteString) : Option ParserValue :=
  ((columns.zip values).lookup name).join

/-- The positional row with every value at its column's position. -/
def positionalRow (schema : TableSchema ByteString) (columns : List ByteString)
    (values : List (Option ParserValue)) : List (Option ParserValue) :=
  schema.columns.map fun c => givenValue columns values c.name

/-- The row with NULL where nothing is given. -/
def listedRow (schema : TableSchema ByteString) (columns : List ByteString)
    (values : List (Option ParserValue)) : Row ByteString :=
  schema.columns.map fun c =>
    ((givenValue columns values c.name).map parserValueToStorage).getD .null

/-- The row with the default where nothing is given, and NULL where there is none. -/
def filledRow (schema : TableSchema ByteString) (columns : List ByteString)
    (values : List (Option ParserValue)) : Row ByteString :=
  schema.columns.map fun c =>
    ((givenValue columns values c.name).map parserValueToStorage).getD (c.defaultValue.getD .null)

/-- No column that is given nothing has a default but NULL. -/
def NoDefaultDue (schema : TableSchema ByteString) (columns : List ByteString)
    (values : List (Option ParserValue)) : Prop :=
  ∀ c ∈ schema.columns, givenValue columns values c.name = none →
    c.defaultValue.getD .null = .null

section Rows

variable {schema : TableSchema ByteString} {columns : List ByteString}
  {values : List (Option ParserValue)}

theorem listedRow_eq_filledRow_iff :
    listedRow schema columns values = filledRow schema columns values ↔
      NoDefaultDue schema columns values := by
  unfold listedRow filledRow
  rw [List.map_inj_left]
  constructor
  · intro same c hc hnone
    have := same c hc
    rw [hnone] at this
    exact this.symm
  · intro none c hc
    cases hgiven : givenValue columns values c.name with
    | some v => rfl
    | none => exact (none c hc hgiven).symm

theorem lookup_zip_of_notMem {name : ByteString} (h : name ∉ columns) :
    (columns.zip values).lookup name = none := by
  refine List.lookup_eq_none_iff.mpr fun p hp => ?_
  have hmem := (List.of_mem_zip (show (p.1, p.2) ∈ columns.zip values from hp)).1
  simpa using fun heq : name = p.1 => h (heq ▸ hmem)

/-- The loop of `materialize` over named columns. -/
theorem materializeLoop_named {position : ByteString → Nat}
    (found : ∀ name ∈ columns, schema.findIndex name = some (position name))
    (distinct : columns.Nodup) (sameLength : values.length = columns.length)
    {row : Row ByteString} {assigned : List Nat}
    (free : ∀ name ∈ columns, position name ∉ assigned) (arity : row.length = schema.columnCount) :
    ∃ r, Table.materializeLoop schema.columnCount ((columns.map position).zip
        (values.map fun v => (v.map parserValueToStorage).getD .null)) row assigned = .ok r ∧
      r.length = schema.columnCount ∧
      ∀ (i : Nat) (c : Storage.ColumnDef ByteString), schema.columns[i]? = some c →
        r[i]? = (((columns.zip values).lookup c.name).map fun v =>
          (v.map parserValueToStorage).getD .null).or row[i]? := by
  induction columns generalizing values row assigned with
  | nil => exact ⟨row, rfl, arity, fun _ _ _ => rfl⟩
  | cons name columns ih =>
      cases values with
      | nil => cases sameLength
      | cons v values =>
          have hposition := found name List.mem_cons_self
          have hlt := TableSchema.findIndex_lt hposition
          obtain ⟨c₀, hc₀, hname⟩ := TableSchema.findIndex_eq_some_iff.mp hposition
          have hsame : ∀ {i : Nat} {c : Storage.ColumnDef ByteString},
              schema.columns[i]? = some c → c.name = name → i = position name := by
            intro i c hc hcname
            have := TableSchema.findIndex_eq_some_iff.mpr ⟨c, hc, hcname⟩
            exact Option.some.inj (this.symm.trans hposition)
          rw [List.nodup_cons] at distinct
          have hfree : ∀ other ∈ columns, position other ∉ position name :: assigned := by
            intro other hother hmem
            rcases List.mem_cons.mp hmem with heq | hmem
            · obtain ⟨c, hc, hcname⟩ := TableSchema.findIndex_eq_some_iff.mp
                (found other (List.mem_cons_of_mem name hother))
              rw [heq, hc₀] at hc
              obtain rfl := Option.some.inj hc
              exact distinct.1 (hname ▸ hcname ▸ hother)
            · exact free other (List.mem_cons_of_mem name hother) hmem
          have hset : (row.set (position name) ((v.map parserValueToStorage).getD .null)).length =
              schema.columnCount := by rw [List.length_set, arity]
          obtain ⟨r, hr, hlength, hvalues⟩ := ih
            (fun other hother => found other (List.mem_cons_of_mem name hother)) distinct.2
            (Nat.succ.inj sameLength) hfree hset
          refine ⟨r, ?_, hlength, fun i c hc => ?_⟩
          · rw [List.map_cons, List.map_cons, List.zip_cons_cons, Table.materializeLoop,
              if_neg (by omega), if_neg (free name List.mem_cons_self)]
            exact hr
          · rw [hvalues i c hc, List.zip_cons_cons, List.lookup_cons]
            by_cases hcname : c.name = name
            · obtain rfl := hsame hc hcname
              rw [hcname, lookup_zip_of_notMem distinct.1, List.getElem?_set_self (by omega)]
              simp
            · have hne : position name ≠ i := by
                rintro rfl
                rw [hc₀] at hc
                exact hcname (Option.some.inj hc ▸ hname)
              rw [List.getElem?_set_ne hne, beq_eq_false_iff_ne.mpr hcname]

/-- A loop that never throws returns the results. -/
theorem mapM_eq_ok_map {α β : Type} {f : α → Except Fault β} {g : α → β} {l : List α}
    (h : ∀ x ∈ l, f x = .ok (g x)) : l.mapM f = .ok (l.map g) := by
  induction l with
  | nil => rfl
  | cons x l ih =>
      rw [List.mapM_cons, h x List.mem_cons_self,
        ih fun y hy => h y (List.mem_cons_of_mem x hy)]
      rfl

/-- A loop throws when an element does. -/
theorem mapM_eq_error {α β : Type} {f : α → Except Fault β} {l : List α} {x : α} {e : Fault}
    (mem : x ∈ l) (h : f x = .error e) : ∃ e', l.mapM f = .error e' := by
  cases hl : l.mapM f with
  | error e' => exact ⟨e', rfl⟩
  | ok r =>
      obtain ⟨i, hi⟩ := List.getElem?_of_mem mem
      obtain ⟨b, hb, -⟩ := mapM_getElem? hl hi
      rw [h] at hb
      cases hb

theorem materialize_eq_listedRow {ι : Type} {t : Table ByteString ι} {positions : List Nat}
    (mapped : columns.mapM t.requireColumn = .ok positions) (distinct : columns.Nodup)
    (sameLength : values.length = columns.length) :
    t.materialize positions (values.map fun v => (v.map parserValueToStorage).getD .null) =
      .ok (listedRow t.schema columns values) := by
  have hfound : ∀ name ∈ columns, ∃ p, t.schema.findIndex name = some p := by
    intro name hname
    obtain ⟨i, hi⟩ := List.getElem?_of_mem hname
    obtain ⟨p, hp, -⟩ := mapM_getElem? mapped hi
    unfold Table.requireColumn at hp
    cases h : t.schema.findIndex name with
    | some q => exact ⟨q, rfl⟩
    | none =>
        rw [h] at hp
        cases hp
  have hposition : ∀ name ∈ columns,
      t.schema.findIndex name = some ((t.schema.findIndex name).getD 0) := by
    intro name hname
    obtain ⟨p, hp⟩ := hfound name hname
    rw [hp]
    rfl
  have hpositions : positions = columns.map fun name => (t.schema.findIndex name).getD 0 := by
    have := mapM_eq_ok_map (f := t.requireColumn)
      (g := fun name => (t.schema.findIndex name).getD 0) (l := columns) fun name hname => by
        unfold Table.requireColumn
        rw [hposition name hname]
        rfl
    exact Except.ok.inj (mapped.symm.trans this)
  have harity : (List.replicate t.schema.columnCount (.null : Value ByteString)).length =
      t.schema.columnCount := List.length_replicate
  have hfree : ∀ name ∈ columns, (t.schema.findIndex name).getD 0 ∉ ([] : List Nat) :=
    fun _ _ => List.not_mem_nil
  obtain ⟨r, hr, hlength, hvalues⟩ := materializeLoop_named hposition distinct sameLength hfree harity
  unfold Table.materialize
  rw [if_neg (by simp [hpositions, sameLength]), hpositions, hr]
  refine congrArg Except.ok (List.ext_getElem? fun i => ?_)
  unfold listedRow givenValue
  rw [List.getElem?_map]
  cases hc : t.schema.columns[i]? with
  | none =>
      have hle := List.getElem?_eq_none_iff.mp hc
      exact List.getElem?_eq_none (hlength ▸ hle)
  | some c =>
      have hlt : i < t.schema.columnCount := (List.getElem?_eq_some_iff.mp hc).1
      rw [hvalues i c hc, List.getElem?_replicate_of_lt hlt, Option.map_some]
      cases (columns.zip values).lookup c.name with
      | none => rfl
      | some v => rfl

end Rows

/-! ## Refused rows -/

variable {ι ω : Type} [IIndex ι ω] {s : TableState ι ω}

/-- `Table::validate` takes offence at the value `v` of the column `c`, which is at `i`. -/
def RefusedAt (s : TableState ι ω) (i : Nat) (c : Storage.ColumnDef ByteString)
    (v : Value ByteString) : Prop :=
  if v = .null then c.notNull = true ∨ c.indexed = true
  else v.matches c.type = false ∨
    c.indexed = true ∧ s.table.valueExistsInColumn s.world i v none ≠ .ok false

/-- A value of the row is refused. -/
def Refused (s : TableState ι ω) (row : Row ByteString) : Prop :=
  ∃ i c v, s.table.schema.columns[i]? = some c ∧ row[i]? = some v ∧ RefusedAt s i c v

theorem forM_ok {α ε : Type} {f : α → Except ε PUnit} {l : List α}
    (h : ∀ x ∈ l, f x = .ok ⟨⟩) : l.forM f = .ok ⟨⟩ := by
  induction l with
  | nil => rfl
  | cons x l ih =>
      change (f x >>= fun _ => l.forM f) = .ok ⟨⟩
      rw [h x List.mem_cons_self]
      exact ih fun y hy => h y (List.mem_cons_of_mem x hy)

theorem validateColumn_eq_ok_iff {row : Row ByteString} {i : Nat}
    {c : Storage.ColumnDef ByteString} {v : Value ByteString}
    (hc : s.table.schema.columns[i]? = some c) (hv : row[i]? = some v) :
    s.table.validateColumn s.world row none i = .ok ⟨⟩ ↔ ¬ RefusedAt s i c v := by
  have hat : s.table.schema.at i = .ok c := vectorAt_eq_ok.mpr hc
  have hvalue : vectorAt row i = .ok v := vectorAt_eq_ok.mpr hv
  unfold Table.validateColumn RefusedAt
  rw [hat, hvalue]
  simp only [bind, Except.bind]
  by_cases hnull : v = .null
  · subst hnull
    by_cases hrequired : c.notNull = true ∨ c.indexed = true
    · simp [Value.isNull, hrequired, raise]
    · simp [Value.isNull, hrequired, pure, Except.pure]
  · have hisNull : v.isNull = false := by
      cases v <;> first | exact absurd rfl hnull | rfl
    rw [if_neg hnull, hisNull, if_neg Bool.false_ne_true]
    cases hmatch : v.matches c.type with
    | false => simp [raise]
    | true =>
        cases hindexed : c.indexed with
        | false => simp [pure, Except.pure]
        | true =>
            cases hexists : s.table.valueExistsInColumn s.world i v none with
            | error e => simp
            | ok found => cases found <;> simp [raise, pure, Except.pure]

theorem validate_eq_ok_iff {row : Row ByteString} (arity : row.length = s.table.schema.columnCount) :
    s.table.validate s.world row none = .ok ⟨⟩ ↔ ¬ Refused s row := by
  unfold Table.validate Refused
  rw [if_neg (by simpa using arity)]
  constructor
  · rintro hok ⟨i, c, v, hc, hv, hrefused⟩
    have hlt : i < s.table.schema.columnCount := (List.getElem?_eq_some_iff.mp hc).1
    have := forM_eq_ok hok i (List.mem_range.mpr hlt)
    exact (validateColumn_eq_ok_iff hc hv).mp this hrefused
  · intro hnone
    refine forM_ok fun i hi => ?_
    have hlt := List.mem_range.mp hi
    have hc : s.table.schema.columns[i]? = some s.table.schema.columns[i] :=
      List.getElem?_eq_getElem hlt
    have hv : row[i]? = some row[i] := List.getElem?_eq_getElem (arity ▸ hlt)
    exact (validateColumn_eq_ok_iff hc hv).mpr fun h => hnone ⟨i, _, _, hc, hv, h⟩

theorem insert_of_refused {row : Row ByteString} (arity : row.length = s.table.schema.columnCount)
    (refused : Refused s row) : outcome (Table.insert row s) = (false, s) := by
  unfold Table.insert
  rw [bind_ok get_run]
  cases hvalid : s.table.validate s.world row none with
  | ok u => exact absurd refused ((validate_eq_ok_iff arity).mp hvalid)
  | error e => rfl

/-- A row that is not refused is put into the table, and the indexes are told. -/
theorem insert_run {row : Row ByteString} (arity : row.length = s.table.schema.columnCount)
    (accepted : ¬ Refused s row) :
    Table.insert row s =
      (do let t ← get
          let stored ← fromExcept (t.table.rowAt s.table.nextId)
          Table.notifyIndexesInsert s.table.nextId stored
          pure s.table.nextId : TableM ι ω RowId) { s with table := s.table.withRow row } := by
  unfold Table.insert
  rw [bind_ok get_run, (validate_eq_ok_iff arity).mpr accepted]
  rfl

theorem insert_of_not_refused {row : Row ByteString}
    (arity : row.length = s.table.schema.columnCount) (accepted : ¬ Refused s row) :
    (outcome (Table.insert row s)).2.table = s.table.withRow row := by
  rw [insert_run arity accepted]
  refine (ends_iff_outcome (P := fun t : TableState ι ω => t.table = s.table.withRow row)).mp ?_
  rw [ends_bind, ends_get, ends_bind, ends_fromExcept]
  refine ⟨fun stored _ => ?_, fun _ _ => rfl⟩
  unfold Table.notifyIndexesInsert
  rw [ends_bind, ends_bind, ends_get]
  refine (ends_forM (I := fun _ (t : TableState ι ω) => t.table = s.table.withRow row) rfl ?_).mono
    (fun _ _ h => h) fun _ _ h => h
  intro before x after t _ ht
  cases hvalue : stored[x.1]? with
  | none => simpa [hvalue] using ht
  | some value =>
      simp only [hvalue, Table.onWorld, ends_zoom]
      unfold Ends
      split <;> exact ht

/-- Under an id that is taken no row is stored. -/
theorem insert_of_taken {row row' : Row ByteString}
    (arity : row.length = s.table.schema.columnCount)
    (arity' : row'.length = s.table.schema.columnCount) (accepted : ¬ Refused s row)
    (accepted' : ¬ Refused s row') (taken : s.table.nextId ∈ s.table.rows.keys) :
    Table.insert row s = Table.insert row' s := by
  rw [insert_run arity accepted, insert_run arity' accepted']
  unfold Table.withRow
  rw [UnorderedMap.emplace_of_mem taken, UnorderedMap.emplace_of_mem taken]

/-- When two rows fare alike. -/
theorem insert_outcome_eq_iff {row row' : Row ByteString}
    (arity : row.length = s.table.schema.columnCount)
    (arity' : row'.length = s.table.schema.columnCount) :
    outcome (Table.insert row s) = outcome (Table.insert row' s) ↔
      row = row' ∨ (Refused s row ∧ Refused s row') ∨
        s.table.nextId ∈ s.table.rows.keys ∧ ¬ Refused s row ∧ ¬ Refused s row' := by
  have hgrows : ∀ {r r' : Row ByteString}, r.length = s.table.schema.columnCount →
      r'.length = s.table.schema.columnCount → Refused s r → ¬ Refused s r' →
      outcome (Table.insert r s) ≠ outcome (Table.insert r' s) := by
    intro r r' har har' hr hr' heq
    have htable := insert_of_not_refused har' hr'
    rw [← heq, insert_of_refused har hr] at htable
    have horder := congrArg (fun t => t.order.length) htable
    simp [Table.withRow] at horder
  constructor
  · intro heq
    by_cases hrow : Refused s row
    · by_cases hrow' : Refused s row'
      · exact .inr (.inl ⟨hrow, hrow'⟩)
      · exact absurd heq (hgrows arity arity' hrow hrow')
    by_cases hrow' : Refused s row'
    · exact absurd heq.symm (hgrows arity' arity hrow' hrow)
    by_cases htaken : s.table.nextId ∈ s.table.rows.keys
    · exact .inr (.inr ⟨htaken, hrow, hrow'⟩)
    left
    have htable := insert_of_not_refused arity hrow
    rw [heq, insert_of_not_refused arity' hrow'] at htable
    have hfind := congrArg (fun t => t.rows.find? s.table.nextId) htable
    rw [Table.find?_withRow htaken, Table.find?_withRow htaken, if_pos rfl, if_pos rfl] at hfind
    exact (Option.some.inj hfind).symm
  · rintro (rfl | ⟨hrow, hrow'⟩ | ⟨htaken, hrow, hrow'⟩)
    · rfl
    · rw [insert_of_refused arity hrow, insert_of_refused arity' hrow']
    · rw [insert_of_taken arity arity' hrow hrow' htaken]

/-! ## The two forms -/

variable {columns : List ByteString} {values : List (Option ParserValue)}

/-- An INSERT of one row. -/
theorem insertRows_single {positions : List Nat}
    (mapped : columns.mapM s.table.requireColumn = .ok positions) :
    insertRows columns [values] s = insertParserRow columns positions values s := by
  unfold insertRows
  rw [bind_ok get_run, mapped]
  change (insertParserRow columns positions values >>= fun _ => pure PUnit.unit) s = _
  cases hrow : insertParserRow columns positions values s with
  | ok u t => rw [bind_ok hrow]; rfl
  | error e t => rw [bind_error hrow]

theorem outcome_listed (named : columns ≠ []) (distinct : columns.Nodup)
    (existing : ∀ name ∈ columns, name ∈ s.table.schema.columns.map (·.name))
    (sameLength : values.length = columns.length) :
    outcome (insertRows columns [values] s) =
      outcome (Table.insert (listedRow s.table.schema columns values) s) := by
  have mapped : columns.mapM s.table.requireColumn =
      .ok (columns.map fun name => (s.table.schema.findIndex name).getD 0) := by
    refine mapM_eq_ok_map fun name hname => ?_
    obtain ⟨c, hc, rfl⟩ := List.mem_map.mp (existing name hname)
    obtain ⟨i, hi⟩ := List.getElem?_of_mem hc
    unfold Table.requireColumn
    rw [TableSchema.findIndex_eq_some_iff.mpr ⟨c, hi, rfl⟩]
    rfl
  rw [insertRows_single mapped]
  unfold insertParserRow
  rw [if_neg (by simpa using named), bind_ok get_run,
    materialize_eq_listedRow mapped distinct sameLength, fromExcept_ok]
  exact outcome_bind_pure

theorem rowValue_positionalRow {schema : TableSchema ByteString}
    {c : Storage.ColumnDef ByteString} {i : Nat} (hc : schema.columns[i]? = some c) :
    Table.rowValue ((positionalRow schema columns values).map fun v => v.map parserValueToStorage)
        c i =
      if givenValue columns values c.name = none ∧ c.defaultValue = none ∧ c.notNull = true then
        raise .invalidArgument
          (text "Table::insert_row: missing NOT_NULL value for column '" ++ c.name ++ text "'")
      else .ok (((givenValue columns values c.name).map parserValueToStorage).getD
        (c.defaultValue.getD .null)) := by
  unfold Table.rowValue positionalRow
  rw [List.getElem?_map, List.getElem?_map, hc, Option.map_some, Option.map_some]
  cases givenValue columns values c.name with
  | some v => simp
  | none =>
      cases c.defaultValue with
      | some v => simp
      | none => simp

theorem outcome_positional :
    outcome (insertRows [] [positionalRow s.table.schema columns values] s) =
      outcome (Table.insert (filledRow s.table.schema columns values) s) := by
  have hempty : ([] : List ByteString).isEmpty = true := rfl
  have hmapped : ([] : List ByteString).mapM s.table.requireColumn = .ok [] := rfl
  rw [insertRows_single hmapped]
  unfold insertParserRow Table.insertRow
  rw [if_pos hempty, bind_ok get_run, if_neg (by simp [positionalRow, TableSchema.columnCount])]
  change outcome ((fromExcept (s.table.schema.columns.zipIdx.mapM fun p => Table.rowValue
    ((positionalRow s.table.schema columns values).map fun v => v.map parserValueToStorage)
    p.1 p.2) >>= fun row => Table.insert row >>= fun _ => pure PUnit.unit : TableM ι ω PUnit) s) = _
  by_cases hmissing : ∃ c ∈ s.table.schema.columns,
      givenValue columns values c.name = none ∧ c.defaultValue = none ∧ c.notNull = true
  · obtain ⟨c, hc, hmissing⟩ := hmissing
    obtain ⟨i, hi⟩ := List.getElem?_of_mem hc
    obtain ⟨e, he⟩ : ∃ e, (s.table.schema.columns.zipIdx.mapM fun p => Table.rowValue
        ((positionalRow s.table.schema columns values).map fun v => v.map parserValueToStorage)
        p.1 p.2) = .error e :=
      mapM_eq_error (x := (c, i)) (List.mem_zipIdx_iff_getElem?.mpr hi)
        ((rowValue_positionalRow hi).trans (if_pos hmissing))
    -- the other form finds the NULL in `validate`
    have hrefused : Refused s (filledRow s.table.schema columns values) := by
      refine ⟨i, c, .null, hi, ?_, ?_⟩
      · unfold filledRow
        rw [List.getElem?_map, hi, Option.map_some, hmissing.1, hmissing.2.1]
        rfl
      · unfold RefusedAt
        rw [if_pos rfl]
        exact .inl hmissing.2.2
    rw [he, insert_of_refused (by simp [filledRow, TableSchema.columnCount]) hrefused]
    rfl
  · have hrow : s.table.schema.columns.zipIdx.mapM (fun p => Table.rowValue
        ((positionalRow s.table.schema columns values).map fun v => v.map parserValueToStorage)
        p.1 p.2) = .ok (filledRow s.table.schema columns values) := by
      rw [mapM_eq_ok_map (g := fun p => ((givenValue columns values p.1.name).map
        parserValueToStorage).getD (p.1.defaultValue.getD .null))]
      · unfold filledRow
        conv_rhs => rw [← List.zipIdx_map_fst 0 s.table.schema.columns, List.map_map]
        rfl
      · intro p hp
        have hi := List.mem_zipIdx_iff_getElem?.mp hp
        rw [rowValue_positionalRow hi, if_neg]
        exact fun h => hmissing ⟨p.1, List.mem_of_getElem? hi, h⟩
    rw [hrow]
    exact outcome_bind_pure

/-- When INSERT with a column list does what positional INSERT does. -/
theorem insert_forms_agree_iff (named : columns ≠ []) (distinct : columns.Nodup)
    (existing : ∀ name ∈ columns, name ∈ s.table.schema.columns.map (·.name))
    (sameLength : values.length = columns.length) :
    outcome (insertRows columns [values] s) =
        outcome (insertRows [] [positionalRow s.table.schema columns values] s) ↔
      NoDefaultDue s.table.schema columns values ∨
        (Refused s (listedRow s.table.schema columns values) ∧
          Refused s (filledRow s.table.schema columns values)) ∨
        s.table.nextId ∈ s.table.rows.keys ∧
          ¬ Refused s (listedRow s.table.schema columns values) ∧
          ¬ Refused s (filledRow s.table.schema columns values) := by
  rw [outcome_listed named distinct existing sameLength, outcome_positional,
    insert_outcome_eq_iff (by simp [listedRow, TableSchema.columnCount])
      (by simp [filledRow, TableSchema.columnCount]), listedRow_eq_filledRow_iff]

section Instances

/-- A table of `id INT` and `age INT DEFAULT 18`. -/
private def agesTable : TableState Nat MapStore :=
  ⟨Table.ofSchema (text "t") ⟨[{ name := text "id" },
    { name := text "age", defaultValue := some (.int 18) }], by decide, by decide⟩, []⟩

private theorem agesTable_existing {columns : List ByteString}
    (h : columns = [text "id"] ∨ columns = [text "age", text "id"]) :
    ∀ name ∈ columns, name ∈ agesTable.table.schema.columns.map (·.name) := by
  rcases h with rfl | rfl <;> decide

/-- `INSERT INTO t (age, id) VALUES (30, 1)` is `INSERT INTO t VALUES (1, 30)`. -/
theorem insert_forms_agree_of_both_columns :
    outcome (insertRows [text "age", text "id"] [[some (.int 30), some (.int 1)]] agesTable) =
      outcome (insertRows [] [[some (.int 1), some (.int 30)]] agesTable) :=
  (insert_forms_agree_iff (by decide) (by decide) (agesTable_existing (.inr rfl)) rfl).mpr
    (.inl (by unfold NoDefaultDue; decide +kernel))

/-- `INSERT INTO t (id) VALUES (1)` stores NULL, where the positional form, with nothing at the
place of `age`, stores 18. -/
theorem omitted_column_gets_no_default :
    [text "id"].Nodup ∧ (∀ name ∈ [text "id"], name ∈ agesTable.table.schema.columns.map (·.name)) ∧
    positionalRow agesTable.table.schema [text "id"] [some (.int 1)] = [some (.int 1), none] ∧
    ∃ s' s'' : TableState Nat MapStore,
      insertRows [text "id"] [[some (.int 1)]] agesTable = .ok ⟨⟩ s' ∧
      insertRows [] [[some (.int 1), none]] agesTable = .ok ⟨⟩ s'' ∧
      s'.table.rows.find? 1 = some [.int 1, .null] ∧
      s''.table.rows.find? 1 = some [.int 1, .int 18] :=
  ⟨by decide, agesTable_existing (.inl rfl), by decide +kernel, _, _, rfl, rfl, rfl, rfl⟩

end Instances
end CwDb.Executor
