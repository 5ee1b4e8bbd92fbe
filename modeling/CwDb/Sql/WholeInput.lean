/-
  Sql/WholeInput.lean --- how much of its input `Parser::parse` looks at.

  Every production is sound and complete for its part of the grammar, so `parse` returns
  exactly when the tokens begin with a statement that the next token does not continue.
  Nothing checks what that next token is.
-/
import CwDb.Sql.StatementParser

set_option autoImplicit false

namespace CwDb.Sql

open CwDb.Cpp
open CwDb.Foundation

namespace Parser

variable {α : Type} {t : Token} {ts rest : List Token} {type : TokenType}

/-- One of the types is ahead. -/
def Ahead (types : List TokenType) (rest : List Token) : Prop :=
  ∃ t us, rest = t :: us ∧ t.type ∈ types

theorem Ahead.notAhead {types : List TokenType} (h : Ahead types rest) (hne : type ∉ types) :
    NotAhead type rest := by
  obtain ⟨t, us, rfl, hmem⟩ := h
  rw [notAhead_cons]
  rintro rfl
  exact hne hmem

theorem ahead_cons {types : List TokenType} : Ahead types (t :: rest) ↔ t.type ∈ types := by
  simp [Ahead]

/-! ## CREATE TABLE -/

theorem columnModifierLoop_sound : ∀ (fuel : Nat) (m : ColumnModifiers) (ts : List Token)
    (m' : ColumnModifiers) (rest : List Token), columnModifierLoop fuel m ts = .ok m' rest →
    ∃ us, ts = us ++ rest ∧ ModifierTokens us m m'
  | 0, _, _, _, _, h => by cases h
  | fuel + 1, m, ts, m', rest, h => by
      rw [columnModifierLoop, ifMatch_eq_ok (by decide), ifMatch_eq_ok (by decide),
        ifMatch_eq_ok (by decide), ifMatch_eq_ok (by decide)] at h
      rcases h with ⟨t, us, ht, rfl, h⟩ | ⟨-, ⟨t, us, ht, rfl, h⟩ | ⟨-, ⟨t, us, ht, rfl, h⟩ |
        ⟨-, ⟨t, us, ht, rfl, h⟩ | ⟨-, h⟩⟩⟩⟩
      · obtain ⟨vs, rfl, hvs⟩ := columnModifierLoop_sound fuel _ _ _ _ h
        exact ⟨t :: vs, rfl, .notNull ht hvs⟩
      · obtain ⟨vs, rfl, hvs⟩ := columnModifierLoop_sound fuel _ _ _ _ h
        exact ⟨t :: vs, rfl, .indexed ht hvs⟩
      · rw [bind_eq_ok] at h
        obtain ⟨value, ws, hvalue, h⟩ := h
        obtain ⟨v, rfl, hv⟩ := parseValue_eq_ok.mp hvalue
        obtain ⟨vs, rfl, hvs⟩ := columnModifierLoop_sound fuel _ _ _ _ h
        exact ⟨t :: v :: vs, rfl, .default ht hv hvs⟩
      · obtain ⟨vs, rfl, hvs⟩ := columnModifierLoop_sound fuel _ _ _ _ h
        exact ⟨t :: vs, rfl, .null ht hvs⟩
      · cases h
        exact ⟨[], rfl, .done⟩

theorem columnModifierLoop_complete {us : List Token} {m m' : ColumnModifiers}
    (h : ModifierTokens us m m') : ∀ (fuel : Nat) (rest : List Token), us.length < fuel →
      Ahead [.comma, .rparen] rest → columnModifierLoop fuel m (us ++ rest) = .ok m' rest := by
  induction h with
  | done =>
      intro fuel rest hfuel hahead
      obtain ⟨fuel, rfl⟩ : ∃ k, fuel = k + 1 := ⟨fuel - 1, by omega⟩
      rw [columnModifierLoop, ifMatch_eq_ok (by decide), ifMatch_eq_ok (by decide),
        ifMatch_eq_ok (by decide), ifMatch_eq_ok (by decide)]
      exact .inr ⟨hahead.notAhead (by decide), .inr ⟨hahead.notAhead (by decide),
        .inr ⟨hahead.notAhead (by decide), .inr ⟨hahead.notAhead (by decide), rfl⟩⟩⟩⟩
  | @notNull t us m m' ht _ ih =>
      intro fuel rest hfuel hahead
      obtain ⟨fuel, rfl⟩ : ∃ k, fuel = k + 1 := ⟨fuel - 1, by omega⟩
      rw [columnModifierLoop, ifMatch_eq_ok (by decide)]
      exact .inl ⟨t, us ++ rest, ht, rfl, ih fuel rest (by simp at hfuel; omega) hahead⟩
  | @indexed t us m m' ht _ ih =>
      intro fuel rest hfuel hahead
      obtain ⟨fuel, rfl⟩ : ∃ k, fuel = k + 1 := ⟨fuel - 1, by omega⟩
      rw [columnModifierLoop, ifMatch_eq_ok (by decide), ifMatch_eq_ok (by decide)]
      exact .inr ⟨by simp [notAhead_cons, ht],
        .inl ⟨t, us ++ rest, ht, rfl, ih fuel rest (by simp at hfuel; omega) hahead⟩⟩
  | @default t v value us m m' ht hv _ ih =>
      intro fuel rest hfuel hahead
      obtain ⟨fuel, rfl⟩ : ∃ k, fuel = k + 1 := ⟨fuel - 1, by omega⟩
      rw [columnModifierLoop, ifMatch_eq_ok (by decide), ifMatch_eq_ok (by decide),
        ifMatch_eq_ok (by decide)]
      refine .inr ⟨by simp [notAhead_cons, ht], .inr ⟨by simp [notAhead_cons, ht],
        .inl ⟨t, v :: (us ++ rest), ht, rfl, ?_⟩⟩⟩
      rw [bind_ok (parseValue_eq_ok.mpr ⟨v, rfl, hv⟩)]
      exact ih fuel rest (by simp at hfuel; omega) hahead
  | @null t us m m' ht _ ih =>
      intro fuel rest hfuel hahead
      obtain ⟨fuel, rfl⟩ : ∃ k, fuel = k + 1 := ⟨fuel - 1, by omega⟩
      rw [columnModifierLoop, ifMatch_eq_ok (by decide), ifMatch_eq_ok (by decide),
        ifMatch_eq_ok (by decide), ifMatch_eq_ok (by decide)]
      exact .inr ⟨by simp [notAhead_cons, ht], .inr ⟨by simp [notAhead_cons, ht],
        .inr ⟨by simp [notAhead_cons, ht],
          .inl ⟨t, us ++ rest, ht, rfl, ih fuel rest (by simp at hfuel; omega) hahead⟩⟩⟩⟩

theorem parseColumnDef_sound (ts : List Token) (col : ParserColumnDef) (rest : List Token)
    (h : parseColumnDef ts = .ok col rest) : ∃ us, ts = us ++ rest ∧ ColumnTokens us col := by
  rw [parseColumnDef, bind_eq_ok] at h
  obtain ⟨n, us, hrun, h⟩ := h
  obtain ⟨rfl, hn⟩ := expect_name_eq_ok.mp hrun
  rw [bind_eq_ok] at h
  obtain ⟨t, us, hrun', h⟩ := h
  obtain ⟨rfl, ht⟩ := expect_name_eq_ok.mp hrun'
  cases htype : columnType? (t.value.map toUpper) with
  | none =>
      simp only [htype] at h
      exact absurd h fail_ne_ok
  | some type =>
      simp only [htype] at h
      rw [bind_ok get_run, bind_eq_ok] at h
      obtain ⟨m, vs, hm, h⟩ := h
      obtain ⟨us, rfl, hus⟩ := columnModifierLoop_sound _ _ _ _ _ hm
      cases h
      exact ⟨n :: t :: us, rfl, .column hn ht htype hus⟩

theorem parseColumnDef_complete (us : List Token) (col : ParserColumnDef) (rest : List Token)
    (h : ColumnTokens us col) (hahead : Ahead [.comma, .rparen] rest) :
    parseColumnDef (us ++ rest) = .ok col rest := by
  cases h with
  | @column n t ts type m hn ht htype hm =>
      rw [parseColumnDef, List.cons_append, bind_ok (expect_name_eq_ok.mpr ⟨rfl, hn⟩),
        List.cons_append, bind_ok (expect_name_eq_ok.mpr ⟨rfl, ht⟩)]
      simp only [htype]
      rw [bind_ok get_run,
        bind_ok (columnModifierLoop_complete hm _ rest
          (Nat.lt_succ_of_le (List.length_append ▸ Nat.le_add_right _ _)) hahead)]
      rfl

/-! ## Lists in parentheses -/

section Parens

variable {Item : List Token → α → Prop} {item : Parser α} {β : Type}

/-- A comma-separated list up to the closing parenthesis. -/
theorem closeParen_sound {f : List α → Parser β} {b : β} {context : ByteString}
    (hitem : ∀ ts x rest, item ts = .ok x rest → ∃ us, ts = us ++ rest ∧ Item us x)
    (h : (commaList item >>= fun xs => expect .rparen context >>= fun _ => f xs) ts =
      .ok b rest) :
    ∃ us rp xs vs, ts = us ++ rp :: vs ∧ rp.type = .rparen ∧ CommaList Item us xs ∧
      f xs vs = .ok b rest := by
  rw [bind_eq_ok] at h
  obtain ⟨xs, vs, hxs, h⟩ := h
  obtain ⟨us, rfl, hlist, -⟩ := commaList_sound hitem hxs
  rw [bind_eq_ok] at h
  obtain ⟨rp, ws, hrun, h⟩ := h
  obtain ⟨rfl, hrp⟩ := (expect_type_eq_ok (by decide) (by decide)).mp hrun
  exact ⟨us, rp, xs, ws, rfl, hrp, hlist, h⟩

theorem closeParen_complete {f : List α → Parser β} {context : ByteString}
    (hitem : ∀ us x rest, Item us x → Ahead [.comma, .rparen] rest →
      item (us ++ rest) = .ok x rest) {us vs : List Token} {rp : Token} {xs : List α}
    (hrp : rp.type = .rparen) (h : CommaList Item us xs) :
    (commaList item >>= fun xs => expect .rparen context >>= fun _ => f xs)
      (us ++ rp :: vs) = f xs vs := by
  have hlist : commaList item (us ++ rp :: vs) = .ok xs (rp :: vs) :=
    commaList_complete hitem (fun t _ ht => ahead_cons.mpr (by simp [ht])) h
      (ahead_cons.mpr (by simp [hrp])) (by simp [notAhead_cons, hrp])
  rw [bind_ok hlist, bind_ok ((expect_type_eq_ok (by decide) (by decide)).mpr ⟨rfl, hrp⟩)]

end Parens

/-! ## INSERT -/

theorem parseColumnName_sound (ts : List Token) (name : ByteString) (rest : List Token)
    (h : parseColumnName ts = .ok name rest) : ∃ us, ts = us ++ rest ∧ NameTokens us name := by
  rw [parseColumnName, bind_eq_ok] at h
  obtain ⟨t, us, hrun', h⟩ := h
  obtain ⟨rfl, ht⟩ := expect_name_eq_ok.mp hrun'
  cases h
  exact ⟨[t], rfl, .name ht⟩

theorem parseColumnName_complete (us : List Token) (name : ByteString) (rest : List Token)
    (h : NameTokens us name) : parseColumnName (us ++ rest) = .ok name rest := by
  cases h with
  | name ht =>
      rw [parseColumnName, List.singleton_append, bind_ok (expect_name_eq_ok.mpr ⟨rfl, ht⟩)]
      rfl

theorem parseRowValue_sound (ts : List Token) (v : Option ParserValue) (rest : List Token)
    (h : parseRowValue ts = .ok v rest) : ∃ us, ts = us ++ rest ∧ RowValueTokens us v := by
  rw [parseRowValue, bind_ok (check_run (by decide)), bind_ok (check_run (by decide))] at h
  split at h
  · cases h
    exact ⟨[], rfl, .missing⟩
  · rw [bind_eq_ok] at h
    obtain ⟨value, us, hvalue, h⟩ := h
    obtain ⟨t, rfl, ht⟩ := parseValue_eq_ok.mp hvalue
    cases h
    exact ⟨[t], rfl, .value ht⟩

theorem valueToken_type_ne {v : ParserValue} (h : ValueToken t v) :
    t.type ≠ .comma ∧ t.type ≠ .rparen := by
  cases h with
  | null ht => simp [ht]
  | int ht => simp [ht]
  | str ht => simp [ht]

theorem parseRowValue_complete (us : List Token) (v : Option ParserValue) (rest : List Token)
    (h : RowValueTokens us v) (hahead : Ahead [.comma, .rparen] rest) :
    parseRowValue (us ++ rest) = .ok v rest := by
  rw [parseRowValue, bind_ok (check_run (by decide)), bind_ok (check_run (by decide))]
  cases h with
  | missing =>
      obtain ⟨t, vs, rfl, hmem⟩ := hahead
      have hclose : t.type = .comma ∨ t.type = .rparen := by simpa using hmem
      rw [if_pos (by rcases hclose with h | h <;> simp [notAhead_cons, h])]
      rfl
  | @value t v ht =>
      rw [List.singleton_append,
        if_neg (by simp [notAhead_cons, valueToken_type_ne ht]),
        bind_ok (parseValue_eq_ok.mpr ⟨t, rfl, ht⟩)]
      rfl

theorem parseRow_sound (ts : List Token) (row : List (Option ParserValue)) (rest : List Token)
    (h : parseRow ts = .ok row rest) :
    ∃ us, ts = us ++ rest ∧ InParens (CommaList RowValueTokens) us row := by
  rw [parseRow, bind_eq_ok] at h
  obtain ⟨lp, us, hrun, h⟩ := h
  obtain ⟨rfl, hlp⟩ := (expect_type_eq_ok (by decide) (by decide)).mp hrun
  obtain ⟨us, rp, xs, vs, rfl, hrp, hlist, h⟩ := closeParen_sound parseRowValue_sound h
  cases h
  exact ⟨lp :: (us ++ [rp]), by simp, .parens hlp hlist hrp⟩

theorem parseRow_complete (us : List Token) (row : List (Option ParserValue)) (rest : List Token)
    (h : InParens (CommaList RowValueTokens) us row) : parseRow (us ++ rest) = .ok row rest := by
  cases h with
  | @parens lp rp ts _ hlp hlist hrp =>
      rw [parseRow, List.cons_append,
        bind_ok ((expect_type_eq_ok (by decide) (by decide)).mpr ⟨rfl, hlp⟩), List.append_assoc,
        List.singleton_append, closeParen_complete parseRowValue_complete hrp hlist]
      rfl

theorem parseInsertColumns_sound {columns : List ByteString}
    (h : parseInsertColumns ts = .ok columns rest) :
    ∃ us, ts = us ++ rest ∧ InsertColumnsTokens us columns := by
  rw [parseInsertColumns, ifMatch_eq_ok (by decide)] at h
  rcases h with ⟨lp, us, hlp, rfl, h⟩ | ⟨-, h⟩
  · obtain ⟨us, rp, xs, vs, rfl, hrp, hlist, h⟩ := closeParen_sound parseColumnName_sound h
    cases h
    exact ⟨lp :: (us ++ [rp]), by simp, .present (.parens hlp hlist hrp)⟩
  · cases h
    exact ⟨[], rfl, .absent⟩

theorem parseInsertColumns_complete {us : List Token} {columns : List ByteString}
    (h : InsertColumnsTokens us columns) (hahead : Ahead [.kwValue] rest) :
    parseInsertColumns (us ++ rest) = .ok columns rest := by
  rw [parseInsertColumns, ifMatch_eq_ok (by decide)]
  cases h with
  | absent => exact .inr ⟨hahead.notAhead (by decide), rfl⟩
  | present h =>
      cases h with
      | @parens lp rp ts _ hlp hlist hrp =>
          refine .inl ⟨lp, ts ++ rp :: rest, hlp, by simp, ?_⟩
          rw [closeParen_complete (fun us x rest h _ => parseColumnName_complete us x rest h) hrp
            hlist]
          rfl

/-! ## UPDATE and SELECT -/

theorem parseAssignment_sound (ts : List Token) (a : Assignment) (rest : List Token)
    (h : parseAssignment ts = .ok a rest) : ∃ us, ts = us ++ rest ∧ AssignmentTokens us a := by
  rw [parseAssignment, bind_eq_ok] at h
  obtain ⟨n, us, hrun, h⟩ := h
  obtain ⟨rfl, hn⟩ := expect_name_eq_ok.mp hrun
  rw [bind_eq_ok] at h
  obtain ⟨e, us, hrun', h⟩ := h
  obtain ⟨rfl, he⟩ := (expect_type_eq_ok (by decide) (by decide)).mp hrun'
  rw [bind_eq_ok] at h
  obtain ⟨value, us, hvalue, h⟩ := h
  obtain ⟨v, rfl, hv⟩ := parseValue_eq_ok.mp hvalue
  cases h
  exact ⟨[n, e, v], rfl, .assign hn he hv⟩

theorem parseAssignment_complete (us : List Token) (a : Assignment) (rest : List Token)
    (h : AssignmentTokens us a) : parseAssignment (us ++ rest) = .ok a rest := by
  cases h with
  | @assign n e v value hn he hv =>
      rw [parseAssignment, List.cons_append, bind_ok (expect_name_eq_ok.mpr ⟨rfl, hn⟩),
        List.cons_append, bind_ok ((expect_type_eq_ok (by decide) (by decide)).mpr ⟨rfl, he⟩),
        List.singleton_append, bind_ok (parseValue_eq_ok.mpr ⟨v, rfl, hv⟩)]
      rfl

theorem parseAlias_sound {alias_ : ByteString} (h : parseAlias ts = .ok alias_ rest) :
    ∃ us, ts = us ++ rest ∧ AliasTokens us alias_ := by
  rw [parseAlias, ifMatch_eq_ok (by decide)] at h
  rcases h with ⟨a, us, ha, rfl, h⟩ | ⟨-, h⟩
  · rw [bind_eq_ok] at h
    obtain ⟨t, vs, hrun, h⟩ := h
    obtain ⟨rfl, ht⟩ := expect_name_eq_ok.mp hrun
    cases h
    exact ⟨[a, t], rfl, .present ha ht⟩
  · cases h
    exact ⟨[], rfl, .absent⟩

theorem parseAlias_complete {us : List Token} {alias_ : ByteString} (h : AliasTokens us alias_)
    (hahead : Ahead [.comma, .kwFrom] rest) : parseAlias (us ++ rest) = .ok alias_ rest := by
  rw [parseAlias, ifMatch_eq_ok (by decide)]
  cases h with
  | absent => exact .inr ⟨hahead.notAhead (by decide), rfl⟩
  | @present a t ha ht =>
      refine .inl ⟨a, t :: rest, ha, rfl, ?_⟩
      rw [bind_ok (expect_name_eq_ok.mpr ⟨rfl, ht⟩)]
      rfl

theorem expectName_eq_ok {context : ByteString} {name : ByteString} :
    (expect .identifier context >>= fun token => pure token.value : Parser ByteString) ts =
      .ok name rest ↔ ∃ t, ts = t :: rest ∧ NameToken t ∧ name = t.value := by
  rw [bind_eq_ok]
  constructor
  · rintro ⟨t, us, hrun, h⟩
    obtain ⟨rfl, ht⟩ := expect_name_eq_ok.mp hrun
    cases h
    exact ⟨t, rfl, ht, rfl⟩
  · rintro ⟨t, rfl, ht, rfl⟩
    exact ⟨t, rest, expect_name_eq_ok.mpr ⟨rfl, ht⟩, rfl⟩

/-- A name is neither an asterisk nor a backtick. -/
theorem nameToken_type_ne (h : NameToken t) : t.type ≠ .star ∧ t.type ≠ .backtick := by
  rcases h with h | h
  · simp [h]
  · constructor
    · intro hstar
      rw [hstar] at h
      exact absurd h (by decide)
    · intro hbacktick
      rw [hbacktick] at h
      exact absurd h (by decide)

theorem parseAggregateArgument_eq_ok {func : AggregateFunc} {name : ByteString} :
    parseAggregateArgument func ts = .ok name rest ↔
      ∃ a, ts = a :: rest ∧ AggregateArgument func a name := by
  unfold parseAggregateArgument
  by_cases hcount : func = .count
  · subst hcount
    rw [if_pos rfl, ifMatch_eq_ok (by decide), expectName_eq_ok]
    constructor
    · rintro (⟨t, us, ht, rfl, h⟩ | ⟨-, a, rfl, ha, rfl⟩)
      · cases h
        exact ⟨t, rfl, .star ht⟩
      · exact ⟨a, rfl, .column ha⟩
    · rintro ⟨a, rfl, h⟩
      cases h with
      | star ha => exact .inl ⟨a, rest, ha, rfl, rfl⟩
      | column ha =>
          exact .inr ⟨notAhead_cons.mpr (nameToken_type_ne ha).1, a, rfl, ha, rfl⟩
  · rw [if_neg hcount, pure_bind]
    change (expect .identifier (text "column name") >>= fun token => pure token.value :
      Parser ByteString) ts = .ok name rest ↔ _
    rw [expectName_eq_ok]
    constructor
    · rintro ⟨a, rfl, ha, rfl⟩
      exact ⟨a, rfl, .column ha⟩
    · rintro ⟨a, rfl, h⟩
      cases h with
      | star => exact absurd rfl hcount
      | column ha => exact ⟨a, rfl, ha, rfl⟩

/-- A plain column name of a select list. -/
theorem parseSelectName_eq_ok {name : ByteString} :
    parseSelectName ts = .ok name rest ↔
      (∃ b t c, ts = b :: t :: c :: rest ∧ b.type = .backtick ∧ t.type ≠ .end_ ∧
        c.type = .backtick ∧ name = t.value) ∨
      ∃ t, ts = t :: rest ∧ NameToken t ∧ name = t.value := by
  unfold parseSelectName
  rw [ifMatch_eq_ok (by decide), expectName_eq_ok]
  constructor
  · rintro (⟨b, us, hb, rfl, h⟩ | ⟨-, h⟩)
    · left
      rw [bind_ok get_run] at h
      split at h
      · exact absurd h fail_ne_ok
      · rw [bind_eq_ok] at h
        obtain ⟨t, ws, hrun, h⟩ := h
        obtain ⟨rfl, hreal⟩ := advance_eq_ok.mp hrun
        rw [bind_eq_ok] at h
        obtain ⟨c, ws, hrun, h⟩ := h
        obtain ⟨rfl, hc⟩ := (expect_type_eq_ok (by decide) (by decide)).mp hrun
        cases h
        exact ⟨b, t, c, rfl, hb, hreal, hc, rfl⟩
    · exact .inr h
  · rintro (⟨b, t, c, rfl, hb, ht, hc, rfl⟩ | ⟨t, rfl, ht, rfl⟩)
    · refine .inl ⟨b, t :: c :: rest, hb, rfl, ?_⟩
      rw [bind_ok get_run, if_neg (by simp [isEnd, ht]), bind_ok (advance_cons ht),
        bind_ok ((expect_type_eq_ok (by decide) (by decide)).mpr ⟨rfl, hc⟩)]
      rfl
    · exact .inr ⟨notAhead_cons.mpr (nameToken_type_ne ht).2, t, rfl, ht, rfl⟩

theorem parseSelectColumn_sound (ts : List Token) (col : SelectColumn) (rest : List Token)
    (h : parseSelectColumn ts = .ok col rest) :
    ∃ us, ts = us ++ rest ∧ SelectColumnTokens us col := by
  rw [parseSelectColumn, bind_ok get_run] at h
  cases hfunc : aggregate? (ts.headD default).type with
  | some func =>
      simp only [hfunc] at h
      rw [bind_eq_ok] at h
      obtain ⟨f, us, hrun, h⟩ := h
      obtain ⟨rfl, -⟩ := advance_eq_ok.mp hrun
      rw [bind_eq_ok] at h
      obtain ⟨lp, us, hrun, h⟩ := h
      obtain ⟨rfl, hlp⟩ := (expect_type_eq_ok (by decide) (by decide)).mp hrun
      rw [bind_eq_ok] at h
      obtain ⟨name, us, hname, h⟩ := h
      obtain ⟨a, rfl, ha⟩ := parseAggregateArgument_eq_ok.mp hname
      rw [bind_eq_ok] at h
      obtain ⟨rp, us, hrun, h⟩ := h
      obtain ⟨rfl, hrp⟩ := (expect_type_eq_ok (by decide) (by decide)).mp hrun
      rw [bind_eq_ok] at h
      obtain ⟨alias_, us, halias, h⟩ := h
      obtain ⟨us, rfl, hus⟩ := parseAlias_sound halias
      cases h
      exact ⟨f :: lp :: a :: rp :: us, rfl, .aggregate hfunc hlp ha hrp hus⟩
  | none =>
      simp only [hfunc] at h
      rw [bind_eq_ok] at h
      obtain ⟨name, us, hname, h⟩ := h
      rw [bind_eq_ok] at h
      obtain ⟨alias_, vs, halias, h⟩ := h
      obtain ⟨us, rfl, hus⟩ := parseAlias_sound halias
      cases h
      rcases parseSelectName_eq_ok.mp hname with ⟨b, t, c, rfl, hb, ht, hc, rfl⟩ | ⟨t, rfl, ht, rfl⟩
      · exact ⟨b :: t :: c :: us, rfl, .quoted hb ht hc hus⟩
      · exact ⟨t :: us, rfl, .plain ht hfunc hus⟩

theorem parseSelectColumn_complete (us : List Token) (col : SelectColumn) (rest : List Token)
    (h : SelectColumnTokens us col) (hahead : Ahead [.comma, .kwFrom] rest) :
    parseSelectColumn (us ++ rest) = .ok col rest := by
  rw [parseSelectColumn, bind_ok get_run]
  cases h with
  | @aggregate f lp a rp func name alias_ ts hf hlp ha hrp hts =>
      simp only [List.cons_append, List.headD_cons, hf]
      have hreal : f.type ≠ .end_ := by
        intro h
        simp [h, aggregate?] at hf
      rw [bind_ok (advance_cons hreal),
        bind_ok ((expect_type_eq_ok (by decide) (by decide)).mpr ⟨rfl, hlp⟩),
        bind_ok (parseAggregateArgument_eq_ok.mpr ⟨a, rfl, ha⟩),
        bind_ok ((expect_type_eq_ok (by decide) (by decide)).mpr ⟨rfl, hrp⟩),
        bind_ok (parseAlias_complete hts hahead)]
      rfl
  | @quoted b t c alias_ ts hb ht hc hts =>
      have hfunc : aggregate? b.type = none := by rw [hb]; rfl
      simp only [List.cons_append, List.headD_cons, hfunc]
      rw [bind_ok (parseSelectName_eq_ok.mpr (.inl ⟨b, t, c, rfl, hb, ht, hc, rfl⟩)),
        bind_ok (parseAlias_complete hts hahead)]
      rfl
  | @plain t alias_ ts ht hfunc hts =>
      simp only [List.cons_append, List.headD_cons, hfunc]
      rw [bind_ok (parseSelectName_eq_ok.mpr (.inr ⟨t, rfl, ht, rfl⟩)),
        bind_ok (parseAlias_complete hts hahead)]
      rfl

theorem parseSelectList_sound {star : Bool} {columns : List SelectColumn}
    (h : parseSelectList ts = .ok (star, columns) rest) :
    ∃ us, ts = us ++ rest ∧ SelectListTokens us star columns := by
  rw [parseSelectList, ifMatch_eq_ok (by decide)] at h
  rcases h with ⟨t, us, ht, rfl, h⟩ | ⟨-, h⟩
  · cases h
    exact ⟨[t], rfl, .star ht⟩
  · rw [bind_eq_ok] at h
    obtain ⟨columns, us, hrun, h⟩ := h
    obtain ⟨us, rfl, hlist, -⟩ := commaList_sound parseSelectColumn_sound hrun
    cases h
    exact ⟨us, rfl, .columns hlist⟩

/-- No select column begins with an asterisk. -/
theorem selectColumns_notAhead_star {us : List Token} {columns : List SelectColumn}
    (h : CommaList SelectColumnTokens us columns) : NotAhead .star (us ++ rest) := by
  have hfirst : ∀ {vs : List Token} {col : SelectColumn} {ws : List Token},
      SelectColumnTokens vs col → NotAhead .star (vs ++ ws) := by
    intro vs col ws hcol
    cases hcol with
    | @aggregate f lp a rp func name alias_ ts hf =>
        rw [List.cons_append, notAhead_cons]
        intro hstar
        simp [hstar, aggregate?] at hf
    | quoted hb => simp [notAhead_cons, hb]
    | plain ht => exact notAhead_cons.mpr (nameToken_type_ne ht).1
  cases h with
  | one hcol => exact hfirst hcol
  | cons hcol => rw [List.append_assoc]; exact hfirst hcol

theorem parseSelectList_complete {star : Bool} {columns : List SelectColumn} {us : List Token}
    (h : SelectListTokens us star columns) (hahead : Ahead [.kwFrom] rest) :
    parseSelectList (us ++ rest) = .ok (star, columns) rest := by
  rw [parseSelectList, ifMatch_eq_ok (by decide)]
  cases h with
  | @star t ht => exact .inl ⟨t, rest, ht, rfl, rfl⟩
  | columns hlist =>
      refine .inr ⟨selectColumns_notAhead_star hlist, ?_⟩
      have hcolumns : commaList parseSelectColumn (us ++ rest) = .ok columns rest := by
        refine commaList_complete parseSelectColumn_complete
          (fun t _ ht => ahead_cons.mpr (by simp [ht])) hlist ?_ (hahead.notAhead (by decide))
        obtain ⟨t, vs, rfl, ht⟩ := hahead
        exact ahead_cons.mpr (by simp at ht; simp [ht])
      rw [bind_ok hcolumns]
      rfl

/-! ## Statements -/

theorem parseCreate_sound : ∀ ts cmd rest, parseCreate ts = .ok cmd rest →
    ∃ us stops, ts = us ++ rest ∧ Statement us cmd stops ∧ NoneAhead stops rest := by
  intro ts cmd rest h
  rw [parseCreate, bind_eq_ok] at h
  obtain ⟨c, us, hrun, h⟩ := h
  obtain ⟨rfl, hc⟩ := (expect_type_eq_ok (by decide) (by decide)).mp hrun
  rw [ifMatch_eq_ok (by decide), ifMatch_eq_ok (by decide)] at h
  rcases h with ⟨d, us, hd, rfl, h⟩ | ⟨-, ⟨t, us, ht, rfl, h⟩ | ⟨-, h⟩⟩
  · rw [bind_eq_ok] at h
    obtain ⟨n, us, hrun, h⟩ := h
    obtain ⟨rfl, hn⟩ := expect_name_eq_ok.mp hrun
    cases h
    exact ⟨[c, d, n], [], rfl, .createDatabase hc hd hn, noneAhead_nil _⟩
  · rw [bind_eq_ok] at h
    obtain ⟨ref, us, hrunRef, h⟩ := h
    obtain ⟨refTokens, stops, rfl, href, -⟩ := parseTableRef_sound _ _ _ hrunRef
    rw [bind_eq_ok] at h
    obtain ⟨lp, us, hrun, h⟩ := h
    obtain ⟨rfl, hlp⟩ := (expect_type_eq_ok (by decide) (by decide)).mp hrun
    obtain ⟨us, rp, columns, vs, rfl, hrp, hlist, h⟩ := closeParen_sound parseColumnDef_sound h
    cases h
    exact ⟨c :: t :: (refTokens ++ lp :: (us ++ [rp])), [], by simp,
      .createTable hc ht href (.parens hlp hlist hrp), noneAhead_nil _⟩
  · rw [bind_eq_ok] at h
    obtain ⟨_, _, -, h⟩ := h
    exact absurd h fail_ne_ok

theorem parseDrop_sound : ∀ ts cmd rest, parseDrop ts = .ok cmd rest →
    ∃ us stops, ts = us ++ rest ∧ Statement us cmd stops ∧ NoneAhead stops rest := by
  intro ts cmd rest h
  rw [parseDrop, bind_eq_ok] at h
  obtain ⟨d, us, hrun, h⟩ := h
  obtain ⟨rfl, hd⟩ := (expect_type_eq_ok (by decide) (by decide)).mp hrun
  rw [ifMatch_eq_ok (by decide), ifMatch_eq_ok (by decide)] at h
  rcases h with ⟨t, us, ht, rfl, h⟩ | ⟨-, ⟨t, us, ht, rfl, h⟩ | ⟨-, h⟩⟩
  · rw [bind_eq_ok] at h
    obtain ⟨n, us, hrun, h⟩ := h
    obtain ⟨rfl, hn⟩ := expect_name_eq_ok.mp hrun
    cases h
    exact ⟨[d, t, n], [], rfl, .dropDatabase hd ht hn, noneAhead_nil _⟩
  · rw [bind_eq_ok] at h
    obtain ⟨ref, us, hrunRef, h⟩ := h
    obtain ⟨refTokens, stops, rfl, href, hstops⟩ := parseTableRef_sound _ _ _ hrunRef
    cases h
    exact ⟨d :: t :: refTokens, stops, rfl, .dropTable hd ht href, hstops⟩
  · rw [bind_eq_ok] at h
    obtain ⟨_, _, -, h⟩ := h
    exact absurd h fail_ne_ok

theorem parseUse_sound : ∀ ts cmd rest, parseUse ts = .ok cmd rest →
    ∃ us stops, ts = us ++ rest ∧ Statement us cmd stops ∧ NoneAhead stops rest := by
  intro ts cmd rest h
  rw [parseUse, bind_eq_ok] at h
  obtain ⟨u, us, hrun, h⟩ := h
  obtain ⟨rfl, hu⟩ := (expect_type_eq_ok (by decide) (by decide)).mp hrun
  rw [bind_eq_ok] at h
  obtain ⟨n, us, hrun, h⟩ := h
  obtain ⟨rfl, hn⟩ := expect_name_eq_ok.mp hrun
  cases h
  exact ⟨[u, n], [], rfl, .useDatabase hu hn, noneAhead_nil _⟩

theorem parseInsert_sound : ∀ ts cmd rest, parseInsert ts = .ok cmd rest →
    ∃ us stops, ts = us ++ rest ∧ Statement us cmd stops ∧ NoneAhead stops rest := by
  intro ts cmd rest h
  rw [parseInsert, bind_eq_ok] at h
  obtain ⟨i, us, hrun, h⟩ := h
  obtain ⟨rfl, hi⟩ := (expect_type_eq_ok (by decide) (by decide)).mp hrun
  rw [bind_eq_ok] at h
  obtain ⟨into, us, hrun, h⟩ := h
  obtain ⟨rfl, hinto⟩ := (expect_type_eq_ok (by decide) (by decide)).mp hrun
  rw [bind_eq_ok] at h
  obtain ⟨ref, us, hrunRef, h⟩ := h
  obtain ⟨refTokens, stops, rfl, href, -⟩ := parseTableRef_sound _ _ _ hrunRef
  rw [bind_eq_ok] at h
  obtain ⟨columns, us, hrunCols, h⟩ := h
  obtain ⟨cols, rfl, hcols⟩ := parseInsertColumns_sound hrunCols
  rw [bind_eq_ok] at h
  obtain ⟨v, us, hrun, h⟩ := h
  obtain ⟨rfl, hv⟩ := (expect_type_eq_ok (by decide) (by decide)).mp hrun
  rw [bind_eq_ok] at h
  obtain ⟨rows, us, hrows, h⟩ := h
  obtain ⟨vals, rfl, hvals, hstop⟩ := commaList_sound parseRow_sound hrows
  cases h
  exact ⟨i :: into :: (refTokens ++ (cols ++ v :: vals)), [.comma], by simp,
    .insert hi hinto href hcols hv hvals, noneAhead_cons.mpr ⟨hstop, noneAhead_nil _⟩⟩

theorem parseUpdate_sound : ∀ ts cmd rest, parseUpdate ts = .ok cmd rest →
    ∃ us stops, ts = us ++ rest ∧ Statement us cmd stops ∧ NoneAhead stops rest := by
  intro ts cmd rest h
  rw [parseUpdate, bind_eq_ok] at h
  obtain ⟨u, us, hrun, h⟩ := h
  obtain ⟨rfl, hu⟩ := (expect_type_eq_ok (by decide) (by decide)).mp hrun
  rw [bind_eq_ok] at h
  obtain ⟨ref, us, hrunRef, h⟩ := h
  obtain ⟨refTokens, stops, rfl, href, -⟩ := parseTableRef_sound _ _ _ hrunRef
  rw [bind_eq_ok] at h
  obtain ⟨s, us, hrun, h⟩ := h
  obtain ⟨rfl, hs⟩ := (expect_type_eq_ok (by decide) (by decide)).mp hrun
  rw [bind_eq_ok] at h
  obtain ⟨assignments, us, hrunSets, h⟩ := h
  obtain ⟨sets, rfl, hsets, hstop⟩ := commaList_sound parseAssignment_sound hrunSets
  rw [bind_eq_ok] at h
  obtain ⟨where_, us, hwhere, h⟩ := h
  obtain ⟨ws, wstops, rfl, hws, hstops⟩ := parseWhere_sound hwhere
    (noneAhead_cons.mpr ⟨hstop, noneAhead_nil _⟩)
  cases h
  exact ⟨u :: (refTokens ++ s :: (sets ++ ws)), wstops, by simp, .update hu href hs hsets hws,
    hstops⟩

theorem parseDelete_sound : ∀ ts cmd rest, parseDelete ts = .ok cmd rest →
    ∃ us stops, ts = us ++ rest ∧ Statement us cmd stops ∧ NoneAhead stops rest := by
  intro ts cmd rest h
  rw [parseDelete, bind_eq_ok] at h
  obtain ⟨d, us, hrun, h⟩ := h
  obtain ⟨rfl, hd⟩ := (expect_type_eq_ok (by decide) (by decide)).mp hrun
  rw [bind_eq_ok] at h
  obtain ⟨f, us, hrun, h⟩ := h
  obtain ⟨rfl, hf⟩ := (expect_type_eq_ok (by decide) (by decide)).mp hrun
  rw [bind_eq_ok] at h
  obtain ⟨ref, us, hrunRef, h⟩ := h
  obtain ⟨refTokens, stops, rfl, href, hstop⟩ := parseTableRef_sound _ _ _ hrunRef
  rw [bind_eq_ok] at h
  obtain ⟨where_, us, hwhere, h⟩ := h
  obtain ⟨ws, wstops, rfl, hws, hstops⟩ := parseWhere_sound hwhere hstop
  cases h
  exact ⟨d :: f :: (refTokens ++ ws), wstops, by simp, .delete hd hf href hws, hstops⟩

theorem parseSelect_sound : ∀ ts cmd rest, parseSelect ts = .ok cmd rest →
    ∃ us stops, ts = us ++ rest ∧ Statement us cmd stops ∧ NoneAhead stops rest := by
  intro ts cmd rest h
  rw [parseSelect, bind_eq_ok] at h
  obtain ⟨s, us, hrun, h⟩ := h
  obtain ⟨rfl, hs⟩ := (expect_type_eq_ok (by decide) (by decide)).mp hrun
  rw [bind_eq_ok] at h
  obtain ⟨⟨star, columns⟩, us, hrunList, h⟩ := h
  obtain ⟨list, rfl, hlist⟩ := parseSelectList_sound hrunList
  rw [bind_eq_ok] at h
  obtain ⟨f, us, hrun, h⟩ := h
  obtain ⟨rfl, hf⟩ := (expect_type_eq_ok (by decide) (by decide)).mp hrun
  rw [bind_eq_ok] at h
  obtain ⟨ref, us, hrunRef, h⟩ := h
  obtain ⟨refTokens, stops, rfl, href, hstop⟩ := parseTableRef_sound _ _ _ hrunRef
  rw [bind_eq_ok] at h
  obtain ⟨where_, us, hwhere, h⟩ := h
  obtain ⟨ws, wstops, rfl, hws, hstops⟩ := parseWhere_sound hwhere hstop
  cases h
  exact ⟨s :: (list ++ f :: (refTokens ++ ws)), wstops, by simp, .select hs hlist hf href hws,
    hstops⟩

theorem statementParser_cases (t : Token) :
    statementParser t ∈ [parseCreate, parseDrop, parseUse, parseInsert, parseUpdate, parseDelete,
      parseSelect] ∨ ∃ msg, statementParser t = fail msg := by
  unfold statementParser
  split <;> simp

/-- `Parser::parse` reads statements only. -/
theorem parse_sound : Sound Statement parse := by
  intro ts cmd rest h
  rw [parse, bind_ok get_run] at h
  split at h
  · exact absurd h fail_ne_ok
  · rw [bind_eq_ok] at h
    obtain ⟨t, us, hpeek, h⟩ := h
    obtain ⟨rfl, us, rfl, -⟩ := peek_eq_ok.mp hpeek
    rcases statementParser_cases t with hmem | ⟨msg, hfail⟩
    · simp only [List.mem_cons, List.not_mem_nil, or_false] at hmem
      rcases hmem with heq | heq | heq | heq | heq | heq | heq <;> rw [heq] at h
      · exact parseCreate_sound _ _ _ h
      · exact parseDrop_sound _ _ _ h
      · exact parseUse_sound _ _ _ h
      · exact parseInsert_sound _ _ _ h
      · exact parseUpdate_sound _ _ _ h
      · exact parseDelete_sound _ _ _ h
      · exact parseSelect_sound _ _ _ h
    · rw [hfail] at h
      exact absurd h fail_ne_ok

/-- No table reference continues with a WHERE, and no reference before other tokens
continues with them. -/
theorem TableRef_stops {us : List Token} {ref : ByteString × ByteString}
    {stops : List TokenType} (h : TableRef us ref stops) : ∀ type ∈ stops, type = .dot := by
  cases h <;> simp

theorem noneAhead_of_tableRef {us : List Token} {ref : ByteString × ByteString}
    {stops : List TokenType} (h : TableRef us ref stops) (ht : t.type ≠ .dot) :
    NoneAhead stops (t :: rest) := by
  intro type hmem
  rw [TableRef_stops h type hmem, notAhead_cons]
  exact ht

/-- `parse` begins with the keyword of the statement. -/
theorem parse_of_keyword {p : Parser Command} (hreal : t.type ≠ .end_)
    (hp : statementParser t = p) : parse (t :: rest) = p (t :: rest) := by
  rw [parse, bind_ok get_run, if_neg (by simp [isEnd, hreal]), bind_ok (peek_cons hreal), hp]

/-- `Parser::parse` reads every statement. -/
theorem parse_complete : Complete Statement parse := by
  intro us cmd stops rest h hstops
  have hexpect : ∀ {type : TokenType} {context : ByteString} {t : Token} {vs : List Token},
      type ≠ .identifier → type ≠ .end_ → t.type = type →
      expect type context (t :: vs) = .ok t vs := fun hid hreal ht =>
    (expect_type_eq_ok hid hreal).mpr ⟨rfl, ht⟩
  cases h with
  | @createDatabase c d n hc hd hn =>
      rw [List.cons_append, parse_of_keyword (p := parseCreate) (by simp [hc])
        (by simp only [statementParser, hc]), parseCreate,
        bind_ok (hexpect (by decide) (by decide) hc), ifMatch_eq_ok (by decide)]
      refine .inl ⟨d, n :: rest, hd, rfl, ?_⟩
      rw [bind_ok (expect_name_eq_ok.mpr ⟨rfl, hn⟩)]
      rfl
  | @createTable c t refTokens cols ref stops columns hc ht href hcols =>
      obtain ⟨dbName, tableName⟩ := ref
      rw [List.cons_append, parse_of_keyword (p := parseCreate) (by simp [hc])
        (by simp only [statementParser, hc]), parseCreate,
        bind_ok (hexpect (by decide) (by decide) hc), ifMatch_eq_ok (by decide),
        ifMatch_eq_ok (by decide)]
      refine .inr ⟨by simp [notAhead_cons, ht], .inl ⟨t, _, ht, List.cons_append .., ?_⟩⟩
      cases hcols with
      | @parens lp rp ts _ hlp hlist hrp =>
          rw [List.append_assoc, List.cons_append, bind_ok (parseTableRef_complete _ _ _ _ href
            (noneAhead_of_tableRef href (by simp [hlp])))]
          dsimp only
          rw [bind_ok (hexpect (by decide) (by decide) hlp), List.append_assoc,
            List.singleton_append, closeParen_complete parseColumnDef_complete hrp hlist]
          rfl
  | @dropDatabase d t n hd ht hn =>
      rw [List.cons_append, parse_of_keyword (p := parseDrop) (by simp [hd])
        (by simp only [statementParser, hd]), parseDrop,
        bind_ok (hexpect (by decide) (by decide) hd), ifMatch_eq_ok (by decide)]
      refine .inl ⟨t, n :: rest, ht, rfl, ?_⟩
      rw [bind_ok (expect_name_eq_ok.mpr ⟨rfl, hn⟩)]
      rfl
  | @dropTable d t refTokens ref stops hd ht href =>
      rw [List.cons_append, parse_of_keyword (p := parseDrop) (by simp [hd])
        (by simp only [statementParser, hd]), parseDrop,
        bind_ok (hexpect (by decide) (by decide) hd), ifMatch_eq_ok (by decide),
        ifMatch_eq_ok (by decide)]
      refine .inr ⟨by simp [notAhead_cons, ht], .inl ⟨t, _, ht, List.cons_append .., ?_⟩⟩
      rw [bind_ok (parseTableRef_complete _ _ _ _ href hstops)]
      rfl
  | @useDatabase u n hu hn =>
      rw [List.cons_append, parse_of_keyword (p := parseUse) (by simp [hu])
        (by simp only [statementParser, hu]), parseUse,
        bind_ok (hexpect (by decide) (by decide) hu), List.singleton_append,
        bind_ok (expect_name_eq_ok.mpr ⟨rfl, hn⟩)]
      rfl
  | @insert i into v refTokens cols vals ref stops columns rows hi hinto href hcols hv hvals =>
      obtain ⟨dbName, tableName⟩ := ref
      have hlead : NoneAhead stops (cols ++ v :: (vals ++ rest)) := by
        cases hcols with
        | absent => exact noneAhead_of_tableRef href (by simp [hv])
        | present h =>
            cases h with
            | parens hlp => exact noneAhead_of_tableRef href (by simp [hlp])
      have hvalues : commaList parseRow (vals ++ rest) = .ok rows rest :=
        commaList_complete (F := fun _ => True)
          (fun us x rest h _ => parseRow_complete us x rest h) (fun _ _ _ => trivial) hvals
          trivial (noneAhead_cons.mp hstops).1
      rw [List.cons_append, parse_of_keyword (p := parseInsert) (by simp [hi])
        (by simp only [statementParser, hi]), parseInsert,
        bind_ok (hexpect (by decide) (by decide) hi), List.cons_append,
        bind_ok (hexpect (by decide) (by decide) hinto), List.append_assoc, List.append_assoc,
        List.cons_append, bind_ok (parseTableRef_complete _ _ _ _ href hlead)]
      dsimp only
      rw [bind_ok (parseInsertColumns_complete hcols (ahead_cons.mpr (by simp [hv]))),
        bind_ok (hexpect (by decide) (by decide) hv), bind_ok hvalues]
      rfl
  | @update u s refTokens sets ws ref stops wstops assignments where_ hu href hs hsets hws =>
      obtain ⟨dbName, tableName⟩ := ref
      obtain ⟨hwhere, hcomma⟩ := parseWhere_complete hws hstops (by decide)
      have hassign : commaList parseAssignment (sets ++ (ws ++ rest)) =
          .ok assignments (ws ++ rest) :=
        commaList_complete (F := fun _ => True)
          (fun us x rest h _ => parseAssignment_complete us x rest h) (fun _ _ _ => trivial) hsets
          trivial (noneAhead_cons.mp hcomma).1
      rw [List.cons_append, parse_of_keyword (p := parseUpdate) (by simp [hu])
        (by simp only [statementParser, hu]), parseUpdate,
        bind_ok (hexpect (by decide) (by decide) hu), List.append_assoc, List.cons_append,
        List.append_assoc, bind_ok (parseTableRef_complete _ _ _ _ href
          (noneAhead_of_tableRef href (by simp [hs])))]
      dsimp only
      rw [bind_ok (hexpect (by decide) (by decide) hs), bind_ok hassign, bind_ok hwhere]
      rfl
  | @delete d f refTokens ws ref stops wstops where_ hd hf href hws =>
      obtain ⟨dbName, tableName⟩ := ref
      obtain ⟨hwhere, hdot⟩ := parseWhere_complete hws hstops (fun hmem => by
        cases TableRef_stops href _ hmem)
      rw [List.cons_append, parse_of_keyword (p := parseDelete) (by simp [hd])
        (by simp only [statementParser, hd]), parseDelete,
        bind_ok (hexpect (by decide) (by decide) hd), List.cons_append,
        bind_ok (hexpect (by decide) (by decide) hf), List.append_assoc,
        bind_ok (parseTableRef_complete _ _ _ _ href hdot)]
      dsimp only
      rw [bind_ok hwhere]
      rfl
  | @select s f list refTokens ws ref stops wstops star columns where_ hs hlist hf href hws =>
      obtain ⟨dbName, tableName⟩ := ref
      obtain ⟨hwhere, hdot⟩ := parseWhere_complete hws hstops (fun hmem => by
        cases TableRef_stops href _ hmem)
      rw [List.cons_append, parse_of_keyword (p := parseSelect) (by simp [hs])
        (by simp only [statementParser, hs]), parseSelect,
        bind_ok (hexpect (by decide) (by decide) hs), List.append_assoc, List.cons_append,
        List.append_assoc,
        bind_ok (parseSelectList_complete hlist (ahead_cons.mpr (by simp [hf])))]
      dsimp only
      rw [bind_ok (hexpect (by decide) (by decide) hf),
        bind_ok (parseTableRef_complete _ _ _ _ href hdot)]
      dsimp only
      rw [bind_ok hwhere]
      rfl

end Parser

/-! ## The rest of the input -/

/-- Semicolons up to the END token. -/
def OnlySemicolons (rest : List Token) : Prop :=
  ∃ semicolons last, rest = semicolons ++ [last] ∧
    (∀ t ∈ semicolons, t.type = .semicolon) ∧ last.type = .end_

/-- The tokens begin with a whole statement, the next token does not continue it, and
something else than semicolons follows. -/
def TrailsOff (ts : List Token) : Prop :=
  ∃ us cmd stops rest, ts = us ++ rest ∧ Statement us cmd stops ∧ NoneAhead stops rest ∧
    ¬ OnlySemicolons rest

/-- What `parse` leaves unread is semicolons exactly when the tokens do not trail off. -/
theorem parse_whole_input_iff (ts : List Token) :
    (∀ cmd rest, Parser.parse ts = .ok cmd rest → OnlySemicolons rest) ↔ ¬ TrailsOff ts := by
  constructor
  · rintro h ⟨us, cmd, stops, rest, rfl, hstatement, hstops, hrest⟩
    exact hrest (h cmd rest (Parser.parse_complete us cmd stops rest hstatement hstops))
  · intro h cmd rest hparse
    obtain ⟨us, stops, rfl, hstatement, hstops⟩ := Parser.parse_sound ts cmd rest hparse
    by_contra hrest
    exact h ⟨us, cmd, stops, rest, rfl, hstatement, hstops, hrest⟩

/-- `DELETE FROM t`. -/
private def deleteTokens : List Token :=
  [⟨.kwDelete, text "DELETE", 1⟩, ⟨.kwFrom, text "FROM", 1⟩, ⟨.identifier, text "t", 1⟩]

/-- `WHRE id == 1;`. -/
private def misspeltTokens : List Token :=
  [⟨.identifier, text "WHRE", 1⟩, ⟨.identifier, text "id", 1⟩, ⟨.opEq, text "==", 1⟩,
    ⟨.intLiteral, text "1", 1⟩, ⟨.semicolon, text ";", 1⟩, ⟨.end_, [], 1⟩]

/-- A DELETE with a misspelt WHERE is a DELETE without a condition. -/
theorem parse_stops_at_misspelt_where :
    ∃ ts rest, tokenize (text "DELETE FROM t WHRE id == 1;") = .ok ts ∧
      Parser.parse ts = .ok (.delete { dbName := [], tableName := text "t", where_ := none }) rest ∧
      ¬ OnlySemicolons rest := by
  refine ⟨deleteTokens ++ misspeltTokens, misspeltTokens, by decide +kernel, ?_, ?_⟩
  · have href : TableRef [⟨.identifier, text "t", 1⟩] ([], text "t") [.dot] := .plain (.inl rfl)
    have hdelete : Statement deleteTokens _ [.kwWhere, .dot] := .delete rfl rfl href .absent
    refine Parser.parse_complete _ _ _ _ hdelete ?_
    exact noneAhead_cons.mpr ⟨by simp [misspeltTokens, notAhead_cons], noneAhead_cons.mpr
      ⟨by simp [misspeltTokens, notAhead_cons], noneAhead_nil _⟩⟩
  · rintro ⟨semicolons, last, h, hsemicolons, -⟩
    cases semicolons with
    | nil => simp [misspeltTokens] at h
    | cons t semicolons =>
        obtain ⟨rfl, -⟩ := List.cons.inj h
        exact absurd (hsemicolons _ List.mem_cons_self) (by decide)

end CwDb.Sql
