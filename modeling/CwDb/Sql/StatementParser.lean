/-
  Sql/StatementParser.lean --- the parser reads exactly the statements of the grammar.

  Each parsing function is sound and complete for its production.  The loops are by
  induction on their fuel or on the derivation; everything else reads token by token.
-/
import CwDb.Sql.StatementGrammar

set_option autoImplicit false

namespace CwDb.Sql

open CwDb.Cpp
open CwDb.Foundation

namespace Parser

variable {α : Type} {t : Token} {ts rest : List Token} {type : TokenType}

/-! ## The token primitives, read backwards -/

theorem fail_ne_ok {msg : ByteString} {a : α} : (fail msg : Parser α) ts ≠ .ok a rest := by
  intro h
  cases h

theorem check_eq_ok {b : Bool} :
    check type ts = .ok b rest ↔
      rest = ts ∧ b = (match ts with | [] => false | t :: _ => t.type != .end_ && t.type == type) := by
  cases ts with
  | nil =>
      rw [check, bind_ok get_run]
      constructor
      · intro h
        cases h
        exact ⟨rfl, rfl⟩
      · rintro ⟨rfl, rfl⟩
        rfl
  | cons t ts =>
      rw [check, bind_ok get_run]
      constructor
      · intro h
        cases h
        exact ⟨rfl, rfl⟩
      · rintro ⟨rfl, rfl⟩
        rfl

theorem advance_eq_ok : advance ts = .ok t rest ↔ ts = t :: rest ∧ t.type ≠ .end_ := by
  constructor
  · intro h
    cases ts with
    | nil => cases h
    | cons u us =>
        by_cases hu : u.type = .end_
        · rw [advance, bind_ok get_run] at h
          simp only [hu, if_true] at h
          cases h
        · rw [advance_cons hu] at h
          cases h
          exact ⟨rfl, hu⟩
  · rintro ⟨rfl, h⟩
    exact advance_cons h

/-- The tokens that `expect` takes. -/
def Expected (type : TokenType) (t : Token) : Prop :=
  t.type ≠ .end_ ∧ (t.type = type ∨ type = .identifier ∧ isKeyword t.type = true)

theorem expect_eq_ok {context : ByteString} :
    expect type context ts = .ok t rest ↔ ts = t :: rest ∧ Expected type t := by
  constructor
  · intro h
    rw [expect, bind_eq_ok] at h
    obtain ⟨b, s, hcheck, h⟩ := h
    obtain ⟨rfl, hb⟩ := check_eq_ok.mp hcheck
    split at h
    · next hif =>
        obtain ⟨rfl, hreal⟩ := advance_eq_ok.mp h
        rw [hif] at hb
        have hb := hb.symm
        simp only [Bool.and_eq_true, beq_iff_eq] at hb
        exact ⟨rfl, hreal, .inl hb.2⟩
    · rw [bind_ok get_run] at h
      split at h
      · next hif =>
          obtain ⟨rfl, hreal⟩ := advance_eq_ok.mp h
          simp only [Bool.and_eq_true, decide_eq_true_eq, List.headD_cons] at hif
          exact ⟨rfl, hreal, .inr ⟨hif.1.1, hif.2⟩⟩
      · rw [bind_eq_ok] at h
        obtain ⟨_, _, -, h⟩ := h
        exact absurd h fail_ne_ok
  · rintro ⟨rfl, hreal, h⟩
    have hcheck : check type (t :: rest) = .ok (t.type != .end_ && t.type == type) (t :: rest) :=
      check_eq_ok.mpr ⟨rfl, rfl⟩
    rw [expect, bind_ok hcheck]
    by_cases htype : t.type = type
    · rw [if_pos (by simpa [htype] using htype ▸ hreal)]
      exact advance_cons hreal
    · obtain ⟨rfl, hkey⟩ := h.resolve_left htype
      rw [if_neg (by simp [htype]), bind_ok get_run, if_pos (by simp [isEnd, hreal, hkey])]
      exact advance_cons hreal

theorem matchToken_true (real : type ≠ .end_) :
    matchToken type ts = .ok true rest ↔ ∃ t, t.type = type ∧ ts = t :: rest := by
  constructor
  · intro h
    cases ts with
    | nil => cases h
    | cons u us =>
        by_cases hu : u.type = type
        · rw [matchToken_hit hu real] at h
          cases h
          exact ⟨u, hu, rfl⟩
        · rw [matchToken_miss (notAhead_cons.mpr hu)] at h
          cases h
  · rintro ⟨t, ht, rfl⟩
    exact matchToken_hit ht real

theorem matchToken_false (real : type ≠ .end_) :
    matchToken type ts = .ok false rest ↔ rest = ts ∧ NotAhead type ts := by
  constructor
  · intro h
    by_cases hahead : NotAhead type ts
    · rw [matchToken_miss hahead] at h
      cases h
      exact ⟨rfl, hahead⟩
    · cases ts with
      | nil => exact absurd (by simp [NotAhead]) hahead
      | cons u us =>
          have hu : u.type = type := by
            by_contra hne
            exact hahead (notAhead_cons.mpr hne)
          rw [matchToken_hit hu real] at h
          cases h
  · rintro ⟨rfl, h⟩
    exact matchToken_miss h

theorem peek_eq_ok : peek ts = .ok t rest ↔ rest = ts ∧ ∃ us, ts = t :: us ∧ t.type ≠ .end_ := by
  constructor
  · intro h
    cases ts with
    | nil => cases h
    | cons u us =>
        by_cases hu : u.type = .end_
        · rw [peek, bind_ok get_run] at h
          simp only [hu, if_true] at h
          cases h
        · rw [peek_cons hu] at h
          cases h
          exact ⟨rfl, us, rfl, hu⟩
  · rintro ⟨rfl, us, rfl, h⟩
    exact peek_cons h

theorem expected_identifier : Expected .identifier t ↔ NameToken t := by
  unfold Expected NameToken
  constructor
  · rintro ⟨-, h | ⟨-, h⟩⟩
    · exact .inl h
    · exact .inr h
  · rintro (h | h)
    · exact ⟨by rw [h]; decide, .inl h⟩
    · refine ⟨?_, .inr ⟨rfl, h⟩⟩
      intro hend
      rw [hend] at h
      exact absurd h (by decide)

theorem expected_iff (h : type ≠ .identifier) : Expected type t ↔ t.type ≠ .end_ ∧ t.type = type := by
  simp [Expected, h]

/-- `expect` of a token that is not a name. -/
theorem expect_type_eq_ok {context : ByteString} (h : type ≠ .identifier) (real : type ≠ .end_) :
    expect type context ts = .ok t rest ↔ ts = t :: rest ∧ t.type = type := by
  rw [expect_eq_ok, expected_iff h]
  constructor
  · rintro ⟨h, -, h'⟩
    exact ⟨h, h'⟩
  · rintro ⟨h, h'⟩
    exact ⟨h, by rw [h']; exact real, h'⟩

theorem expect_name_eq_ok {context : ByteString} :
    expect .identifier context ts = .ok t rest ↔ ts = t :: rest ∧ NameToken t := by
  rw [expect_eq_ok, expected_identifier]

/-- A branch on whether a token of the type is ahead. -/
theorem ifMatch_eq_ok {a : α} {yes no : Parser α} (real : type ≠ .end_) :
    (matchToken type >>= fun b => if b = true then yes else no) ts = .ok a rest ↔
      (∃ t us, t.type = type ∧ ts = t :: us ∧ yes us = .ok a rest) ∨
        NotAhead type ts ∧ no ts = .ok a rest := by
  rw [bind_eq_ok]
  constructor
  · rintro ⟨b, us, hmatch, h⟩
    cases b with
    | true =>
        obtain ⟨t, ht, rfl⟩ := (matchToken_true real).mp hmatch
        exact .inl ⟨t, us, ht, rfl, h⟩
    | false =>
        obtain ⟨rfl, hahead⟩ := (matchToken_false real).mp hmatch
        exact .inr ⟨hahead, h⟩
  · rintro (⟨t, us, ht, rfl, h⟩ | ⟨hahead, h⟩)
    · exact ⟨true, us, (matchToken_true real).mpr ⟨t, ht, rfl⟩, h⟩
    · exact ⟨false, ts, (matchToken_false real).mpr ⟨rfl, hahead⟩, h⟩

theorem check_run (real : type ≠ .end_) : check type ts = .ok (!decide (NotAhead type ts)) ts := by
  rw [check_eq_ok]
  refine ⟨rfl, ?_⟩
  cases ts with
  | nil => simp [NotAhead]
  | cons t us =>
      by_cases ht : t.type = type
      · simp [notAhead_cons, ht, real]
      · simp [notAhead_cons, ht]

/-- A branch on the type of the token ahead, which stays unread. -/
theorem ifCheck_eq_ok {a : α} {yes no : Parser α} (real : type ≠ .end_) :
    (check type >>= fun b => if b = true then yes else no) ts = .ok a rest ↔
      (¬ NotAhead type ts ∧ yes ts = .ok a rest) ∨ NotAhead type ts ∧ no ts = .ok a rest := by
  rw [bind_ok (check_run real)]
  by_cases hahead : NotAhead type ts
  · simp [hahead]
  · simp [hahead]

theorem not_notAhead_iff : ¬ NotAhead type ts ↔ ∃ t us, ts = t :: us ∧ t.type = type := by
  cases ts with
  | nil => simp [NotAhead]
  | cons t us => simp [NotAhead]

/-! ## Names and values -/

theorem parseValue_eq_ok {v : ParserValue} :
    parseValue ts = .ok v rest ↔ ∃ t, ts = t :: rest ∧ ValueToken t v := by
  unfold parseValue
  rw [ifMatch_eq_ok (by decide), ifCheck_eq_ok (by decide), ifCheck_eq_ok (by decide)]
  constructor
  · rintro (⟨t, us, ht, rfl, h⟩ | ⟨-, ⟨hint, h⟩ | ⟨-, ⟨hstr, h⟩ | ⟨-, h⟩⟩⟩)
    · cases h
      exact ⟨t, rfl, .null ht⟩
    · obtain ⟨t, us, rfl, ht⟩ := not_notAhead_iff.mp hint
      rw [bind_ok (advance_cons (by simp [ht])), bind_eq_ok] at h
      obtain ⟨n, us', hn, h⟩ := h
      cases hstoi : stoi t.value with
      | error e =>
          rw [hstoi] at hn
          cases hn
      | ok m =>
          rw [hstoi] at hn
          cases hn
          cases h
          exact ⟨t, rfl, .int ht hstoi⟩
    · obtain ⟨t, us, rfl, ht⟩ := not_notAhead_iff.mp hstr
      rw [bind_ok (advance_cons (by simp [ht]))] at h
      cases h
      exact ⟨t, rfl, .str ht⟩
    · rw [bind_eq_ok] at h
      obtain ⟨_, _, -, h⟩ := h
      exact absurd h fail_ne_ok
  · rintro ⟨t, rfl, h⟩
    cases h with
    | null ht => exact .inl ⟨t, rest, ht, rfl, rfl⟩
    | int ht hstoi =>
        refine .inr ⟨by simp [notAhead_cons, ht], .inl ⟨by simp [notAhead_cons, ht], ?_⟩⟩
        rw [bind_ok (advance_cons (by simp [ht])), hstoi]
        rfl
    | str ht =>
        refine .inr ⟨by simp [notAhead_cons, ht],
          .inr ⟨by simp [notAhead_cons, ht], .inl ⟨by simp [notAhead_cons, ht], ?_⟩⟩⟩
        rw [bind_ok (advance_cons (by simp [ht]))]
        rfl

theorem parseTableRef_sound : Sound TableRef parseTableRef := by
  intro ts ref rest h
  rw [parseTableRef, bind_eq_ok] at h
  obtain ⟨first, us, hfirst, h⟩ := h
  obtain ⟨rfl, hname⟩ := expect_name_eq_ok.mp hfirst
  rw [ifMatch_eq_ok (by decide)] at h
  rcases h with ⟨dot, vs, hdot, rfl, h⟩ | ⟨hahead, h⟩
  · rw [bind_eq_ok] at h
    obtain ⟨second, ws, hsecond, h⟩ := h
    obtain ⟨rfl, hname'⟩ := expect_name_eq_ok.mp hsecond
    cases h
    exact ⟨_, _, rfl, .qualified hname hdot hname', noneAhead_nil _⟩
  · cases h
    exact ⟨_, _, rfl, .plain hname, by simpa [NoneAhead] using hahead⟩

theorem parseTableRef_complete : Complete TableRef parseTableRef := by
  intro us ref stops rest h hstops
  cases h with
  | @plain t hname =>
      rw [parseTableRef, List.singleton_append, bind_ok (expect_name_eq_ok.mpr ⟨rfl, hname⟩),
        ifMatch_eq_ok (by decide)]
      exact .inr ⟨(noneAhead_cons.mp hstops).1, rfl⟩
  | @qualified d dot t hname hdot hname' =>
      rw [parseTableRef, List.cons_append, bind_ok (expect_name_eq_ok.mpr ⟨rfl, hname⟩),
        ifMatch_eq_ok (by decide)]
      refine .inl ⟨dot, t :: rest, hdot, rfl, ?_⟩
      rw [bind_ok (expect_name_eq_ok.mpr ⟨rfl, hname'⟩)]
      rfl

/-! ## Lists -/

section CommaLists

variable {Item : List Token → α → Prop} {item : Parser α}

theorem commaLoop_sound
    (hitem : ∀ ts x rest, item ts = .ok x rest → ∃ us, ts = us ++ rest ∧ Item us x) :
    ∀ (fuel : Nat) (acc : List α) (ts : List Token) (xs : List α) (rest : List Token),
      commaLoop item fuel acc ts = .ok xs rest →
      ∃ us ys, ts = us ++ rest ∧ CommaList Item us ys ∧ xs = acc ++ ys ∧ NotAhead .comma rest
  | 0, _, _, _, _, h => by cases h
  | fuel + 1, acc, ts, xs, rest, h => by
      rw [commaLoop, bind_eq_ok] at h
      obtain ⟨x, vs, hx, h⟩ := h
      obtain ⟨us, rfl, hus⟩ := hitem _ _ _ hx
      rw [ifMatch_eq_ok (by decide)] at h
      rcases h with ⟨comma, ws, hcomma, rfl, h⟩ | ⟨hahead, h⟩
      · obtain ⟨us', ys, rfl, hlist, rfl, hstop⟩ := commaLoop_sound hitem fuel _ _ _ _ h
        exact ⟨us ++ comma :: us', x :: ys, by simp, .cons hus hcomma hlist, by simp, hstop⟩
      · cases h
        exact ⟨us, [x], rfl, .one hus, rfl, hahead⟩

theorem commaLoop_complete {Follow : List Token → Prop}
    (hitem : ∀ us x rest, Item us x → Follow rest → item (us ++ rest) = .ok x rest)
    (hcomma : ∀ t rest, t.type = .comma → Follow (t :: rest)) {us : List Token} {ys : List α}
    (h : CommaList Item us ys) : ∀ (fuel : Nat) (acc : List α) (rest : List Token),
      ys.length ≤ fuel → Follow rest → NotAhead .comma rest →
      commaLoop item fuel acc (us ++ rest) = .ok (acc ++ ys) rest := by
  induction h with
  | @one ts x hx =>
      intro fuel acc rest hfuel hfollow hstop
      obtain ⟨fuel, rfl⟩ : ∃ k, fuel = k + 1 := ⟨fuel - 1, by simp at hfuel; omega⟩
      rw [commaLoop, bind_ok (hitem _ _ _ hx hfollow), ifMatch_eq_ok (by decide)]
      exact .inr ⟨hstop, rfl⟩
  | @cons ts us comma x xs hx hc _ ih =>
      intro fuel acc rest hfuel hfollow hstop
      obtain ⟨fuel, rfl⟩ : ∃ k, fuel = k + 1 := ⟨fuel - 1, by simp at hfuel; omega⟩
      have hitem' := hitem _ _ (comma :: (us ++ rest)) hx (hcomma comma _ hc)
      rw [commaLoop, List.append_assoc, List.cons_append, bind_ok hitem',
        ifMatch_eq_ok (by decide)]
      refine .inl ⟨comma, us ++ rest, hc, rfl, ?_⟩
      rw [ih fuel _ rest (by simp at hfuel; omega) hfollow hstop, List.append_assoc]
      rfl

/-- Every item but the last is followed by a comma. -/
theorem commaList_length_le {us : List Token} {ys : List α} (h : CommaList Item us ys) :
    ys.length ≤ us.length + 1 := by
  induction h with
  | one => simp
  | cons _ _ _ ih => simp; omega

theorem commaList_sound
    (hitem : ∀ ts x rest, item ts = .ok x rest → ∃ us, ts = us ++ rest ∧ Item us x)
    {xs : List α} (h : commaList item ts = .ok xs rest) :
    ∃ us, ts = us ++ rest ∧ CommaList Item us xs ∧ NotAhead .comma rest := by
  rw [commaList, bind_ok get_run] at h
  obtain ⟨us, ys, rfl, hlist, hxs, hstop⟩ := commaLoop_sound hitem _ _ _ _ _ h
  rw [List.nil_append] at hxs
  exact ⟨us, rfl, hxs ▸ hlist, hstop⟩

theorem commaList_complete {F : List Token → Prop}
    (hitem : ∀ us x rest, Item us x → F rest → item (us ++ rest) = .ok x rest)
    (hcomma : ∀ t rest, t.type = .comma → F (t :: rest)) {us : List Token} {ys : List α}
    (h : CommaList Item us ys) (hfollow : F rest) (hstop : NotAhead .comma rest) :
    commaList item (us ++ rest) = .ok ys rest := by
  rw [commaList, bind_ok get_run,
    commaLoop_complete hitem hcomma h _ _ _ (by
      have := commaList_length_le h
      simp
      omega) hfollow hstop]
  rfl

end CommaLists

/-! ## Conditions -/

theorem parseOperand_sound {value : ByteString} {isColumn : Bool}
    (h : parseOperand ts = .ok (value, isColumn) rest) :
    ∃ t, ts = t :: rest ∧ OperandToken t value isColumn := by
  rw [parseOperand, bind_eq_ok] at h
  obtain ⟨t, us, hpeek, h⟩ := h
  obtain ⟨rfl, us, rfl, hreal⟩ := peek_eq_ok.mp hpeek
  split at h
  · next ht =>
      rw [bind_ok (advance_cons hreal)] at h
      cases h
      exact ⟨t, rfl, .column ht⟩
  · split at h
    · next ht =>
        rw [bind_ok (advance_cons hreal)] at h
        cases h
        exact ⟨t, rfl, .literal ht⟩
    · split at h
      · next ht =>
          rw [bind_ok (advance_cons hreal)] at h
          cases h
          exact ⟨t, rfl, .null ht⟩
      · exact absurd h fail_ne_ok

theorem parseSimpleCondition_sound {cond : Condition}
    (h : parseSimpleCondition ts = .ok cond rest) :
    ∃ us simple, ts = us ++ rest ∧ SimpleTokens us simple ∧ cond = .ofSimple simple := by
  rw [parseSimpleCondition, bind_eq_ok] at h
  obtain ⟨⟨left, leftIsColumn⟩, ts₁, hleft, h⟩ := h
  obtain ⟨l, rfl, hl⟩ := parseOperand_sound hleft
  rw [bind_eq_ok] at h
  obtain ⟨o, ts₂, hpeek, h⟩ := h
  obtain ⟨rfl, ts₃, rfl, hreal⟩ := peek_eq_ok.mp hpeek
  cases hop : compareOp? o.type with
  | none =>
      rw [hop] at h
      exact absurd h fail_ne_ok
  | some op =>
      rw [hop] at h
      simp only at h
      rw [bind_ok (advance_cons hreal), bind_eq_ok] at h
      obtain ⟨⟨right, rightIsColumn⟩, ts₄, hright, h⟩ := h
      obtain ⟨r, rfl, hr⟩ := parseOperand_sound hright
      split at h
      · next hbetween =>
          subst hbetween
          rw [bind_eq_ok] at h
          obtain ⟨a, ts₅, hand, h⟩ := h
          obtain ⟨rfl, ha⟩ := (expect_type_eq_ok (by decide) (by decide)).mp hand
          rw [bind_eq_ok] at h
          obtain ⟨⟨right2, right2IsColumn⟩, ts₆, hright2, h⟩ := h
          obtain ⟨r2, rfl, hr2⟩ := parseOperand_sound hright2
          cases h
          have ho : o.type = .kwBetween := by
            revert hop
            cases o.type <;> simp [compareOp?]
          exact ⟨_, _, rfl, .between hl ho hr ha hr2, rfl⟩
      · next hne =>
          cases h
          exact ⟨_, _, rfl, .compare hl hop hne hr, rfl⟩

/-- The loop of a connective reads operands of the next level. -/
theorem conditionLoop_sound {c : Connective} {sep : TokenType} {level below : Level}
    {operand : Parser Condition} {Stop : List Token → Prop} (real : sep ≠ .end_)
    (hoperand : ∀ ts cond rest, operand ts = .ok cond rest →
      ∃ us e, ts = us ++ rest ∧ Derives below us e ∧ cond = e.treeOf ∧ Stop rest)
    (hjoin : ∀ ts us t left right, Derives level ts left → t.type = sep →
      Derives below us right → Derives level (ts ++ t :: us) (.join c left right)) :
    ∀ (fuel : Nat) (read ts : List Token) (e : Expr) (cond : Condition) (rest : List Token),
      Derives level read e → Stop ts →
      conditionLoop sep c.op operand fuel e.treeOf ts = .ok cond rest →
      ∃ us e', ts = us ++ rest ∧ Derives level (read ++ us) e' ∧ cond = e'.treeOf ∧
        Stop rest ∧ NotAhead sep rest
  | 0, _, _, _, _, _, _, _, h => by cases h
  | fuel + 1, read, ts, e, cond, rest, hread, hstop, h => by
      rw [conditionLoop, ifMatch_eq_ok real] at h
      rcases h with ⟨t, vs, ht, rfl, h⟩ | ⟨hahead, h⟩
      · rw [bind_eq_ok] at h
        obtain ⟨right, ws, hright, h⟩ := h
        obtain ⟨us, e₂, rfl, hus, rfl, hstop'⟩ := hoperand _ _ _ hright
        have hderives := hjoin read us t e e₂ hread ht hus
        obtain ⟨us', e', rfl, hderives', hcond, hstops⟩ := conditionLoop_sound real hoperand
          hjoin fuel _ _ (.join c e e₂) _ _ hderives hstop' h
        exact ⟨t :: (us ++ us'), e', by simp, by simpa using hderives', hcond, hstops⟩
      · cases h
        exact ⟨[], e, rfl, by simpa using hread, rfl, hstop, hahead⟩

/-- What a sound condition parser has read, by level. -/
def ReadsLevel (level : Level) (Stop : List Token → Prop) (p : Parser Condition) : Prop :=
  ∀ ts cond rest, p ts = .ok cond rest →
    ∃ us e, ts = us ++ rest ∧ Derives level us e ∧ cond = e.treeOf ∧ Stop rest

theorem parsePrimaryCondition_sound {nested : Parser Condition} {Stop : List Token → Prop}
    (hnested : ReadsLevel .disjunction Stop nested) :
    ReadsLevel .primary (fun _ => True) (parsePrimaryCondition nested) := by
  intro ts cond rest h
  rw [parsePrimaryCondition, ifMatch_eq_ok (by decide)] at h
  rcases h with ⟨lp, us, hlp, rfl, h⟩ | ⟨-, h⟩
  · rw [bind_eq_ok] at h
    obtain ⟨inner, vs, hinner, h⟩ := h
    obtain ⟨us, e, rfl, hus, rfl, -⟩ := hnested _ _ _ hinner
    rw [bind_eq_ok] at h
    obtain ⟨rp, ws, hclose, h⟩ := h
    obtain ⟨rfl, hrp⟩ := (expect_type_eq_ok (by decide) (by decide)).mp hclose
    cases h
    exact ⟨lp :: us ++ [rp], .paren e, by simp, .paren hlp hus hrp, rfl, trivial⟩
  · obtain ⟨us, simple, rfl, hus, rfl⟩ := parseSimpleCondition_sound h
    exact ⟨us, .atom simple, rfl, .atom hus, rfl, trivial⟩

theorem parseAndCondition_sound {nested : Parser Condition} {Stop : List Token → Prop}
    (hnested : ReadsLevel .disjunction Stop nested) :
    ReadsLevel .conjunction (NotAhead .kwAnd) (parseAndCondition nested) := by
  intro ts cond rest h
  rw [parseAndCondition, bind_eq_ok] at h
  obtain ⟨first, vs, hfirst, h⟩ := h
  obtain ⟨us, e, rfl, hus, rfl, -⟩ := parsePrimaryCondition_sound hnested _ _ _ hfirst
  rw [bind_ok get_run] at h
  obtain ⟨us', e', rfl, hderives, hcond, -, hstop⟩ := conditionLoop_sound (c := .and) (by decide)
    (parsePrimaryCondition_sound hnested) (fun _ _ _ _ _ hl ht hr => .and hl ht hr) _ us _ e _ _
    (.conjunctionOne hus) trivial h
  exact ⟨us ++ us', e', by simp, hderives, hcond, hstop⟩

theorem parseConditionWithin_sound : ∀ depth : Nat,
    ReadsLevel .disjunction (fun rest => NotAhead .kwAnd rest ∧ NotAhead .kwOr rest)
      (parseConditionWithin depth)
  | 0 => fun _ _ _ h => by cases h
  | depth + 1 => by
      intro ts cond rest h
      have hand := parseAndCondition_sound (parseConditionWithin_sound depth)
      rw [parseConditionWithin, parseOrCondition, bind_eq_ok] at h
      obtain ⟨first, vs, hfirst, h⟩ := h
      obtain ⟨us, e, rfl, hus, rfl, hstop⟩ := hand _ _ _ hfirst
      rw [bind_ok get_run] at h
      obtain ⟨us', e', rfl, hderives, hcond, hstops⟩ := conditionLoop_sound (c := .or) (by decide)
        hand (fun _ _ _ _ _ hl ht hr => .or hl ht hr) _ us _ e _ _ (.disjunctionOne hus) hstop h
      exact ⟨us ++ us', e', by simp, hderives, hcond, hstops⟩

/-- `parseCondition` reads an expression and builds its tree. -/
theorem parseCondition_sound {cond : Condition} (h : parseCondition ts = .ok cond rest) :
    ∃ us e, ts = us ++ rest ∧ Derives .disjunction us e ∧ cond = e.treeOf ∧
      NotAhead .kwAnd rest ∧ NotAhead .kwOr rest := by
  rw [parseCondition, bind_ok get_run] at h
  exact parseConditionWithin_sound _ _ _ _ h

theorem parseWhere_sound {cond : Option Condition} {stops : List TokenType}
    (h : parseWhere ts = .ok cond rest) (hstops : NoneAhead stops ts) :
    ∃ us wstops, ts = us ++ rest ∧ WhereTokens stops us cond wstops ∧ NoneAhead wstops rest := by
  rw [parseWhere, ifMatch_eq_ok (by decide)] at h
  rcases h with ⟨w, us, hw, rfl, h⟩ | ⟨hahead, h⟩
  · rw [bind_eq_ok] at h
    obtain ⟨c, vs, hc, h⟩ := h
    obtain ⟨us, e, rfl, hus, rfl, hand, hor⟩ := parseCondition_sound hc
    cases h
    exact ⟨w :: us, _, rfl, .present hw hus,
      noneAhead_cons.mpr ⟨hand, noneAhead_cons.mpr ⟨hor, noneAhead_nil _⟩⟩⟩
  · cases h
    exact ⟨[], _, rfl, .absent, noneAhead_cons.mpr ⟨hahead, hstops⟩⟩

theorem parseWhere_complete {us : List Token} {cond : Option Condition}
    {stops wstops : List TokenType} (h : WhereTokens stops us cond wstops)
    (hstops : NoneAhead wstops rest) (hwhere : .kwWhere ∉ stops) :
    parseWhere (us ++ rest) = .ok cond rest ∧ NoneAhead stops (us ++ rest) := by
  rw [parseWhere, ifMatch_eq_ok (by decide)]
  cases h with
  | absent =>
      obtain ⟨hahead, hrest⟩ := noneAhead_cons.mp hstops
      exact ⟨.inr ⟨hahead, rfl⟩, hrest⟩
  | @present w ts e hw hderives =>
      obtain ⟨hand, hor⟩ := noneAhead_cons.mp hstops
      refine ⟨.inl ⟨w, ts ++ rest, hw, rfl, ?_⟩, ?_⟩
      · rw [bind_ok (parseCondition_of_derives hderives hand (noneAhead_cons.mp hor).1)]
        rfl
      · intro type hmem
        rw [List.cons_append, notAhead_cons, hw]
        rintro rfl
        exact hwhere hmem

end Parser
end CwDb.Sql
