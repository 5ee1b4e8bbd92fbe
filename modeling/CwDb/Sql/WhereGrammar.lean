/-
  Sql/WhereGrammar.lean --- the concrete syntax of WHERE conditions, and what the
  condition parser builds from it.

  `Derives` is the grammar under the usual reading: parentheses group, AND binds
  tighter than OR, both associate to the left, and the AND of a BETWEEN is part
  of the comparison.  `treeOf` is the condition that `combineConditions` leaves
  behind, and `parseCondition_of_derives` says that the parser returns it.
-/
import CwDb.Sql.Parser

set_option autoImplicit false

namespace CwDb.Sql

open CwDb.Cpp
open CwDb.Foundation

/-! ## Expressions -/

/-- The two operators that join conditions. -/
inductive Connective where
  | and | or
  deriving DecidableEq, Repr

namespace Connective

/-- The operator as the parser records it. -/
def op : Connective → LogicalOp
  | and => .and
  | or => .or

/-- The truth table of the operator. -/
def apply : Connective → Bool → Bool → Bool
  | and, a, b => a && b
  | or, a, b => a || b

end Connective

/-- A WHERE expression as it is written, parentheses included. -/
inductive Expr where
  | atom (simple : SimpleCondition)
  | paren (inner : Expr)
  | join (connective : Connective) (left right : Expr)
  deriving DecidableEq, Repr

namespace Expr

/-- The comparisons of an expression, from left to right. -/
def atoms : Expr → List SimpleCondition
  | atom simple => [simple]
  | paren inner => inner.atoms
  | join _ left right => left.atoms ++ right.atoms

/-- The truth value of an expression when its comparisons have the values `v`. -/
def eval (v : SimpleCondition → Bool) : Expr → Bool
  | atom simple => v simple
  | paren inner => inner.eval v
  | join connective left right => connective.apply (left.eval v) (right.eval v)

/-- How deep the parentheses of an expression nest. -/
def depth : Expr → Nat
  | atom _ => 0
  | paren inner => inner.depth + 1
  | join _ left right => max left.depth right.depth

/-- The condition the parser builds for an expression. -/
def treeOf : Expr → Condition
  | atom simple => .ofSimple simple
  | paren inner =>
      let cond := inner.treeOf
      .mk cond.simple cond.logicalOp cond.next cond.leftTree true
  | join connective left right =>
      Parser.combineConditions left.treeOf right.treeOf connective.op

/-- The rounds that the loop of a connective spends on an expression. -/
def rounds (connective : Connective) : Expr → Nat
  | join c left _ => if c = connective then left.rounds connective + 1 else 0
  | _ => 0

end Expr

/-! ## The grammar -/

/-- An operand token, its text, and whether it names a column. -/
inductive OperandToken : Token → ByteString → Bool → Prop
  | column {token : Token} : token.type = .identifier → OperandToken token token.value true
  | literal {token : Token} : token.type = .intLiteral ∨ token.type = .strLiteral →
      OperandToken token token.value false
  | null {token : Token} : token.type = .kwNull → OperandToken token (text "NULL") false

/-- The tokens of one comparison. -/
inductive SimpleTokens : List Token → SimpleCondition → Prop
  | compare {l o r : Token} {left right : ByteString} {leftIsColumn rightIsColumn : Bool}
      {op : CompareOp} :
      OperandToken l left leftIsColumn → Parser.compareOp? o.type = some op →
      op ≠ .between → OperandToken r right rightIsColumn →
      SimpleTokens [l, o, r] { left, leftIsColumn, op, right, rightIsColumn }
  | between {l o r a r2 : Token} {left right right2 : ByteString}
      {leftIsColumn rightIsColumn right2IsColumn : Bool} :
      OperandToken l left leftIsColumn → o.type = .kwBetween →
      OperandToken r right rightIsColumn → a.type = .kwAnd →
      OperandToken r2 right2 right2IsColumn →
      SimpleTokens [l, o, r, a, r2]
        { left, leftIsColumn, op := .between, right, rightIsColumn, right2, right2IsColumn }

/-- The levels of the grammar, from the tightest binding to the loosest. -/
inductive Level where
  | primary | conjunction | disjunction
  deriving DecidableEq, Repr

/-- `Derives level ts e`: the tokens `ts` are the expression `e`, read at `level`. -/
inductive Derives : Level → List Token → Expr → Prop
  | atom {ts : List Token} {simple : SimpleCondition} :
      SimpleTokens ts simple → Derives .primary ts (.atom simple)
  | paren {lp rp : Token} {ts : List Token} {e : Expr} :
      lp.type = .lparen → Derives .disjunction ts e → rp.type = .rparen →
      Derives .primary (lp :: ts ++ [rp]) (.paren e)
  | conjunctionOne {ts : List Token} {e : Expr} :
      Derives .primary ts e → Derives .conjunction ts e
  | and {ts us : List Token} {t : Token} {left right : Expr} :
      Derives .conjunction ts left → t.type = .kwAnd → Derives .primary us right →
      Derives .conjunction (ts ++ t :: us) (.join .and left right)
  | disjunctionOne {ts : List Token} {e : Expr} :
      Derives .conjunction ts e → Derives .disjunction ts e
  | or {ts us : List Token} {t : Token} {left right : Expr} :
      Derives .disjunction ts left → t.type = .kwOr → Derives .conjunction us right →
      Derives .disjunction (ts ++ t :: us) (.join .or left right)

/-- The token list does not begin with a token of the type. -/
def NotAhead (type : TokenType) (rest : List Token) : Prop :=
  ∀ token ∈ rest.head?, token.type ≠ type

instance (type : TokenType) (rest : List Token) : Decidable (NotAhead type rest) :=
  inferInstanceAs (Decidable (∀ token ∈ rest.head?, token.type ≠ type))

theorem OperandToken.not_lparen {token : Token} {value : ByteString} {isColumn : Bool}
    (h : OperandToken token value isColumn) : token.type ≠ .lparen := by
  cases h with
  | column ht => simp [ht]
  | literal ht => rcases ht with h | h <;> simp [h]
  | null ht => simp [ht]

/-- A comparison does not begin with a parenthesis. -/
theorem SimpleTokens.notAhead_lparen {ts rest : List Token} {simple : SimpleCondition}
    (h : SimpleTokens ts simple) : NotAhead .lparen (ts ++ rest) := by
  cases h with
  | compare hl => simpa [NotAhead] using hl.not_lparen
  | between hl => simpa [NotAhead] using hl.not_lparen

namespace Parser

/-! ## Runs of the token primitives -/

variable {token : Token} {rest tokens : List Token} {type : TokenType}

theorem matchToken_hit (h : token.type = type) (real : type ≠ .end_) :
    matchToken type (token :: rest) = .ok true rest := by
  rw [matchToken, bind_ok get_run]
  dsimp only
  rw [if_pos ⟨h ▸ real, h⟩]
  rfl

theorem matchToken_miss (h : NotAhead type tokens) :
    matchToken type tokens = .ok false tokens := by
  cases tokens with
  | nil => rfl
  | cons token rest =>
      have hne : token.type ≠ type := h token (by simp)
      rw [matchToken, bind_ok get_run]
      dsimp only
      rw [if_neg fun hboth => hne hboth.2]
      rfl

theorem advance_cons (real : token.type ≠ .end_) :
    advance (token :: rest) = .ok token rest := by
  rw [advance, bind_ok get_run]
  dsimp only
  rw [if_neg real]
  rfl

theorem peek_cons (real : token.type ≠ .end_) :
    peek (token :: rest) = .ok token (token :: rest) := by
  rw [peek, bind_ok get_run]
  dsimp only
  rw [if_neg real]
  rfl

theorem check_cons (real : type ≠ .end_) :
    check type (token :: rest) = .ok (token.type == type) (token :: rest) := by
  rw [check, bind_ok get_run]
  dsimp only
  have hsame : (token.type != .end_ && token.type == type) = (token.type == type) := by
    by_cases h : token.type = type
    · simp [h, real]
    · simp [h]
  rw [hsame]
  rfl

theorem expect_hit {context : ByteString} (h : token.type = type) (real : type ≠ .end_) :
    expect type context (token :: rest) = .ok token rest := by
  have hcheck : check type (token :: rest) = .ok true (token :: rest) := by
    rw [check_cons real, h, beq_self_eq_true]
  rw [expect, bind_ok hcheck]
  simpa using advance_cons (h ▸ real)

/-! ## Comparisons -/

theorem parseOperand_of_token {value : ByteString} {isColumn : Bool}
    (h : OperandToken token value isColumn) :
    parseOperand (token :: rest) = .ok (value, isColumn) rest := by
  cases h with
  | column ht =>
      have real : token.type ≠ .end_ := by simp [ht]
      simp only [parseOperand, bind_ok (peek_cons real), ht, if_true,
        bind_ok (advance_cons real)]
      rfl
  | literal ht =>
      have real : token.type ≠ .end_ := by rcases ht with h | h <;> simp [h]
      have notIdentifier : token.type ≠ .identifier := by rcases ht with h | h <;> simp [h]
      simp only [parseOperand, bind_ok (peek_cons real), notIdentifier, if_false, ht, if_true,
        bind_ok (advance_cons real)]
      rfl
  | null ht =>
      have real : token.type ≠ .end_ := by simp [ht]
      simp only [parseOperand, bind_ok (peek_cons real), ht, reduceCtorEq, or_self, if_false,
        if_true, bind_ok (advance_cons real)]
      rfl

theorem parseSimpleCondition_of_tokens {ts : List Token} {simple : SimpleCondition}
    (h : SimpleTokens ts simple) :
    parseSimpleCondition (ts ++ rest) = .ok (.ofSimple simple) rest := by
  cases h with
  | @compare l o r left right leftIsColumn rightIsColumn op hl ho hop hr =>
      have real : o.type ≠ .end_ := by
        intro h
        simp [h, compareOp?] at ho
      simp only [parseSimpleCondition, List.cons_append, List.nil_append,
        bind_ok (parseOperand_of_token hl), bind_ok (peek_cons real), ho,
        bind_ok (advance_cons real), bind_ok (parseOperand_of_token hr), hop, if_false]
      rfl
  | @between l o r a r2 left right right2 leftIsColumn rightIsColumn right2IsColumn
      hl ho hr ha hr2 =>
      have real : o.type ≠ .end_ := by simp [ho]
      have hop : compareOp? o.type = some .between := by simp [ho, compareOp?]
      simp only [parseSimpleCondition, List.cons_append, List.nil_append,
        bind_ok (parseOperand_of_token hl), bind_ok (peek_cons real), hop,
        bind_ok (advance_cons real), bind_ok (parseOperand_of_token hr), if_true,
        bind_ok (expect_hit ha (by decide)), bind_ok (parseOperand_of_token hr2)]
      rfl

/-! ## The loops -/

theorem conditionLoop_stop {sep : TokenType} {op : LogicalOp} {operand : Parser Condition}
    {fuel : Nat} {cond : Condition} (stop : NotAhead sep rest) :
    conditionLoop sep op operand (fuel + 1) cond rest = .ok cond rest := by
  rw [conditionLoop, bind_ok (matchToken_miss stop)]
  rfl

theorem conditionLoop_round {sep : TokenType} {op : LogicalOp} {operand : Parser Condition}
    {fuel : Nat} {cond right : Condition} {us : List Token} (ht : token.type = sep)
    (real : sep ≠ .end_) (run : operand (us ++ rest) = .ok right rest) :
    conditionLoop sep op operand (fuel + 1) cond (token :: us ++ rest) =
      conditionLoop sep op operand fuel (combineConditions cond right op) rest := by
  rw [conditionLoop, List.cons_append, bind_ok (matchToken_hit ht real)]
  simp only [if_true]
  rw [bind_ok run]

/-- What a derivation at each level says about the parser.  `d` bounds the
parentheses below.  The two loop levels name the state in which the loop starts
(`cond` built, `mid` unread) and leave the loop running, so that the
left-recursive rules compose. -/
def Parses (d : Nat) : Level → List Token → Expr → Prop
  | .primary, ts, e => e.depth ≤ d → ∀ rest,
      parsePrimaryCondition (parseConditionWithin d) (ts ++ rest) = .ok e.treeOf rest
  | .conjunction, ts, e => e.depth ≤ d → ∃ cond mid, e.rounds .and ≤ mid.length ∧ ∀ rest,
      parsePrimaryCondition (parseConditionWithin d) (ts ++ rest) = .ok cond (mid ++ rest) ∧
      ∀ fuel, conditionLoop .kwAnd .and (parsePrimaryCondition (parseConditionWithin d))
          (e.rounds .and + fuel) cond (mid ++ rest) =
        conditionLoop .kwAnd .and (parsePrimaryCondition (parseConditionWithin d)) fuel
          e.treeOf rest
  | .disjunction, ts, e => e.depth ≤ d → ∃ cond mid, e.rounds .or ≤ mid.length ∧
      ∀ rest, NotAhead .kwAnd rest →
      parseAndCondition (parseConditionWithin d) (ts ++ rest) = .ok cond (mid ++ rest) ∧
      ∀ fuel, conditionLoop .kwOr .or (parseAndCondition (parseConditionWithin d))
          (e.rounds .or + fuel) cond (mid ++ rest) =
        conditionLoop .kwOr .or (parseAndCondition (parseConditionWithin d)) fuel
          e.treeOf rest

/-- A conjunction read to its end: what follows is not an AND. -/
theorem parseAndCondition_of_parses {d : Nat} {ts : List Token} {e : Expr}
    (h : Parses d .conjunction ts e) (deep : e.depth ≤ d) (stop : NotAhead .kwAnd rest) :
    parseAndCondition (parseConditionWithin d) (ts ++ rest) = .ok e.treeOf rest := by
  obtain ⟨cond, mid, hrounds, hrun⟩ := h deep
  obtain ⟨hfirst, hloop⟩ := hrun rest
  obtain ⟨spare, hspare⟩ : ∃ spare, (mid ++ rest).length + 1 = e.rounds .and + (spare + 1) :=
    ⟨(mid ++ rest).length - e.rounds .and, by simp; omega⟩
  rw [parseAndCondition, bind_ok hfirst, bind_ok get_run, hspare, hloop,
    conditionLoop_stop stop]

/-- A disjunction read to its end: what follows is neither an AND nor an OR. -/
theorem parseOrCondition_of_parses {d : Nat} {ts : List Token} {e : Expr}
    (h : Parses d .disjunction ts e) (deep : e.depth ≤ d) (stopAnd : NotAhead .kwAnd rest)
    (stopOr : NotAhead .kwOr rest) :
    parseConditionWithin (d + 1) (ts ++ rest) = .ok e.treeOf rest := by
  obtain ⟨cond, mid, hrounds, hrun⟩ := h deep
  obtain ⟨hfirst, hloop⟩ := hrun rest stopAnd
  obtain ⟨spare, hspare⟩ : ∃ spare, (mid ++ rest).length + 1 = e.rounds .or + (spare + 1) :=
    ⟨(mid ++ rest).length - e.rounds .or, by simp; omega⟩
  rw [parseConditionWithin, parseOrCondition, bind_ok hfirst, bind_ok get_run, hspare, hloop,
    conditionLoop_stop stopOr]

/-- Every derivation is parsed into its tree, whatever follows it. -/
theorem parses_of_derives {level : Level} {ts : List Token} {e : Expr}
    (h : Derives level ts e) : ∀ d, Parses d level ts e := by
  induction h with
  | @atom ts simple hs =>
      intro d _ rest
      rw [parsePrimaryCondition, bind_ok (matchToken_miss hs.notAhead_lparen)]
      exact parseSimpleCondition_of_tokens hs
  | @paren lp rp ts e hlp _ hrp ih =>
      intro d deep rest
      obtain ⟨d, rfl⟩ : ∃ k, d = k + 1 := ⟨d - 1, by simp [Expr.depth] at deep; omega⟩
      have deep' : e.depth ≤ d := by simpa [Expr.depth] using deep
      have hnested : parseConditionWithin (d + 1) (ts ++ rp :: rest) =
          .ok e.treeOf (rp :: rest) :=
        parseOrCondition_of_parses (ih d) deep' (by simp [NotAhead, hrp])
          (by simp [NotAhead, hrp])
      have htokens : lp :: ts ++ [rp] ++ rest = lp :: (ts ++ rp :: rest) := by simp
      rw [htokens, parsePrimaryCondition, bind_ok (matchToken_hit hlp (by decide))]
      simp only [if_true]
      rw [bind_ok hnested, bind_ok (expect_hit hrp (by decide))]
      rfl
  | @conjunctionOne ts e hprimary ih =>
      intro d deep
      have hrounds : e.rounds .and = 0 := by cases hprimary <;> rfl
      refine ⟨e.treeOf, [], by simp [hrounds], fun rest => ⟨ih d deep rest, fun fuel => ?_⟩⟩
      simp [hrounds]
  | @and ts us t left right _ ht _ ihl ihr =>
      intro d deep
      have deepL : left.depth ≤ d := Nat.le_trans (Nat.le_max_left _ _) deep
      have deepR : right.depth ≤ d := Nat.le_trans (Nat.le_max_right _ _) deep
      obtain ⟨cond, mid, hrounds, hrun⟩ := ihl d deepL
      refine ⟨cond, mid ++ t :: us, by simp [Expr.rounds]; omega, fun rest => ?_⟩
      obtain ⟨hfirst, hloop⟩ := hrun (t :: us ++ rest)
      refine ⟨by simpa using hfirst, fun fuel => ?_⟩
      have hfuel : (Expr.join .and left right).rounds .and + fuel = left.rounds .and + (fuel + 1) := by
        simp [Expr.rounds]; omega
      rw [hfuel, List.append_assoc, hloop,
        conditionLoop_round ht (by decide) (ihr d deepR rest)]
      rfl
  | @disjunctionOne ts e hconj ih =>
      intro d deep
      have hrounds : e.rounds .or = 0 := by
        cases hconj with
        | conjunctionOne hprimary => cases hprimary <;> rfl
        | and => rfl
      refine ⟨e.treeOf, [], by simp [hrounds], fun rest stop => ⟨?_, fun fuel => ?_⟩⟩
      · exact parseAndCondition_of_parses (ih d) deep stop
      · simp [hrounds]
  | @or ts us t left right _ ht _ ihl ihr =>
      intro d deep
      have deepL : left.depth ≤ d := Nat.le_trans (Nat.le_max_left _ _) deep
      have deepR : right.depth ≤ d := Nat.le_trans (Nat.le_max_right _ _) deep
      obtain ⟨cond, mid, hrounds, hrun⟩ := ihl d deepL
      refine ⟨cond, mid ++ t :: us, by simp [Expr.rounds]; omega, fun rest stop => ?_⟩
      obtain ⟨hfirst, hloop⟩ := hrun (t :: us ++ rest) (by simp [NotAhead, ht])
      refine ⟨by simpa using hfirst, fun fuel => ?_⟩
      have hfuel : (Expr.join .or left right).rounds .or + fuel = left.rounds .or + (fuel + 1) := by
        simp [Expr.rounds]; omega
      rw [hfuel, List.append_assoc, hloop,
        conditionLoop_round ht (by decide) (parseAndCondition_of_parses (ihr d) deepR stop)]
      rfl

/-- Parentheses are tokens: they cannot nest deeper than the text is long. -/
theorem depth_le_length {level : Level} {ts : List Token} {e : Expr}
    (h : Derives level ts e) : e.depth ≤ ts.length := by
  induction h with
  | atom => simp [Expr.depth]
  | paren _ _ _ ih => simp [Expr.depth]; omega
  | conjunctionOne _ ih => exact ih
  | and _ _ _ ihl ihr => simp [Expr.depth]; omega
  | disjunctionOne _ ih => exact ih
  | or _ _ _ ihl ihr => simp [Expr.depth]; omega

/-- `parseCondition` reads a whole expression and returns its tree. -/
theorem parseCondition_of_derives {ts : List Token} {e : Expr}
    (h : Derives .disjunction ts e) (stopAnd : NotAhead .kwAnd rest)
    (stopOr : NotAhead .kwOr rest) :
    parseCondition (ts ++ rest) = .ok e.treeOf rest := by
  rw [parseCondition, bind_ok get_run]
  refine parseOrCondition_of_parses (parses_of_derives h _) ?_ stopAnd stopOr
  have := depth_le_length h
  simp
  omega

end Parser
end CwDb.Sql
