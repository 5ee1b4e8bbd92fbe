/-
  Executor/WhereGrouping.lean --- when a WHERE clause means what it says.

  `combineConditions` appends to a `next` chain without looking at the operators
  already on it.  The right end of the chain may belong to an operand in
  parentheses, or to an AND under an OR; `GroupsAsWritten` is the syntactic
  condition under which no append lands there.
-/
import CwDb.Executor.ConditionTree
import CwDb.Sql.WhereGrammar

set_option autoImplicit false

namespace CwDb.Executor

open CwDb.Cpp
open CwDb.Sql

/-! ## Trees the parser builds -/

/-- A node that stands for a subtree, or that carries an operator, has a right
operand. -/
def Whole : Condition → Prop
  | .mk _ _ none tree _ => tree = none
  | .mk _ op (some n) none _ => op ≠ .none ∧ Whole n
  | .mk _ op (some n) (some tree) _ => op ≠ .none ∧ Whole n ∧ Whole tree

/-- The operators along the `next` chain of a condition. -/
def edgeOps : Condition → List LogicalOp
  | .mk _ _ none _ _ => []
  | .mk _ op (some n) _ _ => op :: edgeOps n

/-- The value that makes an operator transparent. -/
def unit : Connective → Bool
  | .and => true
  | .or => false

@[simp] theorem apply_unit_left (c : Connective) (b : Bool) : c.apply (unit c) b = b := by
  cases c <;> simp [Connective.apply, unit]

@[simp] theorem apply_unit_right (c : Connective) (b : Bool) : c.apply b (unit c) = b := by
  cases c <;> simp [Connective.apply, unit]

theorem apply_assoc (c : Connective) (x y z : Bool) :
    c.apply x (c.apply y z) = c.apply (c.apply x y) z := by
  cases c <;> simp [Connective.apply, Bool.and_assoc, Bool.or_assoc]

/-- An operator of a whole node is one of the two connectives. -/
theorem exists_connective {op : LogicalOp} (h : op ≠ .none) : ∃ c : Connective, op = c.op := by
  cases op with
  | none => exact absurd rfl h
  | and => exact ⟨.and, rfl⟩
  | or => exact ⟨.or, rfl⟩

section Trees

variable {v : SimpleCondition → Bool}

theorem treeValue_inline (cond : SimpleCondition) (c : Connective) (n : Condition)
    (paren : Bool) :
    treeValue v (.mk cond c.op (some n) none paren) = c.apply (v cond) (treeValue v n) := by
  cases c <;> simp [treeValue, Connective.op, Connective.apply]

theorem treeValue_tree (cond : SimpleCondition) (c : Connective) (n tree : Condition)
    (paren : Bool) :
    treeValue v (.mk cond c.op (some n) (some tree) paren) =
      c.apply (treeValue v tree) (treeValue v n) := by
  cases c <;> simp [treeValue, Connective.op, Connective.apply]

/-- A tree whose comparisons all have the value `b` has the value `b`: there is
no negation. -/
theorem treeValue_const {b : Bool} : ∀ {cond : Condition}, Whole cond →
    (∀ a ∈ treeAtoms cond, v a = b) → treeValue v cond = b
  | .mk cond op none none _, _, h => by simpa [treeValue] using h cond (by simp [treeAtoms])
  | .mk _ _ none (some _) _, hw, _ => by simp [Whole] at hw
  | .mk cond op (some n) none _, hw, h => by
      obtain ⟨c, rfl⟩ := exists_connective hw.1
      have hn := treeValue_const (b := b) hw.2 fun a ha => h a (by simp [treeAtoms, ha])
      rw [treeValue_inline, hn, h cond (by simp [treeAtoms])]
      cases c <;> simp [Connective.apply]
  | .mk cond op (some n) (some tree) _, hw, h => by
      obtain ⟨c, rfl⟩ := exists_connective hw.1
      have hn := treeValue_const (b := b) hw.2.1 fun a ha => h a (by simp [treeAtoms, ha])
      have ht := treeValue_const (b := b) hw.2.2 fun a ha => h a (by simp [treeAtoms, ha])
      rw [treeValue_tree, hn, ht]
      cases c <;> simp [Connective.apply]

/-! ## `appendLast` -/

variable {c : Connective} {right : Condition}

theorem edgeOps_appendLast (op : LogicalOp) : ∀ cond : Condition,
    edgeOps (Parser.appendLast op right cond) = edgeOps cond ++ op :: edgeOps right
  | .mk _ _ none _ _ => by simp [Parser.appendLast, edgeOps]
  | .mk _ _ (some n) _ _ => by simp [Parser.appendLast, edgeOps, edgeOps_appendLast op n]

theorem treeAtoms_appendLast (op : LogicalOp) : ∀ cond : Condition,
    treeAtoms (Parser.appendLast op right cond) = treeAtoms cond ++ treeAtoms right
  | .mk _ _ none none _ => by simp [Parser.appendLast, treeAtoms]
  | .mk _ _ none (some _) _ => by simp [Parser.appendLast, treeAtoms]
  | .mk _ _ (some n) none _ => by
      simp [Parser.appendLast, treeAtoms, treeAtoms_appendLast op n]
  | .mk _ _ (some n) (some _) _ => by
      simp [Parser.appendLast, treeAtoms, treeAtoms_appendLast op n]

theorem whole_appendLast (hr : Whole right) : ∀ {cond : Condition}, Whole cond →
    Whole (Parser.appendLast c.op right cond)
  | .mk _ _ none none _, _ => by cases c <;> simp [Parser.appendLast, Whole, Connective.op, hr]
  | .mk _ _ none (some _) _, hw => by simp [Whole] at hw
  | .mk _ _ (some n) none _, hw => ⟨hw.1, whole_appendLast hr hw.2⟩
  | .mk _ _ (some n) (some _) _, hw => ⟨hw.1, whole_appendLast hr hw.2.1, hw.2.2⟩

/-- Appending is joining as long as the chain carries no other operator. -/
theorem treeValue_appendLast : ∀ {cond : Condition}, Whole cond →
    (∀ op ∈ edgeOps cond, op = c.op) →
    treeValue v (Parser.appendLast c.op right cond) =
      c.apply (treeValue v cond) (treeValue v right)
  | .mk cond _ none none _, _, _ => by
      rw [Parser.appendLast, treeValue_inline]
      rfl
  | .mk _ _ none (some _) _, hw, _ => by simp [Whole] at hw
  | .mk cond op (some n) none _, hw, h => by
      obtain rfl : op = c.op := h op (by simp [edgeOps])
      have ih := treeValue_appendLast hw.2 fun o ho => h o (by simp [edgeOps, ho])
      rw [Parser.appendLast, treeValue_inline, treeValue_inline, ih, apply_assoc]
  | .mk cond op (some n) (some tree) _, hw, h => by
      obtain rfl : op = c.op := h op (by simp [edgeOps])
      have ih := treeValue_appendLast hw.2.1 fun o ho => h o (by simp [edgeOps, ho])
      rw [Parser.appendLast, treeValue_tree, treeValue_tree, ih, apply_assoc]

/-- An appended operand that the operator ignores changes nothing. -/
theorem treeValue_appendLast_ignored (hr : treeValue v right = unit c) :
    ∀ {cond : Condition}, Whole cond →
      treeValue v (Parser.appendLast c.op right cond) = treeValue v cond
  | .mk cond _ none none _, _ => by
      rw [Parser.appendLast, treeValue_inline, hr, apply_unit_right]
      rfl
  | .mk _ _ none (some _) _, hw => by simp [Whole] at hw
  | .mk cond op (some n) none _, hw => by
      obtain ⟨d, rfl⟩ := exists_connective hw.1
      rw [Parser.appendLast, treeValue_inline, treeValue_inline,
        treeValue_appendLast_ignored hr hw.2]
  | .mk cond op (some n) (some tree) _, hw => by
      obtain ⟨d, rfl⟩ := exists_connective hw.1
      rw [Parser.appendLast, treeValue_tree, treeValue_tree,
        treeValue_appendLast_ignored hr hw.2.1]

/-- With another operator on the chain, the appended operand is lost when all
comparisons before it are transparent to the appended operator. -/
theorem treeValue_appendLast_unit : ∀ {cond : Condition}, Whole cond →
    (∀ a ∈ treeAtoms cond, v a = unit c) → (∃ op ∈ edgeOps cond, op ≠ c.op) →
    treeValue v (Parser.appendLast c.op right cond) = unit c
  | .mk _ _ none _ _, _, _, hop => by simp [edgeOps] at hop
  | .mk cond op (some n) none _, hw, h, hop => by
      obtain ⟨d, rfl⟩ := exists_connective hw.1
      rw [Parser.appendLast, treeValue_inline, h cond (by simp [treeAtoms])]
      by_cases hd : c = d
      · subst hd
        have hop' : ∃ op ∈ edgeOps n, op ≠ c.op := by simpa [edgeOps] using hop
        rw [treeValue_appendLast_unit hw.2 (fun a ha => h a (by simp [treeAtoms, ha])) hop',
          apply_unit_left]
      · cases c <;> cases d <;> simp_all [unit, Connective.apply]
  | .mk cond op (some n) (some tree) _, hw, h, hop => by
      obtain ⟨d, rfl⟩ := exists_connective hw.1
      have ht : treeValue v tree = unit c :=
        treeValue_const hw.2.2 fun a ha => h a (by simp [treeAtoms, ha])
      rw [Parser.appendLast, treeValue_tree, ht]
      by_cases hd : c = d
      · subst hd
        have hop' : ∃ op ∈ edgeOps n, op ≠ c.op := by simpa [edgeOps] using hop
        rw [treeValue_appendLast_unit hw.2.1 (fun a ha => h a (by simp [treeAtoms, ha])) hop',
          apply_unit_left]
      · cases c <;> cases d <;> simp_all [unit, Connective.apply]

end Trees

/-! ## Expressions and their trees -/

/-- A chain of one connective that begins with a bare comparison, and has at
least two operands: what `combineConditions` appends to. -/
def isChain (c : Connective) : Expr → Bool
  | .join d left _ =>
      d == c && match left with
        | .atom _ => true
        | _ => isChain c left
  | _ => false

/-- The operators on the right edge of an expression's tree, parenthesised
operands included. -/
def rightEdge : Expr → List Connective
  | .atom _ => []
  | .paren inner => rightEdge inner
  | .join c left right =>
      (if isChain c left then rightEdge left else []) ++ c :: rightEdge right

/-- Wherever an operand is appended to a chain that begins with a bare
comparison, the right edge of the chain carries the chain's own operator only. -/
def GroupsAsWritten : Expr → Prop
  | .atom _ => True
  | .paren inner => GroupsAsWritten inner
  | .join c left right =>
      GroupsAsWritten left ∧ GroupsAsWritten right ∧
        (isChain c left = true → ∀ d ∈ rightEdge left, d = c)

instance decidableGroupsAsWritten : ∀ e : Expr, Decidable (GroupsAsWritten e)
  | .atom _ => isTrue trivial
  | .paren inner => decidableGroupsAsWritten inner
  | .join _ left right =>
      let _ := decidableGroupsAsWritten left
      let _ := decidableGroupsAsWritten right
      inferInstanceAs (Decidable (_ ∧ _ ∧ _))

/-- A condition that `combineConditions` appends operands of `c` to. -/
def Appends (c : Connective) (cond : Condition) : Prop :=
  cond.isParenthesized = false ∧ cond.leftTree = none ∧ cond.next ≠ none ∧
    cond.logicalOp = c.op

theorem combineConditions_atom (simple : SimpleCondition) (right : Condition) (op : LogicalOp) :
    Parser.combineConditions (.ofSimple simple) right op =
      .mk simple op (some right) none false := by
  simp [Parser.combineConditions, Condition.ofSimple, Condition.next, Condition.leftTree,
    Condition.isParenthesized, Condition.simple]

theorem combineConditions_chain {c : Connective} {left right : Condition}
    (h : Appends c left) :
    Parser.combineConditions left right c.op = Parser.appendLast c.op right left := by
  obtain ⟨hp, ht, hn, ho⟩ := h
  cases hnext : left.next with
  | none => exact absurd hnext hn
  | some n => simp [Parser.combineConditions, hp, ht, hnext, ho]

theorem combineConditions_tree {c : Connective} {left right : Condition}
    (hbare : left.next ≠ none ∨ left.leftTree ≠ none ∨ left.isParenthesized = true)
    (h : ¬ Appends c left) :
    Parser.combineConditions left right c.op = .mk {} c.op (some right) (some left) false := by
  unfold Appends at h
  cases hn : left.next <;> cases ht : left.leftTree <;> cases hp : left.isParenthesized <;>
    simp_all [Parser.combineConditions]

/-- The tree of an expression that is not a bare comparison is not one either. -/
theorem treeOf_not_bare {e : Expr} (h : ∀ s, e ≠ .atom s) :
    e.treeOf.next ≠ none ∨ e.treeOf.leftTree ≠ none ∨ e.treeOf.isParenthesized = true := by
  cases e with
  | atom s => exact absurd rfl (h s)
  | paren inner => simp [Expr.treeOf, Condition.isParenthesized]
  | join c left right =>
      left
      by_cases hbare : left.treeOf.next ≠ none ∨ left.treeOf.leftTree ≠ none ∨
          left.treeOf.isParenthesized = true
      · by_cases happ : Appends c left.treeOf
        · simp only [Expr.treeOf, combineConditions_chain happ]
          cases left.treeOf with
          | mk s op next tree p => cases next <;> simp [Parser.appendLast, Condition.next]
        · simp [Expr.treeOf, combineConditions_tree hbare happ, Condition.next]
      · simp only [ne_eq, not_or, not_not, Bool.not_eq_true] at hbare
        have hjoin : Parser.combineConditions left.treeOf right.treeOf c.op =
            .mk left.treeOf.simple c.op (some right.treeOf) none false := by
          simp [Parser.combineConditions, hbare]
        simp [Expr.treeOf, hjoin, Condition.next]

theorem appends_treeOf : ∀ (e : Expr) (c : Connective),
    Appends c e.treeOf ↔ isChain c e = true
  | .atom s, c => by simp [Appends, Expr.treeOf, Condition.ofSimple, Condition.next, isChain]
  | .paren inner, c => by simp [Appends, Expr.treeOf, Condition.isParenthesized, isChain]
  | .join d left right, c => by
      cases hl : left with
      | atom s =>
          cases c <;> cases d <;>
            simp [Appends, Expr.treeOf, combineConditions_atom, Condition.isParenthesized,
              Condition.leftTree, Condition.next, Condition.logicalOp, isChain, Connective.op]
      | _ =>
          rw [← hl]
          have hbare := treeOf_not_bare (e := left) (by simp [hl])
          have ih := appends_treeOf left
          have hchain : isChain c (.join d left right) = (d == c && isChain c left) := by
            simp [isChain, hl]
          rw [hchain]
          by_cases happ : Appends d left.treeOf
          · have hd : isChain d left = true := (ih d).mp happ
            have hshape : Appends d (Parser.appendLast d.op right.treeOf left.treeOf) := by
              obtain ⟨hp, ht, hn, ho⟩ := happ
              revert hp ht hn ho
              cases left.treeOf with
              | mk s op next tree p =>
                  cases next <;> simp [Parser.appendLast, Appends, Condition.isParenthesized,
                    Condition.leftTree, Condition.next, Condition.logicalOp]
                  tauto
            simp only [Expr.treeOf, combineConditions_chain happ]
            constructor
            · intro h
              have hop : d.op = c.op := hshape.2.2.2.symm.trans h.2.2.2
              have hdc : d = c := by cases c <;> cases d <;> simp_all [Connective.op]
              simp [← hdc, hd]
            · intro h
              simp only [Bool.and_eq_true, beq_iff_eq] at h
              exact h.1 ▸ hshape
          · simp only [Expr.treeOf, combineConditions_tree hbare happ]
            constructor
            · intro h
              simp [Appends, Condition.leftTree] at h
            · intro h
              simp only [Bool.and_eq_true, beq_iff_eq] at h
              exact absurd ((ih d).mpr (h.1 ▸ h.2)) happ

/-- The three ways two operands are joined. -/
theorem treeOf_join (c : Connective) (left right : Expr) :
    (∃ s, left = .atom s ∧
      (Expr.join c left right).treeOf = .mk s c.op (some right.treeOf) none false) ∨
    (isChain c left = true ∧
      (Expr.join c left right).treeOf =
        Parser.appendLast c.op right.treeOf left.treeOf) ∨
    (isChain c left = false ∧
      (Expr.join c left right).treeOf =
        .mk {} c.op (some right.treeOf) (some left.treeOf) false) := by
  by_cases hatom : ∃ s, left = .atom s
  · obtain ⟨s, rfl⟩ := hatom
    exact .inl ⟨s, rfl, combineConditions_atom s _ _⟩
  · have hbare := treeOf_not_bare (e := left) fun s hs => hatom ⟨s, hs⟩
    by_cases happ : Appends c left.treeOf
    · exact .inr (.inl ⟨(appends_treeOf left c).mp happ, combineConditions_chain happ⟩)
    · refine .inr (.inr ⟨?_, combineConditions_tree hbare happ⟩)
      simpa using fun h => happ ((appends_treeOf left c).mpr h)

theorem whole_treeOf : ∀ e : Expr, Whole e.treeOf
  | .atom _ => rfl
  | .paren inner => by
      have ih := whole_treeOf inner
      revert ih
      simp only [Expr.treeOf]
      cases inner.treeOf with
      | mk s op next tree p => cases next <;> cases tree <;> exact id
  | .join c left right => by
      have hl := whole_treeOf left
      have hr := whole_treeOf right
      have hop : c.op ≠ .none := by cases c <;> simp [Connective.op]
      rcases treeOf_join c left right with ⟨s, -, h⟩ | ⟨-, h⟩ | ⟨-, h⟩ <;> rw [h]
      · exact ⟨hop, hr⟩
      · exact whole_appendLast hr hl
      · exact ⟨hop, hr, hl⟩

theorem treeAtoms_treeOf : ∀ e : Expr, treeAtoms e.treeOf = e.atoms
  | .atom _ => rfl
  | .paren inner => by
      rw [Expr.atoms, ← treeAtoms_treeOf inner, Expr.treeOf]
      cases inner.treeOf with
      | mk s op next tree p => cases next <;> cases tree <;> rfl
  | .join c left right => by
      have hl := treeAtoms_treeOf left
      have hr := treeAtoms_treeOf right
      rcases treeOf_join c left right with ⟨s, rfl, h⟩ | ⟨-, h⟩ | ⟨-, h⟩ <;> rw [h]
      · simp [treeAtoms, hr, Expr.atoms]
      · rw [treeAtoms_appendLast, hl, hr, Expr.atoms]
      · simp [treeAtoms, hl, hr, Expr.atoms]

theorem edgeOps_treeOf : ∀ e : Expr, edgeOps e.treeOf = (rightEdge e).map Connective.op
  | .atom _ => rfl
  | .paren inner => by
      rw [rightEdge, ← edgeOps_treeOf inner, Expr.treeOf]
      cases inner.treeOf with
      | mk s op next tree p => cases next <;> rfl
  | .join c left right => by
      have hl := edgeOps_treeOf left
      have hr := edgeOps_treeOf right
      rcases treeOf_join c left right with ⟨s, rfl, h⟩ | ⟨hc, h⟩ | ⟨hc, h⟩ <;> rw [h]
      · simp [edgeOps, hr, rightEdge, isChain]
      · simp [edgeOps_appendLast, hl, hr, rightEdge, hc]
      · simp [edgeOps, hr, rightEdge, hc]

theorem treeValue_paren (v : SimpleCondition → Bool) (inner : Expr) :
    treeValue v (Expr.paren inner).treeOf = treeValue v inner.treeOf := by
  rw [Expr.treeOf]
  cases inner.treeOf with
  | mk s op next tree p => cases next <;> cases tree <;> rfl

/-! ## The condition is enough -/

theorem treeValue_treeOf (v : SimpleCondition → Bool) :
    ∀ e : Expr, GroupsAsWritten e → treeValue v e.treeOf = e.eval v
  | .atom _, _ => rfl
  | .paren inner, h => by
      rw [treeValue_paren, treeValue_treeOf v inner h, Expr.eval]
  | .join c left right, ⟨hl, hr, hedge⟩ => by
      have ihl := treeValue_treeOf v left hl
      have ihr := treeValue_treeOf v right hr
      rcases treeOf_join c left right with ⟨s, rfl, h⟩ | ⟨hc, h⟩ | ⟨-, h⟩ <;> rw [h]
      · rw [treeValue_inline, ihr]
        rfl
      · have hops : ∀ op ∈ edgeOps left.treeOf, op = c.op := by
          rw [edgeOps_treeOf]
          intro op hop
          obtain ⟨d, hd, rfl⟩ := List.mem_map.mp hop
          rw [hedge hc d hd]
        rw [treeValue_appendLast (whole_treeOf left) hops, ihl, ihr]
        rfl
      · rw [treeValue_tree, ihl, ihr]
        rfl

/-! ## The condition is needed -/

theorem eval_congr {v w : SimpleCondition → Bool} : ∀ {e : Expr},
    (∀ a ∈ e.atoms, v a = w a) → e.eval v = e.eval w
  | .atom s, h => h s (by simp [Expr.atoms])
  | .paren inner, h => eval_congr (e := inner) h
  | .join c left right, h => by
      rw [Expr.eval, Expr.eval,
        eval_congr (e := left) fun a ha => h a (List.mem_append_left _ ha),
        eval_congr (e := right) fun a ha => h a (List.mem_append_right _ ha)]

theorem treeValue_congr {v w : SimpleCondition → Bool} {cond : Condition}
    (h : ∀ a ∈ treeAtoms cond, v a = w a) : treeValue v cond = treeValue w cond := by
  have hv : evaluateConditionWith (fun a => .ok (v a)) cond = .ok (treeValue v cond) :=
    evaluateConditionWith_eq cond fun _ _ => rfl
  have hw : evaluateConditionWith (fun a => .ok (v a)) cond = .ok (treeValue w cond) :=
    evaluateConditionWith_eq cond fun a ha => congrArg _ (h a ha)
  exact Except.ok.inj (hv.symm.trans hw)

theorem eval_const {v : SimpleCondition → Bool} {b : Bool} : ∀ {e : Expr},
    (∀ a ∈ e.atoms, v a = b) → e.eval v = b
  | .atom s, h => h s (by simp [Expr.atoms])
  | .paren inner, h => eval_const (e := inner) h
  | .join c left right, h => by
      rw [Expr.eval, eval_const (e := left) fun a ha => h a (List.mem_append_left _ ha),
        eval_const (e := right) fun a ha => h a (List.mem_append_right _ ha)]
      cases c <;> simp [Connective.apply]

/-- `v` on the comparisons of `e`, `b` everywhere else. -/
def on (e : Expr) (v : SimpleCondition → Bool) (b : Bool) (a : SimpleCondition) : Bool :=
  if a ∈ e.atoms then v a else b

section On

variable {e other : Expr} {v : SimpleCondition → Bool} {b : Bool}

theorem eval_on_self : e.eval (on e v b) = e.eval v :=
  eval_congr fun a ha => by simp [on, ha]

theorem treeValue_on_self : treeValue (on e v b) e.treeOf = treeValue v e.treeOf :=
  treeValue_congr fun a ha => by
    rw [treeAtoms_treeOf] at ha
    simp [on, ha]

theorem on_of_disjoint (h : e.atoms.Disjoint other.atoms) :
    ∀ a ∈ other.atoms, on e v b a = b := by
  intro a ha
  have hne : a ∉ e.atoms := fun he => h he ha
  simp [on, hne]

theorem eval_on_other (h : e.atoms.Disjoint other.atoms) : other.eval (on e v b) = b :=
  eval_const (on_of_disjoint h)

theorem treeValue_on_other (h : e.atoms.Disjoint other.atoms) :
    treeValue (on e v b) other.treeOf = b :=
  treeValue_const (whole_treeOf other) (by
    rw [treeAtoms_treeOf]
    exact on_of_disjoint h)

end On

/-- With pairwise distinct comparisons, a misplaced append shows for some truth
values.  A wrong operand is made visible by giving the other operand the value
that the connective ignores; a misplaced append by giving it to everything
before the appended operand, and the opposite value to that. -/
theorem exists_misread : ∀ e : Expr, e.atoms.Nodup → ¬ GroupsAsWritten e →
    ∃ v, treeValue v e.treeOf ≠ e.eval v
  | .atom _, _, h => absurd trivial h
  | .paren inner, hnd, h => by
      obtain ⟨v, hv⟩ := exists_misread inner hnd h
      exact ⟨v, by rwa [treeValue_paren, Expr.eval]⟩
  | .join c left right, hnd, h => by
      obtain ⟨hndl, hndr, hne⟩ := List.nodup_append.mp hnd
      have hdisj : left.atoms.Disjoint right.atoms := fun a ha hb => hne a ha a hb rfl
      have hdisj' : right.atoms.Disjoint left.atoms := fun a hb ha => hne a ha a hb rfl
      by_cases hl : GroupsAsWritten left
      · by_cases hedge : isChain c left = true → ∀ d ∈ rightEdge left, d = c
        · have hr : ¬ GroupsAsWritten right := fun hr => h ⟨hl, hr, hedge⟩
          obtain ⟨v, hv⟩ := exists_misread right hndr hr
          refine ⟨on right v (unit c), ?_⟩
          have hvalL := treeValue_on_other (v := v) (b := unit c) hdisj'
          have hevalL := eval_on_other (v := v) (b := unit c) hdisj'
          have hread : treeValue (on right v (unit c)) (Expr.join c left right).treeOf =
              treeValue v right.treeOf := by
            rcases treeOf_join c left right with ⟨s, rfl, ht⟩ | ⟨hc, ht⟩ | ⟨-, ht⟩ <;> rw [ht]
            · have hs : on right v (unit c) s = unit c :=
                on_of_disjoint hdisj' s (by simp [Expr.atoms])
              rw [treeValue_inline, hs, treeValue_on_self, apply_unit_left]
            · have hops : ∀ op ∈ edgeOps left.treeOf, op = c.op := by
                rw [edgeOps_treeOf]
                intro op hop
                obtain ⟨d, hd, rfl⟩ := List.mem_map.mp hop
                rw [hedge hc d hd]
              rw [treeValue_appendLast (whole_treeOf left) hops, hvalL, treeValue_on_self,
                apply_unit_left]
            · rw [treeValue_tree, hvalL, treeValue_on_self, apply_unit_left]
          rw [hread, Expr.eval, hevalL, eval_on_self, apply_unit_left]
          exact hv
        · push Not at hedge
          obtain ⟨hc, d, hd, hne⟩ := hedge
          refine ⟨on right (fun _ => !unit c) (unit c), ?_⟩
          have hevalL := eval_on_other (v := fun _ => !unit c) (b := unit c) hdisj'
          have hevalR : right.eval (on right (fun _ => !unit c) (unit c)) = !unit c := by
            rw [eval_on_self]
            exact eval_const fun _ _ => rfl
          have hread : treeValue (on right (fun _ => !unit c) (unit c))
              (Expr.join c left right).treeOf = unit c := by
            rcases treeOf_join c left right with ⟨s, rfl, -⟩ | ⟨-, ht⟩ | ⟨hc', -⟩
            · simp [isChain] at hc
            · rw [ht]
              refine treeValue_appendLast_unit (whole_treeOf left) ?_ ?_
              · rw [treeAtoms_treeOf]
                exact on_of_disjoint hdisj'
              · refine ⟨d.op, ?_, ?_⟩
                · rw [edgeOps_treeOf]
                  exact List.mem_map_of_mem hd
                · cases c <;> cases d <;> simp_all [Connective.op]
            · simp [hc] at hc'
          rw [hread, Expr.eval, hevalL, hevalR, apply_unit_left]
          cases c <;> simp [unit]
      · obtain ⟨v, hv⟩ := exists_misread left hndl hl
        refine ⟨on left v (unit c), ?_⟩
        have hvalR := treeValue_on_other (v := v) (b := unit c) hdisj
        have hevalR := eval_on_other (v := v) (b := unit c) hdisj
        have hread : treeValue (on left v (unit c)) (Expr.join c left right).treeOf =
            treeValue v left.treeOf := by
          rcases treeOf_join c left right with ⟨s, rfl, ht⟩ | ⟨-, ht⟩ | ⟨-, ht⟩ <;> rw [ht]
          · exact absurd trivial hl
          · rw [treeValue_appendLast_ignored hvalR (whole_treeOf left), treeValue_on_self]
          · rw [treeValue_tree, treeValue_on_self, hvalR, apply_unit_right]
        rw [hread, Expr.eval, eval_on_self, hevalR, apply_unit_right]
        exact hv

/-! ## WHERE clauses -/

/-- The parser accepts every expression.  Its tree has the expression's value on
every row whenever `GroupsAsWritten` holds, and for an expression of pairwise
distinct comparisons only then. -/
theorem where_value_iff_groupsAsWritten {ts rest : List Token} {e : Expr}
    (derives : Derives .disjunction ts e)
    (stopAnd : NotAhead .kwAnd rest) (stopOr : NotAhead .kwOr rest) :
    ∃ cond, Parser.parseCondition (ts ++ rest) = .ok cond rest ∧
      (GroupsAsWritten e → ∀ (simple : SimpleCondition → Except Fault Bool)
        (v : SimpleCondition → Bool), (∀ a ∈ e.atoms, simple a = .ok (v a)) →
        evaluateConditionWith simple cond = .ok (e.eval v)) ∧
      (e.atoms.Nodup →
        ((∀ v : SimpleCondition → Bool,
          evaluateConditionWith (fun a => .ok (v a)) cond = .ok (e.eval v)) ↔
          GroupsAsWritten e)) := by
  have hsound : GroupsAsWritten e → ∀ (simple : SimpleCondition → Except Fault Bool)
      (v : SimpleCondition → Bool), (∀ a ∈ e.atoms, simple a = .ok (v a)) →
      evaluateConditionWith simple e.treeOf = .ok (e.eval v) := by
    intro hgroups simple v hv
    rw [evaluateConditionWith_eq (v := v) e.treeOf (by rwa [treeAtoms_treeOf]),
      treeValue_treeOf v e hgroups]
  refine ⟨e.treeOf, Parser.parseCondition_of_derives derives stopAnd stopOr, hsound, ?_⟩
  intro hnd
  constructor
  · intro hall
    by_contra hnot
    obtain ⟨v, hv⟩ := exists_misread e hnd hnot
    have htree : evaluateConditionWith (fun a => .ok (v a)) e.treeOf =
        .ok (treeValue v e.treeOf) := evaluateConditionWith_eq e.treeOf fun _ _ => rfl
    exact hv (Except.ok.inj (htree.symm.trans (hall v)))
  · intro hgroups v
    exact hsound hgroups _ v fun _ _ => rfl

section Instances

/-- The comparison `column == literal`. -/
private def equals (column literal : String) : SimpleCondition :=
  { left := text column, leftIsColumn := true, right := text literal }

private def comparisonTokens (column literal : String) : List Token :=
  [⟨.identifier, text column, 1⟩, ⟨.opEq, text "==", 1⟩, ⟨.intLiteral, text literal, 1⟩]

private theorem derives_equals (column literal : String) :
    Derives .primary (comparisonTokens column literal) (.atom (equals column literal)) :=
  .atom (.compare (.column rfl) rfl (by decide) (.literal (.inl rfl)))

/-- `a == 1 AND b == 2 OR c == 3` followed by `;`. -/
theorem where_value_and_or :
    ∃ cond, Parser.parseCondition
        (((comparisonTokens "a" "1" ++ ⟨.kwAnd, text "AND", 1⟩ :: comparisonTokens "b" "2") ++
          ⟨.kwOr, text "OR", 1⟩ :: comparisonTokens "c" "3") ++
          [⟨.semicolon, text ";", 1⟩, ⟨.end_, [], 1⟩]) =
        .ok cond [⟨.semicolon, text ";", 1⟩, ⟨.end_, [], 1⟩] ∧
      ∀ v : SimpleCondition → Bool, evaluateConditionWith (fun a => .ok (v a)) cond =
        .ok ((v (equals "a" "1") && v (equals "b" "2")) || v (equals "c" "3")) := by
  have hand : Derives .conjunction
      (comparisonTokens "a" "1" ++ ⟨.kwAnd, text "AND", 1⟩ :: comparisonTokens "b" "2")
      (.join .and (.atom (equals "a" "1")) (.atom (equals "b" "2"))) :=
    .and (.conjunctionOne (derives_equals "a" "1")) rfl (derives_equals "b" "2")
  have stopAnd : NotAhead .kwAnd [⟨.semicolon, text ";", 1⟩, ⟨.end_, [], 1⟩] := by
    simp [NotAhead]
  have stopOr : NotAhead .kwOr [⟨.semicolon, text ";", 1⟩, ⟨.end_, [], 1⟩] := by
    simp [NotAhead]
  obtain ⟨cond, hparse, hvalue, -⟩ := where_value_iff_groupsAsWritten
    (.or (t := ⟨.kwOr, text "OR", 1⟩) (.disjunctionOne hand) rfl
      (.conjunctionOne (derives_equals "c" "3"))) stopAnd stopOr
  exact ⟨cond, hparse, fun v => hvalue (by decide) _ v fun _ _ => rfl⟩

/-- `a == 1 AND (b == 2 OR c == 3) AND d == 4` is read as
`a == 1 AND (b == 2 OR (c == 3 AND d == 4))`: it holds of a row with `a == 1` and
`b == 2`, whatever `d` is. -/
theorem where_misread_after_parenthesis :
    ∃ (ts rest : List Token) (e : Expr) (cond : Condition) (v : SimpleCondition → Bool),
      Derives .disjunction ts e ∧ NotAhead .kwAnd rest ∧ NotAhead .kwOr rest ∧
      Parser.parseCondition (ts ++ rest) = .ok cond rest ∧
      e.eval v = false ∧ evaluateConditionWith (fun a => .ok (v a)) cond = .ok true := by
  have hinner : Derives .disjunction
      (comparisonTokens "b" "2" ++ ⟨.kwOr, text "OR", 1⟩ :: comparisonTokens "c" "3")
      (.join .or (.atom (equals "b" "2")) (.atom (equals "c" "3"))) :=
    .or (.disjunctionOne (.conjunctionOne (derives_equals "b" "2"))) rfl
      (.conjunctionOne (derives_equals "c" "3"))
  have hparen : Derives .primary
      (⟨.lparen, text "(", 1⟩ :: (comparisonTokens "b" "2" ++
        ⟨.kwOr, text "OR", 1⟩ :: comparisonTokens "c" "3") ++ [⟨.rparen, text ")", 1⟩])
      (.paren (.join .or (.atom (equals "b" "2")) (.atom (equals "c" "3")))) :=
    .paren rfl hinner rfl
  have hall := Derives.disjunctionOne
    (.and (t := ⟨.kwAnd, text "AND", 1⟩)
      (.and (t := ⟨.kwAnd, text "AND", 1⟩) (.conjunctionOne (derives_equals "a" "1")) rfl
        hparen)
      rfl (derives_equals "d" "4"))
  have stopAnd : NotAhead .kwAnd [⟨.semicolon, text ";", 1⟩, ⟨.end_, [], 1⟩] := by
    simp [NotAhead]
  have stopOr : NotAhead .kwOr [⟨.semicolon, text ";", 1⟩, ⟨.end_, [], 1⟩] := by
    simp [NotAhead]
  refine ⟨_, _, _, _, fun a => a == equals "a" "1" || a == equals "b" "2", hall, stopAnd,
    stopOr, Parser.parseCondition_of_derives hall stopAnd stopOr, by decide, by decide⟩

end Instances

end CwDb.Executor
