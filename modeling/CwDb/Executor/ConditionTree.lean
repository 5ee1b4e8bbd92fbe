/-
  Executor/ConditionTree.lean --- `DbmsQueryEngine::evaluate_condition`.

  The evaluator reads nothing of a row but the truth values of its comparisons,
  so the value of a tree is a function of these.
-/
import CwDb.Sql.Syntax

set_option autoImplicit false

namespace CwDb.Executor

open CwDb.Cpp
open CwDb.Sql

/-- `DbmsQueryEngine::evaluate_condition`, with `evaluate_simple_condition` on
the row as a parameter.  Both sides of an operator are always evaluated. -/
def evaluateConditionWith (simple : SimpleCondition → Except Fault Bool) :
    Condition → Except Fault Bool
  | .mk _ op next (some tree) _ => do
      let left ← evaluateConditionWith simple tree
      let right ← match next with
        | some n => evaluateConditionWith simple n
        | none => pure false
      pure (if op = .and then left && right else left || right)
  | .mk cond op next none _ => do
      let current ← simple cond
      match next with
      | none => pure current
      | some n =>
          let rest ← evaluateConditionWith simple n
          pure (match op with
            | .and => current && rest
            | .or => current || rest
            | .none => current)

/-! ## The value of a tree -/

/-- The comparisons that the evaluation of a tree looks at. -/
def treeAtoms : Condition → List SimpleCondition
  | .mk _ _ next (some tree) _ =>
      treeAtoms tree ++ match next with
        | some n => treeAtoms n
        | none => []
  | .mk cond _ next none _ =>
      cond :: match next with
        | some n => treeAtoms n
        | none => []

/-- The truth value of a tree when its comparisons have the values `v`. -/
def treeValue (v : SimpleCondition → Bool) : Condition → Bool
  | .mk _ op next (some tree) _ =>
      let right := match next with
        | some n => treeValue v n
        | none => false
      if op = .and then treeValue v tree && right else treeValue v tree || right
  | .mk cond op next none _ =>
      match next with
      | none => v cond
      | some n =>
          match op with
          | .and => v cond && treeValue v n
          | .or => v cond || treeValue v n
          | .none => v cond

theorem evaluateConditionWith_eq {simple : SimpleCondition → Except Fault Bool}
    {v : SimpleCondition → Bool} :
    ∀ cond : Condition, (∀ a ∈ treeAtoms cond, simple a = .ok (v a)) →
      evaluateConditionWith simple cond = .ok (treeValue v cond)
  | .mk _ op none (some tree) _, h => by
      have ht := evaluateConditionWith_eq tree fun a ha => h a (by simp [treeAtoms, ha])
      simp [evaluateConditionWith, treeValue, ht, bind, Except.bind, pure, Except.pure]
  | .mk _ op (some n) (some tree) _, h => by
      have ht := evaluateConditionWith_eq tree fun a ha => h a (by simp [treeAtoms, ha])
      have hn := evaluateConditionWith_eq n fun a ha => h a (by simp [treeAtoms, ha])
      simp [evaluateConditionWith, treeValue, ht, hn, bind, Except.bind, pure, Except.pure]
  | .mk cond op none none _, h => by
      have hc := h cond (by simp [treeAtoms])
      simp [evaluateConditionWith, treeValue, hc, bind, Except.bind, pure, Except.pure]
  | .mk cond op (some n) none _, h => by
      have hc := h cond (by simp [treeAtoms])
      have hn := evaluateConditionWith_eq n fun a ha => h a (by simp [treeAtoms, ha])
      simp [evaluateConditionWith, treeValue, hc, hn, bind, Except.bind, pure, Except.pure]

end CwDb.Executor
