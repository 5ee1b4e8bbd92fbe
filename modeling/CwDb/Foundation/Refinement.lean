/-
  Foundation/Refinement.lean --- one computation that may stop with an exception against
  another.

  `Refines E R x y` says that `x` and `y` end alike: both with values that `R` relates, or
  both with exceptions that `E` relates.  There is one rule for each way to compose
  computations.
-/
import Mathlib.Data.List.Basic

set_option autoImplicit false

namespace CwDb.Foundation

variable {ε δ α β γ κ ι : Type} {E : ε → δ → Prop} {R : α → β → Prop} {S : γ → κ → Prop}

/-- `x` ends as `y` does. -/
inductive Refines (E : ε → δ → Prop) (R : α → β → Prop) : Except ε α → Except δ β → Prop where
  | ok {a : α} {b : β} (related : R a b) : Refines E R (.ok a) (.ok b)
  | error {e : ε} {d : δ} (related : E e d) : Refines E R (.error e) (.error d)

theorem refines_pure {a : α} {b : β} (h : R a b) : Refines E R (pure a) (pure b) := .ok h

theorem refines_bind {x : Except ε α} {y : Except δ β} {f : α → Except ε γ} {g : β → Except δ κ}
    (hx : Refines E R x y) (hf : ∀ a b, R a b → Refines E S (f a) (g b)) :
    Refines E S (x >>= f) (y >>= g) := by
  cases hx with
  | ok h => exact hf _ _ h
  | error h => exact .error h

theorem refines_ite {c d : Prop} [Decidable c] [Decidable d] {x x' : Except ε α}
    {y y' : Except δ β} (same : c ↔ d) (hx : d → Refines E R x y)
    (hx' : ¬ d → Refines E R x' y') :
    Refines E R (if c then x else x') (if d then y else y') := by
  by_cases hd : d
  · rw [if_pos hd, if_pos (same.mpr hd)]
    exact hx hd
  · rw [if_neg hd, if_neg fun hc => hd (same.mp hc)]
    exact hx' hd

/-- A loop over one list, with an invariant between the two accumulators. -/
theorem refines_foldlM {f : α → ι → Except ε α} {g : β → ι → Except δ β} {l : List ι}
    (step : ∀ i ∈ l, ∀ a b, R a b → Refines E R (f a i) (g b i)) {a : α} {b : β} (h : R a b) :
    Refines E R (l.foldlM f a) (l.foldlM g b) := by
  induction l generalizing a b with
  | nil => exact refines_pure h
  | cons i l ih =>
      rw [List.foldlM_cons, List.foldlM_cons]
      refine refines_bind (step i List.mem_cons_self a b h) fun a' b' h' => ?_
      exact ih (fun j hj => step j (List.mem_cons_of_mem i hj)) h'

/-- What the two computations return is related. -/
theorem Refines.of_ok {x : Except ε α} {y : Except δ β} (h : Refines E R x y) {a : α}
    (hx : x = .ok a) : ∃ b, y = .ok b ∧ R a b := by
  cases h with
  | ok h =>
      cases hx
      exact ⟨_, rfl, h⟩
  | error h => cases hx

/-- What the two computations stop with is related. -/
theorem Refines.of_error {x : Except ε α} {y : Except δ β} (h : Refines E R x y) {e : ε}
    (hx : x = .error e) : ∃ d, y = .error d ∧ E e d := by
  cases h with
  | ok h => cases hx
  | error h =>
      cases hx
      exact ⟨_, rfl, h⟩

end CwDb.Foundation
