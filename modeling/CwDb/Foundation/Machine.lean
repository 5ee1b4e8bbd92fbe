/-
  Foundation/Machine.lean --- machines that answer inputs, one against another.

  `Mimics` relates the states of two machines that give the same answers, as long as the
  first one stays in good states.
-/
import Mathlib.Data.List.Basic

set_option autoImplicit false

namespace CwDb.Foundation

variable {ι α σ τ : Type}

/-- The answers to the inputs in turn, and the state after them. -/
def runMachine (step : ι → σ → α × σ) : List ι → σ → List α × σ
  | [], s => ([], s)
  | i :: is, s => ((step i s).1 :: (runMachine step is (step i s).2).1,
      (runMachine step is (step i s).2).2)

theorem runMachine_append (step : ι → σ → α × σ) : ∀ (is js : List ι) (s : σ),
    runMachine step (is ++ js) s =
      ((runMachine step is s).1 ++ (runMachine step js (runMachine step is s).2).1,
        (runMachine step js (runMachine step is s).2).2)
  | [], _, _ => rfl
  | i :: is, js, s => by
      rw [List.cons_append, runMachine, runMachine_append step is js (step i s).2]
      rfl

/-- One more input. -/
theorem runMachine_concat_snd (step : ι → σ → α × σ) (is : List ι) (i : ι) (s : σ) :
    (runMachine step (is ++ [i]) s).2 = (step i (runMachine step is s).2).2 := by
  rw [runMachine_append]
  rfl

/-- All states that the inputs lead through are good. -/
def StaysIn (good : σ → Prop) (step : ι → σ → α × σ) (inputs : List ι) (s : σ) : Prop :=
  ∀ n, good (runMachine step (inputs.take n) s).2

variable {step : ι → σ → α × σ} {step' : ι → τ → α × τ} {good : σ → Prop} {i : ι} {is : List ι}
  {s : σ}

theorem StaysIn.tail (h : StaysIn good step (i :: is) s) : StaysIn good step is (step i s).2 :=
  fun n => h (n + 1)

theorem StaysIn.head (h : StaysIn good step (i :: is) s) : good (step i s).2 := h 1

theorem StaysIn.last (h : StaysIn good step is s) : good (runMachine step is s).2 := by
  have := h is.length
  rwa [List.take_length] at this

/-- The states that the first inputs lead through. -/
theorem StaysIn.of_append {js : List ι} (h : StaysIn good step (is ++ js) s) :
    StaysIn good step is s := by
  intro n
  have := h (min n is.length)
  rwa [List.take_append_of_le_length (Nat.min_le_right _ _), ← List.take_take,
    List.take_length] at this

/-- As many states as there are inputs are all. -/
theorem staysIn_of_le {inputs : List ι}
    (h : ∀ n ≤ inputs.length, good (runMachine step (inputs.take n) s).2) :
    StaysIn good step inputs s := by
  intro n
  rcases Nat.le_total n inputs.length with hle | hle
  · exact h n hle
  · have := h inputs.length (Nat.le_refl _)
    rwa [List.take_length, ← List.take_of_length_le hle] at this

/-- What every step keeps holds in the end. -/
theorem runMachine_keeps {P : σ → Prop} (keeps : ∀ i s, P s → P (step i s).2) :
    ∀ (inputs : List ι) {s : σ}, P s → P (runMachine step inputs s).2
  | [], _, h => h
  | i :: is, s, h => runMachine_keeps keeps is (keeps i s h)

/-- Every input is allowed in the state of the machine that it comes in. -/
def AllowedAlong (allowed : ι → τ → Prop) (step' : ι → τ → α × τ) : List ι → τ → Prop
  | [], _ => True
  | i :: is, t => allowed i t ∧ AllowedAlong allowed step' is (step' i t).2

theorem allowedAlong_of_forall {allowed : ι → τ → Prop} :
    ∀ {inputs : List ι} {t : τ}, (∀ i ∈ inputs, ∀ t, allowed i t) →
      AllowedAlong allowed step' inputs t
  | [], _, _ => trivial
  | i :: _, t, h =>
      ⟨h i List.mem_cons_self t, allowedAlong_of_forall fun j hj => h j (List.mem_cons_of_mem i hj)⟩

/-- An input that is judged by its answer. -/
theorem allowedAlong_of_answers {P : α → Prop} : ∀ {inputs : List ι} {t : τ},
    (∀ a ∈ (runMachine step' inputs t).1, P a) →
    AllowedAlong (fun i t => P (step' i t).1) step' inputs t
  | [], _, _ => trivial
  | _ :: _, _, h => ⟨h _ List.mem_cons_self,
      allowedAlong_of_answers fun a ha => h a (List.mem_cons_of_mem _ ha)⟩

/-- On inputs allowed to the second machine, related states give the same answer and, when the
first machine comes into a good state, related states again. -/
structure Mimics (allowed : ι → τ → Prop) (good : σ → Prop) (R : σ → τ → Prop)
    (step : ι → σ → α × σ) (step' : ι → τ → α × τ) : Prop where
  answer : ∀ i s t, allowed i t → R s t → good (step i s).2 → (step i s).1 = (step' i t).1
  keeps : ∀ i s t, allowed i t → R s t → good (step i s).2 → R (step i s).2 (step' i t).2

/-- Related states give the same answers to all inputs. -/
theorem Mimics.run {allowed : ι → τ → Prop} {R : σ → τ → Prop}
    (h : Mimics allowed good R step step') : ∀ (inputs : List ι) {s : σ} {t : τ}, R s t →
      AllowedAlong allowed step' inputs t → StaysIn good step inputs s →
      (runMachine step inputs s).1 = (runMachine step' inputs t).1 ∧
        R (runMachine step inputs s).2 (runMachine step' inputs t).2
  | [], _, _, related, _, _ => ⟨rfl, related⟩
  | i :: is, s, t, related, hallowed, stays => by
      have hi := h.answer i s t hallowed.1 related stays.head
      obtain ⟨hanswers, hlast⟩ := h.run is (h.keeps i s t hallowed.1 related stays.head)
        hallowed.2 stays.tail
      refine ⟨?_, hlast⟩
      rw [runMachine, runMachine, hi, hanswers]

end CwDb.Foundation
