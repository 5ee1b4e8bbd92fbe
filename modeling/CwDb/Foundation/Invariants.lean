/-
  Foundation/Invariants.lean --- computations that maintain an invariant of the state.

  The invariant holds on both exits.  There is one rule for each way to compose
  computations, so a function maintains what its parts maintain.
-/
import CwDb.Foundation.Effect

set_option autoImplicit false

namespace CwDb.Foundation

variable {ε σ τ α β : Type} {I : σ → Prop}

/-- What is known of one run from two sides. -/
theorem Ends.and {m : EStateM ε σ α} {s : σ} {Q Q' : α → σ → Prop} {E E' : ε → σ → Prop}
    (h : Ends m s Q E) (h' : Ends m s Q' E') :
    Ends m s (fun a s' => Q a s' ∧ Q' a s') (fun e s' => E e s' ∧ E' e s') := by
  unfold Ends at *
  generalize m s = r at *
  cases r with
  | ok a s' => exact ⟨h, h'⟩
  | error e s' => exact ⟨h, h'⟩

/-- `m` leads from states of `I` to states of `I`, however it ends. -/
def Maintains (I : σ → Prop) (m : EStateM ε σ α) : Prop :=
  ∀ s, I s → Ends m s (fun _ s' => I s') (fun _ s' => I s')

namespace Maintains

theorem pure (a : α) : Maintains I (pure a : EStateM ε σ α) := fun _ h => h

theorem throw (e : ε) : Maintains I (throw e : EStateM ε σ α) := fun _ h => h

theorem bind {m : EStateM ε σ β} {f : β → EStateM ε σ α} (first : Maintains I m)
    (next : ∀ b, Maintains I (f b)) : Maintains I (m >>= f) := by
  intro s h
  rw [ends_bind]
  exact (first s h).mono (fun b s' h => next b s' h) fun _ _ h => h

/-- What follows a read may know where it is. -/
theorem get_bind {f : σ → EStateM ε σ α} (next : ∀ s, I s → Maintains I (f s)) :
    Maintains I (get >>= f) := by
  intro s h
  rw [ends_bind, ends_get]
  exact next s h s h

theorem modify {f : σ → σ} (keeps : ∀ s, I s → I (f s)) :
    Maintains I (modify f : EStateM ε σ PUnit) := fun s h => keeps s h

theorem fromExcept (x : Except ε α) : Maintains I (fromExcept x) := by
  cases x with
  | ok a => exact pure a
  | error e => exact throw e

theorem ite {p : Prop} [Decidable p] {m n : EStateM ε σ α} (h : p → Maintains I m)
    (h' : ¬ p → Maintains I n) : Maintains I (if p then m else n) := by
  by_cases hp : p
  · rw [if_pos hp]
    exact h hp
  · rw [if_neg hp]
    exact h' hp

theorem forM {l : List β} {f : β → EStateM ε σ PUnit} (each : ∀ x ∈ l, Maintains I (f x)) :
    Maintains I (l.forM f) := by
  induction l with
  | nil => exact pure PUnit.unit
  | cons x l ih =>
      change Maintains I (f x >>= fun _ => l.forM f)
      exact (each x List.mem_cons_self).bind fun _ => ih fun y hy => each y (List.mem_cons_of_mem x hy)

/-- A computation on a part of the state. -/
theorem zoom {J : τ → Prop} {get : τ → σ} {set : τ → σ → τ} {m : EStateM ε σ α}
    (h : ∀ t, J t → Ends m (get t) (fun _ s => J (set t s)) (fun _ s => J (set t s))) :
    Maintains J (zoom get set m) := by
  intro t ht
  rw [ends_zoom]
  exact h t ht

end Maintains

/-! ## Invariants with a bound -/

/-- `m` raises the bound of an invariant by `k` at most, however it ends. -/
def Raises (I : Nat → σ → Prop) (k : Nat) (m : EStateM ε σ α) : Prop :=
  ∀ n s, I n s → Ends m s (fun _ s' => I (n + k) s') (fun _ s' => I (n + k) s')

section Raises

variable {I : Nat → σ → Prop} {k l : Nat}

theorem Raises.of_maintains {m : EStateM ε σ α} (h : ∀ n, Maintains (I n) m) : Raises I 0 m :=
  fun n s hs => h n s hs

theorem Raises.bind {m : EStateM ε σ β} {f : β → EStateM ε σ α}
    (mono : ∀ n n' s, n ≤ n' → I n s → I n' s) (first : Raises I k m)
    (next : ∀ b, Raises I l (f b)) : Raises I (k + l) (m >>= f) := by
  intro n s h
  rw [ends_bind, ← Nat.add_assoc]
  exact (first n s h).mono (fun b s' h' => next b (n + k) s' h')
    fun _ s' h' => mono _ _ s' (Nat.le_add_right _ _) h'

/-- What does not raise the bound comes first. -/
theorem Raises.after {m : EStateM ε σ β} {f : β → EStateM ε σ α}
    (mono : ∀ n n' s, n ≤ n' → I n s → I n' s) (first : ∀ n, Maintains (I n) m)
    (next : ∀ b, Raises I k (f b)) : Raises I k (m >>= f) := by
  have h := Raises.bind mono (.of_maintains first) next
  rwa [Nat.zero_add] at h

theorem Raises.mono {m : EStateM ε σ α} (mono : ∀ n n' s, n ≤ n' → I n s → I n' s)
    (h : Raises I k m) (le : k ≤ l) : Raises I l m := fun n s hs =>
  (h n s hs).mono (fun _ s' => mono _ _ s' (Nat.add_le_add_left le n))
    fun _ s' => mono _ _ s' (Nat.add_le_add_left le n)

theorem Raises.ite {p : Prop} [Decidable p] {m n : EStateM ε σ α} (h : p → Raises I k m)
    (h' : ¬ p → Raises I k n) : Raises I k (if p then m else n) := by
  by_cases hp : p
  · rw [if_pos hp]
    exact h hp
  · rw [if_neg hp]
    exact h' hp

theorem Raises.pure (mono : ∀ n n' s, n ≤ n' → I n s → I n' s) (a : α) :
    Raises I k (pure a : EStateM ε σ α) := fun n s h => mono n (n + k) s (Nat.le_add_right n k) h

theorem Raises.throw (mono : ∀ n n' s, n ≤ n' → I n s → I n' s) (e : ε) :
    Raises I k (throw e : EStateM ε σ α) := fun n s h => mono n (n + k) s (Nat.le_add_right n k) h

/-- Every round of a loop raises the bound. -/
theorem Raises.forM (mono : ∀ n n' s, n ≤ n' → I n s → I n' s) {l : List β}
    {f : β → EStateM ε σ PUnit} (each : ∀ x ∈ l, Raises I k (f x)) :
    Raises I (l.length * k) (l.forM f) := by
  induction l with
  | nil => exact Raises.pure mono PUnit.unit
  | cons x l ih =>
      have h := Raises.bind mono (each x List.mem_cons_self) fun _ =>
        ih fun y hy => each y (List.mem_cons_of_mem x hy)
      rwa [Nat.add_comm, ← Nat.succ_mul] at h

end Raises
end CwDb.Foundation
