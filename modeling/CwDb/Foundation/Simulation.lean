/-
  Foundation/Simulation.lean --- one computation against another, where the states are of
  different types.

  `Follows` says that the first one ends as the second does, in related states.  Where the
  second one has no answer nothing is promised, and the first one may stop once what it works
  on is spent.  There is one rule for each way to compose computations.
-/
import CwDb.Foundation.Effect

set_option autoImplicit false

namespace CwDb.Foundation

variable {ε σ τ σ' τ' α β : Type}

/-- How the states of two computations are related, and what the second one throws when it
has no answer, the first one when it cannot go on. -/
structure Coupling (ε σ τ : Type) where
  Related : σ → τ → Prop
  Spent : σ → Prop
  NoAnswer : ε → Prop

/-- Ends that agree. -/
inductive Coupling.Agree (c : Coupling ε σ τ) :
    EStateM.Result ε σ α → EStateM.Result ε τ α → Prop where
  | ok (a : α) {s : σ} {t : τ} (related : c.Related s t) : Agree c (.ok a s) (.ok a t)
  | error (e : ε) {s : σ} {t : τ} (related : c.Related s t) : Agree c (.error e s) (.error e t)
  | spent {e : ε} {s : σ} {y : EStateM.Result ε τ α} (spent : c.Spent s) : Agree c (.error e s) y
  | noAnswer {x : EStateM.Result ε σ α} {e : ε} {t : τ} (noAnswer : c.NoAnswer e) :
      Agree c x (.error e t)

/-- `m` from `s` ends as `m'` does from `t`. -/
def Follows (c : Coupling ε σ τ) (m : EStateM ε σ α) (m' : EStateM ε τ α) (s : σ) (t : τ) :
    Prop :=
  c.Agree (m s) (m' t)

variable {c : Coupling ε σ τ} {c' : Coupling ε σ' τ'} {s : σ} {t : τ} {m n : EStateM ε σ α}
  {m' n' : EStateM ε τ α}

/-! ## The rules of the control structures -/

theorem follows_pure (a : α) (h : c.Related s t) : Follows c (pure a) (pure a) s t := .ok a h

theorem follows_throw (e : ε) (h : c.Related s t) :
    Follows c (throw e : EStateM ε σ α) (throw e) s t := .error e h

theorem Follows.bind {f : α → EStateM ε σ β} {f' : α → EStateM ε τ β} (h : Follows c m m' s t)
    (next : ∀ a s' t', c.Related s' t' → Follows c (f a) (f' a) s' t') :
    Follows c (m >>= f) (m' >>= f') s t := by
  change c.Agree (EStateM.bind m f s) (EStateM.bind m' f' t)
  unfold Follows at h
  unfold EStateM.bind
  cases hm : m s with
  | ok a s' =>
      cases hm' : m' t with
      | ok a' t' =>
          rw [hm, hm'] at h
          cases h with
          | ok a related => exact next a s' t' related
      | error e t' =>
          rw [hm, hm'] at h
          cases h with
          | noAnswer h => exact .noAnswer h
  | error e s' =>
      cases hm' : m' t with
      | ok a' t' =>
          rw [hm, hm'] at h
          cases h with
          | spent h => exact .spent h
      | error e' t' =>
          rw [hm, hm'] at h
          cases h with
          | error e related => exact .error e related
          | spent h => exact .spent h
          | noAnswer h => exact .noAnswer h

theorem follows_get_bind {f : σ → EStateM ε σ α} {f' : τ → EStateM ε τ α} :
    Follows c (get >>= f) (get >>= f') s t ↔ Follows c (f s) (f' t) s t := Iff.rfl

theorem follows_modify {f : σ → σ} {f' : τ → τ} (h : c.Related (f s) (f' t)) :
    Follows c (modify f : EStateM ε σ PUnit) (modify f') s t :=
  follows_pure (s := f s) (t := f' t) PUnit.unit h

theorem follows_fromExcept (x : Except ε α) (h : c.Related s t) :
    Follows c (fromExcept x) (fromExcept x) s t := by
  cases x with
  | ok a => exact .ok a h
  | error e => exact .error e h

theorem follows_ite {p : Prop} [Decidable p] (h : p → Follows c m m' s t)
    (h' : ¬ p → Follows c n n' s t) :
    Follows c (if p then m else n) (if p then m' else n') s t := by
  by_cases hp : p
  · rw [if_pos hp, if_pos hp]
    exact h hp
  · rw [if_neg hp, if_neg hp]
    exact h' hp

/-- Computations on parts of the states. -/
theorem follows_zoom {get : σ' → σ} {set : σ' → σ → σ'} {get' : τ' → τ} {set' : τ' → τ → τ'}
    {u : σ'} {v : τ'} (h : Follows c m m' (get u) (get' v))
    (related : ∀ s t, c.Related s t → c'.Related (set u s) (set' v t))
    (spent : ∀ s, c.Spent s → c'.Spent (set u s))
    (noAnswer : ∀ e, c.NoAnswer e → c'.NoAnswer e) :
    Follows c' (zoom get set m) (zoom get' set' m') u v := by
  unfold Follows zoom at *
  cases hm : m (get u) with
  | ok a s =>
      cases hm' : m' (get' v) with
      | ok a' t =>
          rw [hm, hm'] at h
          cases h with
          | ok a h => exact .ok a (related s t h)
      | error e t =>
          rw [hm, hm'] at h
          cases h with
          | noAnswer h => exact .noAnswer (noAnswer e h)
  | error e s =>
      cases hm' : m' (get' v) with
      | ok a t =>
          rw [hm, hm'] at h
          cases h with
          | spent h => exact .spent (spent s h)
      | error e' t =>
          rw [hm, hm'] at h
          cases h with
          | error e h => exact .error e (related s t h)
          | spent h => exact .spent (spent s h)
          | noAnswer h => exact .noAnswer (noAnswer e' h)

theorem follows_forM {l : List β} {f : β → EStateM ε σ PUnit} {f' : β → EStateM ε τ PUnit}
    (h : c.Related s t)
    (step : ∀ x ∈ l, ∀ s t, c.Related s t → Follows c (f x) (f' x) s t) :
    Follows c (l.forM f) (l.forM f') s t := by
  induction l generalizing s t with
  | nil => exact follows_pure PUnit.unit h
  | cons x l ih =>
      change Follows c (f x >>= fun _ => l.forM f) (f' x >>= fun _ => l.forM f') s t
      refine (step x List.mem_cons_self s t h).bind fun _ s' t' h' => ?_
      exact ih h' fun y hy => step y (List.mem_cons_of_mem x hy)

/-! ## One state -/

/-- Two computations on one state, of which the second may have no answer. -/
def Coupling.same (noAnswer : ε → Prop) : Coupling ε σ σ where
  Related := Eq
  Spent _ := False
  NoAnswer := noAnswer

theorem follows_same {noAnswer : ε → Prop} : Follows (.same noAnswer) m m s s := by
  unfold Follows
  cases m s with
  | ok a s' => exact .ok a rfl
  | error e s' => exact .error e rfl

/-! ## Answers -/

/-- The value or the exception, and the state afterwards. -/
def answerOf (m : EStateM ε σ α) (s : σ) : Except ε α × σ :=
  match m s with
  | .ok a s' => (.ok a, s')
  | .error e s' => (.error e, s')

theorem Ends.of_answerOf {P : σ → Prop} (h : Ends m s (fun _ s' => P s') fun _ s' => P s') :
    P (answerOf m s).2 := by
  unfold Ends at h
  unfold answerOf
  cases hm : m s with
  | ok a s' =>
      rw [hm] at h
      exact h
  | error e s' =>
      rw [hm] at h
      exact h

theorem eq_ok_of_answerOf {a : α} (h : (answerOf m s).1 = .ok a) :
    m s = .ok a (answerOf m s).2 := by
  unfold answerOf at h ⊢
  cases hm : m s with
  | ok b s' =>
      rw [hm] at h
      exact congrArg (EStateM.Result.ok · s') (Except.ok.inj h)
  | error e s' =>
      rw [hm] at h
      cases h

/-- Where the second computation has an answer and the first is not spent, they answer alike. -/
theorem Follows.answerOf_eq (h : Follows c m m' s t)
    (answered : ∀ e, (answerOf m' t).1 = .error e → ¬ c.NoAnswer e)
    (unspent : ¬ c.Spent (answerOf m s).2) :
    (answerOf m s).1 = (answerOf m' t).1 ∧
      c.Related (answerOf m s).2 (answerOf m' t).2 := by
  unfold answerOf Follows at *
  generalize m s = x, m' t = y at *
  cases h with
  | ok a h => exact ⟨rfl, h⟩
  | error e h => exact ⟨rfl, h⟩
  | spent h => exact absurd h unspent
  | noAnswer h => exact absurd h (answered _ rfl)

end CwDb.Foundation
