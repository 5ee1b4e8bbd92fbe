/-
  Foundation/Effect.lean --- reasoning about computations that change a state and
  may stop with an exception.

  `EStateM ε σ` keeps the state reached at the point of a throw, which is how an
  exception behaves when nothing is rolled back.  `Ends m s Q E` is the weakest
  precondition of `m` for a postcondition on each of its two exits.
-/
import Mathlib.Data.List.Basic

set_option autoImplicit false

namespace CwDb.Foundation

variable {ε σ α β : Type}

/-- `m` started in `s` either returns in a way `Q` allows or throws in a way `E`
allows. -/
def Ends (m : EStateM ε σ α) (s : σ) (Q : α → σ → Prop) (E : ε → σ → Prop) : Prop :=
  match m s with
  | .ok a s' => Q a s'
  | .error e s' => E e s'

variable {s : σ} {Q : α → σ → Prop} {E : ε → σ → Prop}

/-! ## The rules of the control structures -/

@[simp] theorem ends_pure (a : α) : Ends (pure a : EStateM ε σ α) s Q E ↔ Q a s := Iff.rfl

@[simp] theorem ends_throw (e : ε) : Ends (throw e : EStateM ε σ α) s Q E ↔ E e s := Iff.rfl

theorem ends_bind {m : EStateM ε σ β} {f : β → EStateM ε σ α} :
    Ends (m >>= f) s Q E ↔ Ends m s (fun b s' => Ends (f b) s' Q E) E := by
  change Ends (EStateM.bind m f) s Q E ↔ _
  unfold Ends EStateM.bind
  cases m s <;> rfl

@[simp] theorem ends_get {Q : σ → σ → Prop} :
    Ends (get : EStateM ε σ σ) s Q E ↔ Q s s := Iff.rfl

@[simp] theorem ends_set {Q : PUnit → σ → Prop} (t : σ) :
    Ends (set t : EStateM ε σ PUnit) s Q E ↔ Q ⟨⟩ t := Iff.rfl

@[simp] theorem ends_modify {Q : PUnit → σ → Prop} (f : σ → σ) :
    Ends (modify f : EStateM ε σ PUnit) s Q E ↔ Q ⟨⟩ (f s) := Iff.rfl

theorem ends_ite {c : Prop} [Decidable c] {m n : EStateM ε σ α} :
    Ends (if c then m else n) s Q E ↔ if c then Ends m s Q E else Ends n s Q E := by
  split <;> rfl

/-- A computation on a part of the state. -/
def zoom {τ : Type} (get : τ → σ) (set : τ → σ → τ) (m : EStateM ε σ α) : EStateM ε τ α :=
  fun t =>
    match m (get t) with
    | .ok a s => .ok a (set t s)
    | .error e s => .error e (set t s)

theorem ends_zoom {τ : Type} {get : τ → σ} {set : τ → σ → τ} {m : EStateM ε σ α} {t : τ}
    {Q : α → τ → Prop} {E : ε → τ → Prop} :
    Ends (zoom get set m) t Q E ↔
      Ends m (get t) (fun a s => Q a (set t s)) (fun e s => E e (set t s)) := by
  unfold Ends zoom
  cases m (get t) <;> rfl

/-! ## Consequence -/

theorem Ends.mono {m : EStateM ε σ α} {Q' : α → σ → Prop} {E' : ε → σ → Prop}
    (h : Ends m s Q E) (hQ : ∀ a s', Q a s' → Q' a s') (hE : ∀ e s', E e s' → E' e s') :
    Ends m s Q' E' := by
  unfold Ends at *
  cases hm : m s with
  | ok a s' => rw [hm] at h; exact hQ a s' h
  | error e s' => rw [hm] at h; exact hE e s' h

theorem ends_of_ok {m : EStateM ε σ α} {a : α} {s' : σ} (run : m s = .ok a s') :
    Ends m s Q E ↔ Q a s' := by
  unfold Ends
  rw [run]

theorem ends_of_error {m : EStateM ε σ α} {e : ε} {s' : σ} (run : m s = .error e s') :
    Ends m s Q E ↔ E e s' := by
  unfold Ends
  rw [run]

/-- A computation that cannot throw returns. -/
theorem Ends.exists_ok {m : EStateM ε σ α} (h : Ends m s Q fun _ _ => False) :
    ∃ a s', m s = .ok a s' ∧ Q a s' := by
  unfold Ends at h
  cases hm : m s with
  | ok a s' => rw [hm] at h; exact ⟨a, s', rfl, h⟩
  | error e s' => rw [hm] at h; exact h.elim

theorem Ends.of_ok {m : EStateM ε σ α} (h : Ends m s Q E) {a : α} {s' : σ}
    (run : m s = .ok a s') : Q a s' := (ends_of_ok run).mp h

theorem Ends.of_error {m : EStateM ε σ α} (h : Ends m s Q E) {e : ε} {s' : σ}
    (run : m s = .error e s') : E e s' := (ends_of_error run).mp h

/-- A loop over a list: `I` relates the elements done so far to the state. -/
theorem ends_forM {l : List β} {f : β → EStateM ε σ PUnit} {I : List β → σ → Prop}
    (init : I [] s)
    (step : ∀ before x after t, l = before ++ x :: after → I before t →
      Ends (f x) t (fun _ t' => I (before ++ [x]) t') E) :
    Ends (l.forM f) s (fun _ t => I l t) E := by
  have go : ∀ after before t, l = before ++ after → I before t →
      Ends (after.forM f) t (fun _ t' => I l t') E := by
    intro after
    induction after with
    | nil =>
        intro before t hl ht
        rw [List.append_nil] at hl
        exact hl ▸ ht
    | cons x after ih =>
        intro before t hl ht
        change Ends (f x >>= fun _ => after.forM f) t _ _
        rw [ends_bind]
        refine (step before x after t hl ht).mono (fun _ t' h => ?_) fun _ _ h => h
        exact ih (before ++ [x]) t' (by simp [hl]) h
  exact go l [] s rfl init

/-! ## Runs of a composed computation -/

theorem bind_ok {m : EStateM ε σ β} {f : β → EStateM ε σ α} {b : β} {s' : σ}
    (run : m s = .ok b s') : (m >>= f) s = f b s' := by
  change EStateM.bind m f s = _
  unfold EStateM.bind
  rw [run]

theorem get_run : (get : EStateM ε σ σ) s = .ok s s := rfl

theorem modify_run {f : σ → σ} : (modify f : EStateM ε σ PUnit) s = .ok ⟨⟩ (f s) := rfl

/-- A loop that has done the first elements goes on with the others. -/
theorem forM_append_run {f : β → EStateM ε σ PUnit} {l l' : List β} {s t : σ}
    (run : l.forM f s = .ok ⟨⟩ t) : (l ++ l').forM f s = l'.forM f t := by
  induction l generalizing s with
  | nil =>
      cases run
      rfl
  | cons x l ih =>
      change (f x >>= fun _ => l.forM f) s = _ at run
      change (f x >>= fun _ => (l ++ l').forM f) s = _
      cases hx : f x s with
      | error e u =>
          change EStateM.bind (f x) _ s = _ at run
          unfold EStateM.bind at run
          rw [hx] at run
          cases run
      | ok b u =>
          rw [bind_ok hx] at run ⊢
          exact ih run

theorem forM_congr {m : Type → Type} [Monad m] {f g : β → m PUnit} {l : List β}
    (h : ∀ x ∈ l, f x = g x) : l.forM f = l.forM g := by
  induction l with
  | nil => rfl
  | cons x l ih =>
      change (f x >>= fun _ => l.forM f) = (g x >>= fun _ => l.forM g)
      rw [h x List.mem_cons_self, ih fun y hy => h y (List.mem_cons_of_mem x hy)]

theorem bind_error {m : EStateM ε σ β} {f : β → EStateM ε σ α} {e : ε} {s' : σ}
    (run : m s = .error e s') : (m >>= f) s = .error e s' := by
  change EStateM.bind m f s = _
  unfold EStateM.bind
  rw [run]

theorem bind_eq_ok {m : EStateM ε σ β} {f : β → EStateM ε σ α} {a : α} {s' : σ} :
    (m >>= f) s = .ok a s' ↔ ∃ b t, m s = .ok b t ∧ f b t = .ok a s' := by
  cases hm : m s with
  | ok b t => simp [bind_ok hm]
  | error e t => simp [bind_error hm]

/-- A loop that throws has done some elements and thrown at the next one. -/
theorem forM_eq_error {f : β → EStateM ε σ PUnit} {l : List β} {e : ε} {t : σ}
    (run : l.forM f s = .error e t) : ∃ before x after s', l = before ++ x :: after ∧
      before.forM f s = .ok ⟨⟩ s' ∧ f x s' = .error e t := by
  induction l generalizing s with
  | nil => cases run
  | cons x l ih =>
      change (f x >>= fun _ => l.forM f) s = _ at run
      cases hx : f x s with
      | error e' u =>
          rw [bind_error hx] at run
          cases run
          exact ⟨[], x, l, s, rfl, rfl, hx⟩
      | ok b u =>
          rw [bind_ok hx] at run
          obtain ⟨before, y, after, s', rfl, hbefore, hy⟩ := ih run
          refine ⟨x :: before, y, after, s', rfl, ?_, hy⟩
          change (f x >>= fun _ => before.forM f) s = _
          rw [bind_ok hx]
          exact hbefore

/-- A loop that collects the results ends when no element fails. -/
theorem mapM_eq_ok_iff {f : α → Except ε β} : ∀ {l : List α} {r : List β},
    l.mapM f = .ok r ↔ List.Forall₂ (fun a b => f a = .ok b) l r
  | [], r => by
      rw [List.mapM_nil]
      constructor
      · intro h
        cases h
        exact .nil
      · intro h
        cases h
        rfl
  | a :: l, r => by
      rw [List.mapM_cons]
      constructor
      · intro h
        cases hf : f a with
        | error e =>
            rw [hf] at h
            cases h
        | ok b =>
            cases hrest : l.mapM f with
            | error e =>
                rw [hf, hrest] at h
                cases h
            | ok rest =>
                rw [hf, hrest] at h
                cases h
                exact .cons hf (mapM_eq_ok_iff.mp hrest)
      · intro h
        cases h with
        | cons hf hrest =>
            rw [hf, mapM_eq_ok_iff.mpr hrest]
            rfl

/-- An `Except` value as a computation that leaves the state alone. -/
def fromExcept (x : Except ε α) : EStateM ε σ α :=
  match x with
  | .ok a => pure a
  | .error e => throw e

theorem ends_fromExcept {x : Except ε α} :
    Ends (fromExcept x : EStateM ε σ α) s Q E ↔
      (∀ a, x = .ok a → Q a s) ∧ ∀ e, x = .error e → E e s := by
  cases x <;> simp [fromExcept]

theorem fromExcept_eq_ok {x : Except ε α} {a : α} {t : σ} :
    fromExcept x s = .ok a t ↔ x = .ok a ∧ s = t := by
  cases x with
  | ok b => exact ⟨fun h => by cases h; exact ⟨rfl, rfl⟩, by rintro ⟨⟨⟩, rfl⟩; rfl⟩
  | error e => exact ⟨nofun, nofun⟩

/-- Whether a run returns, and the state it leaves behind. -/
def outcome : EStateM.Result ε σ α → Bool × σ
  | .ok _ s => (true, s)
  | .error _ s => (false, s)

/-- A value that is dropped does not count. -/
theorem outcome_bind_pure {m : EStateM ε σ β} {a : α} :
    outcome ((m >>= fun _ => pure a) s) = outcome (m s) := by
  cases hm : m s with
  | ok b t => rw [bind_ok hm]; rfl
  | error e t => rw [bind_error hm]; rfl

theorem ends_iff_outcome {m : EStateM ε σ α} {P : σ → Prop} :
    Ends m s (fun _ s' => P s') (fun _ s' => P s') ↔ P (outcome (m s)).2 := by
  unfold Ends
  cases m s <;> rfl

/-- A sequence returns when both of its parts do. -/
theorem exists_bind_ok {x : Except ε β} {f : β → Except ε α} :
    (∃ a, (x >>= f) = .ok a) ↔ ∃ b, x = .ok b ∧ ∃ a, f b = .ok a := by
  cases x with
  | ok b =>
      constructor
      · intro h
        exact ⟨b, rfl, h⟩
      · rintro ⟨b', hb, h⟩
        exact Except.ok.inj hb ▸ h
  | error e =>
      constructor
      · rintro ⟨a, h⟩
        cases h
      · rintro ⟨b, h, -⟩
        cases h

@[simp] theorem fromExcept_ok (a : α) : (fromExcept (.ok a) : EStateM ε σ α) = pure a := rfl

@[simp] theorem fromExcept_error (e : ε) :
    (fromExcept (.error e) : EStateM ε σ α) = throw e := rfl

end CwDb.Foundation
