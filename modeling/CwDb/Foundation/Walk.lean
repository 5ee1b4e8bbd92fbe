/-
  Foundation/Walk.lean --- following a partial function until it has no value.

  A walk over finitely many places ends just when it comes to no place twice, and then it
  takes no more steps than there are places.
-/
import Mathlib.Data.Finset.Card
import Mathlib.Data.Finset.Range
import Mathlib.Tactic.Cases

set_option autoImplicit false

namespace CwDb.Foundation

variable {α : Type} {next : α → Option α} {a x y : α}

/-- Where the walk from `a` is after some steps, if it gets that far. -/
def walk (next : α → Option α) : Nat → α → Option α
  | 0, a => some a
  | n + 1, a => (next a).bind (walk next n)

/-- The walk ends. -/
def WalkEnds (next : α → Option α) (a : α) : Prop := ∃ n, walk next n a = none

/-- The walk comes to some place twice. -/
def Revisits (next : α → Option α) (a : α) : Prop :=
  ∃ i j x, i < j ∧ walk next i a = some x ∧ walk next j a = some x

/-- The walk comes to `x`. -/
def Reaches (next : α → Option α) (a x : α) : Prop := ∃ n, walk next n a = some x

theorem reaches_of_none (h : next a = none) : Reaches next a x ↔ x = a := by
  constructor
  · rintro ⟨n, hn⟩
    cases n with
    | zero => exact (Option.some.inj hn).symm
    | succ n =>
        rw [walk, h] at hn
        cases hn
  · rintro rfl
    exact ⟨0, rfl⟩

theorem reaches_of_some {b : α} (h : next a = some b) :
    Reaches next a x ↔ x = a ∨ Reaches next b x := by
  constructor
  · rintro ⟨n, hn⟩
    cases n with
    | zero => exact .inl (Option.some.inj hn).symm
    | succ n =>
        rw [walk, h] at hn
        exact .inr ⟨n, hn⟩
  · rintro (rfl | ⟨n, hn⟩)
    · exact ⟨0, rfl⟩
    · refine ⟨n + 1, ?_⟩
      rw [walk, h]
      exact hn

theorem walk_add (m n : Nat) (a : α) :
    walk next (m + n) a = (walk next m a).bind (walk next n) := by
  induction m generalizing a with
  | zero => rw [Nat.zero_add]; rfl
  | succ m ih =>
      rw [Nat.succ_add]
      change (next a).bind (walk next (m + n)) = ((next a).bind (walk next m)).bind _
      cases next a with
      | none => rfl
      | some b => exact ih b

theorem walk_eq_none_of_le {m n : Nat} (h : walk next m a = none) (le : m ≤ n) :
    walk next n a = none := by
  obtain ⟨k, rfl⟩ := Nat.exists_eq_add_of_le le
  rw [walk_add, h]
  rfl

/-- A place that comes up again comes up again and again. -/
theorem not_walkEnds_of_revisits (h : Revisits next a) : ¬ WalkEnds next a := by
  obtain ⟨i, j, x, hij, hi, hj⟩ := h
  have again : ∀ k, walk next (i + k * (j - i)) a = some x := by
    intro k
    induction k with
    | zero => rw [Nat.zero_mul]; exact hi
    | succ k ih =>
        have hround : walk next (j - i) x = some x := by
          rw [← hj, ← Nat.add_sub_cancel' (Nat.le_of_lt hij), walk_add, hi,
            Nat.add_sub_cancel_left]
          rfl
        rw [Nat.succ_mul, ← Nat.add_assoc, walk_add, ih]
        exact hround
  rintro ⟨n, hn⟩
  have hle : n ≤ i + n * (j - i) := by
    have := Nat.le_mul_of_pos_right n (Nat.sub_pos_of_lt hij)
    omega
  have := walk_eq_none_of_le hn hle
  rw [again n] at this
  cases this

/-- A walk that comes to no place twice ends after as many steps as there are places to go on
from. -/
theorem walk_eq_none_of_not_revisits {rank : α → Nat} {bound : Nat}
    (injective : Function.Injective rank) (places : ∀ x y, next x = some y → rank x < bound)
    (h : ¬ Revisits next a) : walk next (bound + 1) a = none := by
  by_contra hne
  obtain ⟨z, hz⟩ := Option.ne_none_iff_exists'.mp hne
  -- so many places to go on from are not there
  have goes : ∀ i ≤ bound, ∃ x, walk next i a = some x ∧ rank x < bound := by
    intro i hi
    obtain ⟨k, rfl⟩ := Nat.exists_eq_add_of_le hi
    rw [Nat.add_assoc, walk_add] at hz
    cases hx : walk next i a with
    | none =>
        rw [hx] at hz
        cases hz
    | some x =>
        rw [hx, Option.bind_some] at hz
        change (next x).bind (walk next k) = some z at hz
        obtain ⟨y, hy, -⟩ := Option.bind_eq_some_iff.mp hz
        exact ⟨x, rfl, places x y hy⟩
  have hmaps : Set.MapsTo (fun i => (walk next i a).elim 0 rank) (Finset.range (bound + 1))
      (Finset.range bound) := by
    intro i hi
    have hi' : i < bound + 1 := Finset.mem_range.mp hi
    obtain ⟨x, hx, hrank⟩ := goes i (Nat.le_of_lt_succ hi')
    refine Finset.mem_coe.mpr (Finset.mem_range.mpr ?_)
    dsimp only
    rw [hx]
    exact hrank
  obtain ⟨i, hi, j, hj, hne, heq⟩ := Finset.exists_ne_map_eq_of_card_lt_of_maps_to
    (by rw [Finset.card_range, Finset.card_range]; exact Nat.lt_succ_self bound) hmaps
  obtain ⟨x, hx, -⟩ := goes i (Nat.le_of_lt_succ (Finset.mem_range.mp hi))
  obtain ⟨y, hy, -⟩ := goes j (Nat.le_of_lt_succ (Finset.mem_range.mp hj))
  rw [hx, hy] at heq
  obtain rfl := injective heq
  rcases Nat.lt_or_gt_of_ne hne with hlt | hlt
  · exact h ⟨i, j, x, hlt, hx, hy⟩
  · exact h ⟨j, i, x, hlt, hy, hx⟩

theorem walkEnds_iff {rank : α → Nat} {bound : Nat} (injective : Function.Injective rank)
    (places : ∀ x y, next x = some y → rank x < bound) :
    WalkEnds next a ↔ ¬ Revisits next a :=
  ⟨fun h hrev => not_walkEnds_of_revisits hrev h,
    fun h => ⟨bound + 1, walk_eq_none_of_not_revisits injective places h⟩⟩

end CwDb.Foundation
