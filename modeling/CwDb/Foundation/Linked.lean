/-
  Foundation/Linked.lean --- cells chained by reference.

  Every cell has an identity and names the next one; the last names `stop`.
-/
import Mathlib.Data.List.Basic

set_option autoImplicit false

namespace CwDb.Foundation

variable {α ι : Type} (self next : α → ι)

/-- The identity of the first cell, `stop` when there is none. -/
def firstId (stop : ι) : List α → ι
  | [] => stop
  | a :: _ => self a

/-- Each cell names the one after it. -/
def Linked (stop : ι) : List α → Prop
  | [] => True
  | a :: cells => next a = firstId self stop cells ∧ Linked stop cells

variable {self next} {stop : ι} {as bs : List α}

@[simp] theorem firstId_append :
    firstId self stop (as ++ bs) = firstId self (firstId self stop bs) as := by
  cases as <;> rfl

theorem linked_append :
    Linked self next stop (as ++ bs) ↔
      Linked self next (firstId self stop bs) as ∧ Linked self next stop bs := by
  induction as with
  | nil => simp [Linked]
  | cons a as ih => simp only [List.cons_append, Linked, ih, firstId_append, and_assoc]

/-- A stretch of the chain may be exchanged for one with the same first cell and the same
successor. -/
theorem Linked.replace {before after old new : List α}
    (h : Linked self next stop (before ++ old ++ after))
    (first : ∀ s, firstId self s new = firstId self s old)
    (linked : Linked self next (firstId self stop after) old →
      Linked self next (firstId self stop after) new) :
    Linked self next stop (before ++ new ++ after) := by
  rw [List.append_assoc, linked_append, linked_append] at h ⊢
  obtain ⟨hbefore, hold, hafter⟩ := h
  refine ⟨?_, linked hold, hafter⟩
  rwa [firstId_append, first, ← firstId_append]

end CwDb.Foundation
