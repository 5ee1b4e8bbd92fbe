/-
  Cpp/Algorithm.lean --- the binary searches of `<algorithm>`.

  `std::lower_bound` and `std::upper_bound` halve the range until it is empty.  On a range
  that is not sorted they still return a place in it, but which one depends on the
  elements in the middle of the halves alone.
-/
import Mathlib.Data.List.Basic

set_option autoImplicit false

namespace CwDb.Cpp

variable {α : Type}

/-- The loop of the searches: the place comes behind the middle of the range when `before`
holds there, and not behind it otherwise. -/
def halve (before : α → Bool) : (rounds : Nat) → List α → Nat
  | 0, _ => 0
  | rounds + 1, range =>
      let half := range.length / 2
      match range[half]? with
      | none => 0
      | some middle =>
          if before middle then half + 1 + halve before rounds (range.drop (half + 1))
          else halve before rounds (range.take half)

/-- The place that the searches return.  A round leaves less than there was, so that there are
no more rounds than elements. -/
def partitionPoint (before : α → Bool) (range : List α) : Nat :=
  halve before range.length range

/-- The loop needs no more rounds than the range has elements. -/
theorem halve_append {before : α → Bool} {xs ys : List α} (hxs : ∀ x ∈ xs, before x = true)
    (hys : ∀ y ∈ ys, before y = false) {rounds : Nat} (enough : (xs ++ ys).length ≤ rounds) :
    halve before rounds (xs ++ ys) = xs.length := by
  induction rounds generalizing xs ys with
  | zero =>
      rw [List.length_append] at enough
      exact (show xs.length = 0 by omega).symm
  | succ rounds ih =>
      rw [halve]
      generalize hhalf : (xs ++ ys).length / 2 = half
      rw [List.length_append] at hhalf enough
      by_cases hbehind : half < xs.length
      · -- the middle is one of `xs`
        have hmiddle : (xs ++ ys)[half]? = some xs[half] := by
          rw [List.getElem?_append_left hbehind, List.getElem?_eq_getElem hbehind]
        have hrest : halve before rounds (xs.drop (half + 1) ++ ys) = _ :=
          ih (fun x hx => hxs x (List.mem_of_mem_drop hx)) hys
            (by rw [List.length_append, List.length_drop]; omega)
        rw [hmiddle]
        dsimp only
        rw [if_pos (hxs _ (List.getElem_mem hbehind)), List.drop_append_of_le_length (by omega),
          hrest, List.length_drop]
        omega
      by_cases hempty : half < xs.length + ys.length
      · -- it is one of `ys`
        have hlt : half - xs.length < ys.length := by omega
        have hmiddle : (xs ++ ys)[half]? = some ys[half - xs.length] := by
          rw [List.getElem?_append_right (by omega), List.getElem?_eq_getElem hlt]
        have hrest : halve before rounds (xs ++ ys.take (half - xs.length)) = _ :=
          ih hxs (fun y hy => hys y (List.mem_of_mem_take hy))
            (by rw [List.length_append, List.length_take]; omega)
        rw [hmiddle]
        dsimp only
        rw [if_neg (by rw [hys _ (List.getElem_mem hlt)]; exact Bool.false_ne_true),
          List.take_append, List.take_of_length_le (by omega), hrest]
      · -- there is nothing left
        have hnone : (xs ++ ys)[half]? = none :=
          List.getElem?_eq_none (by rw [List.length_append]; omega)
        rw [hnone]
        dsimp only
        omega

/-- On a range that is partitioned the searches return the place where it is. -/
theorem partitionPoint_append {before : α → Bool} {xs ys : List α}
    (hxs : ∀ x ∈ xs, before x = true) (hys : ∀ y ∈ ys, before y = false) :
    partitionPoint before (xs ++ ys) = xs.length := halve_append hxs hys (Nat.le_refl _)

-- On a range that is not, they may pass over the first element that is not below.
example : partitionPoint (· < 4) [1, 9, 3, 4, 8] = 3 := by decide

end CwDb.Cpp
