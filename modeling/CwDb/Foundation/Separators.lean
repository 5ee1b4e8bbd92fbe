/-
  Foundation/Separators.lean --- keys that separate the groups of a sorted sequence.

  A separator need not be a member of a group: it lies above everything to its left and
  not above anything to its right.
-/
import Mathlib.Data.List.Pairwise
import Mathlib.Order.Lattice

set_option autoImplicit false

namespace CwDb.Foundation

variable {κ : Type} [LinearOrder κ]

/-- The separator `seps[i]` stands between the groups up to `groups[i]` and those from
`groups[i + 1]` on. -/
structure Separates (seps : List κ) (groups : List (List κ)) : Prop where
  count : groups.length = seps.length + 1
  above : ∀ (i j : Nat) (s : κ) (g : List κ), seps[i]? = some s → groups[j]? = some g → j ≤ i →
    ∀ x ∈ g, x < s
  below : ∀ (i j : Nat) (s : κ) (g : List κ), seps[i]? = some s → groups[j]? = some g → i < j →
    ∀ x ∈ g, s ≤ x

/-- Where the separators leave room for a key at position `i`. -/
def Between (seps : List κ) (i : Nat) (x : κ) : Prop :=
  (∀ s ∈ seps.take i, s ≤ x) ∧ ∀ s ∈ seps.drop i, x < s

namespace Separates

variable {seps : List κ} {left right : List (List κ)} {group other : List κ}

/-- The members of a group lie between the separators beside it. -/
theorem between (h : Separates seps (left ++ group :: right)) :
    ∀ x ∈ group, Between seps left.length x := by
  intro x hx
  have hgroup : (left ++ group :: right)[left.length]? = some group := by simp
  constructor
  · intro s hs
    obtain ⟨i, hi, hseps⟩ := List.mem_take_iff_getElem.mp hs
    exact h.below i left.length s group (List.getElem?_eq_some_iff.mpr ⟨by omega, hseps⟩) hgroup
      (by omega) x hx
  · intro s hs
    obtain ⟨i, hi, hseps⟩ := List.mem_drop_iff_getElem.mp hs
    exact h.above (left.length + i) left.length s group
      (List.getElem?_eq_some_iff.mpr ⟨by omega, hseps⟩) hgroup (by omega) x hx

/-- A key between the separators beside a group lies between the groups beside it. -/
theorem lt_of_between (h : Separates seps (left ++ group :: right)) {k : κ}
    (hk : Between seps left.length k) :
    (∀ g ∈ left, ∀ x ∈ g, x < k) ∧ ∀ g ∈ right, ∀ x ∈ g, k < x := by
  have hcount := h.count
  rw [List.length_append, List.length_cons] at hcount
  constructor
  · intro g hg x hx
    obtain ⟨j, hj, rfl⟩ := List.mem_iff_getElem.mp hg
    have hsep : seps[left.length - 1]? = some seps[left.length - 1] :=
      List.getElem?_eq_getElem (show left.length - 1 < seps.length by omega)
    have hgroup : (left ++ group :: right)[j]? = some left[j] := by
      rw [List.getElem?_append_left hj, List.getElem?_eq_getElem hj]
    refine lt_of_lt_of_le (h.above _ j _ _ hsep hgroup (by omega) x hx) (hk.1 _ ?_)
    exact List.mem_take_iff_getElem.mpr ⟨left.length - 1, by omega, rfl⟩
  · intro g hg x hx
    obtain ⟨j, hj, rfl⟩ := List.mem_iff_getElem.mp hg
    have hlt : left.length < seps.length := by omega
    have hsep : seps[left.length]? = some seps[left.length] := List.getElem?_eq_getElem hlt
    have hgroup : (left ++ group :: right)[left.length + (j + 1)]? = some right[j] := by
      rw [List.getElem?_append_right (Nat.le_add_right _ _), Nat.add_sub_cancel_left,
        List.getElem?_cons_succ, List.getElem?_eq_getElem hj]
    refine lt_of_lt_of_le (hk.2 _ ?_) (h.below _ _ _ _ hsep hgroup (by omega) x hx)
    exact List.mem_drop_iff_getElem.mpr ⟨0, by omega, rfl⟩

/-- A group may be exchanged for one that lies between the same separators. -/
theorem replace (h : Separates seps (left ++ group :: right))
    (hother : ∀ x ∈ other, Between seps left.length x) :
    Separates seps (left ++ other :: right) := by
  have hget : ∀ j g, (left ++ other :: right)[j]? = some g → j ≠ left.length →
      (left ++ group :: right)[j]? = some g := by
    intro j g hj hne
    rcases Nat.lt_or_gt_of_ne hne with hlt | hgt
    · rwa [List.getElem?_append_left hlt] at hj ⊢
    · obtain ⟨d, rfl⟩ : ∃ d, j = left.length + (d + 1) := ⟨j - left.length - 1, by omega⟩
      rw [List.getElem?_append_right (by omega)] at hj ⊢
      simpa using hj
  have hself : ∀ g, (left ++ other :: right)[left.length]? = some g → g = other := by
    intro g hg
    simpa using hg.symm
  refine ⟨by simpa using h.count, ?_, ?_⟩
  · intro i j s g hs hg hij x hx
    by_cases hj : j = left.length
    · subst hj
      obtain rfl := hself g hg
      refine (hother x hx).2 s (List.mem_drop_iff_getElem.mpr ⟨i - left.length, ?_, ?_⟩)
      · have := (List.getElem?_eq_some_iff.mp hs).1
        omega
      · obtain ⟨hlt, rfl⟩ := List.getElem?_eq_some_iff.mp hs
        congr 1
        omega
    · exact h.above i j s g hs (hget j g hg hj) hij x hx
  · intro i j s g hs hg hij x hx
    by_cases hj : j = left.length
    · subst hj
      obtain rfl := hself g hg
      refine (hother x hx).1 s (List.mem_take_iff_getElem.mpr ⟨i, ?_, ?_⟩)
      · have := (List.getElem?_eq_some_iff.mp hs).1
        omega
      · exact (List.getElem?_eq_some_iff.mp hs).2
    · exact h.below i j s g hs (hget j g hg hj) hij x hx

end Separates

/-- The first members of all groups but the first, where these have members. -/
def Firsts (seps : List κ) (groups : List (List κ)) : Prop :=
  groups ≠ [] ∧ seps.map some = groups.tail.map List.head?

theorem pairwise_flatten_lt {groups : List (List κ)} (sorted : groups.flatten.Pairwise (· < ·))
    {i j : Nat} {g g' : List κ} (hg : groups[i]? = some g) (hg' : groups[j]? = some g')
    (hij : i < j) : ∀ x ∈ g, ∀ y ∈ g', x < y := by
  have hpair := (List.pairwise_flatten.mp sorted).2
  obtain ⟨hi, rfl⟩ := List.getElem?_eq_some_iff.mp hg
  obtain ⟨hj, rfl⟩ := List.getElem?_eq_some_iff.mp hg'
  exact List.pairwise_iff_getElem.mp hpair i j hi hj hij

theorem head?_le {g : List κ} {s : κ} (sorted : g.Pairwise (· < ·)) (h : g.head? = some s) :
    ∀ x ∈ g, s ≤ x := by
  cases g with
  | nil => cases h
  | cons a g =>
      obtain rfl : a = s := Option.some.inj h
      intro x hx
      rcases List.mem_cons.mp hx with rfl | hx
      · exact le_refl _
      · exact le_of_lt ((List.pairwise_cons.mp sorted).1 x hx)

theorem pairwise_of_getElem?_flatten {groups : List (List κ)} {j : Nat} {g : List κ}
    (sorted : groups.flatten.Pairwise (· < ·)) (hg : groups[j]? = some g) : g.Pairwise (· < ·) :=
  (List.pairwise_flatten.mp sorted).1 g (List.mem_of_getElem? hg)

/-- The first members of the groups of a sorted sequence separate them. -/
theorem Firsts.separates {seps : List κ} {groups : List (List κ)} (h : Firsts seps groups)
    (sorted : groups.flatten.Pairwise (· < ·)) : Separates seps groups := by
  obtain ⟨hne, hfirsts⟩ := h
  have hcount : groups.length = seps.length + 1 := by
    have := congrArg List.length hfirsts
    simp only [List.length_map, List.length_tail] at this
    have := List.length_pos_iff.mpr hne
    omega
  have hhead : ∀ i s, seps[i]? = some s → ∃ g, groups[i + 1]? = some g ∧ g.head? = some s := by
    intro i s hs
    have : (seps.map some)[i]? = some (some s) := by simp [hs]
    rw [hfirsts, List.getElem?_map, List.getElem?_tail] at this
    simpa using this
  refine ⟨hcount, ?_, ?_⟩
  · intro i j s g hs hg hij x hx
    obtain ⟨g', hg', hfirst⟩ := hhead i s hs
    exact pairwise_flatten_lt sorted hg hg' (by omega) x hx s (List.mem_of_head? hfirst)
  · intro i j s g hs hg hij x hx
    obtain ⟨g', hg', hfirst⟩ := hhead i s hs
    by_cases hj : j = i + 1
    · subst hj
      rw [hg] at hg'
      obtain rfl := Option.some.inj hg'
      exact head?_le (pairwise_of_getElem?_flatten sorted hg) hfirst x hx
    · exact le_of_lt
        (pairwise_flatten_lt sorted hg' hg (by omega) s (List.mem_of_head? hfirst) x hx)

namespace Separates

variable {seps : List κ} {groups : List (List κ)}

/-- A separator may be raised to the first member of the group after it. -/
theorem set_first (h : Separates seps groups) (sorted : groups.flatten.Pairwise (· < ·)) {i : Nat}
    {g : List κ} {s : κ} (hg : groups[i + 1]? = some g) (hfirst : g.head? = some s) :
    Separates (seps.set i s) groups := by
  have hget : ∀ k t, (seps.set i s)[k]? = some t → (k = i ∧ t = s) ∨ (k ≠ i ∧ seps[k]? = some t) := by
    intro k t ht
    rw [List.getElem?_set] at ht
    by_cases hk : i = k
    · rw [if_pos hk] at ht
      split at ht
      · exact .inl ⟨hk.symm, (Option.some.inj ht).symm⟩
      · cases ht
    · rw [if_neg hk] at ht
      exact .inr ⟨Ne.symm hk, ht⟩
  refine ⟨by simpa using h.count, ?_, ?_⟩
  · intro k j t g' ht hg' hkj x hx
    rcases hget k t ht with ⟨rfl, rfl⟩ | ⟨-, ht⟩
    · exact pairwise_flatten_lt sorted hg' hg (by omega) x hx _ (List.mem_of_head? hfirst)
    · exact h.above k j t g' ht hg' hkj x hx
  · intro k j t g' ht hg' hkj x hx
    rcases hget k t ht with ⟨rfl, rfl⟩ | ⟨-, ht⟩
    · by_cases hj : j = k + 1
      · subst hj
        rw [hg] at hg'
        obtain rfl := Option.some.inj hg'
        exact head?_le (pairwise_of_getElem?_flatten sorted hg) hfirst x hx
      · exact le_of_lt
          (pairwise_flatten_lt sorted hg hg' (by omega) _ (List.mem_of_head? hfirst) x hx)
    · exact h.below k j t g' ht hg' hkj x hx

/-- Between groups that have members the separators ascend. -/
theorem ascending (h : Separates seps groups) (filled : ∀ g ∈ groups, g ≠ []) :
    seps.Pairwise (· < ·) := by
  rw [List.pairwise_iff_getElem]
  intro i j hi hj hij
  have hcount := h.count
  have hgroup : groups[i + 1]? = some groups[i + 1] :=
    List.getElem?_eq_getElem (show i + 1 < groups.length by omega)
  obtain ⟨x, hx⟩ := List.exists_mem_of_ne_nil _ (filled _ (List.mem_of_getElem? hgroup))
  exact lt_of_le_of_lt
    (h.below i (i + 1) _ _ (List.getElem?_eq_getElem hi) hgroup (by omega) x hx)
    (h.above j (i + 1) _ _ (List.getElem?_eq_getElem hj) hgroup (by omega) x hx)

end Separates

/-- A key has a place among ascending separators: before the first one greater than it. -/
theorem exists_between {seps : List κ} (ascending : seps.Pairwise (· < ·)) (key : κ) :
    ∃ i ≤ seps.length, Between seps i key := by
  refine ⟨seps.findIdx fun s => key < s, List.findIdx_le_length, ?_, ?_⟩
  · intro s hs
    obtain ⟨i, hi, rfl⟩ := List.mem_take_iff_getElem.mp hs
    have hlt : i < seps.findIdx fun s => decide (key < s) := by omega
    have := List.not_of_lt_findIdx hlt
    simpa using this
  · intro s hs
    obtain ⟨i, hi, rfl⟩ := List.mem_drop_iff_getElem.mp hs
    have hlt : (seps.findIdx fun s => decide (key < s)) < seps.length := by omega
    have hfirst : key < seps[seps.findIdx fun s => decide (key < s)] := by
      simpa using List.findIdx_getElem (w := hlt)
    rcases Nat.eq_zero_or_pos i with rfl | hpos
    · simpa using hfirst
    · exact lt_trans hfirst
        (List.pairwise_iff_getElem.mp ascending _ _ hlt (by omega) (by omega))

end CwDb.Foundation
