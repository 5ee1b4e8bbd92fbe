/-
  Index/RangeSearch.lean --- `range_search`: from the leaf of the lower bound along the chain.
-/
import CwDb.Index.Contents
import Mathlib.Algebra.Order.BigOperators.Group.List

set_option autoImplicit false

namespace CwDb.Index

open CwDb.Cpp
open CwDb.Foundation
open LevelTree LevelContext

/-- The records of the keys from `low` to `high`. -/
def recordsBetween (low high : IndexKey) (items : List Item) : List UInt64 :=
  (items.filter fun e => low ≤ e.1 ∧ e.1 ≤ high).map Prod.snd

section Between

variable {low high : IndexKey} {as bs : List Item}

theorem recordsBetween_append : recordsBetween low high (as ++ bs) =
    recordsBetween low high as ++ recordsBetween low high bs := by
  rw [recordsBetween, List.filter_append, List.map_append]
  rfl

theorem recordsBetween_of_below (h : ∀ e ∈ as, e.1 < low) : recordsBetween low high as = [] := by
  have hnone : as.filter (fun e => low ≤ e.1 ∧ e.1 ≤ high) = [] := by
    rw [List.filter_eq_nil_iff]
    intro e he hmem
    exact absurd (of_decide_eq_true hmem).1 (not_le_of_gt (h e he))
  rw [recordsBetween, hnone, List.map_nil]

theorem recordsBetween_of_above (h : ∀ e ∈ as, high < e.1) : recordsBetween low high as = [] := by
  have hnone : as.filter (fun e => low ≤ e.1 ∧ e.1 ≤ high) = [] := by
    rw [List.filter_eq_nil_iff]
    intro e he hmem
    exact absurd (of_decide_eq_true hmem).2 (not_le_of_gt (h e he))
  rw [recordsBetween, hnone, List.map_nil]

end Between

namespace BStarPlusIndex

variable {idx : BStarPlusIndex} {H : Nat} {low high : IndexKey}

/-- The loop over the keys of one leaf finds what the leaf has of the range. -/
theorem scanKeys_eq (low high : IndexKey) {items : List Item} {records : List UInt64} {j : Nat}
    (behind : records.drop j = items.map Prod.snd)
    (sorted : (items.map Prod.fst).Pairwise (· < ·)) :
    ∃ past, scanKeys low high records j (items.map Prod.fst) =
        .ok (recordsBetween low high items, past) ∧
      (past = true → ∃ e ∈ items, high < e.1) := by
  induction items generalizing j with
  | nil => exact ⟨false, rfl, fun h => by cases h⟩
  | cons e items ih =>
      obtain ⟨key, record⟩ := e
      rw [List.map_cons] at behind
      have hrecord : vectorIndex records j = .ok record := by
        have hget : records[j]? = some record := by
          rw [← List.head?_drop, behind]
          rfl
        unfold vectorIndex
        rw [hget]
      have hbehind : records.drop (j + 1) = items.map Prod.snd := by
        rw [← List.drop_drop, behind]
        rfl
      rw [List.map_cons, List.pairwise_cons] at sorted
      obtain ⟨past, hscan, hpast⟩ := ih hbehind sorted.2
      have hcons : recordsBetween low high ((key, record) :: items) =
          recordsBetween low high [(key, record)] ++ recordsBetween low high items := by
        rw [← recordsBetween_append]
        rfl
      have hlater : past = true → ∃ e ∈ (key, record) :: items, high < e.1 := fun h => by
        obtain ⟨e, he, hhigh⟩ := hpast h
        exact ⟨e, List.mem_cons_of_mem _ he, hhigh⟩
      rw [List.map_cons, scanKeys, hcons]
      dsimp only
      split
      · rename_i hlow
        rw [recordsBetween_of_below (List.forall_mem_singleton.mpr hlow)]
        exact ⟨past, hscan, hlater⟩
      split
      · rename_i hhigh
        have habove : ∀ e ∈ items, high < e.1 := fun e he =>
          lt_trans hhigh (sorted.1 e.1 (List.mem_map_of_mem he))
        rw [recordsBetween_of_above (List.forall_mem_singleton.mpr hhigh),
          recordsBetween_of_above habove]
        exact ⟨true, rfl, fun _ => ⟨_, List.mem_cons_self, hhigh⟩⟩
      · rename_i hlow hhigh
        have hone : recordsBetween low high [(key, record)] = [record] := by
          rw [recordsBetween, List.filter_cons_of_pos (by simp [not_lt.mp hlow, not_lt.mp hhigh])]
          rfl
        rw [hone, hrecord, hscan]
        exact ⟨past, rfl, hlater⟩

/-- The loop over the leaves finds what they have of the range. -/
theorem rangeLoop_eq (low high : IndexKey) (sound : idx.Sound) :
    ∀ (fuel : Nat) (l : LeafPage) (ls : List LeafPage),
    (∀ k ∈ l :: ls, idx.readNode k.id = .ok k.node ∧ k.id < idx.disk.pageCount) →
      Chained invalidPageId (l :: ls) →
      (((l :: ls).flatMap LeafPage.items).map Prod.fst).Pairwise (· < ·) → ls.length < fuel →
      idx.rangeLoop low high fuel l.node =
        .ok (recordsBetween low high ((l :: ls).flatMap LeafPage.items))
  | 0, _, _, _, _, _, hfuel => absurd hfuel (Nat.not_lt_zero _)
  | fuel + 1, l, ls, stored, chained, sorted, hfuel => by
      have hallocated := (stored l List.mem_cons_self).2
      have hvalid := sound.ne_invalid hallocated
      have hinside : ¬ (l.node.pageId = invalidPageId ∨ idx.disk.pageCount ≤ l.node.pageId) := by
        rintro (h | h)
        · exact hvalid h
        · exact absurd hallocated (UInt64.not_lt.mpr h)
      rw [List.flatMap_cons, List.map_append, List.pairwise_append] at sorted
      obtain ⟨hl, hls, hcross⟩ := sorted
      have hbehind : l.node.records.drop 0 = l.items.map Prod.snd := rfl
      obtain ⟨past, hscan, hpast⟩ := scanKeys_eq low high hbehind hl
      change scanKeys low high l.node.records 0 l.node.keys = _ at hscan
      rw [rangeLoop, if_neg hinside, hscan, List.flatMap_cons, recordsBetween_append]
      change (if past = true ∨ l.node.nextLeafPageId = invalidPageId then _ else _) = _
      by_cases hstop : past = true ∨ l.node.nextLeafPageId = invalidPageId
      · have hrest : recordsBetween low high (ls.flatMap LeafPage.items) = [] := by
          rcases hstop with h | h
          · obtain ⟨e, he, hhigh⟩ := hpast h
            refine recordsBetween_of_above fun e' he' => lt_trans hhigh ?_
            exact hcross _ (List.mem_map_of_mem he) _ (List.mem_map_of_mem he')
          · cases ls with
            | nil => rfl
            | cons k ls =>
                have hnext : l.next = k.id := chained.1
                have hk := (stored k (List.mem_cons_of_mem _ List.mem_cons_self)).2
                exact absurd (hnext.symm.trans h) (sound.ne_invalid hk)
        rw [if_pos hstop, hrest, List.append_nil]
        rfl
      · cases ls with
        | nil => exact absurd (.inr chained.1) hstop
        | cons k ls =>
            have hnext : l.node.nextLeafPageId = k.id := chained.1
            have hread := (stored k (List.mem_cons_of_mem _ List.mem_cons_self)).1
            have hloop := rangeLoop_eq low high sound fuel k ls
              (fun j hj => stored j (List.mem_cons_of_mem _ hj)) chained.2 hls
              (Nat.lt_of_succ_lt_succ hfuel)
            rw [hnext] at hstop
            simp only [hnext, hstop, if_false, hread, bind, Except.bind, hloop]
            rfl

/-- There is a page for every leaf. -/
theorem Tree.length_leaves_le : ∀ {h : Nat} (t : Tree h), t.leaves.length ≤ t.pages.length
  | 0, _ => le_refl 1
  | h + 1, t => by
      cases t using Tree.branchCases with | branch b kids => ?_
      rw [leaves_branch, Tree.pages_branch, List.length_cons, List.length_flatMap,
        List.length_flatMap]
      exact Nat.le_succ_of_le (List.sum_le_sum fun k _ => length_leaves_le k)

theorem Represents.rangeSearch_eq {t : Tree H} (r : idx.Represents t)
    (validLow : validateKeyKind low idx.metadata.keyKind = .ok ())
    (validHigh : validateKeyKind high idx.metadata.keyKind = .ok ()) (ordered : ¬ high < low) :
    idx.rangeSearch low high = .ok (recordsBetween low high t.items) := by
  have holds := r.holds_whole
  obtain ⟨ctx, l, rfl, admits⟩ := r.exists_leaf low
  obtain ⟨o, -, -⟩ := r.opened
  have hleaf := r.findLeaf_eq admits
  have hleaves : (ctx.plug (leaf l)).leaves = ctx.leftLeaves ++ l :: ctx.rightLeaves := by
    rw [leaves_plug, leaves_leaf, List.append_assoc, List.singleton_append]
  have hwith : ctx.leavesWith [leaf l] = ctx.leftLeaves ++ l :: ctx.rightLeaves := by
    simp [Context.leavesWith]
  have hchained := o.chained
  have hsorted := o.sorted
  rw [hwith] at hchained hsorted
  have hstored : ∀ k ∈ l :: ctx.rightLeaves,
      idx.readNode k.id = .ok k.node ∧ k.id < idx.disk.pageCount := by
    intro k hk
    have hmem : k ∈ (ctx.plug (leaf l)).leaves := by
      rw [hleaves]
      exact List.mem_append_right _ hk
    exact ⟨holds.nodes _ (Tree.node_mem_nodes_of_mem_leaves hmem),
      holds.allocated _ (Tree.id_mem_pages_of_mem_leaves hmem)⟩
  have hright : (((l :: ctx.rightLeaves).flatMap LeafPage.items).map Prod.fst).Pairwise (· < ·) := by
    rw [List.map_flatMap]
    rw [List.flatMap_append] at hsorted
    exact (List.pairwise_append.mp hsorted).2.1
  have hbound : ctx.rightLeaves.length < idx.walkBound := by
    have hpages := length_pages_le holds.distinct holds.allocated
    have hcount := Tree.length_leaves_le (ctx.plug (leaf l))
    rw [hleaves, List.length_append, List.length_cons] at hcount
    unfold walkBound
    omega
  have hbelow : ∀ e ∈ ctx.leftLeaves.flatMap LeafPage.items, e.1 < low := by
    intro e he
    obtain ⟨k, hk, he⟩ := List.mem_flatMap.mp he
    exact (Context.Admits.between o.sized admits).1 k hk e.1 (List.mem_map_of_mem he)
  have hloop := rangeLoop_eq low high o.sound idx.walkBound l ctx.rightLeaves
    hstored (linked_append.mp hchained).2 hright hbound
  rw [rangeSearch, validLow, validHigh]
  simp only [bind, Except.bind, r.empty_eq, Bool.false_eq_true, ordered, or_self, if_false, hleaf,
    hloop]
  rw [Tree.items, hleaves, List.flatMap_append, recordsBetween_append,
    recordsBetween_of_below hbelow, List.nil_append]

/-- `range_search` finds what the map has of the range, by ascending key. -/
theorem Contents.rangeSearch_eq {m : OrderedMap IndexKey UInt64} (c : idx.Contents m)
    (validLow : validateKeyKind low idx.metadata.keyKind = .ok ())
    (validHigh : validateKeyKind high idx.metadata.keyKind = .ok ()) :
    idx.rangeSearch low high = .ok (m.range low high) := by
  have hrange : m.range low high = recordsBetween low high m.entries := rfl
  by_cases hempty : idx.metadata.empty = true ∨ high < low
  · have hnone : m.range low high = [] := by
      rcases hempty with h | h
      · rcases c.cases with ⟨-, hnil⟩ | ⟨H, t, r, -⟩
        · rw [hrange, hnil]
          rfl
        · rw [r.empty_eq] at h
          cases h
      · rw [hrange, recordsBetween, List.filter_eq_nil_iff.mpr, List.map_nil]
        intro e _ hmem
        obtain ⟨hlow, hhigh⟩ := of_decide_eq_true hmem
        exact absurd h (not_lt_of_ge (le_trans hlow hhigh))
    rw [rangeSearch, validLow, validHigh, hnone]
    simp only [bind, Except.bind, hempty, if_true]
    rfl
  · rw [not_or] at hempty
    rcases c.cases with ⟨h, -⟩ | ⟨H, t, r, hitems⟩
    · exact absurd h hempty.1
    · rw [r.rangeSearch_eq validLow validHigh hempty.2, hitems, hrange]

end BStarPlusIndex
end CwDb.Index
