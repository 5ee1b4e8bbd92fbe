/-
  Index/Insertion.lean --- `insert`: from the leaf of the key up to the root.
-/
import CwDb.Index.Contents

set_option autoImplicit false

namespace CwDb.Index

open CwDb.Cpp
open CwDb.Foundation
open LevelTree LevelContext

namespace BStarPlusIndex

variable {idx idx' : BStarPlusIndex} {H : Nat} {ctx : Context 0 H} {l y z : LeafPage}
  {items : List Item} {Q : PUnit → BStarPlusIndex → Prop} {E : Fault → BStarPlusIndex → Prop}
  {b : BranchPage} {left right : List (Tree 0)} {up : Context 1 H}

/-! ## Giving an item to a sibling -/

/-- `try_give_to_right_leaf`. -/
theorem Changed.ends_giveRight {Q : Bool → BStarPlusIndex → Prop}
    (p : idx.Changed (frame b left right up) l items)
    (count : l.items.length = maxLeafKeyCount idx.metadata.keyKind + 1)
    (hdone : ∀ idx' t, right.head? = some t →
      (LeafPage.items t).length < maxLeafKeyCount idx.metadata.keyKind →
      idx.Mended idx' H items (Context.Filled idx.metadata.keyKind (frame b left right up)) True →
      Q true idx')
    (hnot : (∀ t : Tree 0, right.head? = some t →
      (LeafPage.items t).length = maxLeafKeyCount idx.metadata.keyKind) → Q false idx) :
    Ends (tryGiveToRightLeaf l.node (b.node (left.map Tree.id ++ l.id :: right.map Tree.id))
      left.length) idx Q E := by
  have hnext := getElem?_append_cons (left.map Tree.id) (right.map Tree.id) l.id
  rw [List.length_map, List.head?_map] at hnext
  rw [tryGiveToRightLeaf, BranchPage.children_node, hnext]
  cases right with
  | nil => exact hnot nofun
  | cons t right =>
      cases t using Tree.leafCases with | leaf z => ?_
      have hpair := p.pairRight
      have hz : idx.Holds false (leaf z : Tree 0) := p.open.holds_sides _ (by simp)
      have hleast : minLeafKeyCount idx.metadata.keyKind ≤ maxLeafKeyCount idx.metadata.keyKind :=
        minLeafKeyCount_le p.open.sound.kind
      have hmax := leastItems_le_maxLeafKeyCount p.open.sound.kind
      have hpos := leastItems_pos p.open.sound.kind false
      have hzleast : leastItems idx.metadata.keyKind false ≤ z.items.length :=
        LeafPage.Sized.least hz.sized
      have hzmost : z.items.length ≤ maxLeafKeyCount idx.metadata.keyKind :=
        LeafPage.Sized.most hz.sized
      obtain ⟨lid, lnext, litems⟩ := l
      obtain rfl : lnext = z.id := hpair.next
      obtain ⟨start, e, rfl⟩ := List.eq_nil_or_concat litems |>.resolve_left
        (List.length_pos_iff.mp (Nat.lt_of_lt_of_eq (Nat.succ_pos _) count.symm))
      rw [List.concat_eq_append] at *
      have hlength : start.length = maxLeafKeyCount idx.metadata.keyKind := by
        simpa using count
      have hadmissible : ∀ i ∈ start ++ e :: z.items, Admissible idx.metadata.keyKind i.1 := by
        simpa using hpair.admissible
      have hfirst : idx.nodeFitsPage (LeafPage.node ⟨z.id, z.next, e :: z.items⟩) =
          .ok (decide (z.items.length + 1 ≤ maxLeafKeyCount idx.metadata.keyKind)) :=
        nodeFitsPage_leaf p.open.sound (fun i hi => hadmissible i (List.mem_append_right _ hi))
          (show z.items.length + 1 ≤ _ by omega)
      have hsecond : idx.nodeFitsPage (LeafPage.node ⟨lid, z.id, start⟩) =
          .ok (decide (start.length ≤ maxLeafKeyCount idx.metadata.keyKind)) :=
        nodeFitsPage_leaf p.open.sound (fun i hi => hadmissible i (List.mem_append_left _ hi))
          (show start.length ≤ _ by omega)
      have hempty : (start.map Prod.fst).isEmpty = false := by
        rw [List.isEmpty_map, List.isEmpty_eq_false_iff]
        exact List.length_pos_iff.mp (by omega)
      simp only [List.head?_cons, Option.map_some]
      rw [ends_bind]
      refine ends_reading hz.readNode ?_
      simp only [Tree.node_leaf, LeafPage.isLeaf_node, Bool.not_true, Bool.false_eq_true, if_false,
        LeafPage.keys_node, LeafPage.records_node, List.map_append, List.map_cons, List.map_nil,
        List.getLast?_append, List.getLast?_singleton, Option.some_or, List.dropLast_concat, hempty]
      rw [ends_bind]
      refine ends_reading (nodesFitPage_pair hfirst hsecond) ?_
      rw [decide_eq_true (Nat.le_of_eq hlength), Bool.and_true]
      by_cases hroom : z.items.length + 1 ≤ maxLeafKeyCount idx.metadata.keyKind
      · rw [decide_eq_true hroom]
        simp only [Bool.not_true, Bool.false_eq_true, if_false]
        rw [ends_bind]
        have hids : left.map Tree.id ++ lid :: Tree.id (leaf z) :: right.map Tree.id =
            (left ++ [leaf (LeafPage.mk lid z.id (start ++ [e])), leaf z] ++ right).map Tree.id := by
          simp
        rw [hids]
        refine hpair.ends_writeSiblings rfl start (e :: z.items) (by simp)
          ⟨by omega, by omega, by rw [List.length_cons]; omega, by rw [List.length_cons]; omega⟩
          fun idx' same r content => ?_
        refine hdone idx' (leaf z) rfl hroom ((r.settled same).mended_shared content rfl ?_ ?_ ?_)
        · intro k hk
          rcases List.mem_append.mp hk with hk | hk
          · exact List.mem_append_left _ hk
          · exact List.mem_append_right _ (List.mem_cons_of_mem _ hk)
        · rw [List.length_cons]
          omega
        · intro hsides
          have hzfilled := Tree.filled_leaf.mp (hsides (leaf z) (by simp))
          rw [Bool.false_eq_true, false_or] at hzfilled
          rw [List.length_cons]
          omega
      · rw [decide_eq_false hroom]
        refine hnot fun t ht => ?_
        cases ht
        exact Nat.le_antisymm hzmost (Nat.not_lt.mp hroom)

/-- `try_give_to_left_leaf`. -/
theorem Changed.ends_giveLeft {Q : Bool → BStarPlusIndex → Prop}
    (p : idx.Changed (frame b left right up) l items)
    (count : l.items.length = maxLeafKeyCount idx.metadata.keyKind + 1)
    (hdone : ∀ idx' t, left.getLast? = some t →
      (LeafPage.items t).length < maxLeafKeyCount idx.metadata.keyKind →
      idx.Mended idx' H items (Context.Filled idx.metadata.keyKind (frame b left right up)) True →
      Q true idx')
    (hnot : (∀ t : Tree 0, left.getLast? = some t →
      (LeafPage.items t).length = maxLeafKeyCount idx.metadata.keyKind) → Q false idx) :
    Ends (tryGiveToLeftLeaf l.node (b.node (left.map Tree.id ++ l.id :: right.map Tree.id))
      left.length) idx Q E := by
  rcases List.eq_nil_or_concat left with rfl | ⟨left, t, rfl⟩
  · exact hnot nofun
  · rw [List.concat_eq_append] at p hdone hnot ⊢
    cases t using Tree.leafCases with | leaf y => ?_
    have hpair := p.pairLeft
    have hy : idx.Holds false (leaf y : Tree 0) := p.open.holds_sides _ (by simp)
    have hmin := minLeafKeyCount_le p.open.sound.kind
    have hmax := leastItems_le_maxLeafKeyCount p.open.sound.kind
    have hpos := leastItems_pos p.open.sound.kind false
    have hyleast : leastItems idx.metadata.keyKind false ≤ y.items.length :=
      LeafPage.Sized.least hy.sized
    have hymost : y.items.length ≤ maxLeafKeyCount idx.metadata.keyKind :=
      LeafPage.Sized.most hy.sized
    have hnext : y.next = l.id := hpair.next
    obtain ⟨lid, lnext, litems⟩ := l
    obtain ⟨e, rest, rfl⟩ := List.exists_cons_of_length_pos
      (Nat.lt_of_lt_of_eq (Nat.succ_pos _) count.symm)
    have hlength : rest.length = maxLeafKeyCount idx.metadata.keyKind := Nat.succ.inj count
    have hadmissible : ∀ i ∈ (y.items ++ [e]) ++ rest, Admissible idx.metadata.keyKind i.1 := by
      simpa using hpair.admissible
    have hlengthLeft : (y.items ++ [e]).length = y.items.length + 1 := by simp
    have hfirst : idx.nodeFitsPage (LeafPage.node ⟨y.id, y.next, y.items ++ [e]⟩) =
        .ok (decide ((y.items ++ [e]).length ≤ maxLeafKeyCount idx.metadata.keyKind)) :=
      nodeFitsPage_leaf p.open.sound (fun i hi => hadmissible i (List.mem_append_left _ hi))
        (by rw [hlengthLeft]; omega)
    have hsecond : idx.nodeFitsPage (LeafPage.node ⟨lid, lnext, rest⟩) =
        .ok (decide (rest.length ≤ maxLeafKeyCount idx.metadata.keyKind)) :=
      nodeFitsPage_leaf p.open.sound (fun i hi => hadmissible i (List.mem_append_right _ hi))
        (show rest.length ≤ _ by omega)
    have hempty : (rest.map Prod.fst).isEmpty = false := by
      rw [List.isEmpty_map, List.isEmpty_eq_false_iff]
      exact List.length_pos_iff.mp (by omega)
    have hnode : (LeafPage.node ⟨y.id, y.next, y.items ++ [e]⟩) =
        { y.node with
          isLeaf := true,
          keys := y.items.map Prod.fst ++ [e.1],
          records := y.items.map Prod.snd ++ [e.2] } := by
      simp [LeafPage.node]
    have hvector : vectorAt ((left ++ [leaf y]).map Tree.id ++ lid :: right.map Tree.id)
        left.length = .ok (Tree.id (leaf y)) := by
      rw [vectorAt_eq_ok]
      simp
    rw [List.length_append, List.length_singleton, tryGiveToLeftLeaf, BranchPage.children_node]
    simp only [LeafPage.keys_node, LeafPage.records_node, List.map_cons, List.isEmpty_cons,
      Bool.false_eq_true, if_false]
    rw [hvector, fromExcept_ok, pure_bind, ends_bind]
    refine ends_reading hy.readNode ?_
    simp only [Tree.node_leaf, LeafPage.isLeaf_node, Bool.not_true, Bool.false_eq_true, if_false,
      LeafPage.keys_node, LeafPage.records_node, hempty, ← hnode]
    rw [ends_bind]
    refine ends_reading (nodesFitPage_pair hfirst hsecond) ?_
    rw [decide_eq_true (Nat.le_of_eq hlength), Bool.and_true, hlengthLeft]
    by_cases hroom : y.items.length + 1 ≤ maxLeafKeyCount idx.metadata.keyKind
    · rw [decide_eq_true hroom]
      simp only [Bool.not_true, Bool.false_eq_true, if_false]
      rw [ends_bind]
      have hids : (left ++ [leaf y]).map Tree.id ++ lid :: right.map Tree.id =
          (left ++ [leaf y, leaf (LeafPage.mk lid lnext (e :: rest))] ++ right).map Tree.id := by
        simp
      rw [hids, hnext]
      refine hpair.ends_writeSiblings rfl (y.items ++ [e]) rest (by simp)
        ⟨by omega, by omega, by omega, by omega⟩ fun idx' same r content => ?_
      refine hdone idx' (leaf y) (by simp) hroom ((r.settled same).mended_shared content rfl ?_ ?_ ?_)
      · intro k hk
        rcases List.mem_append.mp hk with hk | hk
        · exact List.mem_append_left _ (List.mem_append_left _ hk)
        · exact List.mem_append_right _ hk
      · rw [List.length_append, List.length_singleton]
        omega
      · intro hsides
        have hyfilled := Tree.filled_leaf.mp (hsides (leaf y) (by simp))
        rw [Bool.false_eq_true, false_or] at hyfilled
        omega
    · rw [decide_eq_false hroom]
      refine hnot fun t ht => ?_
      obtain rfl : leaf y = t := by simpa using ht
      exact Nat.le_antisymm hymost (Nat.not_lt.mp hroom)

/-! ## Splitting a leaf -/

/-- Two full leaves are split into three, and their parent is repaired. -/
theorem LeafPair.ends_splitUp (p : idx.LeafPair up b.id left y z right items)
    (full : ∀ idx', idx'.disk.Full → ∀ e, E e idx')
    (total : (y.items ++ z.items).length = 2 * maxLeafKeyCount idx.metadata.keyKind + 1) :
    Ends (splitLeafPair (splitInternal (b.id :: up.path)) y.node z.node
      (b.node ((left ++ [leaf y, leaf z] ++ right).map Tree.id)) left.length) idx
      (fun _ idx' => idx.Mended idx' H items
        ((up.isTop = true ∨
          minInternalKeyCount idx.metadata.keyKind + 1 ≤ left.length + 2 + right.length) ∧
          (∀ k ∈ left ++ right, Tree.Filled idx.metadata.keyKind false k) ∧
          up.Filled idx.metadata.keyKind)
        (left.length + right.length + 2 ≤ maxInternalKeyCount idx.metadata.keyKind ∨
          (idx.metadata.keyKind = .int64 → up.HasRoom idx.metadata.keyKind))) E := by
  refine p.ends_split full total fun idx' G same three hG pending => ?_
  have hkind : idx'.metadata.keyKind = idx.metadata.keyKind := by rw [same]
  have hlength : (left ++ leafTrees z.next G ++ right).length =
      left.length + 3 + right.length := by
    have hrow := congrArg List.length (id_leafRow z.next G)
    simp only [List.length_map] at hrow
    rw [List.length_append, List.length_append, leafTrees, List.length_map, hrow, three]
  have hleast := p.least
  have hmost := p.most
  refine pending.ends_writeOrSplit rfl (by rw [hkind]; omega) (by rw [hkind]; omega) ?_ ?_
  · intro hcount idx'' settled content
    rw [hkind] at hcount
    refine (settled.of_metadata same).mended content ?_
    rintro ⟨hparent, hsides, hup⟩
    rw [filled_leafParent rfl]
    constructor
    · intro _
      exact .inl (by omega)
    · intro _
      exact ⟨hparent.imp_right fun h => by omega, hsides, hG, hup⟩
  · intro hcount
    rw [hkind] at hcount
    refine (pending.ends_splitInternal full up (hkind ▸ hcount)).mono
      (fun _ idx'' repaired => ?_) fun _ _ he => he
    rw [Repaired, hkind] at repaired
    refine (repaired.of_metadata same).imp (fun given => given.2.2) ?_
    rintro ⟨-, hsides, -⟩
    have hkids : ∀ k ∈ left ++ leafTrees z.next G ++ right,
        Tree.Filled idx.metadata.keyKind false k := by
      intro k hk
      rcases List.mem_append.mp hk with hk | hk
      · rcases List.mem_append.mp hk with hk | hk
        · exact hsides k (List.mem_append_left _ hk)
        · obtain ⟨l, rfl, g, hg, -, hl⟩ := mem_leafTrees hk
          exact Tree.filled_leaf.mpr (.inr (hl ▸ hG g hg))
      · exact hsides k (List.mem_append_right _ hk)
    constructor
    · rintro ⟨-, hroom⟩
      exact .inr hroom
    · rintro (hfew | hroom)
      · omega
      · exact ⟨hkids, hroom⟩

/-- `split_leaf` on a leaf with full siblings. -/
theorem Changed.ends_splitWithSibling {path : List PageId}
    (p : idx.Changed (frame b left right up) l items)
    (count : l.items.length = maxLeafKeyCount idx.metadata.keyKind + 1)
    (full : ∀ idx', idx'.disk.Full → ∀ e, E e idx')
    (fullRight : ∀ t : Tree 0, right.head? = some t →
      (LeafPage.items t).length = maxLeafKeyCount idx.metadata.keyKind)
    (fullLeft : ∀ t : Tree 0, left.getLast? = some t →
      (LeafPage.items t).length = maxLeafKeyCount idx.metadata.keyKind) :
    Ends (splitLeafWithSibling (splitInternal (b.id :: up.path)) l.node
      (b.node (left.map Tree.id ++ l.id :: right.map Tree.id)) left.length path) idx
      (fun _ idx' => idx.Mended idx' H items
        (Context.Filled idx.metadata.keyKind (frame b left right up))
        (Context.SplitsEvenly idx.metadata.keyKind (frame b left right up))) E := by
  have hnext := getElem?_append_cons (left.map Tree.id) (right.map Tree.id) l.id
  rw [List.length_map, List.head?_map] at hnext
  have hcounts := p.counts
  have htwo := leastKids_two p.open.sound.kind up.isTop
  cases right with
  | cons t right =>
      cases t using Tree.leafCases with | leaf z => ?_
      have hz : idx.Holds false (leaf z : Tree 0) := p.open.holds_sides _ (by simp)
      have hzfull : z.items.length = maxLeafKeyCount idx.metadata.keyKind := fullRight _ rfl
      have hids : left.map Tree.id ++ l.id :: (leaf z :: right : List (Tree 0)).map Tree.id =
          (left ++ [leaf l, leaf z] ++ right).map Tree.id := by simp
      unfold splitLeafWithSibling
      simp only [BranchPage.children_node, hnext, List.head?_cons, Option.map_some]
      rw [ends_bind]
      refine ends_reading hz.readNode ?_
      simp only [Tree.node_leaf, LeafPage.isLeaf_node, Bool.not_true, Bool.false_eq_true, if_false]
      rw [hids]
      refine (p.pairRight.ends_splitUp full
        (by rw [List.length_append, count, hzfull]; omega)).mono
        (fun _ idx' mended => ?_) fun _ _ he => he
      refine mended.imp (fun given => ?_) fun given => ?_
      · obtain ⟨hcount, hsides, hup⟩ := Context.filled_frame.mp given
        simp only [List.length_cons] at hcount
        refine ⟨hcount.imp_right fun h => by omega, fun k hk => hsides k ?_, hup⟩
        rcases List.mem_append.mp hk with hk | hk
        · exact List.mem_append_left _ hk
        · exact List.mem_append_right _ (List.mem_cons_of_mem _ hk)
      · refine or_congr_left ?_
        rw [List.length_cons]
        omega
  | nil =>
      rcases List.eq_nil_or_concat left with rfl | ⟨left, t, rfl⟩
      · simp only [List.length_nil] at hcounts
        omega
      · rw [List.concat_eq_append] at p fullLeft hnext ⊢
        cases t using Tree.leafCases with | leaf y => ?_
        have hy : idx.Holds false (leaf y : Tree 0) := p.open.holds_sides _ (by simp)
        have hyfull : y.items.length = maxLeafKeyCount idx.metadata.keyKind :=
          fullLeft (leaf y) (by simp)
        have hids : (left ++ [leaf y]).map Tree.id ++ l.id :: ([] : List (Tree 0)).map Tree.id =
            (left ++ [leaf y, leaf l] ++ []).map Tree.id := by simp
        have hvector : vectorAt ((left ++ [leaf y]).map Tree.id ++
            l.id :: ([] : List (Tree 0)).map Tree.id) left.length = .ok (Tree.id (leaf y)) := by
          rw [vectorAt_eq_ok]
          simp
        rw [List.length_append, List.length_singleton] at hnext ⊢
        unfold splitLeafWithSibling
        simp only [BranchPage.children_node, hnext, List.head?_nil, Option.map_none]
        rw [hvector, fromExcept_ok, pure_bind, ends_bind]
        refine ends_reading hy.readNode ?_
        simp only [Tree.node_leaf, LeafPage.isLeaf_node, Bool.not_true, Bool.false_eq_true,
          if_false]
        rw [hids]
        refine (p.pairLeft.ends_splitUp full
          (by rw [List.length_append, count, hyfull]; omega)).mono
          (fun _ idx' mended => ?_) fun _ _ he => he
        refine mended.imp (fun given => ?_) fun given => ?_
        · obtain ⟨hcount, hsides, hup⟩ := Context.filled_frame.mp given
          simp only [List.length_append, List.length_singleton] at hcount
          refine ⟨hcount.imp_right fun h => by omega, fun k hk => hsides k ?_, hup⟩
          rcases List.mem_append.mp hk with hk | hk
          · exact List.mem_append_left _ (List.mem_append_left _ hk)
          · exact List.mem_append_right _ hk
        · refine or_congr_left ?_
          rw [List.length_append, List.length_singleton, List.length_nil]
          omega

/-- `split_leaf` on the root. -/
theorem Changed.ends_splitRoot {split : IndexNode → IndexM PUnit}
    (p : idx.Changed (top : Context 0 0) l items)
    (count : l.items.length = maxLeafKeyCount idx.metadata.keyKind + 1)
    (full : ∀ idx', idx'.disk.Full → ∀ e, E e idx')
    (hQ : ∀ idx' (t : Tree 1), idx'.Represents t → t.items = items →
      idx'.metadata.keyKind = idx.metadata.keyKind → idx'.metadata.size = idx.metadata.size →
      Q ⟨⟩ idx') :
    Ends (splitLeafInTwo split l.node [l.id]) idx Q E := by
  rw [splitLeafInTwo, ends_bind]
  refine ends_allocatePage p.open.sound (full _) fun idx₁ touches hcount => ?_
  have hopen := p.open.grow touches
  have hnew : idx.disk.pageCount < idx₁.disk.pageCount := by
    rw [UInt64.lt_iff_toNat_lt]
    omega
  have hl : l.id < idx.disk.pageCount := p.open.allocated _ (by simp)
  have hne : l.id ≠ idx.disk.pageCount := fun heq => UInt64.lt_irrefl _ (heq ▸ hl)
  have hl₁ : l.id < idx₁.disk.pageCount := lt_trans hl hnew
  have hkind := touches.kind
  generalize idx.disk.pageCount = new at hnew hne
  generalize hn : l.items.length / 2 = n
  have hleast : leastItems idx.metadata.keyKind false =
    (maxLeafKeyCount idx.metadata.keyKind + 1) / 2 := rfl
  have hpos := leastItems_pos p.open.sound.kind false
  have hready : ∀ (i next : PageId) (part : List Item), (∀ e ∈ part, e ∈ l.items) →
      leastItems idx.metadata.keyKind false ≤ part.length →
      part.length ≤ maxLeafKeyCount idx.metadata.keyKind →
      idx₁.Ready false (leaf ⟨i, next, part⟩ : Tree 0) := by
    intro i next part hsub hfew hmany
    refine ⟨nofun, hkind ▸ hfew, hkind ▸ hmany, fun e he => ?_⟩
    rw [hkind]
    exact p.admissible e (hsub e he)
  have hhalves : idx₁.Open (top : Context 0 0) l.id
      [leaf ⟨l.id, new, l.items.take n⟩, leaf ⟨new, l.next, l.items.drop n⟩] := by
    refine hopen.exchange ?_ (fun s => rfl) ?_ ?_ ?_
    · simp
    · intro s hs
      exact ⟨rfl, hs.1, trivial⟩
    · simpa using hne
    · intro q hq
      simp only [List.flatMap_cons, List.flatMap_nil, Tree.pages_leaf, List.append_nil,
        List.cons_append, List.nil_append, List.mem_cons, List.not_mem_nil, or_false] at hq
      refine ⟨List.not_mem_nil, ?_⟩
      rcases hq with rfl | rfl
      · exact hl₁
      · exact hnew
  obtain ⟨e, rest, hdrop⟩ : ∃ e rest, l.items.drop n = e :: rest := by
    refine List.exists_cons_of_length_pos ?_
    rw [List.length_drop]
    omega
  have hkeys : (l.items.drop n).map Prod.fst = e.1 :: rest.map Prod.fst := by
    rw [hdrop, List.map_cons]
  have hlength : (l.items.map Prod.fst).length / 2 = n := by
    rw [List.length_map]
    exact hn
  simp only [LeafPage.keys_node, LeafPage.records_node, hlength, ← List.map_take, ← List.map_drop,
    hkeys]
  have hdone := Open.ends_newRoot split e.1 (Q := Q) (E := E) hhalves
    (hready l.id new _ (fun _ he => List.mem_of_mem_take he) (by rw [List.length_take]; omega)
      (by rw [List.length_take]; omega))
    (hready new l.next _ (fun _ he => List.mem_of_mem_drop he) (by rw [List.length_drop]; omega)
      (by rw [List.length_drop]; omega))
    (by
      rw [Tree.keys_leaf, LeafPage.keys, hkeys]
      rfl) full fun idx' root r hkind' hsize => ?_
  · simp only [Tree.node_leaf, LeafPage.node, hkeys] at hdone
    exact hdone
  · refine hQ idx' _ r ?_ (hkind'.trans hkind) (hsize.trans (by rw [touches.metadata]))
    rw [← p.content, Context.itemsWith_eq]
    simp [leftLeaves, rightLeaves]

/-- `split_leaf`. -/
theorem Changed.ends_splitLeaf (full : ∀ idx', idx'.disk.Full → ∀ e, E e idx') :
    ∀ {H : Nat} {ctx : Context 0 H}, idx.Changed ctx l items →
      l.items.length = maxLeafKeyCount idx.metadata.keyKind + 1 →
      Ends (splitLeaf l.node (l.id :: ctx.path)) idx
        (fun _ idx' => idx.Mended idx' H items (ctx.Filled idx.metadata.keyKind)
          (ctx.HasRoomForItem idx.metadata.keyKind ∨ ctx.SplitsEvenly idx.metadata.keyKind)) E
  | _, top, p, count => by
      have hpath : Context.path (top : Context 0 0) = [] := rfl
      rw [hpath, splitLeaf]
      simp only [LeafPage.isLeaf_node, Bool.not_true, LeafPage.pageId_node, ne_eq,
        not_true_eq_false, Bool.false_eq_true, if_false, List.head?_nil]
      refine p.ends_splitRoot count full fun idx' t r content hkind hsize => ?_
      exact ⟨⟨1, t, r, content, fun _ => Nat.zero_le _, fun hH => absurd hH Nat.one_ne_zero⟩, hkind,
        hsize⟩
  | H, frame b left right up, p, count => by
      have hplace := p.open.idxOf?_hole (by simp)
      have hpath : Context.path (frame b left right up) = b.id :: Context.path up := rfl
      rw [hpath, splitLeaf]
      simp only [LeafPage.isLeaf_node, Bool.not_true, LeafPage.pageId_node, ne_eq,
        not_true_eq_false, Bool.false_eq_true, if_false, List.head?_cons]
      rw [ends_bind]
      refine ends_reading p.open.readParent ?_
      simp only [BranchPage.isLeaf_node, Bool.false_eq_true, if_false, BranchPage.children_node,
        hplace]
      rw [ends_bind]
      refine p.ends_giveRight count (fun idx' t ht hroom mended => ?_) fun fullRight => ?_
      · refine mended.imp id fun _ => ?_
        exact iff_of_true trivial (.inl ⟨t, .inl ht, hroom⟩)
      simp only [Bool.false_eq_true, if_false]
      rw [ends_bind]
      refine p.ends_giveLeft count (fun idx' t ht hroom mended => ?_) fun fullLeft => ?_
      · refine mended.imp id fun _ => ?_
        exact iff_of_true trivial (.inl ⟨t, .inr ht, hroom⟩)
      simp only [Bool.false_eq_true, if_false]
      refine (p.ends_splitWithSibling count full fullRight fullLeft).mono
        (fun _ idx' mended => mended.imp id fun _ => ?_) fun _ _ he => he
      refine (or_iff_right ?_).symm
      rintro ⟨t, ht | ht, hroom⟩
      · have := fullRight t ht
        omega
      · have := fullLeft t ht
        omega

/-! ## The leaf has got the key -/

/-- What an operation leaves behind: as `Mended`, with the count of the keys, and saved. -/
structure Finished (idx idx' : BStarPlusIndex) (H : Nat) (items : List Item) (size : UInt64)
    (given fill : Prop) : Prop where
  tree : ∃ (H' : Nat) (t : Tree H'), idx'.Represents t ∧ t.items = items ∧ (given → H ≤ H') ∧
    (H' = H → given → (t.Filled idx.metadata.keyKind true ↔ fill))
  kind : idx'.metadata.keyKind = idx.metadata.keyKind
  size : idx'.metadata.size = size
  saved : idx'.disk.readMetadata = idx'.metadata

theorem Mended.ends_save {given fill : Prop} (g : idx.Mended idx' H items given fill) :
    Ends (do modifyMetadata fun m => { m with size := m.size + 1 }
             saveMetadata) idx'
      (fun _ idx'' => idx.Finished idx'' H items (idx.metadata.size + 1) given fill) E := by
  obtain ⟨⟨H', t, r, content, hheight, hfill⟩, hkind, hsize⟩ := g
  rw [ends_bind]
  refine ends_modifyMetadata ?_
  rw [saveMetadata, ends_modify]
  refine ⟨⟨H', t, (r.withSize _).save _, content, hheight, hfill⟩, hkind, ?_,
    readMetadata_writeMetadata _ _⟩
  change idx'.metadata.size + 1 = _
  rw [hsize]

/-- A leaf that has got an item is written or split. -/
theorem Changed.ends_insertIntoLeaf (p : idx.Changed ctx l items)
    (least : leastItems idx.metadata.keyKind ctx.isTop ≤ l.items.length)
    (most : l.items.length ≤ maxLeafKeyCount idx.metadata.keyKind + 1)
    (full : ∀ idx', idx'.disk.Full → ∀ e, E e idx') :
    Ends (insertIntoLeaf l.node (l.id :: ctx.path)) idx
      (fun _ idx' => idx.Finished idx' H items (idx.metadata.size + 1)
        (Tree.Filled idx.metadata.keyKind ctx.isTop (leaf l : Tree 0) ∧
          ctx.Filled idx.metadata.keyKind)
        (l.items.length ≤ maxLeafKeyCount idx.metadata.keyKind ∨
          ctx.HasRoomForItem idx.metadata.keyKind ∨ ctx.SplitsEvenly idx.metadata.keyKind)) E := by
  have hpos := leastItems_le_maxLeafKeyCount p.open.sound.kind
  have hone := leastItems_pos p.open.sound.kind false
  have hfits := nodeFitsPage_leaf p.open.sound p.admissible (by omega)
  rw [insertIntoLeaf, ends_bind]
  refine ends_reading hfits ?_
  by_cases hroom : l.items.length ≤ maxLeafKeyCount idx.metadata.keyKind
  · rw [decide_eq_true hroom]
    simp only [if_true]
    rw [ends_bind]
    refine p.ends_write least hroom fun idx' same r content => ?_
    refine Mended.ends_save ((r.settled same).mended content fun given => ?_)
    rw [filled_plug]
    exact iff_of_true given (.inl hroom)
  · rw [decide_eq_false hroom]
    simp only [Bool.false_eq_true, if_false]
    rw [ends_bind]
    refine (p.ends_splitLeaf full (by omega)).mono (fun _ idx' mended => ?_) fun _ _ he => he
    refine Mended.ends_save (mended.imp (fun given => given.2) fun _ => ?_)
    exact (or_iff_right hroom).symm

/-- `insert` of a key that the index has throws, and changes nothing. -/
theorem Represents.insert_present {key : IndexKey} {record : UInt64} {t : Tree H}
    {m : OrderedMap IndexKey UInt64} (r : idx.Represents t) (content : t.items = m.entries)
    (valid : validateKeyKind key idx.metadata.keyKind = .ok ())
    (present : m.find? key ≠ none) : insert key record idx =
      .error (.throws .invalidArgument (text "Duplicate index key")) idx := by
  obtain ⟨ctx, l, rfl, admits⟩ := r.exists_leaf key
  obtain ⟨before, after, place, hafter⟩ := r.place admits
  have hleaf := r.findLeaf_eq admits
  rw [place.items_plug] at content
  rcases hafter with ⟨old, rest, rfl, hrest⟩ | hafter
  · have hkey := place.leafRecord_present.1
    rw [insert, bind_ok get_run, valid, fromExcept_ok, pure_bind, if_neg (by simp [r.empty_eq]),
      hleaf, fromExcept_ok, pure_bind]
    simp only [hkey, if_true]
    rfl
  · exact absurd (OrderedMap.find?_of_not_mem place.less (place.greater hafter) content.symm)
      present

/-- `insert` puts a key that the index does not have into its leaf. -/
theorem Represents.insert_absent {key : IndexKey} {record : UInt64} {before after : List Item}
    (r : idx.Represents (ctx.plug (leaf l))) (admits : ctx.Admits key)
    (valid : validateKeyKind key idx.metadata.keyKind = .ok ())
    (place : Place ctx l key before after) (hafter : ∀ e ∈ after, key < e.1) :
    insert key record idx = insertIntoLeaf
      (LeafPage.node { l with items := before ++ (key, record) :: after }) (l.id :: ctx.path)
      idx := by
  have hleaf := r.findLeaf_eq admits
  have hkey := (place.leafRecord_absent hafter).1
  have hitems := place.items
  have hindex : lowerBound l.node.keys key = before.length := place.index
  have hnew : ∀ {α : Type} (f : Item → α),
      (l.items.map f).insertIdx before.length (f (key, record)) =
        (before ++ (key, record) :: after).map f := by
    intro α f
    have := insertIdx_length_append (before.map f) (after.map f) (f (key, record))
    rw [List.length_map] at this
    rw [hitems, List.map_append, this, List.map_append, List.map_cons]
  rw [insert, bind_ok get_run, valid, fromExcept_ok, pure_bind, if_neg (by simp [r.empty_eq]),
    hleaf, fromExcept_ok, pure_bind]
  simp only [hindex] at hkey ⊢
  rw [if_neg hkey]
  have hkeys : l.node.keys.insertIdx before.length key =
      (before ++ (key, record) :: after).map Prod.fst := hnew Prod.fst
  have hrecords : l.node.records.insertIdx before.length record =
      (before ++ (key, record) :: after).map Prod.snd := hnew Prod.snd
  have hnode : { l.node with
      keys := l.node.keys.insertIdx before.length key,
      records := l.node.records.insertIdx before.length record } =
      LeafPage.node { l with items := before ++ (key, record) :: after } := by
    rw [hkeys, hrecords]
    rfl
  rw [hnode]

/-- `insert` of a key that the index does not have. -/
theorem Represents.ends_insert {key : IndexKey} {record : UInt64}
    {m : OrderedMap IndexKey UInt64} (r : idx.Represents (ctx.plug (leaf l)))
    (admits : ctx.Admits key) (content : Tree.items (ctx.plug (leaf l)) = m.entries)
    (admissible : Admissible idx.metadata.keyKind key) (absent : m.find? key = none)
    (full : ∀ idx', idx'.disk.Full → ∀ e, E e idx') :
    Ends (insert key record) idx
      (fun _ idx' => idx.Finished idx' H (m.insert key record).entries (idx.metadata.size + 1)
        (Tree.Filled idx.metadata.keyKind true (ctx.plug (leaf l)))
        (l.items.length < maxLeafKeyCount idx.metadata.keyKind ∨
          ctx.HasRoomForItem idx.metadata.keyKind ∨ ctx.SplitsEvenly idx.metadata.keyKind)) E := by
  obtain ⟨o, -, hsized⟩ := r.opened
  obtain ⟨before, after, place, hafter⟩ := r.place admits
  rw [place.items_plug] at content
  rcases hafter with ⟨old, rest, rfl, hrest⟩ | hafter
  · rw [List.cons_append] at content
    rw [OrderedMap.find?_of_mem place.less content.symm] at absent
    cases absent
  have hitems := place.items
  unfold Ends
  rw [r.insert_absent admits (validateKeyKind_eq admissible) place hafter]
  change Ends (insertIntoLeaf _ _) idx _ _
  have hless : ∀ e ∈ before, e.1 < key := fun e he =>
    place.less e (List.mem_append_right _ he)
  have hsorted := r.sorted_leaf
  rw [hitems, List.map_append, List.pairwise_append] at hsorted
  have hascending : ((before ++ (key, record) :: after).map Prod.fst).Pairwise (· < ·) := by
    rw [List.map_append, List.map_cons, List.pairwise_append, List.pairwise_cons]
    refine ⟨hsorted.1, ⟨?_, hsorted.2.1⟩, ?_⟩
    · exact List.forall_mem_map.mpr hafter
    · intro x hx y hy
      obtain ⟨e, he, rfl⟩ := List.mem_map.mp hx
      rcases List.mem_cons.mp hy with rfl | hy
      · exact hless e he
      · exact hsorted.2.2 _ hx y hy
  have hold : ∀ e ∈ before ++ (key, record) :: after, e = (key, record) ∨ e ∈ l.items := by
    intro e he
    rw [hitems]
    simp only [List.mem_append, List.mem_cons] at he ⊢
    tauto
  have hadmits : ∀ e ∈ before ++ (key, record) :: after, ctx.Admits e.1 := by
    intro e he
    rcases hold e he with rfl | he
    · exact admits
    · refine o.admitted _ ?_
      rw [List.flatMap_singleton, Tree.keys_leaf]
      exact List.mem_map_of_mem he
  have hlength : (before ++ (key, record) :: after).length = l.items.length + 1 := by
    rw [hitems, List.length_append, List.length_append, List.length_cons, Nat.add_assoc]
  have hleast : leastItems idx.metadata.keyKind ctx.isTop ≤ l.items.length :=
    LeafPage.Sized.least hsized
  have hmost : l.items.length ≤ maxLeafKeyCount idx.metadata.keyKind :=
    LeafPage.Sized.most hsized
  have hchanged : idx.Changed ctx { l with items := before ++ (key, record) :: after }
      (m.insert key record).entries := by
    refine ⟨o.withItems hascending hadmits, ?_, ?_⟩
    · intro e he
      rcases hold e he with rfl | he
      · exact admissible
      · exact LeafPage.Sized.admissible hsized e he
    · rw [OrderedMap.entries_insert place.less (place.greater hafter) content.symm,
        Context.itemsWith_eq]
      simp
  refine (hchanged.ends_insertIntoLeaf (hlength ▸ by omega) (hlength ▸ by omega) full).mono
    (fun _ idx' finished => ?_) fun _ _ he => he
  obtain ⟨⟨H', t, r', hcontent, hheight, hfill⟩, hkind, hsize, hsaved⟩ := finished
  have hgiven : Tree.Filled idx.metadata.keyKind true (ctx.plug (leaf l)) →
      (ctx.isTop = true ∨ minLeafKeyCount idx.metadata.keyKind ≤
        (before ++ (key, record) :: after).length) ∧ ctx.Filled idx.metadata.keyKind := by
    intro given
    obtain ⟨hl, hctx⟩ := (filled_plug ctx (leaf l)).mp given
    exact ⟨(Tree.filled_leaf.mp hl).imp_right fun h => by omega, hctx⟩
  refine ⟨⟨H', t, r', hcontent, fun given => hheight (hgiven given), fun hH given => ?_⟩, hkind,
    hsize, hsaved⟩
  have hnewLeaf := hfill hH (hgiven given)
  rw [hlength] at hnewLeaf
  exact hnewLeaf

/-- `insert` into an index without a root. -/
theorem Sound.ends_insertFirst {key : IndexKey} {record : UInt64} (sound : idx.Sound)
    (admissible : Admissible idx.metadata.keyKind key)
    (full : ∀ idx', idx'.disk.Full → ∀ e, E e idx') :
    Ends (insertFirst key record) idx
      (fun _ idx' => ∃ t : Tree 0, idx'.Represents t ∧ t.items = [(key, record)] ∧
        idx'.metadata.keyKind = idx.metadata.keyKind ∧ idx'.metadata.size = 1 ∧
        idx'.disk.readMetadata = idx'.metadata) E := by
  rw [insertFirst, ends_bind]
  refine ends_allocatePage sound (full _) fun idx₁ touches hcount => ?_
  have hnew : idx.disk.pageCount < idx₁.disk.pageCount := by
    rw [UInt64.lt_iff_toNat_lt]
    omega
  generalize idx.disk.pageCount = root at hnew
  let l : LeafPage := ⟨root, invalidPageId, [(key, record)]⟩
  have hmax := leastItems_le_maxLeafKeyCount sound.kind
  have hpos := leastItems_pos sound.kind false
  have hsized : LeafPage.Sized idx.metadata.keyKind true l := by
    refine ⟨Nat.le_refl 1, hpos.trans hmax, fun e he => ?_⟩
    obtain rfl := List.mem_singleton.mp he
    exact admissible
  rw [ends_bind]
  refine ends_writeNode l.node touches.sound hnew
    (touches.kind ▸ LeafPage.storable hsized.most hsized.admissible)
    fun idx₂ touches₂ hsame hread => ?_
  have hkind := touches₂.kind.trans touches.kind
  rw [ends_bind]
  refine ends_modifyMetadata ?_
  rw [saveMetadata, ends_modify]
  refine ⟨leaf l, ⟨⟨⟨⟨touches₂.sound.disk.counted, touches₂.sound.disk.addressable⟩,
    touches₂.sound.kind⟩, rfl, rfl, rfl, nofun, trivial, fun _ _ => trivial, ?_, ?_, ?_, ?_⟩, ?_,
    ?_⟩, rfl, hkind, rfl, readMetadata_writeMetadata _ _⟩
  · exact List.pairwise_singleton _ _
  · exact ⟨rfl, trivial⟩
  · exact List.nodup_singleton _
  · intro q hq
    obtain rfl : q = root := by simpa [l] using hq
    change q < idx₂.disk.pageCount
    rw [hsame]
    exact hnew
  · intro n hn
    obtain rfl := List.mem_singleton.mp hn
    exact hread
  · exact hkind ▸ hsized

/-- `insert` of a key that the index does not have adds it to the map. -/
theorem Contents.ends_insert {key : IndexKey} {record : UInt64} {m : OrderedMap IndexKey UInt64}
    (c : idx.Contents m) (admissible : Admissible idx.metadata.keyKind key)
    (absent : m.find? key = none) (full : ∀ idx', idx'.disk.Full → ∀ e, E e idx') :
    Ends (insert key record) idx
      (fun _ idx' => idx'.Contents (m.insert key record) ∧
        idx'.metadata.keyKind = idx.metadata.keyKind) E := by
  have hsize := c.size
  rcases c.cases with ⟨hempty, hnil⟩ | ⟨H, t, r, hitems⟩
  · rw [insert, ends_bind, ends_get, validateKeyKind_eq admissible, fromExcept_ok, pure_bind,
      if_pos hempty]
    refine (c.sound.ends_insertFirst admissible full).mono ?_ fun _ _ he => he
    rintro _ idx' ⟨t, r, hitems, hkind, hone, hsaved⟩
    have hentries : (m.insert key record).entries = [(key, record)] :=
      OrderedMap.entries_insert (List.forall_mem_nil _) (List.forall_mem_nil _) hnil
    refine ⟨⟨r.open.sound, .inr ⟨0, t, r, hitems.trans hentries.symm⟩, ?_, hsaved⟩, hkind⟩
    rw [hentries, hone]
    rfl
  · obtain ⟨ctx, l, rfl, admits⟩ := r.exists_leaf key
    refine (r.ends_insert admits hitems admissible absent full).mono ?_ fun _ _ he => he
    rintro _ idx' ⟨⟨H', t, r', hcontent, -⟩, hkind, hmore, hsaved⟩
    refine ⟨⟨r'.open.sound, .inr ⟨H', t, r', hcontent⟩, ?_, hsaved⟩, hkind⟩
    have hlt := r'.length_items_lt
    rw [hcontent, OrderedMap.length_insert absent] at hlt
    rw [OrderedMap.length_insert absent, hmore, UInt64.toNat_add, hsize]
    exact Nat.mod_eq_of_lt hlt

end BStarPlusIndex
end CwDb.Index
