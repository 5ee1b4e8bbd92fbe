/-
  Index/LeafSiblings.lean --- two adjacent leaves the items of which are shared out anew.
-/
import CwDb.Index.InternalSplit

set_option autoImplicit false

namespace CwDb.Index

open CwDb.Cpp
open CwDb.Foundation
open LevelTree LevelContext

/-- Leaves with the items on the pages, each naming the next, the last one `stop`. -/
def leafRow (stop : PageId) : List (PageId × List Item) → List LeafPage
  | [] => []
  | g :: G => ⟨g.1, firstLeaf stop (leafRow stop G), g.2⟩ :: leafRow stop G

section LeafRow

variable {stop : PageId} {G : List (PageId × List Item)}

theorem id_leafRow (stop : PageId) (G : List (PageId × List Item)) :
    (leafRow stop G).map LeafPage.id = G.map Prod.fst := by
  induction G with
  | nil => rfl
  | cons g G ih => exact congrArg (List.cons g.1) ih

theorem items_leafRow : (leafRow stop G).map LeafPage.items = G.map Prod.snd := by
  induction G with
  | nil => rfl
  | cons g G ih => exact congrArg (List.cons g.2) ih

theorem chained_leafRow : Chained stop (leafRow stop G) := by
  induction G with
  | nil => trivial
  | cons g G ih => exact ⟨rfl, ih⟩

/-- The leaves as trees. -/
def leafTrees (stop : PageId) (G : List (PageId × List Item)) : List (Tree 0) :=
  (leafRow stop G).map leaf

theorem leaves_leafTrees : (leafTrees stop G).flatMap leaves = leafRow stop G := by
  rw [leafTrees, List.flatMap_map]
  exact List.flatMap_singleton' _

theorem pages_leafTrees : (leafTrees stop G).flatMap Tree.pages = G.map Prod.fst := by
  rw [leafTrees, List.flatMap_map, ← id_leafRow stop]
  exact (List.map_eq_flatMap ..).symm

theorem items_leafTrees : (leafTrees stop G).flatMap Tree.items = G.flatMap Prod.snd := by
  have hleaves : (leafTrees stop G).flatMap Tree.items =
      ((leafTrees stop G).flatMap leaves).flatMap LeafPage.items := by
    rw [List.flatMap_assoc]
    rfl
  rw [hleaves, leaves_leafTrees, List.flatMap_def, items_leafRow, ← List.flatMap_def]

theorem mem_leafTrees {t : Tree 0} (h : t ∈ leafTrees stop G) :
    ∃ l, t = leaf l ∧ ∃ g ∈ G, l.id = g.1 ∧ l.items = g.2 := by
  obtain ⟨l, hl, rfl⟩ := List.mem_map.mp h
  refine ⟨l, rfl, ?_⟩
  clear h
  induction G with
  | nil => cases hl
  | cons g G ih =>
      rcases List.mem_cons.mp hl with rfl | hl
      · exact ⟨g, List.mem_cons_self, rfl, rfl⟩
      · obtain ⟨g', hg', hsame⟩ := ih hl
        exact ⟨g', List.mem_cons_of_mem _ hg', hsame⟩

end LeafRow

namespace BStarPlusIndex

variable {idx idx' : BStarPlusIndex} {H : Nat} {pid : PageId} {b : BranchPage} {y z : LeafPage}
  {items : List Item} {Q : PUnit → BStarPlusIndex → Prop} {E : Fault → BStarPlusIndex → Prop}
  {split : IndexNode → IndexM PUnit} {up : Context 1 H} {left right : List (Tree 0)}

/-- The branch on the page `pid` has the adjacent leaves `y` and `z`, which are not on their
pages. -/
structure LeafPair (idx : BStarPlusIndex) (up : Context 1 H) (pid : PageId)
    (left : List (Tree 0)) (y z : LeafPage) (right : List (Tree 0)) (items : List Item) : Prop where
  «open» : idx.Open up pid [branch ⟨pid, []⟩ (left ++ [leaf y, leaf z] ++ right)]
  holds : ∀ k ∈ left ++ right, idx.Holds false k
  admissible : ∀ e ∈ y.items ++ z.items, Admissible idx.metadata.keyKind e.1
  least : leastKids idx.metadata.keyKind up.isTop ≤ left.length + right.length + 2
  most : left.length + right.length + 2 ≤ maxInternalKeyCount idx.metadata.keyKind + 1
  content : up.itemsWith [branch ⟨pid, []⟩ (left ++ [leaf y, leaf z] ++ right)] = items

theorem LeafPair.grow (p : idx.LeafPair up pid left y z right items)
    (touches : idx.Touches [idx.disk.pageCount] idx') :
    idx'.LeafPair up pid left y z right items :=
  ⟨p.open.grow touches, fun k hk => (p.holds k hk).grow touches, touches.kind ▸ p.admissible,
    touches.kind ▸ p.least, touches.kind ▸ p.most, p.content⟩

theorem LeafPair.distinct (p : idx.LeafPair up pid left y z right items) :
    y.id ≠ z.id ∧ y.id < idx.disk.pageCount ∧ z.id < idx.disk.pageCount := by
  have hdistinct := p.open.distinct
  have hallocated := p.open.allocated
  rw [List.flatMap_singleton, Tree.pages_branch, List.flatMap_append, List.flatMap_append,
    List.cons_append, List.nodup_cons] at hdistinct
  obtain ⟨hkids, -, -⟩ := List.nodup_append.mp hdistinct.2
  obtain ⟨hkids, -, -⟩ := List.nodup_append.mp hkids
  have hpair := (List.nodup_append.mp hkids).2.1
  refine ⟨?_, hallocated _ (by simp), hallocated _ (by simp)⟩
  simpa using hpair

/-- The left leaf names the right one. -/
theorem LeafPair.next (p : idx.LeafPair up pid left y z right items) : y.next = z.id := by
  have hchained := p.open.chained
  simp only [Context.leavesWith, leaves_branch, List.flatMap_append, List.flatMap_cons,
    List.flatMap_nil, leaves_leaf, List.append_assoc, List.cons_append,
    List.nil_append] at hchained
  have hrest := (linked_append.mp (linked_append.mp hchained).2).2
  exact hrest.1

/-- The items of the leaves ascend. -/
theorem LeafPair.sorted (p : idx.LeafPair up pid left y z right items) :
    ((y.items ++ z.items).map Prod.fst).Pairwise (· < ·) := by
  have hsorted := p.open.sorted
  simp only [Context.leavesWith, List.flatMap_append, List.flatMap_singleton, leaves_branch,
    List.flatMap_assoc] at hsorted
  have hkids := (List.pairwise_append.mp (List.pairwise_append.mp hsorted).1).2.1
  have hpair := (List.pairwise_append.mp (List.pairwise_append.mp hkids).1).2.1
  simpa [LeafPage.keys] using hpair

/-- The items may be shared out to any leaves of due size, the first one on the page of the
left leaf. -/
theorem LeafPair.window (p : idx.LeafPair up pid left y z right items)
    {G : List (PageId × List Item)} (same : G.flatMap Prod.snd = y.items ++ z.items)
    (first : (G.map Prod.fst).head? = some y.id) (distinct : (G.map Prod.fst).Nodup)
    (fresh : ∀ i ∈ G.map Prod.fst, i = y.id ∨ i = z.id ∨
      i ∉ pid :: ((left ++ [leaf y, leaf z] ++ right).flatMap Tree.pages ++ up.pages) ∧
        i < idx.disk.pageCount)
    (sizes : ∀ g ∈ G, leastItems idx.metadata.keyKind false ≤ g.2.length ∧
      g.2.length ≤ maxLeafKeyCount idx.metadata.keyKind) :
    idx.Window up pid left (leafTrees z.next G) right items := by
  have hitems : (leafTrees z.next G).flatMap Tree.items =
      ([leaf y, leaf z] : List (Tree 0)).flatMap Tree.items := by
    rw [items_leafTrees, same]
    simp
  refine ⟨p.open.regroup rfl hitems ?_ ?_ ?_ ?_, p.holds, ?_, ?_⟩
  · intro s
    rw [leaves_leafTrees]
    cases G with
    | nil => cases first
    | cons g G => exact Option.some.inj first
  · intro s hchained
    have hstop : z.next = s := hchained.2.1
    rw [leaves_leafTrees, ← hstop]
    exact chained_leafRow
  · rw [pages_leafTrees]
    exact distinct
  · rw [pages_leafTrees]
    intro i hi
    rcases fresh i hi with rfl | rfl | hnew
    · exact .inl (by simp)
    · exact .inl (by simp)
    · exact .inr hnew
  · intro k hk
    obtain ⟨l, rfl, g, hg, -, hl⟩ := mem_leafTrees hk
    have hsize := sizes g hg
    refine ⟨nofun, ?_, ?_, fun e he => p.admissible e ?_⟩
    · rw [hl]
      exact hsize.1
    · rw [hl]
      exact hsize.2
    · rw [← same]
      exact List.mem_flatMap.mpr ⟨g, hg, hl ▸ he⟩
  · rw [← p.content, Context.itemsWith_eq, Context.itemsWith_eq]
    simp only [List.flatMap_singleton, Tree.items_branch, List.flatMap_append, hitems]

/-- The parent of leaves that are filled. -/
theorem filled_leafParent {kind : IndexKeyKind} {stop : PageId} {G : List (PageId × List Item)}
    {kids : List (Tree 0)} (hkids : kids = left ++ leafTrees stop G ++ right) :
    Tree.Filled kind true (up.plug (rebuilt pid kids)) ↔
      (up.isTop = true ∨ minInternalKeyCount kind + 1 ≤ left.length + G.length + right.length) ∧
        (∀ k ∈ left ++ right, Tree.Filled kind false k) ∧
        (∀ g ∈ G, minLeafKeyCount kind ≤ g.2.length) ∧ up.Filled kind := by
  have hlength : kids.length = left.length + G.length + right.length := by
    have hrow := congrArg List.length (id_leafRow stop G)
    simp only [List.length_map] at hrow
    rw [hkids, List.length_append, List.length_append, leafTrees, List.length_map, hrow]
  have hleaves : (∀ k ∈ leafTrees stop G, Tree.Filled kind false k) ↔
      ∀ g ∈ G, minLeafKeyCount kind ≤ g.2.length := by
    have hcounts : (∀ k ∈ leafTrees stop G, Tree.Filled kind false k) ↔
        ∀ l ∈ leafRow stop G, minLeafKeyCount kind ≤ l.items.length := by
      simp only [leafTrees, List.forall_mem_map, Tree.filled_leaf, Bool.false_eq_true, false_or]
    have hmap : (∀ l ∈ leafRow stop G, minLeafKeyCount kind ≤ l.items.length) ↔
        ∀ es ∈ (leafRow stop G).map LeafPage.items, minLeafKeyCount kind ≤ es.length := by
      rw [List.forall_mem_map]
    rw [hcounts, hmap, items_leafRow, List.forall_mem_map]
  have hall : (∀ k ∈ kids, Tree.Filled kind false k) ↔
      (∀ k ∈ left ++ right, Tree.Filled kind false k) ∧
        ∀ k ∈ leafTrees stop G, Tree.Filled kind false k := by
    rw [hkids]
    simp only [List.mem_append, or_imp, forall_and]
    tauto
  rw [filled_plug, rebuilt, Tree.filled_branch, hlength, hall, hleaves]
  tauto

/-- Two leaves are written with other shares of their items, and their parent. -/
theorem LeafPair.ends_writeSiblings (p : idx.LeafPair up pid left y z right items)
    (hb : b.id = pid) (ys zs : List Item) (same : ys ++ zs = y.items ++ z.items)
    (sizes : leastItems idx.metadata.keyKind false ≤ ys.length ∧
      ys.length ≤ maxLeafKeyCount idx.metadata.keyKind ∧
      leastItems idx.metadata.keyKind false ≤ zs.length ∧
      zs.length ≤ maxLeafKeyCount idx.metadata.keyKind)
    (hQ : ∀ idx', idx'.metadata = idx.metadata →
      idx'.Represents (up.plug (rebuilt pid
        (left ++ leafTrees z.next [(y.id, ys), (z.id, zs)] ++ right))) →
      Tree.items (up.plug (rebuilt pid
        (left ++ leafTrees z.next [(y.id, ys), (z.id, zs)] ++ right))) = items → Q ⟨⟩ idx') :
    Ends (writeSiblings (LeafPage.node ⟨y.id, z.id, ys⟩) (LeafPage.node ⟨z.id, z.next, zs⟩)
      (b.node ((left ++ [leaf y, leaf z] ++ right).map Tree.id))) idx Q E := by
  have hwindow := p.window (G := [(y.id, ys), (z.id, zs)]) (by simpa using same) rfl
    (by simpa using p.distinct.1) (by simp)
    (by
      simp only [List.mem_cons, List.not_mem_nil, or_false, forall_eq_or_imp, forall_eq]
      exact ⟨⟨sizes.1, sizes.2.1⟩, sizes.2.2⟩)
  have htrees : leafTrees z.next [(y.id, ys), (z.id, zs)] =
      [leaf ⟨y.id, z.id, ys⟩, leaf ⟨z.id, z.next, zs⟩] := rfl
  have hkids : left ++ leafTrees z.next [(y.id, ys), (z.id, zs)] ++ right =
      left ++ leaf ⟨y.id, z.id, ys⟩ :: leaf ⟨z.id, z.next, zs⟩ :: right := by
    rw [htrees]
    simp
  have hids : (left ++ [leaf y, leaf z] ++ right).map Tree.id =
      (left ++ leaf ⟨y.id, z.id, ys⟩ :: leaf ⟨z.id, z.next, zs⟩ :: right).map Tree.id := by
    simp
  have hlength : (left ++ leaf ⟨y.id, z.id, ys⟩ :: leaf ⟨z.id, z.next, zs⟩ :: right).length =
      left.length + right.length + 2 := by
    simp only [List.length_append, List.length_cons]
    omega
  rw [htrees] at hwindow
  rw [hids]
  refine hwindow.ends_writeSiblings (y := leaf ⟨y.id, z.id, ys⟩) (z := leaf ⟨z.id, z.next, zs⟩) hb
    (hlength ▸ p.least) (hlength ▸ p.most) fun idx' hsame r hitems => ?_
  rw [hkids] at hQ
  exact hQ idx' hsame r hitems

/-! ## Three leaves -/

theorem zip_fst_snd {α β : Type} (l : List (α × β)) :
    (l.map Prod.fst).zip (l.map Prod.snd) = l := by
  induction l with
  | nil => rfl
  | cons e l ih => exact congrArg (List.cons e) ih

/-- Items in the order of their keys are in order. -/
theorem sortItems_eq {l : List Item} (sorted : (l.map Prod.fst).Pairwise (· < ·)) :
    sortItems l = l := by
  refine List.Pairwise.insertionSort_eq ?_
  exact (List.pairwise_map.mp sorted).imp fun h => le_of_lt h

/-- How the items of two leaves with one too many are shared out to three. -/
theorem threeWayCounts_leaf {kind : IndexKeyKind} (proper : kind.Proper) {n : Nat}
    (total : n = 2 * maxLeafKeyCount kind + 1) :
    ∃ first second, threeWayCounts n = (first, second, n - first - second) ∧
      first + second ≤ n ∧ minLeafKeyCount kind ≤ first ∧ minLeafKeyCount kind ≤ second ∧
      minLeafKeyCount kind ≤ n - first - second ∧ first ≤ maxLeafKeyCount kind ∧
      second ≤ maxLeafKeyCount kind ∧ n - first - second ≤ maxLeafKeyCount kind := by
  refine ⟨_, _, rfl, ?_⟩
  subst total
  rcases proper with rfl | rfl <;> decide

theorem leastItems_le_minLeafKeyCount {kind : IndexKeyKind} (proper : kind.Proper) :
    leastItems kind false ≤ minLeafKeyCount kind := by
  rcases proper with rfl | rfl <;> decide

/-- `split_leaf_pair`: the branch over the three leaves is yet to be written. -/
theorem LeafPair.ends_split (p : idx.LeafPair up pid left y z right items)
    (full : ∀ idx', idx'.disk.Full → ∀ e, E e idx')
    (total : (y.items ++ z.items).length = 2 * maxLeafKeyCount idx.metadata.keyKind + 1)
    (hQ : ∀ idx' G, idx'.metadata = idx.metadata → G.length = 3 →
      (∀ g ∈ G, minLeafKeyCount idx.metadata.keyKind ≤ g.2.length) →
      idx'.Pending up pid (left ++ leafTrees z.next G ++ right) items →
      Ends (writeOrSplit split (b.node ((left ++ leafTrees z.next G ++ right).map Tree.id)))
        idx' Q E) :
    Ends (splitLeafPair split y.node z.node
      (b.node ((left ++ [leaf y, leaf z] ++ right).map Tree.id)) left.length) idx Q E := by
  obtain ⟨first, second, counts, hsum, hfirst, hsecond, hthird, hfirstMost, hsecondMost,
    hthirdMost⟩ := threeWayCounts_leaf p.open.sound.kind total
  have hleast := leastItems_le_minLeafKeyCount p.open.sound.kind
  have hpos := leastItems_pos p.open.sound.kind false
  have hitems : sortItems ((y.node.keys ++ z.node.keys).zip (y.node.records ++ z.node.records)) =
      y.items ++ z.items := by
    rw [LeafPage.keys_node, LeafPage.keys_node, LeafPage.records_node, LeafPage.records_node,
      ← List.map_append, ← List.map_append, zip_fst_snd, sortItems_eq p.sorted]
  rw [splitLeafPair]
  simp only [hitems, counts]
  rw [ends_bind]
  refine ends_allocatePage p.open.sound (full _) fun idx₁ touches hcount => ?_
  have hkind := touches.kind
  have hnew : idx.disk.pageCount < idx₁.disk.pageCount := by
    rw [UInt64.lt_iff_toNat_lt]
    omega
  have hallocated := p.open.allocated
  have hfresh : idx.disk.pageCount ∉
      pid :: ((left ++ [leaf y, leaf z] ++ right).flatMap Tree.pages ++ up.pages) := by
    intro hmem
    refine absurd (hallocated idx.disk.pageCount ?_) (UInt64.lt_irrefl _)
    rw [List.flatMap_singleton, Tree.pages_branch]
    exact hmem
  obtain ⟨hdistinct, hy, hz⟩ := p.distinct
  have hbelow : ∀ q, q < idx.disk.pageCount → q ≠ idx.disk.pageCount := fun q hq heq =>
    UInt64.lt_irrefl _ (heq ▸ hq)
  generalize idx.disk.pageCount = middle at hnew hfresh hbelow hy hz
  generalize hG : [(y.id, (y.items ++ z.items).take first),
    (middle, ((y.items ++ z.items).take (first + second)).drop first),
    (z.id, (y.items ++ z.items).drop (first + second))] = G
  have hsizes : ∀ g ∈ G, minLeafKeyCount idx.metadata.keyKind ≤ g.2.length ∧
      g.2.length ≤ maxLeafKeyCount idx.metadata.keyKind := by
    rw [← hG]
    simp only [List.mem_cons, List.not_mem_nil, or_false, forall_eq_or_imp, forall_eq,
      List.length_take, List.length_drop]
    omega
  have hwindow := (p.grow touches).window (G := G)
    (by
      rw [← hG]
      simp only [List.flatMap_cons, List.flatMap_nil, List.append_nil]
      exact take_append_drop_take_append_drop _ (Nat.le_add_right _ _))
    (by rw [← hG]; rfl)
    (by
      rw [← hG]
      simp only [List.map_cons, List.map_nil, List.nodup_cons, List.mem_cons, List.not_mem_nil,
        or_false, not_or, not_false_eq_true, List.nodup_nil, and_true]
      exact ⟨⟨hbelow _ hy, hdistinct⟩, (hbelow _ hz).symm⟩)
    (by
      rw [← hG]
      simp only [List.map_cons, List.map_nil, List.mem_cons, List.not_mem_nil, or_false,
        forall_eq_or_imp, forall_eq]
      exact ⟨.inl trivial, .inr (.inr ⟨by simpa only [List.mem_cons] using hfresh, hnew⟩),
        .inr (.inl trivial)⟩)
    (by
      rw [hkind]
      exact fun g hg => ⟨hleast.trans (hsizes g hg).1, (hsizes g hg).2⟩)
  have hfilled : ∀ es : List Item, minLeafKeyCount idx.metadata.keyKind ≤ es.length →
      (es.map Prod.fst).isEmpty = false := by
    intro es hes
    rw [List.isEmpty_map, List.isEmpty_eq_false_iff]
    exact List.length_pos_iff.mp (by omega)
  have hcounts : ∀ g ∈ G, minLeafKeyCount idx.metadata.keyKind ≤ g.2.length :=
    fun g hg => (hsizes g hg).1
  have hthree : G.length = 3 := by
    rw [← hG]
    rfl
  have htrees : leafTrees z.next G = [leaf ⟨y.id, middle, (y.items ++ z.items).take first⟩,
      leaf ⟨middle, z.id, ((y.items ++ z.items).take (first + second)).drop first⟩,
      leaf ⟨z.id, z.next, (y.items ++ z.items).drop (first + second)⟩] := by
    rw [← hG]
    rfl
  rw [htrees] at hwindow
  rw [← hG] at hcounts
  simp only [List.mem_cons, List.not_mem_nil, or_false, forall_eq_or_imp, forall_eq] at hcounts
  rw [if_neg (by
    simp only [IndexNode.withItems, hfilled _ hcounts.1, hfilled _ hcounts.2.1,
      hfilled _ hcounts.2.2, Bool.or_self, Bool.false_eq_true, not_false_eq_true]), ends_bind]
  refine hwindow.ends_write fun idx₂ touches₂ w₂ => ?_
  rw [ends_bind]
  refine w₂.ends_write fun idx₃ touches₃ w₃ => ?_
  rw [ends_bind]
  refine w₃.ends_write fun idx₄ touches₄ w₄ => ?_
  have hpending := w₄.pending
  have hkids : left ++ [leaf ⟨y.id, middle, (y.items ++ z.items).take first⟩] ++
      [leaf ⟨middle, z.id, ((y.items ++ z.items).take (first + second)).drop first⟩] ++
      [leaf ⟨z.id, z.next, (y.items ++ z.items).drop (first + second)⟩] ++ right =
      left ++ leafTrees z.next G ++ right := by
    rw [htrees]
    simp only [List.append_assoc, List.cons_append, List.nil_append]
  rw [hkids] at hpending
  have hids : ((left ++ [leaf y, leaf z] ++ right).map Tree.id).insertIdx (left.length + 1) middle =
      (left ++ leafTrees z.next G ++ right).map Tree.id := by
    have hinsert := insertIdx_append_cons (left.map Tree.id) (z.id :: right.map Tree.id) y.id
      middle
    rw [List.length_map] at hinsert
    have hold : (left ++ [leaf y, leaf z] ++ right).map Tree.id =
        left.map Tree.id ++ y.id :: z.id :: right.map Tree.id := by simp
    rw [hold, hinsert, htrees]
    simp
  have hmetadata : idx₄.metadata = idx.metadata := by
    rw [touches₄.metadata, touches₃.metadata, touches₂.metadata, touches.metadata]
  have hdone := hQ idx₄ G hmetadata hthree (fun g hg => (hsizes g hg).1) hpending
  rw [← hids] at hdone
  exact hdone

end BStarPlusIndex
end CwDb.Index
