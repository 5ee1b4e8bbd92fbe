/-
  Index/Siblings.lean --- two adjacent siblings the contents of which are shared out anew.

  `InternalPair` and `LeafPair` are the states in which insertion and erasure turn to a
  sibling of a node that is too full or too empty.  Whatever nodes the contents go to, the
  result is a `Window` (`InternalPair.window`, `LeafPair.window`).
-/
import CwDb.Index.Settle

set_option autoImplicit false

namespace CwDb.Index

open CwDb.Cpp
open CwDb.Foundation
open LevelTree LevelContext

namespace BStarPlusIndex

variable {idx idx' : BStarPlusIndex} {h H : Nat} {pid : PageId} {b y z : BranchPage}
  {items : List Item} {Q : PUnit → BStarPlusIndex → Prop} {E : Fault → BStarPlusIndex → Prop}

/-! ## A new page -/

theorem Open.grow {ctx : Context h H} {hole : PageId} {ts : List (Tree h)}
    (o : idx.Open ctx hole ts) (touches : idx.Touches [idx.disk.pageCount] idx') :
    idx'.Open ctx hole ts := by
  refine o.touch touches fun p hp hctx => ?_
  obtain rfl := List.mem_singleton.mp hp
  exact absurd (o.allocated _ (List.mem_append_right _ hctx)) (Nat.lt_irrefl _)

theorem Holds.grow {isRoot : Bool} {t : Tree h} (holds : idx.Holds isRoot t)
    (touches : idx.Touches [idx.disk.pageCount] idx') : idx'.Holds isRoot t := by
  refine holds.touch touches fun p hp hnew => ?_
  obtain rfl := List.mem_singleton.mp hnew
  exact absurd (holds.allocated _ hp) (Nat.lt_irrefl _)

/-! ## Internal siblings -/

/-- Branches over groups of children. -/
def branches (groups : List (PageId × List (Tree h))) : List (Tree (h + 1)) :=
  groups.map fun g => rebuilt g.1 g.2

theorem leaves_branches (groups : List (PageId × List (Tree h))) :
    (branches groups).flatMap leaves = (groups.flatMap Prod.snd).flatMap leaves := by
  rw [branches, List.flatMap_map, List.flatMap_assoc]
  rfl

theorem pages_branches (groups : List (PageId × List (Tree h))) :
    ((branches groups).flatMap Tree.pages).Perm
      (groups.map Prod.fst ++ (groups.flatMap Prod.snd).flatMap Tree.pages) := by
  induction groups with
  | nil => exact List.Perm.refl _
  | cons g groups ih =>
      have hpages : (branches (g :: groups)).flatMap Tree.pages =
          g.1 :: (g.2.flatMap Tree.pages ++ (branches groups).flatMap Tree.pages) := by
        simp [branches, rebuilt]
      rw [hpages, List.map_cons, List.flatMap_cons, List.flatMap_append, List.cons_append]
      refine List.Perm.cons _ ((List.Perm.append_left _ ih).trans ?_)
      exact List.perm_append_comm_assoc _ _ _

/-- The branch on the page `pid` has the adjacent children `y` and `z`; these are not on
their pages, but their own children are. -/
structure InternalPair (idx : BStarPlusIndex) (up : Context (h + 2) H) (pid : PageId)
    (left : List (Tree (h + 1))) (y : BranchPage) (ykids : List (Tree h)) (z : BranchPage)
    (zkids : List (Tree h)) (right : List (Tree (h + 1))) (items : List Item) : Prop where
  «open» : idx.Open up pid [branch ⟨pid, []⟩ (left ++ [branch y ykids, branch z zkids] ++ right)]
  holds : ∀ k ∈ left ++ right, idx.Holds false k
  kids : ∀ k ∈ ykids ++ zkids, idx.Holds false k
  least : leastKids idx.metadata.keyKind up.isTop ≤ left.length + right.length + 2
  most : left.length + right.length + 2 ≤ maxInternalKeyCount idx.metadata.keyKind + 1
  content : up.itemsWith [branch ⟨pid, []⟩ (left ++ [branch y ykids, branch z zkids] ++ right)] =
    items

variable {ykids zkids : List (Tree h)}

section InternalPair

variable {up : Context (h + 2) H} {left right : List (Tree (h + 1))}

/-- The two siblings as trees. -/
abbrev siblings (y : BranchPage) (ykids : List (Tree h)) (z : BranchPage)
    (zkids : List (Tree h)) : List (Tree (h + 1)) := [branch y ykids, branch z zkids]

theorem leaves_siblings : (siblings y ykids z zkids).flatMap leaves =
    (ykids ++ zkids).flatMap leaves := by simp [siblings]

theorem InternalPair.grow (p : idx.InternalPair up pid left y ykids z zkids right items)
    (touches : idx.Touches [idx.disk.pageCount] idx') :
    idx'.InternalPair up pid left y ykids z zkids right items :=
  ⟨p.open.grow touches, fun k hk => (p.holds k hk).grow touches,
    fun k hk => (p.kids k hk).grow touches, touches.kind ▸ p.least, touches.kind ▸ p.most,
    p.content⟩

/-- The pages of the siblings and their children. -/
theorem InternalPair.distinct (p : idx.InternalPair up pid left y ykids z zkids right items) :
    ((siblings y ykids z zkids).flatMap Tree.pages).Nodup ∧
      ∀ q ∈ (siblings y ykids z zkids).flatMap Tree.pages, q < idx.disk.pageCount := by
  have hdistinct := p.open.distinct
  have hallocated := p.open.allocated
  rw [List.flatMap_singleton, Tree.pages_branch, List.flatMap_append, List.flatMap_append,
    List.cons_append, List.nodup_cons] at hdistinct
  obtain ⟨hkids, -, -⟩ := List.nodup_append.mp hdistinct.2
  obtain ⟨hkids, -, -⟩ := List.nodup_append.mp hkids
  refine ⟨(List.nodup_append.mp hkids).2.1, fun q hq => hallocated q ?_⟩
  rw [List.flatMap_singleton, Tree.pages_branch, List.flatMap_append, List.flatMap_append]
  exact List.mem_append_left _ (List.mem_cons_of_mem _
    (List.mem_append_left _ (List.mem_append_right _ hq)))

theorem InternalPair.sorted (p : idx.InternalPair up pid left y ykids z zkids right items) :
    ((ykids ++ zkids).flatMap Tree.keys).Pairwise (· < ·) := by
  have hsorted := p.open.sorted
  simp only [Context.leavesWith, List.flatMap_append, List.flatMap_singleton, leaves_branch,
    List.flatMap_assoc] at hsorted
  have hkids := (List.pairwise_append.mp (List.pairwise_append.mp hsorted).1).2.1
  have hpair := (List.pairwise_append.mp (List.pairwise_append.mp hkids).1).2.1
  simp only [List.flatMap_cons, List.flatMap_nil, List.append_nil, leaves_branch,
    ← List.flatMap_append, List.flatMap_assoc] at hpair
  exact hpair

/-- The children of the siblings may be shared out to any branches of due size, on the
pages of the siblings or new ones. -/
theorem InternalPair.window (p : idx.InternalPair up pid left y ykids z zkids right items)
    {G : List (PageId × List (Tree h))} (same : G.flatMap Prod.snd = ykids ++ zkids)
    (distinct : (G.map Prod.fst).Nodup)
    (fresh : ∀ i ∈ G.map Prod.fst, i = y.id ∨ i = z.id ∨
      i ∉ pid :: ((left ++ siblings y ykids z zkids ++ right).flatMap Tree.pages ++ up.pages) ∧
        i < idx.disk.pageCount)
    (sizes : ∀ g ∈ G, leastKids idx.metadata.keyKind false ≤ g.2.length ∧
      g.2.length ≤ maxInternalKeyCount idx.metadata.keyKind + 1) :
    idx.Window up pid left (branches G) right items := by
  have hleaves : (branches G).flatMap leaves = (siblings y ykids z zkids).flatMap leaves := by
    rw [leaves_branches, same, leaves_siblings]
  have hitems : (branches G).flatMap Tree.items =
      (siblings y ykids z zkids).flatMap Tree.items := by
    have : ∀ ts : List (Tree (h + 1)), ts.flatMap Tree.items =
        (ts.flatMap leaves).flatMap LeafPage.items := fun ts => by
      rw [List.flatMap_assoc]
      rfl
    rw [this, this, hleaves]
  obtain ⟨hdistinct, -⟩ := p.distinct
  have hsiblings : ((siblings y ykids z zkids).flatMap Tree.pages).Perm
      ([y.id, z.id] ++ (ykids ++ zkids).flatMap Tree.pages) :=
    pages_branches [(y.id, ykids), (z.id, zkids)] |>.trans (by simp)
  have hapart := List.nodup_append.mp (hsiblings.nodup_iff.mp hdistinct)
  have hold : ∀ q, q ∈ (siblings y ykids z zkids).flatMap Tree.pages ↔
      q ∈ [y.id, z.id] ++ (ykids ++ zkids).flatMap Tree.pages := fun q => hsiblings.mem_iff
  have hpages := pages_branches G
  rw [same] at hpages
  refine ⟨p.open.regroup rfl hitems (fun s => by rw [hleaves]) (fun s => by rw [hleaves]; exact id)
    ?_ ?_, p.holds, ?_, ?_⟩
  · refine hpages.nodup_iff.mpr (List.nodup_append.mpr ⟨distinct, hapart.2.1, ?_⟩)
    rintro i hi q hq rfl
    rcases fresh i hi with rfl | rfl | ⟨hnot, -⟩
    · exact hapart.2.2 _ (by simp) _ hq rfl
    · exact hapart.2.2 _ (by simp) _ hq rfl
    · refine hnot (List.mem_cons_of_mem _ (List.mem_append_left _ ?_))
      rw [List.flatMap_append, List.flatMap_append]
      exact List.mem_append_left _ (List.mem_append_right _
        ((hold i).mpr (List.mem_append_right _ hq)))
  · intro q hq
    rcases List.mem_append.mp (hpages.mem_iff.mp hq) with hq | hq
    · rcases fresh q hq with rfl | rfl | hnew
      · exact .inl ((hold _).mpr (by simp))
      · exact .inl ((hold _).mpr (by simp))
      · exact .inr hnew
    · exact .inl ((hold q).mpr (List.mem_append_right _ hq))
  · intro k hk
    obtain ⟨g, hg, rfl⟩ := List.mem_map.mp hk
    have hmem : ∀ k ∈ g.2, idx.Holds false k := fun k hk =>
      p.kids k (same ▸ List.mem_flatMap.mpr ⟨g, hg, hk⟩)
    have hsorted := p.sorted
    rw [← same, List.flatMap_assoc] at hsorted
    refine ⟨fun n hn => ?_, Tree.sized_rebuilt p.open.sound.kind (fun k hk => (hmem k hk).sized)
      ((List.pairwise_flatMap.mp hsorted).1 g hg) (sizes g hg).1 (sizes g hg).2⟩
    obtain ⟨k, hk, hn⟩ := List.mem_flatMap.mp (show n ∈ g.2.flatMap Tree.nodes from hn)
    exact (hmem k hk).nodes n hn
  · rw [← p.content, Context.itemsWith_eq, Context.itemsWith_eq]
    simp only [List.flatMap_singleton, Tree.items_branch, List.flatMap_append, hitems]

end InternalPair

/-! ## Whether a branch fits -/

theorem nodeFitsPage_rebuilt (pid : PageId) {kids : List (Tree h)} (sound : idx.Sound)
    (holds : ∀ k ∈ kids, idx.Holds false k) (filled : kids ≠ [])
    (few : kids.length ≤ 2 * maxInternalKeyCount idx.metadata.keyKind + 4) :
    idx.nodeFitsPage (rebuilt pid kids).node =
      .ok (decide (kids.length ≤ maxInternalKeyCount idx.metadata.keyKind + 1)) := by
  have hsized : ∀ k ∈ kids, k.Sized idx.metadata.keyKind false := fun k hk => (holds k hk).sized
  have hcount : (kids.map Tree.id).length = (Tree.separators kids).length + 1 := by
    rw [List.length_map]
    exact Tree.length_separators sound.kind filled hsized
  have hseps := Tree.separators_admissible hsized
  have hfits := BranchPage.fits_iff idx.metadata.keyKind
    (b := ⟨pid, Tree.separators kids⟩) hcount
  rw [List.length_map] at hfits
  by_cases hmost : kids.length ≤ maxInternalKeyCount idx.metadata.keyKind + 1
  · rw [decide_eq_true hmost]
    exact nodeFitsPage_of_storable ⟨BranchPage.shaped_node hcount, hseps, hfits.mpr hmost⟩
  · rw [decide_eq_false hmost]
    refine nodeFitsPage_of_large (BranchPage.shaped_node hcount) hseps ?_ ?_
    · change (Tree.separators kids).length < pageSize - 1
      rw [List.length_map] at hcount
      have hsmall : maxInternalKeyCount idx.metadata.keyKind ≤ 253 := by
        rcases sound.kind.counts with ⟨-, -, hmax, -⟩ | ⟨-, -, hmax, -⟩ <;> rw [hmax]
        decide
      have : pageSize = 4096 := rfl
      omega
    · exact Nat.lt_of_not_le fun hle => hmost (hfits.mp hle)

section InternalPair

variable {up : Context (h + 2) H} {left right : List (Tree (h + 1))}

theorem InternalPair.rebuildInternalKeys_eq
    (p : idx.InternalPair up pid left y ykids z zkids right items) {l : List (Tree h)}
    (sub : ∀ k ∈ l, k ∈ ykids ++ zkids) :
    idx.rebuildInternalKeys (b.node (l.map Tree.id)) = .ok (rebuilt b.id l).node :=
  BStarPlusIndex.rebuildInternalKeys_eq p.open.sound fun k hk => p.kids k (sub k hk)

/-- The trial of `try_redistribute_internal_with_right` and `_left`: the larger part
decides. -/
theorem InternalPair.ends_internalPairFits {Q : Bool → BStarPlusIndex → Prop}
    (p : idx.InternalPair up pid left y ykids z zkids right items)
    (two : 2 ≤ (ykids ++ zkids).length)
    (few : (ykids ++ zkids).length ≤ 2 * maxInternalKeyCount idx.metadata.keyKind + 4)
    (hQ : Q (decide (((ykids ++ zkids).length + 1) / 2 ≤
      maxInternalKeyCount idx.metadata.keyKind + 1)) idx) :
    Ends (internalPairFits (y.node (ykids.map Tree.id)) (z.node (zkids.map Tree.id))) idx Q E := by
  have hchildren : ykids.map Tree.id ++ zkids.map Tree.id = (ykids ++ zkids).map Tree.id :=
    List.map_append.symm
  have hfirst := p.rebuildInternalKeys_eq (b := y)
    (l := (ykids ++ zkids).take (((ykids ++ zkids).length + 1) / 2))
    fun k hk => List.mem_of_mem_take hk
  have hsecond := p.rebuildInternalKeys_eq (b := z)
    (l := (ykids ++ zkids).drop (((ykids ++ zkids).length + 1) / 2))
    fun k hk => List.mem_of_mem_drop hk
  have hfits : ∀ (i : PageId) (ks : List (Tree h)), (∀ k ∈ ks, k ∈ ykids ++ zkids) →
      1 ≤ ks.length → ks.length ≤ (ykids ++ zkids).length →
      idx.nodeFitsPage (rebuilt i ks).node =
        .ok (decide (ks.length ≤ maxInternalKeyCount idx.metadata.keyKind + 1)) := by
    intro i ks hsub hone hle
    exact nodeFitsPage_rebuilt i p.open.sound (fun k hk => p.kids k (hsub k hk))
      (List.length_pos_iff.mp hone) (hle.trans few)
  rw [internalPairFits]
  simp only [BranchPage.children_node, hchildren, List.length_map, ← List.map_take,
    ← List.map_drop]
  rw [ends_bind]
  refine ends_reading hfirst ?_
  rw [ends_bind]
  refine ends_reading hsecond ?_
  refine ends_reading ?_ hQ
  generalize hn : ((ykids ++ zkids).length + 1) / 2 = n
  have hlengthFirst : ((ykids ++ zkids).take n).length = n := by
    rw [List.length_take]
    omega
  have hlengthSecond : ((ykids ++ zkids).drop n).length = (ykids ++ zkids).length - n :=
    List.length_drop
  have hfitsFirst := hfits y.id ((ykids ++ zkids).take n) (fun k hk => List.mem_of_mem_take hk)
    (by omega) (by omega)
  have hfitsSecond := hfits z.id ((ykids ++ zkids).drop n) (fun k hk => List.mem_of_mem_drop hk)
    (by omega) (by omega)
  rw [nodesFitPage_pair hfitsFirst hfitsSecond, hlengthFirst, hlengthSecond, ← Bool.decide_and]
  have hiff : n ≤ maxInternalKeyCount idx.metadata.keyKind + 1 ∧
      (ykids ++ zkids).length - n ≤ maxInternalKeyCount idx.metadata.keyKind + 1 ↔
        n ≤ maxInternalKeyCount idx.metadata.keyKind + 1 := by omega
  rw [decide_eq_decide.mpr hiff]

/-- The children may go to the siblings in other shares. -/
theorem InternalPair.shares (p : idx.InternalPair up pid left y ykids z zkids right items)
    {ks ls : List (Tree h)} (same : ks ++ ls = ykids ++ zkids)
    (sizes : leastKids idx.metadata.keyKind false ≤ ks.length ∧
      ks.length ≤ maxInternalKeyCount idx.metadata.keyKind + 1 ∧
      leastKids idx.metadata.keyKind false ≤ ls.length ∧
      ls.length ≤ maxInternalKeyCount idx.metadata.keyKind + 1) :
    idx.Window up pid left [rebuilt y.id ks, rebuilt z.id ls] right items := by
  have hdistinct : y.id ≠ z.id := by
    have := p.distinct.1
    simp only [siblings, List.flatMap_cons, Tree.pages_branch, List.cons_append,
      List.nodup_cons] at this
    rintro heq
    exact this.1 (by simp [heq])
  refine p.window (G := [(y.id, ks), (z.id, ls)]) ?_ (by simpa using hdistinct) (by simp) ?_
  · simpa only [List.flatMap_cons, List.flatMap_nil, List.append_nil] using same
  · simp only [List.mem_cons, List.not_mem_nil, or_false, forall_eq_or_imp, forall_eq]
    exact ⟨⟨sizes.1, sizes.2.1⟩, sizes.2.2⟩

/-- The siblings are written with other shares of their children, and the parent; then the
ancestors hear of it. -/
theorem InternalPair.ends_share (p : idx.InternalPair up pid left y ykids z zkids right items)
    (hb : b.id = pid) (ks ls : List (Tree h)) (same : ks ++ ls = ykids ++ zkids)
    (sizes : leastKids idx.metadata.keyKind false ≤ ks.length ∧
      ks.length ≤ maxInternalKeyCount idx.metadata.keyKind + 1 ∧
      leastKids idx.metadata.keyKind false ≤ ls.length ∧
      ls.length ≤ maxInternalKeyCount idx.metadata.keyKind + 1)
    (hQ : ∀ idx', idx.Settled idx'
        (up.plug (rebuilt pid (left ++ rebuilt y.id ks :: rebuilt z.id ls :: right))) →
      Tree.items (up.plug (rebuilt pid (left ++ rebuilt y.id ks :: rebuilt z.id ls :: right))) =
        items → Q ⟨⟩ idx') :
    Ends (do writeSiblings (rebuilt y.id ks).node (rebuilt z.id ls).node
               (b.node ((left ++ siblings y ykids z zkids ++ right).map Tree.id))
             propagateSubtreeMinChange b.id (pid :: up.path)) idx Q E := by
  have hids : (left ++ siblings y ykids z zkids ++ right).map Tree.id =
      (left ++ rebuilt y.id ks :: rebuilt z.id ls :: right).map Tree.id := by
    simp [siblings, rebuilt]
  have hlength : (left ++ rebuilt y.id ks :: rebuilt z.id ls :: right).length =
      left.length + right.length + 2 := by
    simp only [List.length_append, List.length_cons]
    omega
  rw [hids, ends_bind]
  refine (p.shares same sizes).ends_writeSiblings hb (hlength ▸ p.least) (hlength ▸ p.most)
    fun idx' kept r hitems => ?_
  have hpropagate := r.ends_propagate (E := E)
  rw [hb]
  exact hpropagate.mono (fun _ _ s => hQ _ (s.of_metadata kept) hitems) fun _ _ he => he

/-- `redistribute_internal_pair`. -/
theorem InternalPair.ends_redistribute
    (p : idx.InternalPair up pid left y ykids z zkids right items) (hb : b.id = pid) {n : Nat}
    (hn : ((ykids ++ zkids).length + 1) / 2 = n)
    (few : n ≤ maxInternalKeyCount idx.metadata.keyKind + 1)
    (enough : leastKids idx.metadata.keyKind false ≤ (ykids ++ zkids).length / 2)
    (hQ : ∀ idx', idx.Settled idx' (up.plug (rebuilt pid (left ++
        rebuilt y.id ((ykids ++ zkids).take n) :: rebuilt z.id ((ykids ++ zkids).drop n) ::
          right))) →
      Tree.items (up.plug (rebuilt pid (left ++ rebuilt y.id ((ykids ++ zkids).take n) ::
        rebuilt z.id ((ykids ++ zkids).drop n) :: right))) = items → Q ⟨⟩ idx') :
    Ends (redistributeInternalPair (y.node (ykids.map Tree.id)) (z.node (zkids.map Tree.id))
        (b.node ((left ++ siblings y ykids z zkids ++ right).map Tree.id)) (pid :: up.path)) idx
      Q E := by
  have hchildren : ykids.map Tree.id ++ zkids.map Tree.id = (ykids ++ zkids).map Tree.id :=
    List.map_append.symm
  have hsame := List.take_append_drop n (ykids ++ zkids)
  have hsizes : leastKids idx.metadata.keyKind false ≤ ((ykids ++ zkids).take n).length ∧
      ((ykids ++ zkids).take n).length ≤ maxInternalKeyCount idx.metadata.keyKind + 1 ∧
      leastKids idx.metadata.keyKind false ≤ ((ykids ++ zkids).drop n).length ∧
      ((ykids ++ zkids).drop n).length ≤ maxInternalKeyCount idx.metadata.keyKind + 1 := by
    rw [List.length_take, List.length_drop]
    omega
  have hfirst := p.rebuildInternalKeys_eq (b := y) (l := (ykids ++ zkids).take n)
    fun k hk => List.mem_of_mem_take hk
  have hsecond := p.rebuildInternalKeys_eq (b := z) (l := (ykids ++ zkids).drop n)
    fun k hk => List.mem_of_mem_drop hk
  have hready := (p.shares hsame hsizes).ready
  rw [redistributeInternalPair]
  simp only [BranchPage.isLeaf_node, Bool.or_self, Bool.false_eq_true, if_false,
    BranchPage.children_node, hchildren, List.length_map, ← List.map_take, ← List.map_drop, hn]
  rw [ends_bind]
  refine ends_reading hfirst ?_
  rw [ends_bind]
  refine ends_reading hsecond ?_
  rw [ends_bind]
  refine ends_reading (nodesFitPage_of_storable ?_) ?_
  · intro node hnode
    simp only [List.mem_cons, List.not_mem_nil, or_false] at hnode
    rcases hnode with rfl | rfl
    · exact (hready _ List.mem_cons_self).sized.storable
    · exact (hready _ (by simp)).sized.storable
  · simp only [Bool.not_true, Bool.false_eq_true, if_false]
    exact p.ends_share hb _ _ hsame hsizes hQ

end InternalPair

end BStarPlusIndex
end CwDb.Index
