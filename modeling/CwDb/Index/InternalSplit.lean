/-
  Index/InternalSplit.lean --- a node that has got a child too many.

  `split_internal` shares the children out with a sibling, or splits two full siblings into
  three and leaves the parent with a child more, up to the root, which is split in two.
-/
import CwDb.Index.Siblings

set_option autoImplicit false

namespace CwDb.Index

open CwDb.Cpp
open CwDb.Foundation
open LevelTree LevelContext

namespace BStarPlusIndex

variable {idx idx' : BStarPlusIndex} {h H : Nat} {pid : PageId} {b y z : BranchPage}
  {items : List Item} {Q : PUnit → BStarPlusIndex → Prop} {E : Fault → BStarPlusIndex → Prop}
  {split : IndexNode → IndexM PUnit}

/-- A branch over its children is written, or split when it has one too many. -/
theorem Pending.ends_writeOrSplit {up : Context (h + 1) H} {kids : List (Tree h)}
    (p : idx.Pending up pid kids items) (hb : b.id = pid)
    (least : leastKids idx.metadata.keyKind up.isTop ≤ kids.length)
    (most : kids.length ≤ maxInternalKeyCount idx.metadata.keyKind + 2)
    (hwrite : kids.length ≤ maxInternalKeyCount idx.metadata.keyKind + 1 →
      ∀ idx', idx.Settled idx' (up.plug (rebuilt pid kids)) →
        Tree.items (up.plug (rebuilt pid kids)) = items → Q ⟨⟩ idx')
    (hsplit : kids.length = maxInternalKeyCount idx.metadata.keyKind + 2 →
      Ends (split (rebuilt pid kids).node) idx Q E) :
    Ends (writeOrSplit split (b.node (kids.map Tree.id))) idx Q E := by
  have htwo := leastKids_two p.open.sound.kind up.isTop
  have hfilled : kids ≠ [] := List.length_pos_iff.mp (by omega)
  have hfits := nodeFitsPage_rebuilt pid p.open.sound p.holds hfilled (by omega)
  rw [writeOrSplit, ends_bind]
  refine ends_reading (p.rebuildInternalKeys_eq hb) ?_
  rw [ends_bind]
  refine ends_reading hfits ?_
  by_cases hmost : kids.length ≤ maxInternalKeyCount idx.metadata.keyKind + 1
  · rw [decide_eq_true hmost]
    simp only [if_true]
    refine p.ends_write least hmost fun idx' touches r hitems => ?_
    exact hwrite hmost idx' (r.settled touches.metadata) hitems
  · rw [decide_eq_false hmost]
    simp only [Bool.false_eq_true, if_false]
    exact hsplit (by omega)

/-- Two adjacent parts and a rest. -/
theorem take_append_drop_take_append_drop {α : Type} (l : List α) {m n : Nat} (h : m ≤ n) :
    l.take m ++ ((l.take n).drop m ++ l.drop n) = l := by
  have htake : (l.take n).take m = l.take m := by rw [List.take_take, Nat.min_eq_left h]
  rw [← List.append_assoc, ← htake, List.take_append_drop, List.take_append_drop]

theorem minInternalKeyCount_le {kind : IndexKeyKind} (proper : kind.Proper) :
    minInternalKeyCount kind ≤ maxInternalKeyCount kind := by
  rcases proper.counts with ⟨-, -, hmax, hmin⟩ | ⟨-, -, hmax, hmin⟩ <;> rw [hmax, hmin] <;> decide

theorem insertIdx_length_append {α : Type} (l r : List α) (c : α) :
    (l ++ r).insertIdx l.length c = l ++ c :: r := by
  induction l with
  | nil => rfl
  | cons b l ih => exact congrArg (List.cons b) ih

theorem insertIdx_append_cons {α : Type} (l r : List α) (a c : α) :
    (l ++ a :: r).insertIdx (l.length + 1) c = l ++ a :: c :: r := by
  have := insertIdx_length_append (l ++ [a]) r c
  simpa using this

/-- How the children of two siblings with one child too many are shared out to three. -/
theorem threeWayCounts_internal {kind : IndexKeyKind} (proper : kind.Proper) {n : Nat}
    (total : n = 2 * maxInternalKeyCount kind + 3) :
    ∃ first second, threeWayCounts n = (first, second, n - first - second) ∧
      first + second ≤ n ∧ leastKids kind false ≤ second ∧ leastKids kind false ≤ first ∧
      leastKids kind false ≤ n - first - second ∧ first ≤ maxInternalKeyCount kind + 1 ∧
      second ≤ maxInternalKeyCount kind + 1 ∧
      n - first - second ≤ maxInternalKeyCount kind + 1 := by
  refine ⟨_, _, rfl, ?_⟩
  unfold leastKids
  rcases proper.counts with ⟨-, -, hmax, -⟩ | ⟨-, -, hmax, -⟩ <;> rw [hmax] at total ⊢ <;>
    subst total <;> decide

/-- The last of three INT nodes is left with a child too few. -/
theorem threeWayCounts_filled {kind : IndexKeyKind} (proper : kind.Proper) {n first second : Nat}
    (total : n = 2 * maxInternalKeyCount kind + 3)
    (counts : threeWayCounts n = (first, second, n - first - second)) :
    minInternalKeyCount kind + 1 ≤ first ∧ minInternalKeyCount kind + 1 ≤ second ∧
      (minInternalKeyCount kind + 1 ≤ n - first - second ↔ kind ≠ .int64) := by
  subst total
  unfold threeWayCounts at counts
  simp only [Prod.mk.injEq] at counts
  obtain ⟨rfl, rfl, -⟩ := counts
  rcases proper with rfl | rfl <;> decide

section InternalPair

variable {up : Context (h + 2) H} {left right : List (Tree (h + 1))} {ykids zkids : List (Tree h)}

/-- `split_internal_pair`: the branch over the three nodes is yet to be written. -/
theorem InternalPair.ends_split (p : idx.InternalPair up pid left y ykids z zkids right items)
    (full : ∀ idx', idx'.disk.Full → ∀ e, E e idx') {first second : Nat}
    (counts : threeWayCounts (ykids ++ zkids).length = (first, second,
      (ykids ++ zkids).length - first - second))
    (total : (ykids ++ zkids).length = 2 * maxInternalKeyCount idx.metadata.keyKind + 3)
    (hQ : ∀ idx' middle, idx'.metadata = idx.metadata →
      idx'.Pending up pid (left ++ rebuilt y.id ((ykids ++ zkids).take first) ::
        rebuilt middle (((ykids ++ zkids).take (first + second)).drop first) ::
        rebuilt z.id ((ykids ++ zkids).drop (first + second)) :: right) items →
      Ends (writeOrSplit split (b.node ((left ++
        rebuilt y.id ((ykids ++ zkids).take first) ::
        rebuilt middle (((ykids ++ zkids).take (first + second)).drop first) ::
        rebuilt z.id ((ykids ++ zkids).drop (first + second)) :: right).map Tree.id))) idx' Q E) :
    Ends (splitInternalPair split (y.node (ykids.map Tree.id)) (z.node (zkids.map Tree.id))
      (b.node ((left ++ siblings y ykids z zkids ++ right).map Tree.id)) left.length) idx Q E := by
  obtain ⟨first', second', counts', hsum, hsecond, hfirst, hthird, hfirstMost, hsecondMost,
    hthirdMost⟩ := threeWayCounts_internal p.open.sound.kind total
  rw [counts] at counts'
  obtain ⟨rfl, rfl, -⟩ : first = first' ∧ second = second' ∧ True := by
    simp only [Prod.mk.injEq] at counts'
    exact ⟨counts'.1, counts'.2.1, trivial⟩
  have hchildren : ykids.map Tree.id ++ zkids.map Tree.id = (ykids ++ zkids).map Tree.id :=
    List.map_append.symm
  rw [splitInternalPair]
  simp only [BranchPage.isLeaf_node, Bool.or_self, Bool.false_eq_true, if_false,
    BranchPage.children_node, hchildren, List.length_map, ← List.map_take, ← List.map_drop, counts]
  rw [ends_bind]
  refine ends_allocatePage p.open.sound (full _) fun idx₁ touches hcount => ?_
  have hkind := touches.kind
  have hnew : idx.disk.pageCount < idx₁.disk.pageCount := by
    rw [UInt64.lt_iff_toNat_lt]
    omega
  have hallocated := p.open.allocated
  have hfresh : idx.disk.pageCount ∉
      pid :: ((left ++ siblings y ykids z zkids ++ right).flatMap Tree.pages ++ up.pages) := by
    intro hmem
    refine absurd (hallocated idx.disk.pageCount ?_) (UInt64.lt_irrefl _)
    rw [List.flatMap_singleton, Tree.pages_branch]
    exact hmem
  have hy : y.id ∈ (siblings y ykids z zkids).flatMap Tree.pages := by simp [siblings]
  have hz : z.id ∈ (siblings y ykids z zkids).flatMap Tree.pages := by simp [siblings]
  have hbelow : ∀ q ∈ (siblings y ykids z zkids).flatMap Tree.pages, q ≠ idx.disk.pageCount := by
    intro q hq heq
    exact UInt64.lt_irrefl _ (heq ▸ p.distinct.2 q hq)
  have hdistinct : y.id ≠ z.id := by
    have := p.distinct.1
    simp only [siblings, List.flatMap_cons, Tree.pages_branch, List.cons_append,
      List.nodup_cons] at this
    rintro heq
    exact this.1 (by simp [heq])
  generalize hmiddle : idx.disk.pageCount = middle at hnew hfresh hbelow
  have hp := p.grow touches
  have hwindow := hp.window
    (G := [(y.id, (ykids ++ zkids).take first),
      (middle, ((ykids ++ zkids).take (first + second)).drop first),
      (z.id, (ykids ++ zkids).drop (first + second))])
    (by
      simp only [List.flatMap_cons, List.flatMap_nil, List.append_nil]
      exact take_append_drop_take_append_drop _ (Nat.le_add_right _ _))
    (by
      simp only [List.map_cons, List.map_nil, List.nodup_cons, List.mem_cons, List.not_mem_nil,
        or_false, not_or, not_false_eq_true, List.nodup_nil, and_true]
      exact ⟨⟨hbelow _ hy, hdistinct⟩, (hbelow _ hz).symm⟩)
    (by
      simp only [List.map_cons, List.map_nil, List.mem_cons, List.not_mem_nil, or_false,
        forall_eq_or_imp, forall_eq]
      exact ⟨.inl trivial, .inr (.inr ⟨by simpa only [List.mem_cons] using hfresh, hnew⟩),
        .inr (.inl trivial)⟩)
    (by
      simp only [List.mem_cons, List.not_mem_nil, or_false, forall_eq_or_imp, forall_eq,
        List.length_take, List.length_drop, hkind]
      omega)
  have hready := hwindow.ready
  have hleft := hp.rebuildInternalKeys_eq (b := y) (l := (ykids ++ zkids).take first)
    fun k hk => List.mem_of_mem_take hk
  have hmid := hp.rebuildInternalKeys_eq (b := ⟨middle, []⟩)
    (l := ((ykids ++ zkids).take (first + second)).drop first)
    fun k hk => List.mem_of_mem_take (List.mem_of_mem_drop hk)
  have hright := hp.rebuildInternalKeys_eq (b := z) (l := (ykids ++ zkids).drop (first + second))
    fun k hk => List.mem_of_mem_drop hk
  rw [ends_bind]
  refine ends_reading hleft ?_
  rw [ends_bind]
  refine ends_reading hmid ?_
  rw [ends_bind]
  refine ends_reading hright ?_
  rw [ends_bind]
  refine ends_reading (nodesFitPage_of_storable ?_) ?_
  · intro node hnode
    simp only [List.mem_cons, List.not_mem_nil, or_false] at hnode
    rcases hnode with rfl | rfl | rfl
    · exact (hready _ (by simp [branches])).sized.storable
    · exact (hready (rebuilt middle _) (by simp [branches])).sized.storable
    · exact (hready (rebuilt z.id _) (by simp [branches])).sized.storable
  · simp only [Bool.not_true, Bool.false_eq_true, if_false]
    rw [ends_bind]
    refine hwindow.ends_write fun idx₂ touches₂ w₂ => ?_
    rw [ends_bind]
    refine w₂.ends_write fun idx₃ touches₃ w₃ => ?_
    rw [ends_bind]
    refine w₃.ends_write fun idx₄ touches₄ w₄ => ?_
    have hpending := w₄.pending
    have hkids : left ++ [rebuilt y.id ((ykids ++ zkids).take first)] ++
        [rebuilt middle (((ykids ++ zkids).take (first + second)).drop first)] ++
        [rebuilt z.id ((ykids ++ zkids).drop (first + second))] ++ right =
        left ++ rebuilt y.id ((ykids ++ zkids).take first) ::
          rebuilt middle (((ykids ++ zkids).take (first + second)).drop first) ::
          rebuilt z.id ((ykids ++ zkids).drop (first + second)) :: right := by
      simp only [List.append_assoc, List.cons_append, List.nil_append]
    have hids : ((left ++ siblings y ykids z zkids ++ right).map Tree.id).insertIdx
        (left.length + 1) middle =
        (left ++ rebuilt y.id ((ykids ++ zkids).take first) ::
          rebuilt middle (((ykids ++ zkids).take (first + second)).drop first) ::
          rebuilt z.id ((ykids ++ zkids).drop (first + second)) :: right).map Tree.id := by
      have hinsert := insertIdx_append_cons (left.map Tree.id) (z.id :: right.map Tree.id) y.id
        middle
      rw [List.length_map] at hinsert
      have hold : (left ++ siblings y ykids z zkids ++ right).map Tree.id =
          left.map Tree.id ++ y.id :: z.id :: right.map Tree.id := by simp [siblings]
      rw [hold, hinsert, List.map_append]
      rfl
    rw [hkids] at hpending
    have hmetadata : idx₄.metadata = idx.metadata := by
      rw [touches₄.metadata, touches₃.metadata, touches₂.metadata, touches.metadata]
    have hdone := hQ idx₄ middle hmetadata hpending
    rw [← hids] at hdone
    exact hdone

end InternalPair

/-! ## A new root -/

section NewRoot

variable {L R : Tree h} {sep : IndexKey}

/-- The pages of an index are less than 2^51, so its tree is low. -/
theorem Sound.height_lt {isRoot : Bool} {t : Tree h} (sound : idx.Sound)
    (sized : t.Sized idx.metadata.keyKind isRoot) (distinct : t.pages.Nodup)
    (allocated : ∀ p ∈ t.pages, p < idx.disk.pageCount) : h < 51 := by
  have hheight := sized.two_pow_le sound.kind
  have hpages := length_pages_le distinct allocated
  have hcount := sound.disk.addressable
  by_contra hge
  have : 2 ^ 51 ≤ 2 ^ h := Nat.pow_le_pow_right (by decide) (by omega)
  omega

/-- `insert_into_parent` above the root: the two halves get a new root. -/
theorem Open.ends_newRoot (split : IndexNode → IndexM PUnit) (sep : IndexKey)
    (o : idx.Open (top : Context h h) L.id [L, R])
    (left : idx.Ready false L) (right : idx.Ready false R) (first : R.keys.head? = some sep)
    (full : ∀ idx', idx'.disk.Full → ∀ e, E e idx')
    (hQ : ∀ idx' root, idx'.Represents (branch ⟨root, [sep]⟩ [L, R] : Tree (h + 1)) →
      idx'.metadata.keyKind = idx.metadata.keyKind → idx'.metadata.size = idx.metadata.size →
      Q ⟨⟩ idx') :
    Ends (insertIntoParent split L.node sep R.node [L.id]) idx Q E := by
  obtain ⟨hL, hR⟩ : (∀ p ∈ L.pages, p < idx.disk.pageCount) ∧
      ∀ p ∈ R.pages, p < idx.disk.pageCount := by
    constructor
    · exact fun p hp => o.allocated p (by simp [hp])
    · exact fun p hp => o.allocated p (by simp [hp])
  have hdistinct : (L.pages ++ R.pages).Nodup := by simpa using o.distinct
  obtain ⟨hLnodup, hRnodup, hapart⟩ := List.nodup_append.mp hdistinct
  have hLtail := hLnodup
  have hRtail := hRnodup
  rw [pages_eq_cons, List.nodup_cons] at hLtail hRtail
  have hids : L.id ≠ R.id := hapart _ L.id_mem_pages _ R.id_mem_pages
  have hsorted : ([L, R].flatMap Tree.keys).Pairwise (· < ·) := by
    have := o.sorted
    simp only [Context.leavesWith, leftLeaves, rightLeaves, List.nil_append, List.append_nil,
      List.flatMap_assoc] at this
    exact this
  have hsized : Tree.Sized idx.metadata.keyKind true
      (branch ⟨idx.disk.pageCount, [sep]⟩ [L, R] : Tree (h + 1)) := by
    have hseps : Tree.separators [L, R] = [sep] := by simp [Tree.separators, first]
    rw [← hseps]
    refine Tree.sized_rebuilt o.sound.kind ?_ hsorted (Nat.le_refl _) ?_
    · intro k hk
      simp only [List.mem_cons, List.not_mem_nil, or_false] at hk
      rcases hk with rfl | rfl
      · exact left.sized
      · exact right.sized
    · change 2 ≤ maxInternalKeyCount idx.metadata.keyKind + 1
      rcases o.sound.kind.counts with ⟨-, -, hmax, -⟩ | ⟨-, -, hmax, -⟩ <;> rw [hmax] <;> decide
  have hlow := o.sound.height_lt left.sized hLnodup hL
  rw [insertIntoParent]
  simp only [Tree.pageId_node, ne_eq, not_true_eq_false, if_false]
  rw [ends_bind]
  refine ends_allocatePage o.sound (full _) fun idx₁ touches₁ hcount => ?_
  have hgrown : ∀ p, p < idx.disk.pageCount → p < idx₁.disk.pageCount := fun p hp => by
    rw [UInt64.lt_iff_toNat_lt] at hp ⊢
    omega
  have hnew : idx.disk.pageCount < idx₁.disk.pageCount := by
    rw [UInt64.lt_iff_toNat_lt]
    omega
  rw [ends_bind]
  refine ends_writeNode _ touches₁.sound ?_ (touches₁.kind ▸ left.sized.storable)
    fun idx₂ touches₂ hsame₂ hread₂ => ?_
  · rw [Tree.pageId_node]
    exact hgrown _ (hL _ L.id_mem_pages)
  rw [ends_bind]
  refine ends_writeNode _ touches₂.sound ?_ ((touches₂.kind.trans touches₁.kind) ▸
    right.sized.storable) fun idx₃ touches₃ hsame₃ hread₃ => ?_
  · rw [Tree.pageId_node, hsame₂]
    exact hgrown _ (hR _ R.id_mem_pages)
  have hkind₃ := touches₃.kind.trans (touches₂.kind.trans touches₁.kind)
  rw [ends_bind]
  refine ends_writeNode _ touches₃.sound ?_ (hkind₃ ▸ hsized.storable)
    fun idx₄ touches₄ hsame₄ hread₄ => ?_
  · rw [hsame₃, hsame₂]
    exact hnew
  rw [Tree.pageId_node] at touches₂ touches₃ hread₂ hread₃
  have touches := ((touches₁.trans touches₂).trans touches₃).trans touches₄
  have hbelow : ∀ p, p < idx.disk.pageCount → p ≠ idx.disk.pageCount := fun p hp heq =>
    UInt64.lt_irrefl _ (heq ▸ hp)
  have hrest : ∀ {t : Tree h}, (∀ p ∈ t.pages, p < idx.disk.pageCount) →
      (∀ p ∈ t.pages.tail, p ≠ L.id ∧ p ≠ R.id) → ∀ p ∈ t.pages.tail,
        p ∉ [idx.disk.pageCount] ++ [L.id] ++ [R.id] ++ [idx.disk.pageCount] := by
    intro t ht hne p hp hmem
    simp only [List.cons_append, List.nil_append, List.mem_cons, List.not_mem_nil,
      or_false] at hmem
    rcases hmem with heq | heq | heq | heq
    · exact hbelow p (ht p (List.mem_of_mem_tail hp)) heq
    · exact (hne p hp).1 heq
    · exact (hne p hp).2 heq
    · exact hbelow p (ht p (List.mem_of_mem_tail hp)) heq
  have hstored : idx₄.Stores
      (Tree.nodes (branch ⟨idx.disk.pageCount, [sep]⟩ [L, R] : Tree (h + 1))) := by
    rw [Tree.nodes_branch, stores_cons]
    refine ⟨hread₄, ?_⟩
    simp only [List.flatMap_cons, List.flatMap_nil, List.append_nil]
    refine stores_append.mpr ⟨stores_nodes_iff.mpr ⟨?_, ?_⟩, stores_nodes_iff.mpr ⟨?_, ?_⟩⟩
    · rw [touches₄.frame _ (by simpa using hbelow _ (hL _ L.id_mem_pages)),
        touches₃.frame _ (by simpa using hids)]
      exact hread₂
    · refine (left.touch touches (hrest hL fun p hp => ⟨?_, ?_⟩)).below
      · rintro rfl
        exact hLtail.1 hp
      · rintro rfl
        exact hapart _ (List.mem_of_mem_tail hp) _ R.id_mem_pages rfl
    · rw [touches₄.frame _ (by simpa using hbelow _ (hR _ R.id_mem_pages))]
      exact hread₃
    · refine (right.touch touches (hrest hR fun p hp => ⟨?_, ?_⟩)).below
      · rintro rfl
        exact hapart _ L.id_mem_pages _ (List.mem_of_mem_tail hp) rfl
      · rintro rfl
        exact hRtail.1 hp
  refine ends_modifyMetadata (hQ _ idx.disk.pageCount ⟨⟨⟨touches.sound.disk, touches.sound.kind⟩,
    rfl, ?_, ?_, List.forall_mem_nil _, trivial, fun _ _ => trivial, ?_, ?_, ?_, ?_⟩, hstored,
    touches.metadata ▸ hsized⟩ (by rw [touches.metadata]) (by rw [touches.metadata]))
  · have hheight : idx₄.metadata.height.toNat = h + 1 := by
      rw [touches.metadata]
      exact o.height
    change (idx₄.metadata.height + 1).toNat = h + 1 + 1
    rw [UInt32.toNat_add, hheight]
    exact Nat.mod_eq_of_lt (by change h + 1 + 1 < _; omega)
  · have hfirst : idx₄.metadata.firstLeafPageId = _ := touches.metadata ▸ o.first
    change idx₄.metadata.firstLeafPageId = _
    rw [hfirst]
    simp [Context.leavesWith, leftLeaves, rightLeaves]
  · have := o.sorted
    simpa [Context.leavesWith, leftLeaves, rightLeaves] using this
  · have := o.chained
    simpa [Context.leavesWith, leftLeaves, rightLeaves] using this
  · have hnotin : idx.disk.pageCount ∉ L.pages ∧ idx.disk.pageCount ∉ R.pages :=
      ⟨fun hmem => hbelow _ (hL _ hmem) rfl, fun hmem => hbelow _ (hR _ hmem) rfl⟩
    simpa using ⟨hnotin, hdistinct⟩
  · intro p hp
    have hcount₄ : idx₄.disk.pageCount = idx₁.disk.pageCount := by rw [hsame₄, hsame₃, hsame₂]
    change p < idx₄.disk.pageCount
    rw [hcount₄]
    simp only [Tree.pages_branch, List.flatMap_cons, List.flatMap_nil, List.append_nil,
      Context.pages_top, List.mem_cons, List.mem_append] at hp
    rcases hp with rfl | hp | hp
    · exact hnew
    · exact hgrown _ (hL _ hp)
    · exact hgrown _ (hR _ hp)

/-- `split_internal` on the root. -/
theorem Pending.ends_splitRoot {kids : List (Tree h)}
    (p : idx.Pending (top : Context (h + 1) (h + 1)) pid kids items)
    (count : kids.length = maxInternalKeyCount idx.metadata.keyKind + 2)
    (full : ∀ idx', idx'.disk.Full → ∀ e, E e idx')
    (hQ : ∀ idx' (t : Tree (h + 2)), idx'.Represents t → t.items = items →
      idx'.metadata.keyKind = idx.metadata.keyKind → idx'.metadata.size = idx.metadata.size →
      Q ⟨⟩ idx') :
    Ends (splitInternalInTwo split (rebuilt pid kids).node [pid]) idx Q E := by
  have hnode : (rebuilt pid kids).node =
      BranchPage.node ⟨pid, Tree.separators kids⟩ (kids.map Tree.id) := rfl
  have hlength : (kids.map Tree.id).length = kids.length := List.length_map _
  rw [splitInternalInTwo, hnode]
  simp only [BranchPage.children_node, hlength, ← List.map_take, ← List.map_drop]
  rw [if_neg (by omega), ends_bind]
  generalize hn : kids.length / 2 = n
  refine ends_allocatePage p.open.sound (full _) fun idx₁ touches hcount => ?_
  have hopen := p.open.grow touches
  have hholds : ∀ k ∈ kids, idx₁.Holds false k := fun k hk => (p.holds k hk).grow touches
  have hsound := touches.sound
  have hnew : idx.disk.pageCount < idx₁.disk.pageCount := by
    rw [UInt64.lt_iff_toNat_lt]
    omega
  have hpages : ([branch ⟨pid, []⟩ kids] : List (Tree (h + 1))).flatMap Tree.pages =
      pid :: kids.flatMap Tree.pages := by simp
  have hdistinct := hopen.distinct
  have hallocated := p.open.allocated
  rw [Context.pages_top, List.append_nil, hpages] at hdistinct hallocated
  have hfresh : idx.disk.pageCount ∉ pid :: kids.flatMap Tree.pages := fun hmem =>
    UInt64.lt_irrefl _ (hallocated _ hmem)
  generalize idx.disk.pageCount = middle at hnew hfresh
  let halves : List (PageId × List (Tree h)) := [(pid, kids.take n), (middle, kids.drop n)]
  have hsame : halves.flatMap Prod.snd = kids := by simp [halves]
  have hperm := pages_branches halves
  rw [hsame] at hperm
  have hready : ∀ g ∈ halves, idx₁.Ready false (rebuilt g.1 g.2) := by
    intro g hg
    have hmem : ∀ k ∈ g.2, k ∈ kids := fun k hk => hsame ▸ List.mem_flatMap.mpr ⟨g, hg, hk⟩
    have hsorted := p.sorted
    rw [← hsame, List.flatMap_assoc] at hsorted
    have hcounts : leastKids idx₁.metadata.keyKind false ≤ g.2.length ∧
        g.2.length ≤ maxInternalKeyCount idx₁.metadata.keyKind + 1 := by
      have hleast : leastKids idx.metadata.keyKind false =
        (maxInternalKeyCount idx.metadata.keyKind + 2) / 2 := rfl
      rw [touches.kind, hleast]
      simp only [halves, List.mem_cons, List.not_mem_nil, or_false] at hg
      rcases hg with rfl | rfl
      · rw [List.length_take]
        omega
      · rw [List.length_drop]
        omega
    refine ⟨fun m hm => ?_, Tree.sized_rebuilt hsound.kind
      (fun k hk => (hholds k (hmem k hk)).sized) ((List.pairwise_flatMap.mp hsorted).1 g hg)
      hcounts.1 hcounts.2⟩
    obtain ⟨k, hk, hm⟩ := List.mem_flatMap.mp (show m ∈ g.2.flatMap Tree.nodes from hm)
    exact (hholds k (hmem k hk)).nodes m hm
  have hhalves : idx₁.Open (top : Context (h + 1) (h + 1)) pid (branches halves) := by
    have hleaves : (branches halves).flatMap leaves =
        ([branch ⟨pid, []⟩ kids] : List (Tree (h + 1))).flatMap leaves := by
      rw [leaves_branches, hsame]
      simp
    refine hopen.exchange ?_ (fun s => by rw [hleaves]) (fun s => by rw [hleaves]; exact id) ?_ ?_
    · simp [branches, halves, rebuilt, ← List.flatMap_append]
    · refine hperm.nodup_iff.mpr ?_
      rw [List.nodup_cons] at hdistinct
      simp only [halves, List.map_cons, List.map_nil, List.cons_append, List.nil_append,
        List.nodup_cons, List.mem_cons, not_or] at hfresh ⊢
      exact ⟨⟨Ne.symm hfresh.1, hdistinct.1⟩, hfresh.2, hdistinct.2⟩
    · intro q hq
      refine ⟨List.not_mem_nil, ?_⟩
      have hmem := hperm.mem_iff.mp hq
      simp only [halves, List.map_cons, List.map_nil, List.cons_append, List.nil_append,
        List.mem_cons] at hmem
      rcases hmem with rfl | rfl | hmem
      · exact hopen.allocated _ (by simp)
      · exact hnew
      · exact hopen.allocated _ (by simp only [List.mem_append, hpages]; simp [hmem])
  have hleft := BStarPlusIndex.rebuildInternalKeys_eq (b := ⟨pid, Tree.separators kids⟩) hsound
    fun k hk => hholds k (List.mem_of_mem_take (i := n) hk)
  have hright := BStarPlusIndex.rebuildInternalKeys_eq (b := ⟨middle, []⟩) hsound
    fun k hk => hholds k (List.mem_of_mem_drop (i := n) hk)
  obtain ⟨front, rest, hdrop⟩ : ∃ front rest, kids.drop n = front :: rest := by
    refine List.exists_cons_of_length_pos ?_
    rw [List.length_drop]
    omega
  have hfront : front ∈ kids := List.mem_of_mem_drop (hdrop ▸ List.mem_cons_self)
  obtain ⟨sep, hsep, hmin⟩ := (hholds front hfront).subtreeMinKey hsound
  rw [ends_bind]
  refine ends_reading hleft ?_
  rw [ends_bind]
  refine ends_reading hright ?_
  have hvector : vectorAt (BranchPage.node ⟨middle, Tree.separators (kids.drop n)⟩
      ((kids.drop n).map Tree.id)).children 0 = .ok front.id := by
    rw [hdrop]
    rfl
  rw [hvector, fromExcept_ok, pure_bind, ends_bind]
  refine ends_reading hmin ?_
  have hfirst : (Tree.keys (rebuilt middle (kids.drop n))).head? = some sep := by
    rw [rebuilt, Tree.keys_branch, hdrop, List.flatMap_cons, List.head?_append, hsep]
    rfl
  refine Open.ends_newRoot _ _ (L := rebuilt pid (kids.take n)) (R := rebuilt middle (kids.drop n))
    hhalves (hready (pid, kids.take n) List.mem_cons_self)
    (hready (middle, kids.drop n) (by simp [halves])) hfirst full
    fun idx' root r hkind hsize => hQ idx' _ r ?_ (hkind.trans touches.kind)
      (hsize.trans (by rw [touches.metadata]))
  rw [← p.content, Context.itemsWith_eq]
  simp [rebuilt, leftLeaves, rightLeaves, ← List.flatMap_append]

end NewRoot

/-! ## Up the tree -/

/-- What a repair leaves behind: a tree with the items, no lower than `H` when all was filled
before and, when its height is `H`, with filled nodes as far as `fill` says. -/
structure Mended (idx idx' : BStarPlusIndex) (H : Nat) (items : List Item) (given fill : Prop) :
    Prop where
  tree : ∃ (H' : Nat) (t : Tree H'), idx'.Represents t ∧ t.items = items ∧ (given → H ≤ H') ∧
    (H' = H → given → (t.Filled idx.metadata.keyKind true ↔ fill))
  kind : idx'.metadata.keyKind = idx.metadata.keyKind
  size : idx'.metadata.size = idx.metadata.size

theorem Settled.mended {t : Tree H} {given fill : Prop} (s : idx.Settled idx' t)
    (hitems : t.items = items)
    (hfill : given → (t.Filled idx.metadata.keyKind true ↔ fill)) :
    idx.Mended idx' H items given fill := by
  obtain ⟨t', r, hlike⟩ := s.tree
  exact ⟨⟨H, t', r, hlike.1.trans hitems, fun _ => le_rfl, fun _ hgiven =>
    (hlike.2 _ true).trans (hfill hgiven)⟩, s.kind, s.size⟩

section Filled

variable {kind : IndexKeyKind} {up : Context (h + 2) H} {left right : List (Tree (h + 1))}

theorem filled_branches {G : List (PageId × List (Tree h))} :
    (∀ k ∈ branches G, Tree.Filled kind false k) ↔
      (∀ g ∈ G, minInternalKeyCount kind + 1 ≤ g.2.length) ∧
        ∀ k ∈ G.flatMap Prod.snd, Tree.Filled kind false k := by
  simp only [branches, List.forall_mem_map, rebuilt, Tree.filled_branch, Bool.false_eq_true,
    false_or, List.mem_flatMap]
  constructor
  · intro hall
    refine ⟨fun g hg => (hall g hg).1, ?_⟩
    rintro k ⟨g, hg, hk⟩
    exact (hall g hg).2 k hk
  · rintro ⟨hcounts, hkids⟩ g hg
    exact ⟨hcounts g hg, fun k hk => hkids k ⟨g, hg, hk⟩⟩

/-- The parent of branches that are filled. -/
theorem filled_parent {G : List (PageId × List (Tree h))} {kids : List (Tree (h + 1))}
    (hkids : kids = left ++ branches G ++ right) :
    Tree.Filled kind true (up.plug (rebuilt pid kids)) ↔
      (up.isTop = true ∨ minInternalKeyCount kind + 1 ≤ left.length + G.length + right.length) ∧
        (∀ k ∈ left ++ right, Tree.Filled kind false k) ∧
        (∀ g ∈ G, minInternalKeyCount kind + 1 ≤ g.2.length) ∧
        (∀ k ∈ G.flatMap Prod.snd, Tree.Filled kind false k) ∧ up.Filled kind := by
  have hlength : kids.length = left.length + G.length + right.length := by
    rw [hkids, List.length_append, List.length_append, branches, List.length_map]
  have hall : (∀ k ∈ kids, Tree.Filled kind false k) ↔
      (∀ k ∈ left ++ right, Tree.Filled kind false k) ∧
        ∀ k ∈ branches G, Tree.Filled kind false k := by
    rw [hkids]
    simp only [List.mem_append, or_imp, forall_and]
    tauto
  rw [filled_plug, rebuilt, Tree.filled_branch, hlength, hall, filled_branches]
  tauto

/-- The parent of two branches that have shared their children. -/
theorem filled_shared {ykids zkids : List (Tree h)} {i j : PageId} {n : Nat}
    (hn : ((ykids ++ zkids).length + 1) / 2 = n)
    (many : 2 * (minInternalKeyCount kind + 1) ≤ (ykids ++ zkids).length) :
    Tree.Filled kind true (up.plug (rebuilt pid (left ++ rebuilt i ((ykids ++ zkids).take n) ::
        rebuilt j ((ykids ++ zkids).drop n) :: right))) ↔
      (up.isTop = true ∨ minInternalKeyCount kind + 1 ≤ left.length + 2 + right.length) ∧
        (∀ k ∈ left ++ right, Tree.Filled kind false k) ∧
        (∀ k ∈ ykids ++ zkids, Tree.Filled kind false k) ∧ up.Filled kind := by
  have hkids : left ++ rebuilt i ((ykids ++ zkids).take n) ::
      rebuilt j ((ykids ++ zkids).drop n) :: right =
      left ++ branches [(i, (ykids ++ zkids).take n), (j, (ykids ++ zkids).drop n)] ++ right := by
    simp [branches]
  rw [filled_parent hkids]
  have hsizes : ∀ g ∈ [(i, (ykids ++ zkids).take n), (j, (ykids ++ zkids).drop n)],
      minInternalKeyCount kind + 1 ≤ g.2.length := by
    intro g hg
    simp only [List.mem_cons, List.not_mem_nil, or_false] at hg
    rcases hg with rfl | rfl
    · rw [List.length_take]
      omega
    · rw [List.length_drop]
      omega
  have hall : [(i, (ykids ++ zkids).take n), (j, (ykids ++ zkids).drop n)].flatMap Prod.snd =
      ykids ++ zkids := by simp
  rw [hall]
  constructor
  · rintro ⟨hcount, hsides, -, hkids, hup⟩
    exact ⟨hcount, hsides, hkids, hup⟩
  · rintro ⟨hcount, hsides, hkids, hup⟩
    exact ⟨hcount, hsides, hsizes, hkids, hup⟩

end Filled

section Trials

variable {up : Context (h + 2) H} {left right : List (Tree (h + 1))} {kids : List (Tree h)}

theorem Holds.child {isRoot : Bool} {ks : List (Tree h)}
    (holds : idx.Holds isRoot (branch b ks : Tree (h + 1))) : ∀ k ∈ ks, idx.Holds false k := by
  obtain ⟨hnodes, hsized, hdistinct, hallocated⟩ := holds
  rw [Tree.nodes_branch] at hnodes
  rw [Tree.pages_branch] at hdistinct hallocated
  intro k hk
  refine ⟨hnodes.mono fun n hn => List.mem_cons_of_mem _ (List.mem_flatMap.mpr ⟨k, hk, hn⟩),
    hsized.2 k hk, ?_, fun p hp => hallocated p (List.mem_cons_of_mem _
      (List.mem_flatMap.mpr ⟨k, hk, hp⟩))⟩
  exact (List.nodup_flatMap.mp (List.nodup_cons.mp hdistinct).2).1 k hk

/-- The separators of the branch under repair. -/
abbrev label (pid : PageId) (kids : List (Tree h)) : BranchPage := ⟨pid, Tree.separators kids⟩

theorem Pending.counts (p : idx.Pending (frame b left right up) pid kids items) :
    leastKids idx.metadata.keyKind up.isTop ≤ left.length + right.length + 1 ∧
      left.length + right.length + 1 ≤ maxInternalKeyCount idx.metadata.keyKind + 1 := by
  obtain ⟨hb, -, -⟩ := p.open.sized
  have hlength : (left.map Tree.keys ++ [] :: right.map Tree.keys).length =
      left.length + right.length + 1 := by
    simp only [List.length_append, List.length_cons, List.length_map]
    omega
  exact ⟨hlength ▸ hb.least, hlength ▸ hb.most⟩

/-- The branch under repair and its right sibling. -/
theorem Pending.pairRight {zkids : List (Tree h)}
    (p : idx.Pending (frame b left (branch z zkids :: right) up) pid kids items) :
    idx.InternalPair up b.id left (label pid kids) kids z zkids right items := by
  have hholds := p.open.holds_sides
  have hrise := (p.opened).rise []
  have hsame : left ++ [rebuilt pid kids] ++ branch z zkids :: right =
      left ++ [branch (label pid kids) kids, branch z zkids] ++ right := by simp [rebuilt]
  rw [hsame] at hrise
  have hcounts := p.counts
  simp only [List.length_cons] at hcounts
  refine ⟨hrise, fun k hk => hholds k ?_, ?_, by omega, by omega, ?_⟩
  · rcases List.mem_append.mp hk with hk | hk
    · exact List.mem_append_left _ hk
    · exact List.mem_append_right _ (List.mem_cons_of_mem _ hk)
  · intro k hk
    rcases List.mem_append.mp hk with hk | hk
    · exact p.holds k hk
    · exact (hholds (branch z zkids) (by simp)).child k hk
  · rw [← p.content, Context.itemsWith_frame ⟨b.id, []⟩, Context.itemsWith_eq,
      Context.itemsWith_eq]
    simp

/-- The branch under repair and its left sibling. -/
theorem Pending.pairLeft {ykids : List (Tree h)}
    (p : idx.Pending (frame b (left ++ [branch y ykids]) right up) pid kids items) :
    idx.InternalPair up b.id left y ykids (label pid kids) kids right items := by
  have hholds := p.open.holds_sides
  have hrise := (p.opened).rise []
  have hsame : left ++ [branch y ykids] ++ [rebuilt pid kids] ++ right =
      left ++ [branch y ykids, branch (label pid kids) kids] ++ right := by simp [rebuilt]
  rw [hsame] at hrise
  have hcounts := p.counts
  simp only [List.length_append, List.length_singleton] at hcounts
  refine ⟨hrise, fun k hk => hholds k ?_, ?_, by omega, by omega, ?_⟩
  · rcases List.mem_append.mp hk with hk | hk
    · exact List.mem_append_left _ (List.mem_append_left _ hk)
    · exact List.mem_append_right _ hk
  · intro k hk
    rcases List.mem_append.mp hk with hk | hk
    · exact (hholds (branch y ykids) (by simp)).child k hk
    · exact p.holds k hk
  · rw [← p.content, Context.itemsWith_frame ⟨b.id, []⟩, Context.itemsWith_eq,
      Context.itemsWith_eq]
    simp

theorem getElem?_append_cons {α : Type} (l r : List α) (a : α) :
    (l ++ a :: r)[l.length + 1]? = r.head? := by
  induction l with
  | nil => cases r <;> rfl
  | cons c l ih => simpa using ih

/-- What the repair of the branch under repair amounts to. -/
def Repaired (idx idx' : BStarPlusIndex) (up : Context (h + 1) H) (kids : List (Tree h))
    (items : List Item) : Prop :=
  idx.Mended idx' H items (up.Filled idx.metadata.keyKind)
    ((∀ k ∈ kids, Tree.Filled idx.metadata.keyKind false k) ∧
      (idx.metadata.keyKind = .int64 → up.HasRoom idx.metadata.keyKind))

/-- `try_redistribute_internal_with_right`. -/
theorem Pending.ends_tryRight {Q : Bool → BStarPlusIndex → Prop}
    (p : idx.Pending (frame b left right up) pid kids items)
    (count : kids.length = maxInternalKeyCount idx.metadata.keyKind + 2)
    (hdone : ∀ idx', idx.Repaired idx' (frame b left right up) kids items → Q true idx')
    (hnot : (∀ t, right.head? = some t →
      (Branch.kids t).length = maxInternalKeyCount idx.metadata.keyKind + 1) → Q false idx) :
    Ends (tryRedistributeInternalWithRight (rebuilt pid kids).node
      (b.node (left.map Tree.id ++ pid :: right.map Tree.id)) left.length (b.id :: up.path)) idx
      Q E := by
  have hnext := getElem?_append_cons (left.map Tree.id) (right.map Tree.id) pid
  rw [List.length_map, List.head?_map] at hnext
  rw [tryRedistributeInternalWithRight, BranchPage.children_node, hnext]
  cases right with
  | nil => exact hnot nofun
  | cons t right =>
      cases t using Tree.branchCases with | branch z zkids => ?_
      have hpair := p.pairRight
      have hz : idx.Holds false (branch z zkids : Tree (h + 1)) :=
        p.open.holds_sides _ (by simp)
      have hmost : zkids.length ≤ maxInternalKeyCount idx.metadata.keyKind + 1 := by
        simpa using (Tree.sized_branch.mp hz.sized).1.most
      have hleast : leastKids idx.metadata.keyKind false ≤ zkids.length := by
        simpa using (Tree.sized_branch.mp hz.sized).1.least
      have htwo := leastKids_two p.open.sound.kind false
      have hlength : (kids ++ zkids).length = maxInternalKeyCount idx.metadata.keyKind + 2 +
        zkids.length := by rw [List.length_append, count]
      simp only [List.head?_cons, Option.map_some]
      rw [ends_bind]
      refine ends_reading hz.readNode ?_
      simp only [Tree.node_branch, BranchPage.isLeaf_node, Bool.false_eq_true, if_false]
      rw [ends_bind]
      refine hpair.ends_internalPairFits (by omega) (by omega) ?_
      by_cases hroom : zkids.length ≤ maxInternalKeyCount idx.metadata.keyKind
      · have hhalf : ((kids ++ zkids).length + 1) / 2 ≤
            maxInternalKeyCount idx.metadata.keyKind + 1 := by omega
        have hids : left.map Tree.id ++ pid :: (branch z zkids :: right).map Tree.id =
            (left ++ siblings (label pid kids) kids z zkids ++ right).map Tree.id := by
          simp [siblings]
        rw [decide_eq_true hhalf, hids]
        simp only [Bool.not_true, Bool.false_eq_true, if_false]
        rw [ends_bind]
        refine hpair.ends_redistribute rfl rfl hhalf ?_ fun idx' settled hitems => ?_
        · have : leastKids idx.metadata.keyKind false =
            (maxInternalKeyCount idx.metadata.keyKind + 2) / 2 := rfl
          omega
        · refine hdone idx' (settled.mended hitems fun given => ?_)
          obtain ⟨hcount, hsides, hup⟩ := Context.filled_frame.mp given
          obtain ⟨hzcount, hzkids⟩ := Tree.filled_branch.mp (hsides (branch z zkids) (by simp))
          have hzcount : minInternalKeyCount idx.metadata.keyKind + 1 ≤ zkids.length := by
            simpa using hzcount
          have hmin := minInternalKeyCount_le p.open.sound.kind
          rw [filled_shared rfl (by omega)]
          simp only [List.length_cons] at hcount
          constructor
          · rintro ⟨-, -, hkids, -⟩
            exact ⟨fun k hk => hkids k (List.mem_append_left _ hk),
              fun _ => ⟨branch z zkids, .inl rfl, hroom⟩⟩
          · rintro ⟨hkids, -⟩
            refine ⟨hcount.imp_right fun h => by omega, fun k hk => hsides k ?_, fun k hk => ?_, hup⟩
            · rcases List.mem_append.mp hk with hk | hk
              · exact List.mem_append_left _ hk
              · exact List.mem_append_right _ (List.mem_cons_of_mem _ hk)
            · rcases List.mem_append.mp hk with hk | hk
              · exact hkids k hk
              · exact hzkids k hk
      · have hhalf : ¬ ((kids ++ zkids).length + 1) / 2 ≤
            maxInternalKeyCount idx.metadata.keyKind + 1 := by omega
        rw [decide_eq_false hhalf]
        refine hnot fun t ht => ?_
        cases ht
        exact Nat.le_antisymm hmost (Nat.lt_of_not_le hroom)

/-- `try_redistribute_internal_with_left`. -/
theorem Pending.ends_tryLeft {Q : Bool → BStarPlusIndex → Prop}
    (p : idx.Pending (frame b left right up) pid kids items)
    (count : kids.length = maxInternalKeyCount idx.metadata.keyKind + 2)
    (hdone : ∀ idx', idx.Repaired idx' (frame b left right up) kids items → Q true idx')
    (hnot : (∀ t, left.getLast? = some t →
      (Branch.kids t).length = maxInternalKeyCount idx.metadata.keyKind + 1) → Q false idx) :
    Ends (tryRedistributeInternalWithLeft (rebuilt pid kids).node
      (b.node (left.map Tree.id ++ pid :: right.map Tree.id)) left.length (b.id :: up.path)) idx
      Q E := by
  rcases List.eq_nil_or_concat left with rfl | ⟨left, t, rfl⟩
  · exact hnot nofun
  · rw [List.concat_eq_append] at p hdone hnot ⊢
    cases t using Tree.branchCases with | branch y ykids => ?_
    have hpair := p.pairLeft
    have hy : idx.Holds false (branch y ykids : Tree (h + 1)) :=
      p.open.holds_sides _ (by simp)
    have hmost : ykids.length ≤ maxInternalKeyCount idx.metadata.keyKind + 1 := by
      simpa using (Tree.sized_branch.mp hy.sized).1.most
    have hleast : leastKids idx.metadata.keyKind false ≤ ykids.length := by
      simpa using (Tree.sized_branch.mp hy.sized).1.least
    have htwo := leastKids_two p.open.sound.kind false
    have hlength : (ykids ++ kids).length = ykids.length +
      (maxInternalKeyCount idx.metadata.keyKind + 2) := by rw [List.length_append, count]
    have hvector : vectorAt ((left ++ [branch y ykids]).map Tree.id ++ pid :: right.map Tree.id)
        left.length = .ok (Tree.id (branch y ykids)) := by
      rw [vectorAt_eq_ok]
      simp
    rw [List.length_append, List.length_singleton, tryRedistributeInternalWithLeft,
      BranchPage.children_node, hvector, fromExcept_ok, pure_bind, ends_bind]
    refine ends_reading hy.readNode ?_
    simp only [Tree.node_branch, BranchPage.isLeaf_node, Bool.false_eq_true, if_false]
    rw [ends_bind]
    refine hpair.ends_internalPairFits (by omega) (by omega) ?_
    by_cases hroom : ykids.length ≤ maxInternalKeyCount idx.metadata.keyKind
    · have hhalf : ((ykids ++ kids).length + 1) / 2 ≤
          maxInternalKeyCount idx.metadata.keyKind + 1 := by omega
      have hids : (left ++ [branch y ykids]).map Tree.id ++ pid :: right.map Tree.id =
          (left ++ siblings y ykids (label pid kids) kids ++ right).map Tree.id := by
        simp [siblings]
      rw [decide_eq_true hhalf, hids]
      simp only [Bool.not_true, Bool.false_eq_true, if_false]
      rw [ends_bind]
      refine hpair.ends_redistribute rfl rfl hhalf ?_ fun idx' settled hitems => ?_
      · have : leastKids idx.metadata.keyKind false =
          (maxInternalKeyCount idx.metadata.keyKind + 2) / 2 := rfl
        omega
      · refine hdone idx' (settled.mended hitems fun given => ?_)
        obtain ⟨hcount, hsides, hup⟩ := Context.filled_frame.mp given
        obtain ⟨hycount, hykids⟩ := Tree.filled_branch.mp (hsides (branch y ykids) (by simp))
        have hycount : minInternalKeyCount idx.metadata.keyKind + 1 ≤ ykids.length := by
          simpa using hycount
        have hmin := minInternalKeyCount_le p.open.sound.kind
        rw [filled_shared rfl (by omega)]
        simp only [List.length_append, List.length_singleton] at hcount
        constructor
        · rintro ⟨-, -, hkids, -⟩
          exact ⟨fun k hk => hkids k (List.mem_append_right _ hk),
            fun _ => ⟨branch y ykids, .inr (by simp), hroom⟩⟩
        · rintro ⟨hkids, -⟩
          refine ⟨hcount.imp_right fun h => by omega, fun k hk => hsides k ?_, fun k hk => ?_, hup⟩
          · rcases List.mem_append.mp hk with hk | hk
            · exact List.mem_append_left _ (List.mem_append_left _ hk)
            · exact List.mem_append_right _ hk
          · rcases List.mem_append.mp hk with hk | hk
            · exact hykids k hk
            · exact hkids k hk
    · have hhalf : ¬ ((ykids ++ kids).length + 1) / 2 ≤
          maxInternalKeyCount idx.metadata.keyKind + 1 := by omega
      rw [decide_eq_false hhalf]
      refine hnot fun t ht => ?_
      obtain rfl : branch y ykids = t := by simpa using ht
      exact Nat.le_antisymm hmost (Nat.lt_of_not_le hroom)

theorem Mended.of_metadata {idx'' : BStarPlusIndex} {given fill : Prop}
    (g : idx'.Mended idx'' H items given fill) (same : idx'.metadata = idx.metadata) :
    idx.Mended idx'' H items given fill := by
  obtain ⟨htree, hkind, hsize⟩ := g
  rw [same] at htree
  exact ⟨htree, hkind.trans (by rw [same]), hsize.trans (by rw [same])⟩

theorem Mended.imp {given fill given' fill' : Prop} (g : idx.Mended idx' H items given fill)
    (hgiven : given' → given) (hfill : given' → (fill ↔ fill')) :
    idx.Mended idx' H items given' fill' := by
  obtain ⟨⟨H', t, r, hitems, hheight, hfilled⟩, hkind, hsize⟩ := g
  exact ⟨⟨H', t, r, hitems, fun hgiven' => hheight (hgiven hgiven'),
    fun hH hgiven' => (hfilled hH (hgiven hgiven')).trans (hfill hgiven')⟩, hkind, hsize⟩

/-- Two full siblings are split into three, and their parent is repaired. -/
theorem InternalPair.ends_splitUp {ykids zkids : List (Tree h)}
    (p : idx.InternalPair up pid left y ykids z zkids right items) (hb : b.id = pid)
    (full : ∀ idx', idx'.disk.Full → ∀ e, E e idx')
    (total : (ykids ++ zkids).length = 2 * maxInternalKeyCount idx.metadata.keyKind + 3)
    (ih : ∀ (idx' : BStarPlusIndex) (ks : List (Tree (h + 1))), idx'.Pending up pid ks items →
      ks.length = maxInternalKeyCount idx'.metadata.keyKind + 2 →
      Ends (split (rebuilt pid ks).node) idx' (fun _ idx'' => idx'.Repaired idx'' up ks items) E) :
    Ends (splitInternalPair split (y.node (ykids.map Tree.id)) (z.node (zkids.map Tree.id))
      (b.node ((left ++ siblings y ykids z zkids ++ right).map Tree.id)) left.length) idx
      (fun _ idx' => idx.Mended idx' H items
        ((up.isTop = true ∨
          minInternalKeyCount idx.metadata.keyKind + 1 ≤ left.length + 2 + right.length) ∧
          (∀ k ∈ left ++ right, Tree.Filled idx.metadata.keyKind false k) ∧
          up.Filled idx.metadata.keyKind)
        ((∀ k ∈ ykids ++ zkids, Tree.Filled idx.metadata.keyKind false k) ∧
          idx.metadata.keyKind ≠ .int64)) E := by
  obtain ⟨first, second, counts, hsum, -⟩ := threeWayCounts_internal p.open.sound.kind total
  obtain ⟨hfirst, hsecond, hthird⟩ := threeWayCounts_filled p.open.sound.kind total counts
  refine p.ends_split full counts total fun idx' middle same pending => ?_
  have hkind : idx'.metadata.keyKind = idx.metadata.keyKind := by rw [same]
  generalize hG : [(y.id, (ykids ++ zkids).take first),
    (middle, ((ykids ++ zkids).take (first + second)).drop first),
    (z.id, (ykids ++ zkids).drop (first + second))] = G
  generalize hks : left ++ rebuilt y.id ((ykids ++ zkids).take first) ::
    rebuilt middle (((ykids ++ zkids).take (first + second)).drop first) ::
    rebuilt z.id ((ykids ++ zkids).drop (first + second)) :: right = ks at pending ⊢
  have hsplit : ks = left ++ branches G ++ right := by
    rw [← hks, ← hG]
    simp [branches]
  have hsame : G.flatMap Prod.snd = ykids ++ zkids := by
    rw [← hG]
    simp only [List.flatMap_cons, List.flatMap_nil, List.append_nil]
    exact take_append_drop_take_append_drop _ (Nat.le_add_right _ _)
  have hcounts : (∀ g ∈ G, minInternalKeyCount idx.metadata.keyKind + 1 ≤ g.2.length) ↔
      idx.metadata.keyKind ≠ .int64 := by
    rw [← hG, ← hthird]
    simp only [List.mem_cons, List.not_mem_nil, or_false, forall_eq_or_imp, forall_eq,
      List.length_take, List.length_drop]
    omega
  have hlength : ks.length = left.length + 3 + right.length := by
    rw [← hks]
    simp only [List.length_append, List.length_cons]
    omega
  have hleast := p.least
  have hmost := p.most
  refine pending.ends_writeOrSplit hb (by rw [hkind]; omega) (by rw [hkind]; omega) ?_ ?_
  · intro _ idx'' settled hitems
    refine Settled.mended (settled.of_metadata same) hitems ?_
    rintro ⟨hcount, hsides, hup⟩
    have hthree : G.length = 3 := by
      rw [← hG]
      rfl
    rw [filled_parent hsplit, hsame, hcounts, hthree]
    constructor
    · rintro ⟨-, -, hne, hkids, -⟩
      exact ⟨hkids, hne⟩
    · rintro ⟨hkids, hne⟩
      exact ⟨hcount.imp_right fun h => by omega, hsides, hne, hkids, hup⟩
  · intro hcount
    refine (ih idx' ks pending hcount).mono (fun _ idx'' repaired => ?_) fun _ _ he => he
    rw [Repaired, hkind] at repaired
    refine (repaired.of_metadata same).imp (fun given => given.2.2) ?_
    rintro ⟨-, hsides, -⟩
    have hall : (∀ k ∈ ks, Tree.Filled idx.metadata.keyKind false k) ↔
        idx.metadata.keyKind ≠ .int64 ∧
          ∀ k ∈ ykids ++ zkids, Tree.Filled idx.metadata.keyKind false k := by
      rw [← hcounts, ← hsame, ← filled_branches, hsplit]
      constructor
      · intro h k hk
        exact h k (List.mem_append_left _ (List.mem_append_right _ hk))
      · intro h k hk
        rcases List.mem_append.mp hk with hk | hk
        · rcases List.mem_append.mp hk with hk | hk
          · exact hsides k (List.mem_append_left _ hk)
          · exact h k hk
        · exact hsides k (List.mem_append_right _ hk)
    rw [hall]
    constructor
    · rintro ⟨⟨hne, hkids⟩, -⟩
      exact ⟨hkids, hne⟩
    · rintro ⟨hkids, hne⟩
      exact ⟨⟨hne, hkids⟩, fun hint => absurd hint hne⟩

/-- `split_internal` on a node with full siblings. -/
theorem Pending.ends_splitWithSibling {path : List PageId}
    (p : idx.Pending (frame b left right up) pid kids items)
    (count : kids.length = maxInternalKeyCount idx.metadata.keyKind + 2)
    (full : ∀ idx', idx'.disk.Full → ∀ e, E e idx')
    (fullRight : ∀ t, right.head? = some t →
      (Branch.kids t).length = maxInternalKeyCount idx.metadata.keyKind + 1)
    (fullLeft : ∀ t, left.getLast? = some t →
      (Branch.kids t).length = maxInternalKeyCount idx.metadata.keyKind + 1)
    (ih : ∀ (idx' : BStarPlusIndex) (ks : List (Tree (h + 1))), idx'.Pending up b.id ks items →
      ks.length = maxInternalKeyCount idx'.metadata.keyKind + 2 →
      Ends (split (rebuilt b.id ks).node) idx' (fun _ idx'' => idx'.Repaired idx'' up ks items) E) :
    Ends (splitInternalWithSibling split (rebuilt pid kids).node
      (b.node (left.map Tree.id ++ pid :: right.map Tree.id)) left.length path) idx
      (fun _ idx' => idx.Repaired idx' (frame b left right up) kids items) E := by
  have hnoroom : ¬ Context.HasRoom idx.metadata.keyKind (frame b left right up) := by
    rintro ⟨t, ht | ht, hroom⟩
    · have := fullRight t ht
      omega
    · have := fullLeft t ht
      omega
  have hnext := getElem?_append_cons (left.map Tree.id) (right.map Tree.id) pid
  rw [List.length_map, List.head?_map] at hnext
  have hcounts := p.counts
  have htwo := leastKids_two p.open.sound.kind up.isTop
  cases right with
  | cons t right =>
      cases t using Tree.branchCases with | branch z zkids => ?_
      have hz : idx.Holds false (branch z zkids : Tree (h + 1)) :=
        p.open.holds_sides _ (by simp)
      have hzfull : zkids.length = maxInternalKeyCount idx.metadata.keyKind + 1 :=
        fullRight _ rfl
      have hids : left.map Tree.id ++ pid :: (branch z zkids :: right).map Tree.id =
          (left ++ siblings (label pid kids) kids z zkids ++ right).map Tree.id := by
        simp [siblings]
      unfold splitInternalWithSibling
      simp only [BranchPage.children_node, hnext, List.head?_cons, Option.map_some]
      rw [ends_bind]
      refine ends_reading hz.readNode ?_
      rw [hids]
      refine (p.pairRight.ends_splitUp rfl full
        (by rw [List.length_append, count, hzfull]; omega) ih).mono
        (fun _ idx' mended => ?_) fun _ _ he => he
      refine mended.imp (fun given => ?_) fun given => ?_
      · obtain ⟨hcount, hsides, hup⟩ := Context.filled_frame.mp given
        simp only [List.length_cons] at hcount
        refine ⟨hcount.imp_right fun h => by omega, fun k hk => hsides k ?_, hup⟩
        rcases List.mem_append.mp hk with hk | hk
        · exact List.mem_append_left _ hk
        · exact List.mem_append_right _ (List.mem_cons_of_mem _ hk)
      · have hzkids := (Tree.filled_branch.mp
          ((Context.filled_frame.mp given).2.1 (branch z zkids) (by simp))).2
        simp only [List.mem_append, or_imp, forall_and, hnoroom, imp_false, ne_eq]
        exact and_congr_left fun _ => and_iff_left hzkids
  | nil =>
      rcases List.eq_nil_or_concat left with rfl | ⟨left, t, rfl⟩
      · simp only [List.length_nil] at hcounts
        omega
      · rw [List.concat_eq_append] at p hnoroom fullLeft ⊢
        cases t using Tree.branchCases with | branch y ykids => ?_
        have hy : idx.Holds false (branch y ykids : Tree (h + 1)) :=
          p.open.holds_sides _ (by simp)
        have hyfull : ykids.length = maxInternalKeyCount idx.metadata.keyKind + 1 :=
          fullLeft (branch y ykids) (by simp)
        have hids : (left ++ [branch y ykids]).map Tree.id ++
            pid :: ([] : List (Tree (h + 1))).map Tree.id =
            (left ++ siblings y ykids (label pid kids) kids ++ []).map Tree.id := by
          simp [siblings]
        have hvector : vectorAt ((left ++ [branch y ykids]).map Tree.id ++
            pid :: ([] : List (Tree (h + 1))).map Tree.id) left.length =
              .ok (Tree.id (branch y ykids)) := by
          rw [vectorAt_eq_ok]
          simp
        rw [List.concat_eq_append] at hnext
        rw [List.length_append, List.length_singleton] at hnext ⊢
        unfold splitInternalWithSibling
        simp only [BranchPage.children_node, hnext, List.head?_nil, Option.map_none]
        rw [hvector, fromExcept_ok, pure_bind, ends_bind]
        refine ends_reading hy.readNode ?_
        rw [hids]
        refine (p.pairLeft.ends_splitUp rfl full
          (by rw [List.length_append, count, hyfull]; omega) ih).mono
          (fun _ idx' mended => ?_) fun _ _ he => he
        refine mended.imp (fun given => ?_) fun given => ?_
        · obtain ⟨hcount, hsides, hup⟩ := Context.filled_frame.mp given
          simp only [List.length_append, List.length_singleton] at hcount
          refine ⟨hcount.imp_right fun h => by omega, fun k hk => hsides k ?_, hup⟩
          rcases List.mem_append.mp hk with hk | hk
          · exact List.mem_append_left _ (List.mem_append_left _ hk)
          · exact List.mem_append_right _ hk
        · have hykids := (Tree.filled_branch.mp
            ((Context.filled_frame.mp given).2.1 (branch y ykids) (by simp))).2
          simp only [List.mem_append, or_imp, forall_and, hnoroom, imp_false, ne_eq]
          exact and_congr_left fun _ => and_iff_right hykids

end Trials

/-- `split_internal`. -/
theorem Pending.ends_splitInternal (full : ∀ idx', idx'.disk.Full → ∀ e, E e idx') :
    ∀ {h H : Nat} (up : Context (h + 1) H) {idx : BStarPlusIndex} {pid : PageId}
      {kids : List (Tree h)} {items : List Item}, idx.Pending up pid kids items →
      kids.length = maxInternalKeyCount idx.metadata.keyKind + 2 →
      Ends (splitInternal (pid :: up.path) (rebuilt pid kids).node) idx
        (fun _ idx' => idx.Repaired idx' up kids items) E
  | h, _, top, idx, pid, kids, items, p, count => by
      have hpath : Context.path (top : Context (h + 1) (h + 1)) = [] := rfl
      rw [hpath]
      unfold splitInternal
      simp only [rebuilt, Tree.node_branch, BranchPage.isLeaf_node, BranchPage.pageId_node, ne_eq,
        not_true_eq_false, Bool.false_eq_true, if_false, List.head?_nil]
      refine p.ends_splitRoot count full fun idx' t r hitems hkind hsize => ?_
      exact ⟨⟨h + 2, t, r, hitems, fun _ => Nat.le_succ _, fun hH => absurd hH (by omega)⟩, hkind,
        hsize⟩
  | h, H, frame b left right up, idx, pid, kids, items, p, count => by
      have hplace := p.open.idxOf?_hole (by simp)
      have hpath : Context.path (frame b left right up) = b.id :: Context.path up := rfl
      rw [hpath]
      unfold splitInternal
      simp only [rebuilt, Tree.node_branch, BranchPage.isLeaf_node, BranchPage.pageId_node, ne_eq,
        not_true_eq_false, Bool.false_eq_true, if_false, List.head?_cons]
      rw [ends_bind]
      refine ends_reading p.open.readParent ?_
      simp only [BranchPage.isLeaf_node, Bool.false_eq_true, if_false, BranchPage.children_node,
        hplace]
      rw [ends_bind]
      refine p.ends_tryRight count (fun idx' repaired => repaired) fun fullRight => ?_
      simp only [Bool.false_eq_true, if_false]
      rw [ends_bind]
      refine p.ends_tryLeft count (fun idx' repaired => repaired) fun fullLeft => ?_
      simp only [Bool.false_eq_true, if_false]
      exact p.ends_splitWithSibling count full fullRight fullLeft fun idx' ks pending hcount =>
        Pending.ends_splitInternal full up pending hcount
termination_by _ _ up => sizeOf up

end BStarPlusIndex
end CwDb.Index
