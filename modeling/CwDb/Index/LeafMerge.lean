/-
  Index/LeafMerge.lean --- a leaf that has lost an item.

  `fix_leaf_underflow` lets the leaf borrow an item from a sibling, merge with it or, when
  the two do not fit into one page, share the items out anew.
-/
import CwDb.Index.ChangedLeaf
import CwDb.Index.InternalMerge

set_option autoImplicit false

namespace CwDb.Index

open CwDb.Cpp
open CwDb.Foundation
open LevelTree LevelContext

/-! ## The first leaf -/

theorem Context.id_mem_pages_of_mem_leftLeaves : ∀ {h H : Nat} {ctx : Context h H}
    {l : LeafPage}, l ∈ ctx.leftLeaves → l.id ∈ ctx.pages
  | _, _, top, _, hl => by cases hl
  | _, _, frame b left right up, l, hl => by
      rw [Context.pages_frame]
      rcases List.mem_append.mp hl with hl | hl
      · exact List.mem_cons_of_mem _
          (List.mem_append_right _ (id_mem_pages_of_mem_leftLeaves hl))
      · obtain ⟨k, hk, hl⟩ := List.mem_flatMap.mp hl
        refine List.mem_cons_of_mem _ (List.mem_append_left _ (List.mem_append_left _ ?_))
        exact List.mem_flatMap.mpr ⟨k, hk, Tree.id_mem_pages_of_mem_leaves hl⟩

theorem exists_firstLeaf_append (stop : PageId) {as : List LeafPage} (bs : List LeafPage)
    (filled : as ≠ []) : ∃ l ∈ as, firstLeaf stop (as ++ bs) = l.id := by
  cases as with
  | nil => exact absurd rfl filled
  | cons l as => exact ⟨l, List.mem_cons_self, rfl⟩

namespace BStarPlusIndex

variable {idx idx' : BStarPlusIndex} {H : Nat} {b : BranchPage} {pid : PageId}
  {l y z : LeafPage} {items : List Item} {Q : PUnit → BStarPlusIndex → Prop}
  {E : Fault → BStarPlusIndex → Prop} {up : Context 1 H} {left right : List (Tree 0)}

/-- The right one of two leaves is not the first leaf. -/
theorem LeafPair.first_ne (p : idx.LeafPair up pid left y z right items) :
    idx.metadata.firstLeafPageId ≠ z.id := by
  have hdistinct := p.open.distinct
  have hsplit : up.leavesWith [branch ⟨pid, []⟩ (left ++ [leaf y, leaf z] ++ right)] =
      (up.leftLeaves ++ left.flatMap leaves ++ [y]) ++
        (z :: right.flatMap leaves ++ up.rightLeaves) := by
    simp [Context.leavesWith]
  have hfilled : up.leftLeaves ++ left.flatMap leaves ++ [y] ≠ [] := by simp
  obtain ⟨l, hl, hfirst⟩ := exists_firstLeaf_append invalidPageId
    (z :: right.flatMap leaves ++ up.rightLeaves) hfilled
  rw [p.open.first, hsplit, hfirst]
  intro heq
  simp only [Tree.pages_branch, List.flatMap_append, List.flatMap_cons, List.flatMap_nil,
    Tree.pages_leaf, List.cons_append, List.nil_append, List.append_nil, List.append_assoc,
    List.nodup_cons] at hdistinct
  obtain ⟨-, hkids⟩ := hdistinct
  obtain ⟨-, hpair, hleft⟩ := List.nodup_append.mp hkids
  rcases List.mem_append.mp hl with hl | hl
  · rcases List.mem_append.mp hl with hl | hl
    · have hup := Context.id_mem_pages_of_mem_leftLeaves hl
      have hz := (List.nodup_cons.mp (List.nodup_cons.mp hpair).2).1
      exact hz (List.mem_append_right _ (heq ▸ hup))
    · obtain ⟨k, hk, hl⟩ := List.mem_flatMap.mp hl
      have hmem := List.mem_flatMap.mpr ⟨k, hk, Tree.id_mem_pages_of_mem_leaves hl⟩
      refine hleft l.id hmem z.id ?_ heq
      exact List.mem_cons_of_mem _ List.mem_cons_self
  · obtain rfl := List.mem_singleton.mp hl
    exact p.distinct.1 heq

/-! ## Sharing the items out -/

/-- The leaves are written with other shares of their items, and their parent; then the
ancestors hear of it. -/
theorem LeafPair.ends_share (p : idx.LeafPair up pid left y z right items) (hb : b.id = pid)
    (ys zs : List Item) (same : ys ++ zs = y.items ++ z.items)
    (sizes : leastItems idx.metadata.keyKind false ≤ ys.length ∧
      ys.length ≤ maxLeafKeyCount idx.metadata.keyKind ∧
      leastItems idx.metadata.keyKind false ≤ zs.length ∧
      zs.length ≤ maxLeafKeyCount idx.metadata.keyKind)
    (hQ : ∀ idx', idx.Settled idx' (up.plug (rebuilt pid
        (left ++ leafTrees z.next [(y.id, ys), (z.id, zs)] ++ right))) →
      Tree.items (up.plug (rebuilt pid
        (left ++ leafTrees z.next [(y.id, ys), (z.id, zs)] ++ right))) = items → Q ⟨⟩ idx') :
    Ends (do writeSiblings (LeafPage.node ⟨y.id, z.id, ys⟩) (LeafPage.node ⟨z.id, z.next, zs⟩)
               (b.node ((left ++ [leaf y, leaf z] ++ right).map Tree.id))
             propagateSubtreeMinChange b.id (pid :: up.path)) idx Q E := by
  rw [ends_bind]
  refine p.ends_writeSiblings hb ys zs same sizes fun idx' kept r hitems => ?_
  have hpropagate := r.ends_propagate (E := E)
  rw [hb]
  exact hpropagate.mono (fun _ _ s => hQ _ (s.of_metadata kept) hitems) fun _ _ he => he

/-- `redistribute_leaf_pair`. -/
theorem LeafPair.ends_redistribute (p : idx.LeafPair up pid left y z right items)
    (hb : b.id = pid) {n : Nat} (hn : ((y.items ++ z.items).length + 1) / 2 = n)
    (few : n ≤ maxLeafKeyCount idx.metadata.keyKind)
    (enough : leastItems idx.metadata.keyKind false ≤ (y.items ++ z.items).length / 2)
    (hQ : ∀ idx', idx.Settled idx' (up.plug (rebuilt pid
        (left ++ leafTrees z.next [(y.id, (y.items ++ z.items).take n),
          (z.id, (y.items ++ z.items).drop n)] ++ right))) →
      Tree.items (up.plug (rebuilt pid
        (left ++ leafTrees z.next [(y.id, (y.items ++ z.items).take n),
          (z.id, (y.items ++ z.items).drop n)] ++ right))) = items → Q ⟨⟩ idx') :
    Ends (redistributeLeafPair y.node z.node
        (b.node ((left ++ [leaf y, leaf z] ++ right).map Tree.id)) (pid :: up.path)) idx Q E := by
  have hitems : sortItems (y.node.items ++ z.node.items) = y.items ++ z.items := by
    have hpart : ∀ l : LeafPage, l.node.items = l.items := fun l => zip_fst_snd l.items
    rw [hpart, hpart, sortItems_eq p.sorted]
  have hsame := List.take_append_drop n (y.items ++ z.items)
  have hfirstLength : ((y.items ++ z.items).take n).length = n := by
    rw [List.length_take]
    omega
  have hsecondLength : ((y.items ++ z.items).drop n).length = (y.items ++ z.items).length / 2 := by
    rw [List.length_drop]
    omega
  have hfirst := nodeFitsPage_leaf (l := ⟨y.id, y.next, (y.items ++ z.items).take n⟩) p.open.sound
    (fun e he => p.admissible e (List.mem_of_mem_take he)) (by rw [hfirstLength]; omega)
  have hsecond := nodeFitsPage_leaf (l := ⟨z.id, z.next, (y.items ++ z.items).drop n⟩) p.open.sound
    (fun e he => p.admissible e (List.mem_of_mem_drop he)) (by rw [hsecondLength]; omega)
  rw [hfirstLength, decide_eq_true few] at hfirst
  rw [hsecondLength, decide_eq_true (by omega)] at hsecond
  rw [redistributeLeafPair]
  simp only [LeafPage.isLeaf_node, Bool.not_true, Bool.or_self, Bool.false_eq_true, if_false, hitems,
    hn]
  rw [ends_bind]
  refine ends_reading (nodesFitPage_pair hfirst hsecond) ?_
  simp only [Bool.and_self, Bool.not_true, Bool.false_eq_true, if_false]
  refine p.ends_share hb _ _ hsame ⟨?_, ?_, ?_, ?_⟩ hQ
  · omega
  · omega
  · omega
  · omega

/-! ## Merging -/

/-- `mergeLeaves`: the leaves become one, unless that is too large.  Leaves of which one has
the fewest items and the other one less never do. -/
theorem LeafPair.ends_merge {fix : IndexNode → IndexM PUnit} {given : Prop}
    (p : idx.LeafPair up pid left y z right items) (hb : b.id = pid)
    (many : leastItems idx.metadata.keyKind false ≤ (y.items ++ z.items).length)
    (most : (y.items ++ z.items).length ≤ 2 * maxLeafKeyCount idx.metadata.keyKind)
    (counts : given →
      (y.items ++ z.items).length + 1 = 2 * minLeafKeyCount idx.metadata.keyKind)
    (recovers : Recovers up pid items fix E) :
    Ends (mergeLeaves fix y.node z.node (b.node ((left ++ [leaf y, leaf z] ++ right).map Tree.id))
      left.length (pid :: up.path)) idx (fun _ idx' => idx.Mended idx' H items given False) E := by
  have hfits := nodeFitsPage_leaf (l := ⟨y.id, z.next, y.items ++ z.items⟩) p.open.sound
    p.admissible most
  have hmerged : { y.node with
      keys := y.node.keys ++ z.node.keys,
      records := y.node.records ++ z.node.records,
      nextLeafPageId := z.node.nextLeafPageId } =
      LeafPage.node ⟨y.id, z.next, y.items ++ z.items⟩ := by
    simp [LeafPage.node]
  have hlarge := two_mul_minLeafKeyCount p.open.sound.kind
  have hleast : leastItems idx.metadata.keyKind false =
    (maxLeafKeyCount idx.metadata.keyKind + 1) / 2 := rfl
  rw [mergeLeaves]
  simp only [hmerged]
  rw [ends_bind]
  refine ends_reading hfits ?_
  by_cases hroom : (y.items ++ z.items).length ≤ maxLeafKeyCount idx.metadata.keyKind
  · rw [decide_eq_true hroom]
    simp only [Bool.not_true, Bool.false_eq_true, if_false]
    have hwindow : idx.Window up pid left [leaf ⟨y.id, z.next, y.items ++ z.items⟩] right items :=
      p.window (G := [(y.id, y.items ++ z.items)]) (by simp) rfl (by simp) (by simp) <| by
        simp only [List.mem_singleton, forall_eq]
        exact ⟨many, hroom⟩
    rw [ends_bind]
    refine ends_modifyMetadata ?_
    have hne : idx.metadata.firstLeafPageId ≠ z.node.pageId := p.first_ne
    rw [if_neg hne, ends_bind]
    refine hwindow.ends_write fun idx' touches w => ?_
    have hkind := touches.kind
    have hids : ((left ++ [leaf y, leaf z] ++ right).map Tree.id).eraseIdx (left.length + 1) =
        (left ++ [leaf (LeafPage.mk y.id z.next (y.items ++ z.items))] ++ right).map Tree.id := by
      have herase := eraseIdx_append_cons (left.map Tree.id) (right.map Tree.id) y.id z.id
      rw [List.length_map] at herase
      simpa using herase
    have hleastUp := p.least
    have hmostUp := p.most
    have hlength : (left ++ [leaf (LeafPage.mk y.id z.next (y.items ++ z.items))] ++
        right).length = left.length + right.length + 1 := by
      simp only [List.length_append, List.length_singleton]
      omega
    have hdone := w.pending.ends_childRemoved (b := ⟨b.id, b.seps.eraseIdx left.length⟩)
      (E := E) fix hb (by rw [hlength, hkind]; omega) (by rw [hlength, hkind]; omega)
      fun hup hlow => recovers idx' _ hup w.pending hlow ?_
    · refine Ends.mono (Q := fun _ idx'' => idx'.Regained idx'' H items) ?_
        (fun _ idx'' regained => ?_) fun _ _ he => he
      · rw [← hids] at hdone
        exact hdone
      · refine (regained.of_metadata touches.metadata).imp (fun hgiven => ?_) fun _ => Iff.rfl
        have := counts hgiven
        omega
    · rw [hlength, hkind]
      have : leastKids idx.metadata.keyKind up.isTop ≤ left.length + right.length + 2 := p.least
      rw [hup] at this
      omega
  · rw [decide_eq_false hroom]
    simp only [Bool.not_false, if_true]
    refine p.ends_redistribute hb rfl (by omega) (by omega) fun idx' settled content => ?_
    refine settled.mended content fun hgiven => iff_false_intro fun hfilled => ?_
    obtain ⟨-, -, hleaves, -⟩ := (filled_leafParent rfl).mp hfilled
    have hlast := hleaves
      (z.id, (y.items ++ z.items).drop (((y.items ++ z.items).length + 1) / 2)) (by simp)
    have := counts hgiven
    rw [List.length_drop] at hlast
    omega

/-! ## Underflow -/

section Underflow

variable {fix : IndexNode → IndexM PUnit}

/-- What the repair of a low leaf amounts to: all is filled again when a sibling has an item to
spare. -/
abbrev Relieved (idx idx' : BStarPlusIndex) (ctx : Context 0 H) (l : LeafPage)
    (items : List Item) : Prop :=
  idx.Mended idx' H items
    (ctx.Filled idx.metadata.keyKind ∧ l.items.length + 1 = minLeafKeyCount idx.metadata.keyKind)
    (ctx.HasItemToSpare idx.metadata.keyKind)

/-- The left sibling gives its last item away. -/
theorem Changed.ends_borrowLeft
    (p : idx.Changed (frame b (left ++ [leaf y]) right up) l items)
    (low : l.items.length < minLeafKeyCount idx.metadata.keyKind)
    (few : leastItems idx.metadata.keyKind false ≤ l.items.length + 1)
    (many : minLeafKeyCount idx.metadata.keyKind < y.items.length) :
    Ends (borrowFromLeftLeaf y.node l.node
      (b.node ((left ++ [leaf y, leaf l] ++ right).map Tree.id)) (b.id :: up.path)) idx
      (fun _ idx' => idx.Relieved idx' (frame b (left ++ [leaf y]) right up) l items) E := by
  have hpair := p.pairLeft
  have hmost : y.items.length ≤ maxLeafKeyCount idx.metadata.keyKind :=
    LeafPage.Sized.most (p.open.holds_sides (leaf y) (by simp)).sized
  have hlast : (left ++ [leaf y]).getLast? = some (leaf y : Tree 0) := by simp
  have hmin := leastItems_le_minLeafKeyCount p.open.sound.kind
  have hmax := minLeafKeyCount_le p.open.sound.kind
  have hnext := hpair.next
  obtain ⟨yid, ynext, yitems⟩ := y
  obtain ⟨start, e, rfl⟩ := List.eq_nil_or_concat yitems |>.resolve_left
    (List.length_pos_iff.mp (Nat.lt_of_le_of_lt (Nat.zero_le _) many))
  rw [List.concat_eq_append] at *
  obtain rfl : ynext = l.id := hnext
  have hlength : (start ++ [e]).length = start.length + 1 := by simp
  have hfewer : minLeafKeyCount idx.metadata.keyKind < (start ++ [e]).length := many
  have hroom : (start ++ [e]).length ≤ maxLeafKeyCount idx.metadata.keyKind := hmost
  have hkey : (LeafPage.node ⟨yid, l.id, start ++ [e]⟩).keys.getLast? = some e.1 := by simp
  have hrecord : (LeafPage.node ⟨yid, l.id, start ++ [e]⟩).records.getLast? = some e.2 := by simp
  have hkeys : (LeafPage.node ⟨yid, l.id, start ++ [e]⟩).keys.dropLast = start.map Prod.fst := by
    simp
  have hrecords : (LeafPage.node ⟨yid, l.id, start ++ [e]⟩).records.dropLast =
      start.map Prod.snd := by simp
  rw [borrowFromLeftLeaf]
  simp only [hkey, hrecord, hkeys, hrecords]
  refine hpair.ends_share rfl start (e :: l.items) (by simp) ⟨?_, ?_, ?_, ?_⟩
    fun idx' settled content => ?_
  · omega
  · omega
  · exact few
  · exact Nat.le_trans low hmax
  refine (settled.mended_leaves content rfl ?_ ?_).imp And.left fun given => ?_
  · intro k hk
    rcases List.mem_append.mp hk with hk | hk
    · exact List.mem_append_left _ (List.mem_append_left _ hk)
    · exact List.mem_append_right _ hk
  · rw [List.length_append, List.length_singleton]
    omega
  · refine iff_of_true ⟨?_, Nat.le_of_eq given.2.symm⟩ ⟨_, .inr hlast, many⟩
    omega

/-- The right sibling gives its first item away. -/
theorem Changed.ends_borrowRight
    (p : idx.Changed (frame b left (leaf z :: right) up) l items)
    (low : l.items.length < minLeafKeyCount idx.metadata.keyKind)
    (few : leastItems idx.metadata.keyKind false ≤ l.items.length + 1)
    (many : minLeafKeyCount idx.metadata.keyKind < z.items.length) :
    Ends (borrowFromRightLeaf l.node z.node
      (b.node ((left ++ [leaf l, leaf z] ++ right).map Tree.id)) (b.id :: up.path)) idx
      (fun _ idx' => idx.Relieved idx' (frame b left (leaf z :: right) up) l items) E := by
  have hpair := p.pairRight
  have hmost : z.items.length ≤ maxLeafKeyCount idx.metadata.keyKind :=
    LeafPage.Sized.most (p.open.holds_sides (leaf z) (by simp)).sized
  have hmin := leastItems_le_minLeafKeyCount p.open.sound.kind
  have hmax := minLeafKeyCount_le p.open.sound.kind
  have hnext := hpair.next
  obtain ⟨lid, lnext, litems⟩ := l
  obtain ⟨zid, znext, zitems⟩ := z
  obtain rfl : lnext = zid := hnext
  obtain ⟨e, rest, rfl⟩ := List.exists_cons_of_length_pos
    (Nat.lt_of_le_of_lt (Nat.zero_le _) many)
  have hlength : (e :: rest).length = rest.length + 1 := rfl
  have hfewer : minLeafKeyCount idx.metadata.keyKind < (e :: rest).length := many
  have hroom : (e :: rest).length ≤ maxLeafKeyCount idx.metadata.keyKind := hmost
  have hgrown : (litems ++ [e]).length = litems.length + 1 := by simp
  have hkeys : litems.map Prod.fst ++ [e.1] = (litems ++ [e]).map Prod.fst := by simp
  have hrecords : litems.map Prod.snd ++ [e.2] = (litems ++ [e]).map Prod.snd := by simp
  rw [borrowFromRightLeaf]
  simp only [LeafPage.keys_node, LeafPage.records_node, List.map_cons, hkeys, hrecords]
  refine hpair.ends_share rfl (litems ++ [e]) rest (by simp) ⟨?_, ?_, ?_, ?_⟩
    fun idx' settled content => ?_
  · exact hgrown ▸ few
  · exact hgrown ▸ Nat.le_trans low hmax
  · omega
  · omega
  refine (settled.mended_leaves content rfl ?_ ?_).imp And.left fun given => ?_
  · intro k hk
    rcases List.mem_append.mp hk with hk | hk
    · exact List.mem_append_left _ hk
    · exact List.mem_append_right _ (List.mem_cons_of_mem _ hk)
  · rw [List.length_cons]
    omega
  · refine iff_of_true ⟨?_, ?_⟩ ⟨_, .inl rfl, many⟩
    · exact hgrown ▸ Nat.le_of_eq given.2.symm
    · omega

/-- `fix_leaf_underflow` on a leaf the siblings of which have no item to spare. -/
theorem Changed.ends_mergeWithSibling (p : idx.Changed (frame b left right up) l items)
    (low : l.items.length < minLeafKeyCount idx.metadata.keyKind)
    (recovers : Recovers up b.id items fix E)
    (spareLeft : ∀ t : Tree 0, left.getLast? = some t →
      (LeafPage.items t).length ≤ minLeafKeyCount idx.metadata.keyKind)
    (spareRight : ∀ t : Tree 0, right.head? = some t →
      (LeafPage.items t).length ≤ minLeafKeyCount idx.metadata.keyKind) :
    Ends (mergeLeafWithSibling fix l.node (b.node (left.map Tree.id ++ l.id :: right.map Tree.id))
      left.length (b.id :: up.path)) idx
      (fun _ idx' => idx.Relieved idx' (frame b left right up) l items) E := by
  have hcounts := p.counts
  have htwo := leastKids_two p.open.sound.kind up.isTop
  have hmax := minLeafKeyCount_le p.open.sound.kind
  have hnone : ¬ Context.HasItemToSpare idx.metadata.keyKind (frame b left right up) := by
    rintro ⟨t, ht | ht, hmany⟩
    · exact Nat.not_lt.mpr (spareRight t ht) hmany
    · exact Nat.not_lt.mpr (spareLeft t ht) hmany
  have hdone : ∀ idx', idx.Mended idx' H items (Context.Filled idx.metadata.keyKind
      (frame b left right up) ∧ l.items.length + 1 = minLeafKeyCount idx.metadata.keyKind) False →
      idx.Relieved idx' (frame b left right up) l items :=
    fun idx' mended => mended.imp id fun _ => (iff_false_intro hnone).symm
  rcases List.eq_nil_or_concat left with rfl | ⟨left, t, rfl⟩
  · cases right with
    | nil =>
        simp only [List.length_nil] at hcounts
        omega
    | cons t right =>
        cases t using Tree.leafCases with | leaf z => ?_
        have hz : idx.Holds false (leaf z : Tree 0) := p.open.holds_sides _ (by simp)
        have hleast : leastItems idx.metadata.keyKind false ≤ z.items.length :=
          LeafPage.Sized.least hz.sized
        have hmost : z.items.length ≤ maxLeafKeyCount idx.metadata.keyKind :=
          LeafPage.Sized.most hz.sized
        have hspare : z.items.length ≤ minLeafKeyCount idx.metadata.keyKind := spareRight _ rfl
        have hlength : (l.items ++ z.items).length = l.items.length + z.items.length :=
          List.length_append
        unfold mergeLeafWithSibling
        change Ends (do let right ← reading fun idx => idx.readNode z.id; _) idx _ E
        rw [ends_bind]
        refine ends_reading hz.readNode ?_
        simp only [Tree.node_leaf, LeafPage.isLeaf_node, Bool.not_true, Bool.false_eq_true, if_false]
        refine (p.pairRight.ends_merge rfl (by omega) (by omega) (fun given => ?_) recovers).mono
          (fun _ idx' mended => hdone idx' mended) fun _ _ he => he
        obtain ⟨-, hsides, -⟩ := Context.filled_frame.mp given.1
        have hfilled := Tree.filled_leaf.mp (hsides (leaf z) (by simp))
        rw [Bool.false_eq_true, false_or] at hfilled
        omega
  · rw [List.concat_eq_append] at p spareLeft hnone hdone ⊢
    cases t using Tree.leafCases with | leaf y => ?_
    have hy : idx.Holds false (leaf y : Tree 0) := p.open.holds_sides _ (by simp)
    have hleast : leastItems idx.metadata.keyKind false ≤ y.items.length :=
      LeafPage.Sized.least hy.sized
    have hmost : y.items.length ≤ maxLeafKeyCount idx.metadata.keyKind :=
      LeafPage.Sized.most hy.sized
    have hspare : y.items.length ≤ minLeafKeyCount idx.metadata.keyKind :=
      spareLeft (leaf y) (by simp)
    have hlength : (y.items ++ l.items).length = y.items.length + l.items.length :=
      List.length_append
    have hvector : vectorAt ((left ++ [leaf y]).map Tree.id ++ l.id :: right.map Tree.id)
        left.length = .ok (Tree.id (leaf y)) := by
      rw [vectorAt_eq_ok]
      simp
    have hids : (left ++ [leaf y]).map Tree.id ++ l.id :: right.map Tree.id =
        (left ++ [leaf y, leaf l] ++ right).map Tree.id := by simp
    rw [List.length_append, List.length_singleton]
    unfold mergeLeafWithSibling
    simp only [BranchPage.children_node]
    rw [hvector, fromExcept_ok, pure_bind, ends_bind]
    refine ends_reading hy.readNode ?_
    simp only [Tree.node_leaf, LeafPage.isLeaf_node, Bool.not_true, Bool.false_eq_true, if_false]
    rw [hids]
    refine (p.pairLeft.ends_merge rfl (by omega) (by omega) (fun given => ?_) recovers).mono
      (fun _ idx' mended => hdone idx' mended) fun _ _ he => he
    obtain ⟨-, hsides, -⟩ := Context.filled_frame.mp given.1
    have hfilled := Tree.filled_leaf.mp (hsides (leaf y) (by simp))
    rw [Bool.false_eq_true, false_or] at hfilled
    omega

/-- `fix_leaf_underflow`, after the left sibling. -/
theorem Changed.ends_fixFromRight (p : idx.Changed (frame b left right up) l items)
    (low : l.items.length < minLeafKeyCount idx.metadata.keyKind)
    (few : leastItems idx.metadata.keyKind false ≤ l.items.length + 1)
    (recovers : Recovers up b.id items fix E)
    (spareLeft : ∀ t : Tree 0, left.getLast? = some t →
      (LeafPage.items t).length ≤ minLeafKeyCount idx.metadata.keyKind) :
    Ends (fixLeafFromRight fix l.node (b.node (left.map Tree.id ++ l.id :: right.map Tree.id))
      left.length (b.id :: up.path)) idx
      (fun _ idx' => idx.Relieved idx' (frame b left right up) l items) E := by
  have hmerge := p.ends_mergeWithSibling low recovers spareLeft
  have hnext := getElem?_append_cons (left.map Tree.id) (right.map Tree.id) l.id
  rw [List.length_map, List.head?_map] at hnext
  rw [fixLeafFromRight, BranchPage.children_node, hnext]
  cases right with
  | nil => exact hmerge nofun
  | cons t right =>
      cases t using Tree.leafCases with | leaf z => ?_
      have hz : idx.Holds false (leaf z : Tree 0) := p.open.holds_sides _ (by simp)
      have hkeys : z.node.keys.length = z.items.length := List.length_map _
      simp only [List.head?_cons, Option.map_some]
      rw [ends_bind]
      refine ends_reading hz.readNode ?_
      rw [ends_bind, ends_get]
      simp only [Tree.node_leaf, LeafPage.isLeaf_node, Bool.not_true, Bool.false_eq_true, if_false,
        hkeys]
      by_cases hmany : minLeafKeyCount idx.metadata.keyKind < z.items.length
      · have hids : left.map Tree.id ++ l.id :: (leaf z :: right).map Tree.id =
            (left ++ [leaf l, leaf z] ++ right).map Tree.id := by simp
        rw [if_pos hmany, hids]
        exact p.ends_borrowRight low few hmany
      · rw [if_neg hmany]
        refine hmerge fun t ht => ?_
        cases ht
        exact Nat.not_lt.mp hmany

/-- `fix_leaf_underflow` on a leaf with a parent. -/
theorem Changed.ends_fixFromSiblings (p : idx.Changed (frame b left right up) l items)
    (low : l.items.length < minLeafKeyCount idx.metadata.keyKind)
    (few : leastItems idx.metadata.keyKind false ≤ l.items.length + 1)
    (recovers : Recovers up b.id items fix E) :
    Ends (fixLeafFromSiblings fix l.node (b.node (left.map Tree.id ++ l.id :: right.map Tree.id))
      left.length (b.id :: up.path)) idx
      (fun _ idx' => idx.Relieved idx' (frame b left right up) l items) E := by
  have hright := p.ends_fixFromRight low few recovers
  rcases List.eq_nil_or_concat left with rfl | ⟨left, t, rfl⟩
  · exact hright nofun
  · rw [List.concat_eq_append] at p hright ⊢
    cases t using Tree.leafCases with | leaf y => ?_
    have hy : idx.Holds false (leaf y : Tree 0) := p.open.holds_sides _ (by simp)
    have hkeys : y.node.keys.length = y.items.length := List.length_map _
    have hvector : vectorAt ((left ++ [leaf y]).map Tree.id ++ l.id :: right.map Tree.id)
        left.length = .ok (Tree.id (leaf y)) := by
      rw [vectorAt_eq_ok]
      simp
    rw [List.length_append, List.length_singleton] at hright ⊢
    unfold fixLeafFromSiblings
    simp only [BranchPage.children_node]
    rw [hvector, fromExcept_ok, pure_bind, ends_bind]
    refine ends_reading hy.readNode ?_
    rw [ends_bind, ends_get]
    simp only [Tree.node_leaf, LeafPage.isLeaf_node, Bool.not_true, Bool.false_eq_true, if_false,
      hkeys]
    by_cases hmany : minLeafKeyCount idx.metadata.keyKind < y.items.length
    · have hids : (left ++ [leaf y]).map Tree.id ++ l.id :: right.map Tree.id =
          (left ++ [leaf y, leaf l] ++ right).map Tree.id := by simp
      rw [if_pos hmany, hids]
      exact p.ends_borrowLeft low few hmany
    · rw [if_neg hmany]
      refine hright fun t ht => ?_
      obtain rfl : leaf y = t := by simpa using ht
      exact Nat.not_lt.mp hmany

/-- `fix_leaf_underflow`. -/
theorem Changed.ends_fixLeafUnderflow (p : idx.Changed (frame b left right up) l items)
    (low : l.items.length < minLeafKeyCount idx.metadata.keyKind)
    (few : leastItems idx.metadata.keyKind false ≤ l.items.length + 1) :
    Ends (fixLeafUnderflow l.node (l.id :: Context.path (frame b left right up))) idx
      (fun _ idx' => idx.Relieved idx' (frame b left right up) l items) E := by
  have hplace := p.open.idxOf?_hole (by simp)
  have hroot : l.node.pageId ≠ idx.metadata.rootPageId := p.open.ne_root (by simp)
  have hid : ¬ l.id ≠ l.node.pageId := not_not.mpr rfl
  have hpath : Context.path (frame b left right up) = b.id :: Context.path up := rfl
  have hvector : vectorAt (b.id :: Context.path up) 0 = .ok b.id := rfl
  have hsiblings := p.ends_fixFromSiblings low few (recovers_fixInternalUnderflow up b.id)
    (E := E)
  rw [hpath, fixLeafUnderflow]
  simp only [LeafPage.isLeaf_node, Bool.not_true, Bool.false_eq_true, if_false]
  rw [if_neg hid, ends_bind, ends_get, if_neg hroot, hvector, fromExcept_ok, pure_bind, ends_bind]
  refine ends_reading p.open.readParent ?_
  simp only [BranchPage.isLeaf_node, Bool.false_eq_true, if_false, BranchPage.children_node,
    LeafPage.pageId_node, hplace]
  exact hsiblings

end Underflow

end BStarPlusIndex
end CwDb.Index
