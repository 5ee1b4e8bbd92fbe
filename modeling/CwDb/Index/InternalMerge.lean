/-
  Index/InternalMerge.lean --- a node that has lost a child.

  `handle_internal_after_child_removed` writes the node or, when it has too few children,
  lets it borrow one from a sibling, share the children out with it, or merge with it; a
  merge costs the parent a child, up to the root, which gives way to an only child.
-/
import CwDb.Index.InternalSplit

set_option autoImplicit false

namespace CwDb.Index

open CwDb.Cpp
open CwDb.Foundation
open LevelTree LevelContext

namespace BStarPlusIndex

variable {idx idx' : BStarPlusIndex} {h H : Nat} {pid : PageId} {b y z : BranchPage}
  {items : List Item} {Q : PUnit → BStarPlusIndex → Prop} {E : Fault → BStarPlusIndex → Prop}

/-- The repair leaves a tree with the items; how full it is nobody says. -/
abbrev Regained (idx idx' : BStarPlusIndex) (H : Nat) (items : List Item) : Prop :=
  idx.Mended idx' H items False False

theorem Settled.regained {t : Tree H} (s : idx.Settled idx' t) (content : t.items = items) :
    idx.Regained idx' H items := s.mended content nofun

theorem leastKids_le {kind : IndexKeyKind} (proper : kind.Proper) :
    leastKids kind false ≤ minInternalKeyCount kind + 1 := by
  rcases proper with rfl | rfl <;> decide

/-- A hole that has a parent is not on the page of the root. -/
theorem Open.ne_root {left right ts : List (Tree h)} {up : Context (h + 1) H} {hole : PageId}
    (o : idx.Open (frame b left right up) hole ts) (inside : hole ∈ ts.flatMap Tree.pages) :
    hole ≠ idx.metadata.rootPageId := by
  rw [o.root]
  intro heq
  obtain ⟨-, -, hno⟩ := List.nodup_append.mp o.distinct
  exact hno _ inside _ (Context.rootId_frame_mem b left right up hole) heq

/-! ## The root -/

/-- `promote_single_child_root`: the only child becomes the root. -/
theorem Pending.ends_promote {k : Tree h}
    (p : idx.Pending (top : Context (h + 1) (h + 1)) pid [k] items) :
    Ends (promoteSingleChildRoot (rebuilt pid [k]).node) idx
      (fun _ idx' => idx.Regained idx' (h + 1) items) E := by
  have holds := p.holds k List.mem_cons_self
  have hread : idx.readNode k.id = .ok k.node := holds.readNode
  have hid : k.node.pageId = k.id := k.pageId_node
  have hheight := p.open.height
  have hone : (1 : UInt32) < idx.metadata.height := by
    rw [UInt32.lt_iff_toNat_lt, hheight]
    exact Nat.le_add_left 2 h
  have hlower : (idx.metadata.height - 1).toNat = h + 1 := by
    rw [UInt32.toNat_sub_of_le _ _ (UInt32.le_of_lt hone), hheight]
    rfl
  rw [promoteSingleChildRoot]
  simp only [rebuilt, Tree.node_branch, BranchPage.isLeaf_node, Bool.false_eq_true, if_false,
    BranchPage.children_node, List.map_cons, List.map_nil]
  rw [ends_bind]
  refine ends_reading hread ?_
  rw [ends_bind]
  refine ends_modifyMetadata ?_
  rw [ends_bind]
  rw [if_pos hone]
  generalize hlow : BStarPlusIndex.mk idx.disk { idx.metadata with
    rootPageId := k.node.pageId, height := idx.metadata.height - 1 } = low
  have hholds : low.Holds false k := by
    rw [← hlow]
    exact ⟨holds.nodes, holds.sized, holds.distinct, holds.allocated⟩
  have hsound : low.Sound := by
    rw [← hlow]
    exact ⟨p.open.sound.disk, p.open.sound.kind⟩
  have hfirst : (if k.node.isLeaf then .ok k.node.pageId
      else low.leftmostLeafPageId k.node.pageId) = .ok (firstLeaf invalidPageId k.leaves) := by
    rw [hid]
    cases h with
    | zero => rfl
    | succ h => exact hholds.leftmostLeafPageId hsound invalidPageId
  refine ends_reading hfirst ?_
  refine ends_modifyMetadata ?_
  subst hlow
  have hcontent : k.items = items := by
    rw [← p.content, Context.itemsWith_eq]
    simp [leftLeaves, rightLeaves]
  have hsorted := p.sorted
  have hchained := p.open.chained
  have hmiddle : ∀ k : Tree h, Context.leavesWith (top : Context h h) [k] = k.leaves := fun k => by
    simp [Context.leavesWith, leftLeaves, rightLeaves]
  have hwhole : Context.leavesWith (top : Context (h + 1) (h + 1)) [branch ⟨pid, []⟩ [k]] =
      k.leaves := by simp [Context.leavesWith, leftLeaves, rightLeaves]
  rw [hwhole] at hchained
  rw [List.flatMap_singleton] at hsorted
  have hother : h ≠ h + 1 := (Nat.succ_ne_self h).symm
  refine ⟨⟨h, k, ⟨⟨⟨hsound.disk, hsound.kind⟩, hid, hlower, ?_, List.forall_mem_nil _, trivial,
    fun _ _ => trivial, ?_, ?_, ?_, ?_⟩, hholds.nodes, hholds.sized.asRoot p.open.sound.kind⟩,
    hcontent, False.elim, fun hsame => absurd hsame hother⟩, rfl, rfl⟩
  · rw [hmiddle]
  · rw [hmiddle]
    exact hsorted
  · rw [hmiddle]
    exact hchained
  · simpa using holds.distinct
  · simpa using holds.allocated

/-! ## Siblings -/

section Siblings

variable {up : Context (h + 1) H} {left right : List (Tree h)} {kids : List (Tree h)}

/-- `handle_internal_after_child_removed`, when the node is written or may give way to its
only child. -/
theorem Pending.ends_childRemoved (fix : IndexNode → IndexM PUnit)
    (p : idx.Pending up pid kids items) (hb : b.id = pid)
    (few : leastKids idx.metadata.keyKind up.isTop ≤ kids.length + 1)
    (most : kids.length ≤ maxInternalKeyCount idx.metadata.keyKind + 1)
    (hfix : up.isTop = false → kids.length ≤ minInternalKeyCount idx.metadata.keyKind →
      Ends (fix (rebuilt pid kids).node) idx (fun _ idx' => idx.Regained idx' H items) E) :
    Ends (handleInternalAfterChildRemoved fix (b.node (kids.map Tree.id)) (pid :: up.path)) idx
      (fun _ idx' => idx.Regained idx' H items) E := by
  have hrebuild := p.rebuildInternalKeys_eq hb
  have htwo := leastKids_two p.open.sound.kind up.isTop
  have hkeys : (rebuilt pid kids).node.keys.length + 1 = kids.length :=
    (Tree.length_separators p.open.sound.kind (List.length_pos_iff.mp (by omega))
      fun k hk => (p.holds k hk).sized).symm
  have hchildren : (rebuilt pid kids).node.children.length = kids.length := by
    simp [rebuilt]
  rw [handleInternalAfterChildRemoved]
  simp only [BranchPage.isLeaf_node, Bool.false_eq_true, if_false, List.head?_cons,
    BranchPage.pageId_node, hb, ne_eq, not_true_eq_false]
  rw [ends_bind]
  refine ends_reading hrebuild ?_
  rw [ends_bind, ends_get]
  cases up with
  | top =>
      have hroot : (rebuilt pid kids).node.pageId = idx.metadata.rootPageId := p.open.root.symm
      rw [if_pos hroot, hchildren]
      by_cases hone : kids.length = 1
      · obtain ⟨k, rfl⟩ := List.length_eq_one_iff.mp hone
        rw [if_pos hone]
        exact p.ends_promote
      · rw [if_neg hone]
        refine p.ends_write (show 2 ≤ kids.length by omega) most fun idx' touches r content => ?_
        exact (r.settled touches.metadata).regained content
  | frame b' left' right' up =>
      have hroot : (rebuilt pid kids).node.pageId ≠ idx.metadata.rootPageId :=
        p.open.ne_root (by simp)
      rw [if_neg hroot]
      have hleast : leastKids idx.metadata.keyKind false ≤
        minInternalKeyCount idx.metadata.keyKind + 1 := leastKids_le p.open.sound.kind
      by_cases hlow : kids.length ≤ minInternalKeyCount idx.metadata.keyKind
      · rw [if_pos (by omega)]
        exact hfix rfl hlow
      · rw [if_neg (by omega), ends_bind]
        refine p.ends_write (show leastKids idx.metadata.keyKind false ≤ _ by omega) most
          fun idx' touches r content => ?_
        refine (r.ends_propagate (E := E)).mono (fun _ idx'' settled => ?_) fun _ _ he => he
        exact (settled.of_metadata touches.metadata).regained content

end Siblings

theorem eraseIdx_append_cons {α : Type} (l r : List α) (a c : α) :
    (l ++ a :: c :: r).eraseIdx (l.length + 1) = l ++ a :: r := by
  induction l with
  | nil => rfl
  | cons b l ih => exact congrArg (List.cons b) ih

/-- `fix` repairs a branch on the page `pid` that has a child too few. -/
def Recovers (up : Context (h + 1) H) (pid : PageId) (items : List Item)
    (fix : IndexNode → IndexM PUnit) (E : Fault → BStarPlusIndex → Prop) : Prop :=
  ∀ (idx : BStarPlusIndex) (kids : List (Tree h)), up.isTop = false → idx.Pending up pid kids items →
    kids.length ≤ minInternalKeyCount idx.metadata.keyKind →
    leastKids idx.metadata.keyKind false ≤ kids.length + 1 →
    Ends (fix (rebuilt pid kids).node) idx (fun _ idx' => idx.Regained idx' H items) E

/-- `mergeInternal`: the siblings become one node, unless that is too large. -/
theorem InternalPair.ends_merge {fix : IndexNode → IndexM PUnit} {up : Context (h + 2) H}
    {left right : List (Tree (h + 1))} {ykids zkids : List (Tree h)}
    (p : idx.InternalPair up pid left y ykids z zkids right items) (hb : b.id = pid)
    (many : leastKids idx.metadata.keyKind false ≤ (ykids ++ zkids).length)
    (most : (ykids ++ zkids).length ≤ 2 * maxInternalKeyCount idx.metadata.keyKind + 2)
    (recovers : Recovers up pid items fix E) :
    Ends (mergeInternal fix (y.node (ykids.map Tree.id)) (z.node (zkids.map Tree.id))
      (b.node ((left ++ siblings y ykids z zkids ++ right).map Tree.id)) left.length
      (pid :: up.path)) idx (fun _ idx' => idx.Regained idx' H items) E := by
  have htwo := leastKids_two p.open.sound.kind false
  have hleast : leastKids idx.metadata.keyKind false =
    (maxInternalKeyCount idx.metadata.keyKind + 2) / 2 := rfl
  have hchildren : ykids.map Tree.id ++ zkids.map Tree.id = (ykids ++ zkids).map Tree.id :=
    List.map_append.symm
  have hmerged := p.rebuildInternalKeys_eq (b := y) (l := ykids ++ zkids) fun k hk => hk
  have hagain := p.rebuildInternalKeys_eq (b := ⟨y.id, Tree.separators (ykids ++ zkids)⟩)
    (l := ykids ++ zkids) fun k hk => hk
  have hfits := nodeFitsPage_rebuilt y.id p.open.sound p.kids
    (List.length_pos_iff.mp (by omega)) (by omega)
  rw [mergeInternal]
  simp only [BranchPage.children_node, hchildren]
  rw [ends_bind]
  refine ends_reading hmerged ?_
  rw [ends_bind]
  refine ends_reading hfits ?_
  by_cases hroom : (ykids ++ zkids).length ≤ maxInternalKeyCount idx.metadata.keyKind + 1
  · rw [decide_eq_true hroom]
    simp only [Bool.not_true, Bool.false_eq_true, if_false]
    rw [ends_bind]
    refine ends_reading hagain ?_
    have hwindow := p.window (G := [(y.id, ykids ++ zkids)]) (by simp) (by simp) (by simp)
      (by simpa using ⟨by simpa using many, by simpa using hroom⟩)
    rw [ends_bind]
    refine hwindow.ends_write fun idx' touches w => ?_
    have hkind := touches.kind
    have hids : ((left ++ siblings y ykids z zkids ++ right).map Tree.id).eraseIdx
        (left.length + 1) = (left ++ [rebuilt y.id (ykids ++ zkids)] ++ right).map Tree.id := by
      have herase := eraseIdx_append_cons (left.map Tree.id) (right.map Tree.id) y.id z.id
      rw [List.length_map] at herase
      simpa [siblings, rebuilt] using herase
    have hleastUp := p.least
    have hmostUp := p.most
    have hlength : (left ++ [rebuilt y.id (ykids ++ zkids)] ++ right).length =
        left.length + right.length + 1 := by
      simp only [List.length_append, List.length_singleton]
      omega
    have hdone := w.pending.ends_childRemoved (b := ⟨b.id, b.seps.eraseIdx left.length⟩)
      (E := E) fix hb (by rw [hlength, hkind]; omega) (by rw [hlength, hkind]; omega)
      fun hup hlow => recovers idx' _ hup w.pending hlow ?_
    · refine Ends.mono (Q := fun _ idx'' => idx'.Regained idx'' H items) ?_
        (fun _ idx'' regained => regained.of_metadata touches.metadata) fun _ _ he => he
      rw [← hids] at hdone
      exact hdone
    · rw [hlength, hkind]
      have : leastKids idx.metadata.keyKind up.isTop ≤ left.length + right.length + 2 := p.least
      rw [hup] at this
      omega
  · rw [decide_eq_false hroom]
    simp only [Bool.not_false, if_true]
    refine p.ends_redistribute hb rfl (by omega) (by omega) fun idx' settled content => ?_
    exact settled.regained content

/-! ## Underflow -/

section Underflow

variable {up : Context (h + 2) H} {left right : List (Tree (h + 1))} {kids ykids zkids : List (Tree h)}
  {fix : IndexNode → IndexM PUnit}

/-- The keys of a sibling are one less than its children. -/
theorem Holds.count {ks : List (Tree h)} (holds : idx.Holds false (branch b ks : Tree (h + 1))) :
    ks.length = b.seps.length + 1 ∧ leastKids idx.metadata.keyKind false ≤ ks.length ∧
      ks.length ≤ maxInternalKeyCount idx.metadata.keyKind + 1 := by
  obtain ⟨hb, -⟩ := Tree.sized_branch.mp holds.sized
  have hcount := hb.separates.count
  have hleast := hb.least
  have hmost := hb.most
  rw [List.length_map] at hcount hleast hmost
  exact ⟨hcount, hleast, hmost⟩

/-- The left sibling gives its last child away. -/
theorem Pending.ends_borrowLeft
    (p : idx.Pending (frame b (left ++ [branch y ykids]) right up) pid kids items)
    (low : kids.length ≤ minInternalKeyCount idx.metadata.keyKind)
    (few : leastKids idx.metadata.keyKind false ≤ kids.length + 1)
    (many : minInternalKeyCount idx.metadata.keyKind < y.seps.length) :
    Ends (borrowFromLeftInternal (y.node (ykids.map Tree.id)) (rebuilt pid kids).node
      (b.node ((left ++ siblings y ykids (label pid kids) kids ++ right).map Tree.id))
      (b.id :: up.path)) idx (fun _ idx' => idx.Regained idx' H items) E := by
  have hpair := p.pairLeft
  have hleast := leastKids_le p.open.sound.kind
  have hmin := minInternalKeyCount_le p.open.sound.kind
  obtain ⟨hcount, -, hmost⟩ := (p.open.holds_sides (branch y ykids) (by simp)).count
  obtain ⟨start, moved, rfl⟩ := List.eq_nil_or_concat ykids |>.resolve_left
    (List.length_pos_iff.mp (by omega))
  rw [List.concat_eq_append] at *
  have hlength : (start ++ [moved]).length = start.length + 1 := by simp
  have hleft := hpair.rebuildInternalKeys_eq (b := y) (l := start) fun k hk => by simp [hk]
  have hnode := hpair.rebuildInternalKeys_eq (b := label pid kids) (l := moved :: kids)
    fun k hk => by
      simp only [List.mem_append, List.mem_cons] at hk ⊢
      tauto
  have hlast : (y.node ((start ++ [moved]).map Tree.id)).children.getLast? = some moved.id := by
    simp
  have hdrop : ((start ++ [moved]).map Tree.id).dropLast = start.map Tree.id := by simp
  rw [borrowFromLeftInternal, hlast]
  simp only [BranchPage.children_node, hdrop]
  rw [ends_bind]
  refine ends_reading hleft ?_
  rw [ends_bind]
  refine ends_reading hnode ?_
  refine hpair.ends_share rfl start (moved :: kids) (by simp) ?_
    fun idx' settled content => settled.regained content
  rw [List.length_cons]
  omega

/-- The right sibling gives its first child away. -/
theorem Pending.ends_borrowRight
    (p : idx.Pending (frame b left (branch z zkids :: right) up) pid kids items)
    (low : kids.length ≤ minInternalKeyCount idx.metadata.keyKind)
    (few : leastKids idx.metadata.keyKind false ≤ kids.length + 1)
    (many : minInternalKeyCount idx.metadata.keyKind < z.seps.length) :
    Ends (borrowFromRightInternal (rebuilt pid kids).node (z.node (zkids.map Tree.id))
      (b.node ((left ++ siblings (label pid kids) kids z zkids ++ right).map Tree.id))
      (b.id :: up.path)) idx (fun _ idx' => idx.Regained idx' H items) E := by
  have hpair := p.pairRight
  have hleast := leastKids_le p.open.sound.kind
  have hmin := minInternalKeyCount_le p.open.sound.kind
  obtain ⟨hcount, -, hmost⟩ := (p.open.holds_sides (branch z zkids) (by simp)).count
  obtain ⟨moved, rest, rfl⟩ := List.exists_cons_of_length_pos (l := zkids) (by omega)
  rw [List.length_cons] at hcount hmost
  have hnode := hpair.rebuildInternalKeys_eq (b := label pid kids) (l := kids ++ [moved])
    fun k hk => by
      simp only [List.mem_append, List.mem_cons, List.not_mem_nil, or_false] at hk ⊢
      tauto
  have hright := hpair.rebuildInternalKeys_eq (b := z) (l := rest) fun k hk => by simp [hk]
  have happend : kids.map Tree.id ++ [moved.id] = (kids ++ [moved]).map Tree.id := by simp
  rw [borrowFromRightInternal]
  simp only [rebuilt, Tree.node_branch, BranchPage.children_node, List.map_cons, happend]
  rw [ends_bind]
  refine ends_reading hnode ?_
  rw [ends_bind]
  refine ends_reading hright ?_
  refine hpair.ends_share rfl (kids ++ [moved]) rest (by simp) ?_
    fun idx' settled content => settled.regained content
  rw [List.length_append, List.length_singleton]
  omega

/-- `fix_internal_underflow` on a node the siblings of which have no child to give. -/
theorem Pending.ends_mergeWithSibling (p : idx.Pending (frame b left right up) pid kids items)
    (low : kids.length ≤ minInternalKeyCount idx.metadata.keyKind)
    (recovers : Recovers up b.id items fix E) :
    Ends (mergeInternalWithSibling fix (rebuilt pid kids).node
      (b.node (left.map Tree.id ++ pid :: right.map Tree.id)) left.length (b.id :: up.path)) idx
      (fun _ idx' => idx.Regained idx' H items) E := by
  have hmin := minInternalKeyCount_le p.open.sound.kind
  have htwo := leastKids_two p.open.sound.kind false
  have htwoUp := leastKids_two p.open.sound.kind up.isTop
  have hcounts := p.counts
  rcases List.eq_nil_or_concat left with rfl | ⟨left, t, rfl⟩
  · cases right with
    | nil =>
        simp only [List.length_nil] at hcounts
        omega
    | cons t right =>
        cases t using Tree.branchCases with | branch z zkids => ?_
        have hz : idx.Holds false (branch z zkids : Tree (h + 1)) :=
          p.open.holds_sides _ (by simp)
        obtain ⟨-, hleast, hmost⟩ := hz.count
        have hlength : (kids ++ zkids).length = kids.length + zkids.length := List.length_append
        unfold mergeInternalWithSibling
        change Ends (do let right ← reading fun idx => idx.readNode z.id; _) idx _ E
        rw [ends_bind]
        refine ends_reading hz.readNode ?_
        simp only [Tree.node_branch, BranchPage.isLeaf_node, Bool.false_eq_true, if_false]
        have hmerge := p.pairRight.ends_merge rfl (by omega) (by omega) recovers
        exact hmerge
  · rw [List.concat_eq_append] at p ⊢
    cases t using Tree.branchCases with | branch y ykids => ?_
    have hy : idx.Holds false (branch y ykids : Tree (h + 1)) := p.open.holds_sides _ (by simp)
    obtain ⟨-, hleast, hmost⟩ := hy.count
    have hlength : (ykids ++ kids).length = ykids.length + kids.length := List.length_append
    have hvector : vectorAt ((left ++ [branch y ykids]).map Tree.id ++ pid :: right.map Tree.id)
        left.length = .ok (Tree.id (branch y ykids)) := by
      rw [vectorAt_eq_ok]
      simp
    have hids : (left ++ [branch y ykids]).map Tree.id ++ pid :: right.map Tree.id =
        (left ++ siblings y ykids (label pid kids) kids ++ right).map Tree.id := by
      simp [siblings]
    rw [List.length_append, List.length_singleton]
    unfold mergeInternalWithSibling
    simp only [BranchPage.children_node]
    rw [hvector, fromExcept_ok, pure_bind, ends_bind]
    refine ends_reading hy.readNode ?_
    simp only [Tree.node_branch, BranchPage.isLeaf_node, Bool.false_eq_true, if_false]
    rw [hids]
    exact p.pairLeft.ends_merge rfl (by omega) (by omega) recovers

/-- `fix_internal_underflow`, after the left sibling. -/
theorem Pending.ends_fixFromRight (p : idx.Pending (frame b left right up) pid kids items)
    (low : kids.length ≤ minInternalKeyCount idx.metadata.keyKind)
    (few : leastKids idx.metadata.keyKind false ≤ kids.length + 1)
    (recovers : Recovers up b.id items fix E) :
    Ends (fixInternalFromRight fix (rebuilt pid kids).node
      (b.node (left.map Tree.id ++ pid :: right.map Tree.id)) left.length (b.id :: up.path)) idx
      (fun _ idx' => idx.Regained idx' H items) E := by
  have hmerge := p.ends_mergeWithSibling low recovers
  have hnext := getElem?_append_cons (left.map Tree.id) (right.map Tree.id) pid
  rw [List.length_map, List.head?_map] at hnext
  rw [fixInternalFromRight, BranchPage.children_node, hnext]
  cases right with
  | nil => exact hmerge
  | cons t right =>
      cases t using Tree.branchCases with | branch z zkids => ?_
      have hz : idx.Holds false (branch z zkids : Tree (h + 1)) :=
        p.open.holds_sides _ (by simp)
      simp only [List.head?_cons, Option.map_some]
      rw [ends_bind]
      refine ends_reading hz.readNode ?_
      rw [ends_bind, ends_get]
      have hleaf : (Tree.node (branch z zkids : Tree (h + 1))).isLeaf = false := rfl
      simp only [hleaf, Bool.false_eq_true, if_false]
      by_cases hmany : minInternalKeyCount idx.metadata.keyKind <
          (Tree.node (branch z zkids : Tree (h + 1))).keys.length
      · have hids : left.map Tree.id ++ pid :: (branch z zkids :: right).map Tree.id =
            (left ++ siblings (label pid kids) kids z zkids ++ right).map Tree.id := by
          simp [siblings]
        rw [if_pos hmany, hids]
        exact p.ends_borrowRight low few hmany
      · rw [if_neg hmany]
        exact hmerge

/-- `fix_internal_underflow` on a node with a parent. -/
theorem Pending.ends_fixFromSiblings (p : idx.Pending (frame b left right up) pid kids items)
    (low : kids.length ≤ minInternalKeyCount idx.metadata.keyKind)
    (few : leastKids idx.metadata.keyKind false ≤ kids.length + 1)
    (recovers : Recovers up b.id items fix E) :
    Ends (fixInternalFromSiblings fix (rebuilt pid kids).node
      (b.node (left.map Tree.id ++ pid :: right.map Tree.id)) left.length (b.id :: up.path)) idx
      (fun _ idx' => idx.Regained idx' H items) E := by
  have hright := p.ends_fixFromRight low few recovers
  rcases List.eq_nil_or_concat left with rfl | ⟨left, t, rfl⟩
  · exact hright
  · rw [List.concat_eq_append] at p hright ⊢
    cases t using Tree.branchCases with | branch y ykids => ?_
    have hy : idx.Holds false (branch y ykids : Tree (h + 1)) := p.open.holds_sides _ (by simp)
    have hvector : vectorAt ((left ++ [branch y ykids]).map Tree.id ++ pid :: right.map Tree.id)
        left.length = .ok (Tree.id (branch y ykids)) := by
      rw [vectorAt_eq_ok]
      simp
    rw [List.length_append, List.length_singleton] at hright ⊢
    unfold fixInternalFromSiblings
    simp only [BranchPage.children_node]
    rw [hvector, fromExcept_ok, pure_bind, ends_bind]
    refine ends_reading hy.readNode ?_
    rw [ends_bind, ends_get]
    have hleaf : (Tree.node (branch y ykids : Tree (h + 1))).isLeaf = false := rfl
    simp only [hleaf, Bool.false_eq_true, if_false]
    by_cases hmany : minInternalKeyCount idx.metadata.keyKind <
        (Tree.node (branch y ykids : Tree (h + 1))).keys.length
    · have hids : (left ++ [branch y ykids]).map Tree.id ++ pid :: right.map Tree.id =
          (left ++ siblings y ykids (label pid kids) kids ++ right).map Tree.id := by
        simp [siblings]
      rw [if_pos hmany, hids]
      exact p.ends_borrowLeft low few hmany
    · rw [if_neg hmany]
      exact hright

end Underflow

/-- `fix_internal_underflow`. -/
theorem recovers_fixInternalUnderflow : ∀ {h H : Nat} (up : Context (h + 1) H) (pid : PageId),
    Recovers up pid items (fixInternalUnderflow (pid :: up.path)) E
  | _, _, top, _ => by
      intro _ _ hup
      cases hup
  | h, H, frame b left right up, pid => by
      intro idx kids _ p low few
      have hplace : (left.map Tree.id ++ pid :: right.map Tree.id).idxOf?
          (rebuilt pid kids).node.pageId = some left.length := p.open.idxOf?_hole (by simp)
      have hleaf : (rebuilt pid kids).node.isLeaf = false := rfl
      have hid : ¬ pid ≠ (rebuilt pid kids).node.pageId := not_not.mpr rfl
      have hroot : (rebuilt pid kids).node.pageId ≠ idx.metadata.rootPageId :=
        p.open.ne_root (by simp)
      have hpath : Context.path (frame b left right up) = b.id :: Context.path up := rfl
      have hvector : vectorAt (b.id :: Context.path up) 0 = .ok b.id := rfl
      have hsiblings := p.ends_fixFromSiblings low few (recovers_fixInternalUnderflow up b.id)
      rw [hpath]
      unfold fixInternalUnderflow
      simp only [hleaf, Bool.false_eq_true, if_false]
      rw [if_neg hid, ends_bind, ends_get, if_neg hroot, hvector, fromExcept_ok, pure_bind, ends_bind]
      refine ends_reading p.open.readParent ?_
      simp only [BranchPage.isLeaf_node, Bool.false_eq_true, if_false, BranchPage.children_node,
        hplace]
      exact hsiblings
termination_by _ _ up => sizeOf up

end BStarPlusIndex
end CwDb.Index
