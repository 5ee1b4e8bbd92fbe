/-
  Index/FileGrowth.lean --- how many pages an operation adds to the file.

  A split adds a page, and a split of the root two; nothing else allocates.  An insertion
  splits at most once on each level of its path.
-/
import CwDb.Foundation.Invariants
import CwDb.Index.BStarPlusIndex

set_option autoImplicit false

namespace CwDb.Index

open CwDb.Cpp
open CwDb.Foundation

/-! ## Pages -/

/-- The manager counts no page that is not there, and there are no more than `n`. -/
structure DiskPageManager.Within (n : Nat) (disk : DiskPageManager) : Prop where
  counted : disk.pageCount.toNat ≤ disk.file.pages.length
  few : disk.file.pages.length ≤ n

namespace BStarPlusIndex

/-- There are no more than `n` pages in the file. -/
def Within (n : Nat) (idx : BStarPlusIndex) : Prop := idx.disk.Within n

theorem within_mono (n n' : Nat) (idx : BStarPlusIndex) (le : n ≤ n') (h : idx.Within n) :
    idx.Within n' := ⟨h.counted, h.few.trans le⟩

theorem toNat_of_seekPage {pageId : PageId} {refusal : ByteString} {position : Nat}
    (h : seekPage pageId refusal = .ok position) : position = pageId.toNat := by
  unfold seekPage at h
  cases hoffset : pageOffset pageId with
  | error fault =>
      rw [hoffset] at h
      cases h
  | ok offset =>
      rw [hoffset] at h
      change (if maxOffset < offset then (raise .runtimeError refusal : Except Fault Nat)
        else .ok pageId.toNat) = .ok position at h
      split at h
      · cases h
      · exact (Except.ok.inj h).symm

theorem raises_allocatePage : Raises Within 1 allocatePage := by
  intro n idx within
  rw [allocatePage, onDisk, ends_zoom]
  unfold DiskPageManager.allocatePage
  rw [ends_bind, ends_get, ends_bind, ends_fromExcept]
  refine ⟨fun position hseek => ?_, fun _ _ => within_mono n (n + 1) idx (Nat.le_succ n) within⟩
  obtain rfl := toNat_of_seekPage hseek
  have hcount : (idx.disk.pageCount + 1).toNat ≤ idx.disk.pageCount.toNat + 1 := by
    rw [UInt64.toNat_add]
    exact Nat.mod_le _ _
  have hcounted := within.counted
  have hfew := within.few
  rw [ends_bind, ends_set, ends_pure]
  change DiskPageManager.Within (n + 1) _
  unfold IndexFile.writePageAt
  split
  · next hlt =>
      refine ⟨?_, ?_⟩ <;> dsimp only <;> rw [List.length_set] <;> omega
  · next hge =>
      have hsame : idx.disk.pageCount.toNat = idx.disk.file.pages.length := by omega
      refine ⟨?_, ?_⟩ <;> dsimp only <;>
        rw [hsame, Nat.sub_self, List.replicate_zero, List.append_nil, List.length_append,
          List.length_singleton] <;> omega

section Kept

variable {n : Nat}

theorem maintains_modifyMetadata (f : BStarPlusIndexMetadata → BStarPlusIndexMetadata) :
    Maintains (Within n) (modifyMetadata f) := .modify fun _ h => h

theorem maintains_saveMetadata : Maintains (Within n) saveMetadata :=
  .modify fun _ h => ⟨h.counted, h.few⟩

theorem maintains_reading {α : Type} (f : BStarPlusIndex → Except Fault α) :
    Maintains (Within n) (reading f) := .get_bind fun _ _ => .fromExcept _

theorem maintains_writeNode (node : IndexNode) : Maintains (Within n) (writeNode node) := by
  unfold writeNode
  refine .get_bind fun _ _ => .bind (.fromExcept _) fun data => ?_
  refine .zoom fun idx within => ?_
  unfold DiskPageManager.writePage
  rw [ends_bind, ends_get, ends_bind, ends_fromExcept]
  refine ⟨fun _ hvalid => ?_, fun _ _ => within⟩
  have hlt : node.pageId.toNat < idx.disk.file.pages.length := by
    unfold DiskPageManager.validateExistingPageId at hvalid
    split at hvalid
    · cases hvalid
    · next hexists => exact lt_of_lt_of_le (not_le.mp (not_or.mp hexists).2) within.counted
  split
  · rw [ends_bind, ends_fromExcept]
    refine ⟨fun position hseek => ?_, fun _ _ => within⟩
    obtain rfl := toNat_of_seekPage hseek
    rw [ends_set]
    change DiskPageManager.Within n _
    unfold IndexFile.writePageAt
    rw [if_pos hlt]
    exact ⟨within.counted.trans_eq List.length_set.symm, List.length_set.trans_le within.few⟩
  · exact within

theorem maintains_writeSiblings (left right parent : IndexNode) :
    Maintains (Within n) (writeSiblings left right parent) :=
  (maintains_writeNode left).bind fun _ => (maintains_writeNode right).bind fun _ =>
    (maintains_reading _).bind fun parent => maintains_writeNode parent

theorem maintains_propagateLoop : ∀ (pageId : PageId) (minKey : IndexKey)
    (ancestors : List PageId), Maintains (Within n) (propagateLoop pageId minKey ancestors)
  | _, _, [] => .pure _
  | pageId, minKey, parentPageId :: ancestors => by
      unfold propagateLoop
      refine (maintains_reading _).bind fun parent => .ite (fun _ => .throw _) fun _ => ?_
      split
      · exact .pure _
      · exact (maintains_reading _).bind fun minKey =>
          maintains_propagateLoop parent.pageId minKey ancestors
      · exact maintains_writeNode _

theorem maintains_propagateSubtreeMinChange (pageId : PageId) (path : List PageId) :
    Maintains (Within n) (propagateSubtreeMinChange pageId path) := by
  unfold propagateSubtreeMinChange
  split
  · exact .ite (fun _ => .pure _) fun _ => (maintains_reading _).bind fun minKey =>
      maintains_propagateLoop pageId minKey _
  · exact .pure _

theorem maintains_redistributeInternalPair (left right parent : IndexNode)
    (parentPath : List PageId) :
    Maintains (Within n) (redistributeInternalPair left right parent parentPath) := by
  unfold redistributeInternalPair
  refine .ite (fun _ => .throw _) fun _ => ?_
  refine (maintains_reading _).bind fun left => (maintains_reading _).bind fun right => ?_
  refine (maintains_reading _).bind fun fits => .ite (fun _ => .throw _) fun _ => ?_
  exact (maintains_writeSiblings left right parent).bind fun _ =>
    maintains_propagateSubtreeMinChange _ _

theorem maintains_internalPairFits (left right : IndexNode) :
    Maintains (Within n) (internalPairFits left right) :=
  (maintains_reading _).bind fun _ => (maintains_reading _).bind fun _ => maintains_reading _

theorem maintains_tryRedistributeInternalWithRight (node parent : IndexNode) (childIndex : Nat)
    (parentPath : List PageId) :
    Maintains (Within n) (tryRedistributeInternalWithRight node parent childIndex parentPath) := by
  unfold tryRedistributeInternalWithRight
  split
  · exact .pure _
  · refine (maintains_reading _).bind fun right => .ite (fun _ => .pure _) fun _ => ?_
    refine (maintains_internalPairFits _ _).bind fun fits => .ite (fun _ => .pure _) fun _ => ?_
    exact (maintains_redistributeInternalPair _ _ _ _).bind fun _ => .pure _

theorem maintains_tryRedistributeInternalWithLeft (node parent : IndexNode) (childIndex : Nat)
    (parentPath : List PageId) :
    Maintains (Within n) (tryRedistributeInternalWithLeft node parent childIndex parentPath) := by
  unfold tryRedistributeInternalWithLeft
  split
  · exact .pure _
  · refine .bind (.fromExcept _) fun leftPageId => (maintains_reading _).bind fun left => ?_
    refine .ite (fun _ => .pure _) fun _ => (maintains_internalPairFits _ _).bind fun fits => ?_
    refine .ite (fun _ => .pure _) fun _ => ?_
    exact (maintains_redistributeInternalPair _ _ _ _).bind fun _ => .pure _

theorem maintains_tryGiveToRightLeaf (leaf parent : IndexNode) (childIndex : Nat) :
    Maintains (Within n) (tryGiveToRightLeaf leaf parent childIndex) := by
  unfold tryGiveToRightLeaf
  split
  · exact .pure _
  · refine (maintains_reading _).bind fun right => .ite (fun _ => .pure _) fun _ => ?_
    split
    · refine .ite (fun _ => .pure _) fun _ => (maintains_reading _).bind fun fits => ?_
      refine .ite (fun _ => .pure _) fun _ => ?_
      exact (maintains_writeSiblings _ _ _).bind fun _ => .pure _
    · exact .pure _

theorem maintains_tryGiveToLeftLeaf (leaf parent : IndexNode) (childIndex : Nat) :
    Maintains (Within n) (tryGiveToLeftLeaf leaf parent childIndex) := by
  unfold tryGiveToLeftLeaf
  split
  · exact .pure _
  · refine .ite (fun _ => .pure _) fun _ => .bind (.fromExcept _) fun leftPageId => ?_
    refine (maintains_reading _).bind fun left => .ite (fun _ => .pure _) fun _ => ?_
    split
    · refine .ite (fun _ => .pure _) fun _ => (maintains_reading _).bind fun fits => ?_
      refine .ite (fun _ => .pure _) fun _ => ?_
      exact (maintains_writeSiblings _ _ _).bind fun _ => .pure _
    · exact .pure _

end Kept

/-! ## Insertion -/

section Insertion

variable {k : Nat} {splitParent : IndexNode → IndexM PUnit}

theorem raises_writeOrSplit (parent : IndexNode)
    (split : ∀ node, Raises Within k (splitParent node)) :
    Raises Within k (writeOrSplit splitParent parent) := by
  refine .after within_mono (fun _ => maintains_reading _) fun parent => ?_
  refine .after within_mono (fun _ => maintains_reading _) fun fits =>
    .ite (fun _ => ?_) fun _ => ?_
  · exact Raises.mono within_mono (.of_maintains fun _ => maintains_writeNode _) (Nat.zero_le k)
  · exact split parent

/-- A new root, or a child more for the parent. -/
theorem raises_insertIntoParent (left : IndexNode) (separator : IndexKey) (right : IndexNode)
    (leftPath : List PageId) (split : ∀ node, Raises Within (k + 1) (splitParent node)) :
    Raises Within (k + 1) (insertIntoParent splitParent left separator right leftPath) := by
  unfold insertIntoParent
  split
  · exact .throw within_mono _
  · refine .ite (fun _ => .throw within_mono _) fun _ => ?_
    split
    · refine Raises.mono within_mono (k := 1 + 0) ?_ (Nat.le_add_left 1 k)
      refine raises_allocatePage.bind within_mono fun rootPageId => .of_maintains fun _ => ?_
      refine (maintains_writeNode _).bind fun _ => (maintains_writeNode _).bind fun _ => ?_
      exact (maintains_writeNode _).bind fun _ => maintains_modifyMetadata _
    · refine .after within_mono (fun _ => maintains_reading _) fun parent => ?_
      refine .ite (fun _ => .throw within_mono _) fun _ => ?_
      split
      · exact .throw within_mono _
      · refine .after within_mono (fun _ => maintains_writeNode _) fun _ => ?_
        refine .after within_mono (fun _ => maintains_writeNode _) fun _ => ?_
        exact raises_writeOrSplit _ split

theorem raises_splitInternalPair (left right parent : IndexNode) (parentIndex : Nat)
    (split : ∀ node, Raises Within k (splitParent node)) :
    Raises Within (1 + k) (splitInternalPair splitParent left right parent parentIndex) := by
  unfold splitInternalPair
  refine .ite (fun _ => .throw within_mono _) fun _ => ?_
  refine raises_allocatePage.bind within_mono fun middlePageId => ?_
  refine .after within_mono (fun _ => maintains_reading _) fun left => ?_
  refine .after within_mono (fun _ => maintains_reading _) fun middle => ?_
  refine .after within_mono (fun _ => maintains_reading _) fun right => ?_
  refine .after within_mono (fun _ => maintains_reading _) fun fits => ?_
  refine .ite (fun _ => .throw within_mono _) fun _ => ?_
  refine .after within_mono (fun _ => maintains_writeNode _) fun _ => ?_
  refine .after within_mono (fun _ => maintains_writeNode _) fun _ => ?_
  refine .after within_mono (fun _ => maintains_writeNode _) fun _ => ?_
  exact raises_writeOrSplit _ split

theorem raises_splitInternalInTwo (node : IndexNode) (path : List PageId)
    (split : ∀ node, Raises Within (k + 1) (splitParent node)) :
    Raises Within (1 + (k + 1)) (splitInternalInTwo splitParent node path) := by
  unfold splitInternalInTwo
  refine .ite (fun _ => .throw within_mono _) fun _ => ?_
  refine raises_allocatePage.bind within_mono fun rightPageId => ?_
  refine .after within_mono (fun _ => maintains_reading _) fun left => ?_
  refine .after within_mono (fun _ => maintains_reading _) fun right => ?_
  refine .after within_mono (fun _ => .fromExcept _) fun front => ?_
  refine .after within_mono (fun _ => maintains_reading _) fun separator => ?_
  exact raises_insertIntoParent _ _ _ _ split

theorem raises_splitInternalWithSibling (node parent : IndexNode) (childIndex : Nat)
    (path : List PageId) (split : ∀ node, Raises Within (k + 1) (splitParent node)) :
    Raises Within (1 + (k + 1))
      (splitInternalWithSibling splitParent node parent childIndex path) := by
  unfold splitInternalWithSibling
  split
  · refine .after within_mono (fun _ => maintains_reading _) fun right => ?_
    exact raises_splitInternalPair _ _ _ _ split
  · refine .after within_mono (fun _ => .fromExcept _) fun leftPageId => ?_
    refine .after within_mono (fun _ => maintains_reading _) fun left => ?_
    exact raises_splitInternalPair _ _ _ _ split
  · exact raises_splitInternalInTwo _ _ split

/-- A page for each level, and one for a new root. -/
theorem raises_splitInternal : ∀ (path : List PageId) (node : IndexNode),
    Raises Within (path.length + 1) (splitInternal path node)
  | [], node => by
      unfold splitInternal
      exact .ite (fun _ => .throw within_mono _) fun _ => .throw within_mono _
  | current :: above, node => by
      have hup := raises_splitInternal above
      rw [List.length_cons, Nat.add_comm (above.length + 1) 1]
      unfold splitInternal
      refine .ite (fun _ => .throw within_mono _) fun _ => .ite (fun _ => .throw within_mono _)
        fun _ => ?_
      split
      · exact raises_splitInternalInTwo _ _ hup
      · refine .after within_mono (fun _ => maintains_reading _) fun parent => ?_
        refine .ite (fun _ => .throw within_mono _) fun _ => ?_
        split
        · exact .throw within_mono _
        · refine .after within_mono
            (fun _ => maintains_tryRedistributeInternalWithRight _ _ _ _) fun done => ?_
          refine .ite (fun _ => .pure within_mono _) fun _ => ?_
          refine .after within_mono
            (fun _ => maintains_tryRedistributeInternalWithLeft _ _ _ _) fun done => ?_
          refine .ite (fun _ => .pure within_mono _) fun _ => ?_
          exact raises_splitInternalWithSibling _ _ _ _ hup

theorem raises_splitLeafPair (left right parent : IndexNode) (parentIndex : Nat)
    (split : ∀ node, Raises Within k (splitParent node)) :
    Raises Within (1 + k) (splitLeafPair splitParent left right parent parentIndex) := by
  unfold splitLeafPair
  refine raises_allocatePage.bind within_mono fun middlePageId => ?_
  refine .ite (fun _ => .throw within_mono _) fun _ => ?_
  refine .after within_mono (fun _ => maintains_writeNode _) fun _ => ?_
  refine .after within_mono (fun _ => maintains_writeNode _) fun _ => ?_
  refine .after within_mono (fun _ => maintains_writeNode _) fun _ => ?_
  exact raises_writeOrSplit _ split

theorem raises_splitLeafInTwo (leaf : IndexNode) (path : List PageId)
    (split : ∀ node, Raises Within (k + 1) (splitParent node)) :
    Raises Within (1 + (k + 1)) (splitLeafInTwo splitParent leaf path) := by
  unfold splitLeafInTwo
  refine raises_allocatePage.bind within_mono fun rightPageId => ?_
  dsimp only
  split
  · exact .throw within_mono _
  · exact raises_insertIntoParent _ _ _ _ split

theorem raises_splitLeafWithSibling (leaf parent : IndexNode) (childIndex : Nat)
    (path : List PageId) (split : ∀ node, Raises Within (k + 1) (splitParent node)) :
    Raises Within (1 + (k + 1)) (splitLeafWithSibling splitParent leaf parent childIndex path) := by
  unfold splitLeafWithSibling
  split
  · refine .after within_mono (fun _ => maintains_reading _) fun right => ?_
    exact .ite (fun _ => .throw within_mono _) fun _ => raises_splitLeafPair _ _ _ _ split
  · refine .after within_mono (fun _ => .fromExcept _) fun leftPageId => ?_
    refine .after within_mono (fun _ => maintains_reading _) fun left => ?_
    exact .ite (fun _ => .throw within_mono _) fun _ => raises_splitLeafPair _ _ _ _ split
  · exact raises_splitLeafInTwo _ _ split

theorem raises_splitLeaf (leaf : IndexNode) (path : List PageId) :
    Raises Within (path.length + 1) (splitLeaf leaf path) := by
  unfold splitLeaf
  refine .ite (fun _ => .throw within_mono _) fun _ => ?_
  split
  · exact .throw within_mono _
  · next current above =>
      have hup := raises_splitInternal above
      rw [List.length_cons, Nat.add_comm (above.length + 1) 1]
      refine .ite (fun _ => .throw within_mono _) fun _ => ?_
      split
      · exact raises_splitLeafInTwo _ _ hup
      · refine .after within_mono (fun _ => maintains_reading _) fun parent => ?_
        refine .ite (fun _ => .throw within_mono _) fun _ => ?_
        split
        · exact .throw within_mono _
        · refine .after within_mono (fun _ => maintains_tryGiveToRightLeaf _ _ _) fun done => ?_
          refine .ite (fun _ => .pure within_mono _) fun _ => ?_
          refine .after within_mono (fun _ => maintains_tryGiveToLeftLeaf _ _ _) fun done => ?_
          refine .ite (fun _ => .pure within_mono _) fun _ => ?_
          exact raises_splitLeafWithSibling _ _ _ _ hup

theorem raises_insertFirst (key : IndexKey) (record : UInt64) :
    Raises Within 1 (insertFirst key record) := by
  refine raises_allocatePage.bind within_mono (l := 0) fun rootPageId => .of_maintains fun _ => ?_
  exact (maintains_writeNode _).bind fun _ => (maintains_modifyMetadata _).bind fun _ =>
    maintains_saveMetadata

theorem raises_insertIntoLeaf (leaf : IndexNode) (path : List PageId) :
    Raises Within (path.length + 1) (insertIntoLeaf leaf path) := by
  unfold insertIntoLeaf
  refine .after within_mono (fun _ => maintains_reading _) fun fits => ?_
  have hend : ∀ n, Maintains (Within n) (do
      modifyMetadata fun m => { m with size := m.size + 1 }
      saveMetadata) :=
    fun _ => (maintains_modifyMetadata _).bind fun _ => maintains_saveMetadata
  refine .ite (fun _ => ?_) fun _ =>
    (raises_splitLeaf leaf path).bind within_mono (l := 0) fun _ => .of_maintains hend
  exact Raises.mono within_mono
    (.of_maintains fun n => (maintains_writeNode _).bind fun _ => hend n) (Nat.zero_le _)

end Insertion

/-! ## Erasure -/

section Erasure

variable {n : Nat} {fixParent : IndexNode → IndexM PUnit}

theorem maintains_promoteSingleChildRoot (root : IndexNode) :
    Maintains (Within n) (promoteSingleChildRoot root) := by
  unfold promoteSingleChildRoot
  refine .ite (fun _ => .throw _) fun _ => ?_
  split
  · refine (maintains_reading _).bind fun child => (maintains_modifyMetadata _).bind fun _ => ?_
    exact (maintains_reading _).bind fun first => maintains_modifyMetadata _
  · exact .throw _

theorem maintains_handleInternalAfterChildRemoved (node : IndexNode) (path : List PageId)
    (fix : ∀ node, Maintains (Within n) (fixParent node)) :
    Maintains (Within n) (handleInternalAfterChildRemoved fixParent node path) := by
  unfold handleInternalAfterChildRemoved
  refine .ite (fun _ => .throw _) fun _ => .ite (fun _ => .throw _) fun _ => ?_
  refine (maintains_reading _).bind fun node => .get_bind fun idx _ => ?_
  refine .ite (fun _ => ?_) fun _ => .ite (fun _ => fix node) fun _ => ?_
  · exact .ite (fun _ => maintains_promoteSingleChildRoot node) fun _ => maintains_writeNode node
  · exact (maintains_writeNode node).bind fun _ => maintains_propagateSubtreeMinChange _ _

theorem maintains_borrowFromLeftInternal (left node parent : IndexNode)
    (parentPath : List PageId) :
    Maintains (Within n) (borrowFromLeftInternal left node parent parentPath) := by
  unfold borrowFromLeftInternal
  split
  · exact .pure _
  · refine (maintains_reading _).bind fun left => (maintains_reading _).bind fun node => ?_
    exact (maintains_writeSiblings _ _ _).bind fun _ => maintains_propagateSubtreeMinChange _ _

theorem maintains_borrowFromRightInternal (node right parent : IndexNode)
    (parentPath : List PageId) :
    Maintains (Within n) (borrowFromRightInternal node right parent parentPath) := by
  unfold borrowFromRightInternal
  split
  · exact .pure _
  · refine (maintains_reading _).bind fun node => (maintains_reading _).bind fun right => ?_
    exact (maintains_writeSiblings _ _ _).bind fun _ => maintains_propagateSubtreeMinChange _ _

theorem maintains_mergeInternal (left right parent : IndexNode) (leftIndex : Nat)
    (parentPath : List PageId) (fix : ∀ node, Maintains (Within n) (fixParent node)) :
    Maintains (Within n) (mergeInternal fixParent left right parent leftIndex parentPath) := by
  refine (maintains_reading _).bind fun merged => (maintains_reading _).bind fun fits => ?_
  refine .ite (fun _ => maintains_redistributeInternalPair _ _ _ _) fun _ => ?_
  refine (maintains_reading _).bind fun merged => (maintains_writeNode _).bind fun _ => ?_
  exact maintains_handleInternalAfterChildRemoved _ _ fix

theorem maintains_mergeInternalWithSibling (node parent : IndexNode) (childIndex : Nat)
    (parentPath : List PageId) (fix : ∀ node, Maintains (Within n) (fixParent node)) :
    Maintains (Within n)
      (mergeInternalWithSibling fixParent node parent childIndex parentPath) := by
  unfold mergeInternalWithSibling
  split
  · refine .bind (.fromExcept _) fun leftPageId => (maintains_reading _).bind fun left => ?_
    exact .ite (fun _ => .throw _) fun _ => maintains_mergeInternal _ _ _ _ _ fix
  · split
    · exact .throw _
    · refine (maintains_reading _).bind fun right => .ite (fun _ => .throw _) fun _ => ?_
      exact maintains_mergeInternal _ _ _ _ _ fix

theorem maintains_fixInternalFromRight (node parent : IndexNode) (childIndex : Nat)
    (parentPath : List PageId) (fix : ∀ node, Maintains (Within n) (fixParent node)) :
    Maintains (Within n) (fixInternalFromRight fixParent node parent childIndex parentPath) := by
  unfold fixInternalFromRight
  split
  · exact maintains_mergeInternalWithSibling _ _ _ _ fix
  · refine (maintains_reading _).bind fun right => .get_bind fun idx _ => ?_
    refine .ite (fun _ => .throw _) fun _ => .ite (fun _ => ?_) fun _ => ?_
    · exact maintains_borrowFromRightInternal _ _ _ _
    · exact maintains_mergeInternalWithSibling _ _ _ _ fix

theorem maintains_fixInternalFromSiblings (node parent : IndexNode) (childIndex : Nat)
    (parentPath : List PageId) (fix : ∀ node, Maintains (Within n) (fixParent node)) :
    Maintains (Within n) (fixInternalFromSiblings fixParent node parent childIndex parentPath) := by
  unfold fixInternalFromSiblings
  split
  · exact maintains_fixInternalFromRight _ _ _ _ fix
  · refine .bind (.fromExcept _) fun leftPageId => (maintains_reading _).bind fun left => ?_
    refine .get_bind fun idx _ => .ite (fun _ => .throw _) fun _ => .ite (fun _ => ?_) fun _ => ?_
    · exact maintains_borrowFromLeftInternal _ _ _ _
    · exact maintains_fixInternalFromRight _ _ _ _ fix

theorem maintains_fixInternalRoot (node : IndexNode) :
    Maintains (Within n) (fixInternalRoot node) :=
  .ite (fun _ => maintains_promoteSingleChildRoot node) fun _ =>
    (maintains_reading _).bind fun node => maintains_writeNode node

theorem maintains_fixInternalUnderflow : ∀ (path : List PageId) (node : IndexNode),
    Maintains (Within n) (fixInternalUnderflow path node)
  | [], node => by
      unfold fixInternalUnderflow
      exact .ite (fun _ => .throw _) fun _ => .throw _
  | current :: above, node => by
      unfold fixInternalUnderflow
      refine .ite (fun _ => .throw _) fun _ => .ite (fun _ => .throw _) fun _ => ?_
      refine .get_bind fun idx _ => .ite (fun _ => maintains_fixInternalRoot node) fun _ => ?_
      refine .bind (.fromExcept _) fun parentPageId => (maintains_reading _).bind fun parent => ?_
      refine .ite (fun _ => .throw _) fun _ => ?_
      split
      · exact .throw _
      · exact maintains_fixInternalFromSiblings _ _ _ _ (maintains_fixInternalUnderflow above)

theorem maintains_redistributeLeafPair (left right parent : IndexNode)
    (parentPath : List PageId) :
    Maintains (Within n) (redistributeLeafPair left right parent parentPath) := by
  unfold redistributeLeafPair
  refine .ite (fun _ => .throw _) fun _ => (maintains_reading _).bind fun fits => ?_
  refine .ite (fun _ => .throw _) fun _ => ?_
  exact (maintains_writeSiblings _ _ _).bind fun _ => maintains_propagateSubtreeMinChange _ _

theorem maintains_borrowFromLeftLeaf (left leaf parent : IndexNode) (parentPath : List PageId) :
    Maintains (Within n) (borrowFromLeftLeaf left leaf parent parentPath) := by
  unfold borrowFromLeftLeaf
  split
  · exact (maintains_writeSiblings _ _ _).bind fun _ => maintains_propagateSubtreeMinChange _ _
  · exact .pure _

theorem maintains_borrowFromRightLeaf (leaf right parent : IndexNode)
    (parentPath : List PageId) :
    Maintains (Within n) (borrowFromRightLeaf leaf right parent parentPath) := by
  unfold borrowFromRightLeaf
  split
  · exact (maintains_writeSiblings _ _ _).bind fun _ => maintains_propagateSubtreeMinChange _ _
  · exact .pure _

theorem maintains_mergeLeaves (left right parent : IndexNode) (leftIndex : Nat)
    (parentPath : List PageId) (fix : ∀ node, Maintains (Within n) (fixParent node)) :
    Maintains (Within n) (mergeLeaves fixParent left right parent leftIndex parentPath) := by
  refine (maintains_reading _).bind fun fits => ?_
  refine .ite (fun _ => maintains_redistributeLeafPair _ _ _ _) fun _ => ?_
  refine (maintains_modifyMetadata _).bind fun _ => (maintains_writeNode _).bind fun _ => ?_
  exact maintains_handleInternalAfterChildRemoved _ _ fix

theorem maintains_mergeLeafWithSibling (leaf parent : IndexNode) (childIndex : Nat)
    (parentPath : List PageId) (fix : ∀ node, Maintains (Within n) (fixParent node)) :
    Maintains (Within n) (mergeLeafWithSibling fixParent leaf parent childIndex parentPath) := by
  unfold mergeLeafWithSibling
  split
  · refine .bind (.fromExcept _) fun leftPageId => (maintains_reading _).bind fun left => ?_
    exact .ite (fun _ => .throw _) fun _ => maintains_mergeLeaves _ _ _ _ _ fix
  · split
    · exact .throw _
    · refine (maintains_reading _).bind fun right => .ite (fun _ => .throw _) fun _ => ?_
      exact maintains_mergeLeaves _ _ _ _ _ fix

theorem maintains_fixLeafFromRight (leaf parent : IndexNode) (childIndex : Nat)
    (parentPath : List PageId) (fix : ∀ node, Maintains (Within n) (fixParent node)) :
    Maintains (Within n) (fixLeafFromRight fixParent leaf parent childIndex parentPath) := by
  unfold fixLeafFromRight
  split
  · exact maintains_mergeLeafWithSibling _ _ _ _ fix
  · refine (maintains_reading _).bind fun right => .get_bind fun idx _ => ?_
    refine .ite (fun _ => .throw _) fun _ => .ite (fun _ => ?_) fun _ => ?_
    · exact maintains_borrowFromRightLeaf _ _ _ _
    · exact maintains_mergeLeafWithSibling _ _ _ _ fix

theorem maintains_fixLeafFromSiblings (leaf parent : IndexNode) (childIndex : Nat)
    (parentPath : List PageId) (fix : ∀ node, Maintains (Within n) (fixParent node)) :
    Maintains (Within n) (fixLeafFromSiblings fixParent leaf parent childIndex parentPath) := by
  unfold fixLeafFromSiblings
  split
  · exact maintains_fixLeafFromRight _ _ _ _ fix
  · refine .bind (.fromExcept _) fun leftPageId => (maintains_reading _).bind fun left => ?_
    refine .get_bind fun idx _ => .ite (fun _ => .throw _) fun _ => .ite (fun _ => ?_) fun _ => ?_
    · exact maintains_borrowFromLeftLeaf _ _ _ _
    · exact maintains_fixLeafFromRight _ _ _ _ fix

theorem maintains_fixLeafUnderflow (leaf : IndexNode) (path : List PageId) :
    Maintains (Within n) (fixLeafUnderflow leaf path) := by
  unfold fixLeafUnderflow
  refine .ite (fun _ => .throw _) fun _ => ?_
  split
  · exact .throw _
  · next current above =>
      refine .ite (fun _ => .throw _) fun _ => .get_bind fun idx _ => ?_
      refine .ite (fun _ => maintains_writeNode leaf) fun _ => ?_
      refine .bind (.fromExcept _) fun parentPageId => (maintains_reading _).bind fun parent => ?_
      refine .ite (fun _ => .throw _) fun _ => ?_
      split
      · exact .throw _
      · exact maintains_fixLeafFromSiblings _ _ _ _ (maintains_fixInternalUnderflow above)

theorem maintains_eraseFromLeaf (leaf : IndexNode) (index : Nat) (path : List PageId) :
    Maintains (Within n) (eraseFromLeaf leaf index path) := by
  refine .get_bind fun idx _ => .ite (fun _ => ?_) fun _ => maintains_fixLeafUnderflow leaf path
  refine (maintains_writeNode leaf).bind fun _ => ?_
  exact .ite (fun _ => maintains_propagateSubtreeMinChange _ _) fun _ => .pure _

/-- An erasure allocates nothing. -/
theorem maintains_erase (key : IndexKey) : Maintains (Within n) (erase key) := by
  have hend : Maintains (Within n) (do
      saveMetadata
      pure true) := maintains_saveMetadata.bind fun _ => .pure true
  refine .get_bind fun idx _ => .bind (.fromExcept _) fun _ => .ite (fun _ => .pure _) fun _ => ?_
  refine .bind (.fromExcept _) fun found => .ite (fun _ => .pure _) fun _ => ?_
  refine (maintains_modifyMetadata _).bind fun _ => .get_bind fun idx _ => ?_
  refine .ite (fun _ => ?_) fun _ => (maintains_eraseFromLeaf _ _ _).bind fun _ => hend
  exact .bind ((maintains_writeNode _).bind fun _ => maintains_modifyMetadata _) fun _ => hend

end Erasure

end BStarPlusIndex
end CwDb.Index
