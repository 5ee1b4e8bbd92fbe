/-
  Index/LeastCounts.lean --- the key counts of the nodes below the root.

  A node that is read by following children from the root on is meant to have two thirds of the
  keys that there is room for.  Which insertions and erasures keep that is decided by the leaf of
  the key, its siblings and its parent.
-/
import CwDb.Index.FillKept
import CwDb.Index.SearchDepth

set_option autoImplicit false

namespace CwDb.Index

open CwDb.Cpp
open CwDb.Foundation
open LevelTree LevelContext

/-- The least keys of a node that is not the root. -/
def IndexNode.leastKeys (kind : IndexKeyKind) (node : IndexNode) : Nat :=
  if node.isLeaf then minLeafKeyCount kind else minInternalKeyCount kind

namespace BStarPlusIndex

/-- The nodes below the root: the children of its node, and of every node below. -/
inductive Below (idx : BStarPlusIndex) : IndexNode → Prop
  | child {root node : IndexNode} {page : PageId}
      (readRoot : idx.readNode idx.metadata.rootPageId = .ok root) (mem : page ∈ root.children)
      (read : idx.readNode page = .ok node) : Below idx node
  | deeper {parent node : IndexNode} {page : PageId} (below : Below idx parent)
      (mem : page ∈ parent.children) (read : idx.readNode page = .ok node) : Below idx node

/-- Every node but the root has its least number of keys. -/
def LeastCountsHold (idx : BStarPlusIndex) : Prop :=
  idx.metadata.empty = false →
    ∀ node, idx.Below node → node.leastKeys idx.metadata.keyKind ≤ node.keys.length

/-- An insertion of the key keeps the counts: the key is there, or its leaf is not full, or a
sibling of the leaf is not, or the parent takes a third leaf. -/
def InsertKeepsCounts (idx : BStarPlusIndex) (m : OrderedMap IndexKey UInt64) (key : IndexKey) :
    Prop :=
  m.find? key ≠ none ∨ ∃ (H : Nat) (ctx : Context 0 H) (l : LeafPage),
    idx.Represents (ctx.plug (leaf l)) ∧ ctx.Admits key ∧
      (l.items.length < maxLeafKeyCount idx.metadata.keyKind ∨
        ctx.HasRoomForItem idx.metadata.keyKind ∨ ctx.SplitsEvenly idx.metadata.keyKind)

/-- An erasure of the key keeps the counts: there is no such key, or its leaf is the root, or has
more than the least number of keys, or a sibling has. -/
def EraseKeepsCounts (idx : BStarPlusIndex) (m : OrderedMap IndexKey UInt64) (key : IndexKey) :
    Prop :=
  m.find? key = none ∨ ∃ (H : Nat) (ctx : Context 0 H) (l : LeafPage),
    idx.Represents (ctx.plug (leaf l)) ∧ ctx.Admits key ∧
      (ctx.isTop = true ∨ minLeafKeyCount idx.metadata.keyKind < l.items.length ∨
        ctx.HasItemToSpare idx.metadata.keyKind)

end BStarPlusIndex

/-! ## The nodes below the root of a tree -/

namespace Tree

variable {kind : IndexKeyKind} {h : Nat}

/-- The nodes of a tree but that of its root. -/
def below : {h : Nat} → Tree h → List IndexNode
  | 0, _ => []
  | _ + 1, t => (Branch.kids t).flatMap nodes

theorem nodes_eq : ∀ {h : Nat} (t : Tree h), t.nodes = t.node :: t.below
  | 0, _ => rfl
  | _ + 1, _ => rfl

/-- The children of the nodes are on the pages of the nodes below. -/
theorem exists_child : ∀ {h : Nat} {t : Tree h} {parent : IndexNode} {page : PageId},
    parent ∈ t.nodes → page ∈ parent.children → ∃ node ∈ t.below, node.pageId = page
  | 0, t, parent, page, hparent, hpage => by
      cases t using Tree.leafCases with | leaf l => ?_
      obtain rfl := List.mem_singleton.mp hparent
      cases hpage
  | h + 1, t, parent, page, hparent, hpage => by
      cases t using Tree.branchCases with | branch b kids => ?_
      rw [nodes_branch] at hparent
      rcases List.mem_cons.mp hparent with rfl | hparent
      · rw [BranchPage.children_node] at hpage
        obtain ⟨k, hk, rfl⟩ := List.mem_map.mp hpage
        exact ⟨k.node, List.mem_flatMap.mpr ⟨k, hk, k.node_mem_nodes⟩, k.pageId_node⟩
      · obtain ⟨k, hk, hparent⟩ := List.mem_flatMap.mp hparent
        obtain ⟨node, hnode, hid⟩ := exists_child hparent hpage
        refine ⟨node, List.mem_flatMap.mpr ⟨k, hk, ?_⟩, hid⟩
        rw [nodes_eq]
        exact List.mem_cons_of_mem _ hnode

/-- A tree is filled when its nodes have their least number of keys, but for the root. -/
theorem Sized.filled_iff : ∀ {h : Nat} {isRoot : Bool} {t : Tree h}, t.Sized kind isRoot →
    (t.Filled kind isRoot ↔ (isRoot = true ∨ t.node.leastKeys kind ≤ t.node.keys.length) ∧
      ∀ node ∈ t.below, node.leastKeys kind ≤ node.keys.length)
  | 0, isRoot, t, _ => by
      cases t using Tree.leafCases with | leaf l => ?_
      have hkeys : l.node.keys.length = l.items.length := List.length_map _
      rw [Tree.filled_leaf, Tree.node_leaf, hkeys]
      exact ⟨fun hleaf => ⟨hleaf, List.forall_mem_nil _⟩, fun hall => hall.1⟩
  | h + 1, isRoot, t, hsized => by
      cases t using Tree.branchCases with | branch b kids => ?_
      obtain ⟨hb, hkids⟩ := Tree.sized_branch.mp hsized
      have hcount := hb.separates.count
      rw [List.length_map] at hcount
      have hbelow : ∀ k ∈ kids, (Tree.Filled kind false k ↔
          ∀ node ∈ k.nodes, node.leastKeys kind ≤ node.keys.length) := by
        intro k hk
        rw [Sized.filled_iff (hkids k hk), nodes_eq, List.forall_mem_cons, Bool.false_eq_true,
          false_or]
      have hnode : IndexNode.leastKeys kind (b.node (kids.map Tree.id)) =
        minInternalKeyCount kind := rfl
      rw [Tree.filled_branch, Tree.node_branch, hnode, BranchPage.keys_node, hcount,
        Nat.add_le_add_iff_right]
      refine and_congr_right fun _ => ?_
      change _ ↔ ∀ node ∈ kids.flatMap nodes, _
      rw [List.forall_mem_flatMap]
      exact forall₂_congr hbelow

end Tree

namespace BStarPlusIndex

variable {idx : BStarPlusIndex} {H : Nat} {key : IndexKey} {m : OrderedMap IndexKey UInt64}

/-- What is read below a node is in the tree. -/
theorem Below.mem_below {t : Tree H} (r : idx.Represents t) {node : IndexNode}
    (below : idx.Below node) : node ∈ t.below := by
  have hroot : idx.metadata.rootPageId = t.id := r.open.root
  have hnodes := Tree.nodes_eq t
  have hread : ∀ {parent node : IndexNode} {page : PageId}, parent ∈ t.nodes →
      page ∈ parent.children → idx.readNode page = .ok node → node ∈ t.below := by
    intro parent node page hparent hpage hnode
    obtain ⟨child, hchild, rfl⟩ := Tree.exists_child hparent hpage
    have hstored := r.nodes child (hnodes ▸ List.mem_cons_of_mem _ hchild)
    obtain rfl := Except.ok.inj (hstored.symm.trans hnode)
    exact hchild
  induction below with
  | child readRoot mem read =>
      rw [hroot, r.holds_whole.readNode] at readRoot
      obtain rfl := Except.ok.inj readRoot
      exact hread t.node_mem_nodes mem read
  | deeper _ mem read ih => exact hread (hnodes ▸ List.mem_cons_of_mem _ ih) mem read

/-- The nodes of a tree are read below its root. -/
theorem below_of_mem : ∀ {h : Nat} {t : Tree h}, idx.Stores t.nodes →
    (∀ page ∈ t.node.children, ∀ node, idx.readNode page = .ok node → idx.Below node) →
      ∀ node ∈ t.below, idx.Below node
  | 0, _, _, _, _, hnode => nomatch hnode
  | h + 1, t, stores, reads, node, hnode => by
      cases t using Tree.branchCases with | branch b kids => ?_
      rw [Tree.nodes_branch, stores_cons] at stores
      obtain ⟨k, hk, hnode⟩ := List.mem_flatMap.mp hnode
      have hstores : idx.Stores k.nodes :=
        stores.2.mono fun n hn => List.mem_flatMap.mpr ⟨k, hk, hn⟩
      have hread := hstores k.node k.node_mem_nodes
      rw [k.pageId_node] at hread
      have hkid : idx.Below k.node := by
        refine reads k.id ?_ k.node hread
        rw [Tree.node_branch, BranchPage.children_node]
        exact List.mem_map_of_mem hk
      rw [Tree.nodes_eq] at hnode
      rcases List.mem_cons.mp hnode with rfl | hnode
      · exact hkid
      · exact below_of_mem hstores (fun page hpage node hread => .deeper hkid hpage hread) node hnode

/-- The counts hold when the tree is two thirds full. -/
theorem Represents.leastCountsHold_iff {t : Tree H} (r : idx.Represents t) :
    idx.LeastCountsHold ↔ t.Filled idx.metadata.keyKind true := by
  have hroot : idx.metadata.rootPageId = t.id := r.open.root
  rw [r.sized.filled_iff, LeastCountsHold]
  have hread : idx.readNode idx.metadata.rootPageId = .ok t.node := by
    rw [hroot]
    exact r.holds_whole.readNode
  have hbelow : ∀ node, idx.Below node ↔ node ∈ t.below := fun node =>
    ⟨Below.mem_below r, below_of_mem r.nodes
      (fun page hpage node hnode => .child hread hpage hnode) node⟩
  simp only [r.empty_eq, forall_true_left, true_or, true_and, hbelow]

theorem Represents.leastCountsHold_iff_twoThirdsFull {t : Tree H} (r : idx.Represents t) :
    idx.LeastCountsHold ↔ idx.TwoThirdsFull := by
  rw [r.leastCountsHold_iff]
  constructor
  · exact fun filled => ⟨H, t, r, filled⟩
  · rintro ⟨H', t', r', filled⟩
    obtain rfl := r.height_unique r'
    rwa [r.unique r']

/-! ## Insertion and erasure -/

/-- A tree with a single item is a leaf. -/
theorem Represents.isTop_of_single {ctx : Context 0 H} {l : LeafPage}
    (r : idx.Represents (ctx.plug (leaf l)))
    (single : (Tree.items (ctx.plug (leaf l))).length = 1) : ctx.isTop = true := by
  cases H with
  | zero =>
      cases ctx with
      | top => rfl
      | frame b left right up => exact absurd up.height_le (Nat.not_succ_le_zero 0)
  | succ H =>
      exfalso
      have hsized := r.sized
      generalize ctx.plug (leaf l) = t at hsized single
      cases t using Tree.branchCases with | branch b kids => ?_
      have hkids : ∀ k ∈ kids, Tree.Sized idx.metadata.keyKind false k := hsized.2
      have htwo : leastKids idx.metadata.keyKind true ≤ (kids.map Tree.keys).length := hsized.1.least
      have hleast := leastKids_two r.open.sound.kind
      have hone : 1 ≤ leastKids idx.metadata.keyKind false ^ H *
          leastItems idx.metadata.keyKind false :=
        Nat.mul_pos (Nat.pow_pos (Nat.lt_of_lt_of_le Nat.two_pos (hleast false)))
          (leastItems_pos r.open.sound.kind false)
      have hitems := Tree.length_mul_le_length_items
        fun k hk => hone.trans (hkids k hk).pow_mul_le_length_items
      rw [List.length_map] at htwo
      rw [Tree.items_branch] at single
      have := hleast true
      omega

/-- An index that holds something has a tree. -/
theorem Contents.exists_tree (c : idx.Contents m) (filled : m.entries ≠ []) :
    ∃ (H : Nat) (t : Tree H), idx.Represents t :=
  (c.cases.resolve_left fun blank => filled blank.2).imp fun _ ⟨t, r, _⟩ => ⟨t, r⟩

section Counts

variable (c : idx.Contents m) (counts : idx.LeastCountsHold)
  (admissible : Admissible idx.metadata.keyKind key)

include c admissible

/-- An insertion of a new key succeeds while the file has room. -/
theorem exists_inserted {record : UInt64} (absent : m.find? key = none)
    (room : ((Operation.insert key record).onIndex idx).2.HasRoom) :
    ∃ idx', insert key record idx = .ok ⟨⟩ idx' ∧
      ((Operation.insert key record).onIndex idx).2 = idx' := by
  have hends : Ends (insert key record) idx _ fun _ idx' => idx'.disk.Full :=
    c.ends_insert admissible absent fun _ full _ => full
  rw [Operation.onIndex] at room ⊢
  cases hrun : insert key record idx with
  | ok a idx' =>
      refine ⟨idx', rfl, ?_⟩
      rw [Operation.perform, bind_ok hrun]
      rfl
  | error fault idx' =>
      rw [Operation.perform, bind_error hrun] at room
      exact absurd (hends.of_error hrun) room

/-- An erasure succeeds. -/
theorem exists_erased : ∃ idx', erase key idx = .ok (m.find? key).isSome idx' ∧
    (Operation.erase key).onIndex idx = (.ok (.erased (m.find? key).isSome), idx') ∧
    Mirrors idx.metadata.keyKind idx' (m.erase key) := by
  have hends := c.ends_erase (E := fun _ _ => False) (validateKeyKind_eq admissible)
  obtain ⟨found, idx', hrun, rfl, c', hkind⟩ := hends.exists_ok
  refine ⟨idx', hrun, ?_, c', hkind⟩
  rw [Operation.onIndex, Operation.perform, bind_ok hrun]
  rfl

include counts

/-- The counts after an insertion that makes no new root. -/
theorem leastCountsHold_insert_iff {record : UInt64}
    (room : ((Operation.insert key record).onIndex idx).2.HasRoom)
    (noRoot : ((Operation.insert key record).onIndex idx).2.metadata.height ≤
      idx.metadata.height) :
    ((Operation.insert key record).onIndex idx).2.LeastCountsHold ↔
      idx.InsertKeepsCounts m key := by
  cases hfind : m.find? key with
  | some old =>
      have hpresent : m.find? key ≠ none := by rw [hfind]; nofun
      have hrun : insert key record idx = _ :=
        c.insert_present (validateKeyKind_eq admissible) hpresent
      have hsame : ((Operation.insert key record).onIndex idx).2 = idx := by
        rw [Operation.onIndex, Operation.perform, bind_error hrun]
      rw [hsame]
      exact iff_of_true counts (.inl hpresent)
  | none =>
      obtain ⟨idx', hrun, hlast⟩ := exists_inserted c admissible hfind room
      rw [hlast] at noRoot ⊢
      have hends : Ends (insert key record) idx _ fun _ _ => True :=
        c.ends_insert admissible hfind fun _ _ _ => trivial
      obtain ⟨H', t', r'⟩ := (hends.of_ok hrun).1.exists_tree fun hnil => by
        have hlength := OrderedMap.length_insert (a := record) hfind
        rw [hnil] at hlength
        cases hlength
      rw [r'.leastCountsHold_iff_twoThirdsFull]
      rcases c.tree with ⟨hblank, -⟩ | ⟨H, t, r, -⟩
      · have hheight : idx'.metadata.height.toNat ≤ idx.metadata.height.toNat := noRoot
        rw [hblank, r'.open.height] at hheight
        cases hheight
      · constructor
        · intro full
          obtain ⟨ctx, l, rfl, admits⟩ := r.exists_leaf key
          exact .inr ⟨H, ctx, l, r, admits, (twoThirdsFull_insert_iff c r
            (r.leastCountsHold_iff.mp counts) admits admissible hfind noRoot hrun).mp full⟩
        · rintro (present | ⟨H, ctx, l, r, admits, hkeeps⟩)
          · exact absurd hfind present
          · exact (twoThirdsFull_insert_iff c r (r.leastCountsHold_iff.mp counts) admits
              admissible hfind noRoot hrun).mpr hkeeps

/-- The counts after an erasure that makes no new root. -/
theorem leastCountsHold_erase_iff
    (noRoot : ((Operation.erase key).onIndex idx).2.metadata.height ≤ idx.metadata.height) :
    ((Operation.erase key).onIndex idx).2.LeastCountsHold ↔ idx.EraseKeepsCounts m key := by
  obtain ⟨idx', hrun, hlast, c'⟩ := exists_erased c admissible
  rw [hlast] at noRoot ⊢
  by_cases hfind : m.find? key = none
  · rw [c.erase_absent (validateKeyKind_eq admissible) hfind] at hrun
    obtain rfl : idx = idx' := (EStateM.Result.ok.inj hrun).2
    exact iff_of_true counts (.inl hfind)
  have hlength := OrderedMap.length_erase hfind
  obtain ⟨H, t, r⟩ := c.exists_tree fun hnil => by
    rw [hnil] at hlength
    cases hlength
  obtain ⟨ctx, l, rfl, admits⟩ := r.exists_leaf key
  rcases c'.contents.cases with ⟨hempty, hnil⟩ | ⟨H', t', r', -⟩
  · refine iff_of_true (fun hroot => ?_)
      (.inr ⟨H, ctx, l, r, admits, .inl (r.isTop_of_single ?_)⟩)
    · rw [hempty] at hroot
      cases hroot
    · rw [c.items_eq r, hlength, hnil]
      rfl
  · have hnot : ¬ ((m.erase key).entries = [] ∧ idx.Emptied idx') := by
      rintro ⟨-, emptied⟩
      have := r'.empty_eq
      rw [emptied.metadata] at this
      cases this
    rw [r'.leastCountsHold_iff_twoThirdsFull]
    constructor
    · intro full
      exact .inr ⟨H, ctx, l, r, admits, ((twoThirdsFull_erase c r (r.leastCountsHold_iff.mp counts)
        admits admissible hfind noRoot hrun).resolve_left hnot).mp full⟩
    · rintro (absent | ⟨H, ctx, l, r, admits, hkeeps⟩)
      · exact absurd absent hfind
      · exact ((twoThirdsFull_erase c r (r.leastCountsHold_iff.mp counts) admits admissible hfind
          noRoot hrun).resolve_left hnot).mpr hkeeps

end Counts

/-- An insertion or an erasure that makes no new root keeps the least counts of the nodes below
the root just when it meets its condition on the index before. -/
theorem least_counts_kept_iff (c : idx.Contents m) (counts : idx.LeastCountsHold)
    (admissible : Admissible idx.metadata.keyKind key) :
    (∀ record, ((Operation.insert key record).onIndex idx).2.HasRoom →
      ((Operation.insert key record).onIndex idx).2.metadata.height ≤ idx.metadata.height →
        (((Operation.insert key record).onIndex idx).2.LeastCountsHold ↔
          idx.InsertKeepsCounts m key)) ∧
    (((Operation.erase key).onIndex idx).2.metadata.height ≤ idx.metadata.height →
      (((Operation.erase key).onIndex idx).2.LeastCountsHold ↔ idx.EraseKeepsCounts m key)) :=
  ⟨fun _ room noRoot => leastCountsHold_insert_iff c counts admissible room noRoot,
    fun noRoot => leastCountsHold_erase_iff c counts admissible noRoot⟩

section Instances

/-- More strings than a leaf takes, and too few for three levels, are in a tree of two. -/
private theorem height_of_few {t : Tree H} (sized : t.Sized .string true)
    (many : 15 < t.items.length) (few : t.items.length < 32) : H = 1 := by
  match H, t, sized, many, few with
  | 0, t, hsized, hmany, _ =>
      have hmost : (LeafPage.items t).length ≤ maxLeafKeyCount .string :=
        LeafPage.Sized.most hsized
      have hitems : Tree.items t = LeafPage.items t := Tree.items_leaf t
      rw [hitems] at hmany
      exact absurd hmany (Nat.not_lt.mpr hmost)
  | 1, _, _, _, _ => rfl
  | H + 2, t, hsized, _, hfew =>
      have hkids : ∀ k ∈ Branch.kids t, Tree.Sized .string false k := hsized.2
      have htwo : 2 ≤ ((Branch.kids t).map Tree.keys).length := hsized.1.least
      have hleast := Tree.length_mul_le_length_items
        fun k hk => (hkids k hk).pow_mul_le_length_items
      have hitems : t.items = (Branch.kids t).flatMap Tree.items :=
        Tree.items_branch (Branch.label t) (Branch.kids t)
      have hkid : 2 * 8 ≤ leastKids .string false ^ (H + 1) * leastItems .string false :=
        Nat.mul_le_mul (Nat.one_lt_pow (Nat.succ_ne_zero H) (by decide)) (by decide)
      rw [List.length_map] at htwo
      rw [← hitems] at hleast
      have := (Nat.mul_le_mul htwo hkid).trans hleast
      omega

/-- So an index with so many strings has height two. -/
private theorem height_of_mirrors (mirrors : Mirrors .string idx m) (many : 15 < m.entries.length)
    (few : m.entries.length < 32) : idx.metadata.height.toNat = 2 := by
  rcases mirrors.contents.cases with ⟨-, hnil⟩ | ⟨H, t, r, hitems⟩
  · rw [hnil] at many
    exact absurd many (Nat.not_lt_zero 15)
  · have hsized := r.sized
    rw [mirrors.kind] at hsized
    obtain rfl : H = 1 := height_of_few hsized (hitems ▸ many) (hitems ▸ few)
    exact r.open.height

private theorem mirrors_tenAndTen : Mirrors .string (spelled .string tenAndTen) twentyLetters :=
  ⟨spellable_tenAndTen.contents rfl, rfl⟩

private theorem counts_tenAndTen : (spelled .string tenAndTen).LeastCountsHold :=
  represents_tenAndTen.leastCountsHold_iff.mpr filled_tenAndTen

/-- A string that comes first finds room in the first of two leaves of ten. -/
theorem least_counts_kept_iff_of_room : ((Operation.insert (.str [64]) 0).onIndex
    (spelled .string tenAndTen)).2.LeastCountsHold := by
  have within : (spelled .string tenAndTen).Within 3 := ⟨by decide, by decide⟩
  have admissible : Admissible .string (.str [64]) := by decide
  have admits : Operation.Admissible .string (.insert (.str [64]) 0) := admissible
  have room := hasRoom_of_within (within_onIndex admits mirrors_tenAndTen within) (by decide)
  have hlast := ((Operation.insert (.str [64]) 0).onIndex_eq admits.check mirrors_tenAndTen room).2
  have hheight := height_of_mirrors hlast (by decide) (by decide)
  have hkept := (least_counts_kept_iff mirrors_tenAndTen.contents counts_tenAndTen
    admissible).1 0 room (UInt32.le_iff_toNat_le.mpr hheight.le)
  exact hkept.mpr (.inr ⟨1, aroundLeftTen, leftTen, represents_tenAndTen,
    ⟨⟨by decide, by decide⟩, trivial⟩, .inl (by decide)⟩)

/-- An erasure from one of two leaves of ten strings leaves nine in a leaf. -/
theorem erase_below_least : ∃ idx : BStarPlusIndex, idx.Contents twentyLetters ∧
    idx.LeastCountsHold ∧ Admissible idx.metadata.keyKind (.str [65]) ∧
    ((Operation.erase (.str [65])).onIndex idx).1 = .ok (.erased true) ∧
    ((Operation.erase (.str [65])).onIndex idx).2.metadata.height = idx.metadata.height ∧
    ¬ ((Operation.erase (.str [65])).onIndex idx).2.LeastCountsHold := by
  have admissible : Admissible .string (.str [65]) := by decide
  have present : twentyLetters.find? (.str [65]) ≠ none := by decide
  have c := mirrors_tenAndTen.contents
  obtain ⟨idx', hrun, herased, hlast⟩ := exists_erased c admissible
  have same : idx'.metadata.height = (spelled .string tenAndTen).metadata.height :=
    UInt32.toNat_inj.mp (height_of_mirrors hlast (by decide) (by decide))
  refine ⟨spelled .string tenAndTen, c, counts_tenAndTen, admissible, ?_⟩
  rw [herased]
  refine ⟨rfl, same, fun counts => ?_⟩
  obtain ⟨H', t', r'⟩ := hlast.contents.exists_tree (by decide)
  exact nothing_to_spare ((twoThirdsFull_erase_iff c represents_tenAndTen filled_tenAndTen
    admits_a admissible present same hrun).mp (r'.leastCountsHold_iff_twoThirdsFull.mp counts))

end Instances

end BStarPlusIndex
end CwDb.Index
