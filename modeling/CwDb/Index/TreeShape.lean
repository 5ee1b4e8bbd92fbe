/-
  Index/TreeShape.lean --- the shape of the trees that insertions and erasures lead to.
-/
import CwDb.Index.MapRefinement

set_option autoImplicit false

namespace CwDb.Index

open CwDb.Cpp
open CwDb.Foundation
open LevelTree LevelContext

/-- The keys of every node ascend; a branch has a child more than separators, and two at
least; what is under the children up to a separator is below it, what is under the others is
not; no leaf but the root is empty. -/
def Tree.Ordered : (isRoot : Bool) → {h : Nat} → Tree h → Prop
  | isRoot, 0, l =>
      (isRoot = true ∨ LeafPage.items l ≠ []) ∧ (LeafPage.keys l).Pairwise (· < ·)
  | _, _ + 1, t =>
      2 ≤ (Branch.kids t).length ∧
        (Branch.kids t).length = (BranchPage.seps (Branch.label t)).length + 1 ∧
        (BranchPage.seps (Branch.label t)).Pairwise (· < ·) ∧
        (∀ i s, (BranchPage.seps (Branch.label t))[i]? = some s →
          (∀ k ∈ (Branch.kids t).take (i + 1), ∀ x ∈ Tree.keys k, x < s) ∧
            ∀ k ∈ (Branch.kids t).drop (i + 1), ∀ x ∈ Tree.keys k, s ≤ x) ∧
        ∀ k ∈ Branch.kids t, Tree.Ordered false k

namespace BStarPlusIndex

/-- The pages from the root down spell out the tree, all leaves of which are at the depth that
the metadata give. -/
structure Spells (idx : BStarPlusIndex) {H : Nat} (t : Tree H) : Prop where
  root : idx.metadata.rootPageId = t.id
  depth : idx.metadata.height.toNat = H + 1
  nodes : ∀ node ∈ t.nodes, idx.readNode node.pageId = .ok node
  distinct : t.pages.Nodup
  allocated : ∀ p ∈ t.pages, p < idx.disk.pageCount
  ordered : t.Ordered true
  fits : ∀ node ∈ t.nodes, idx.nodeFitsPage node = .ok true
  first : idx.metadata.firstLeafPageId = firstId LeafPage.id invalidPageId t.leaves
  chained : Linked LeafPage.id LeafPage.next invalidPageId t.leaves

/-- There is a tree, or nothing. -/
def WellFormed (idx : BStarPlusIndex) : Prop :=
  (idx.metadata.rootPageId = invalidPageId ∧ idx.metadata.firstLeafPageId = invalidPageId ∧
      idx.metadata.height = 0) ∨
    ∃ (H : Nat) (t : Tree H), idx.Spells t

end BStarPlusIndex

/-! ## The invariant has this shape -/

variable {kind : IndexKeyKind} {h : Nat}

theorem take_drop_separated {seps : List IndexKey} {kids : List (Tree h)}
    (separates : Separates seps (kids.map Tree.keys)) {i : Nat} {s : IndexKey}
    (hs : seps[i]? = some s) :
    (∀ k ∈ kids.take (i + 1), ∀ x ∈ k.keys, x < s) ∧
      ∀ k ∈ kids.drop (i + 1), ∀ x ∈ k.keys, s ≤ x := by
  constructor
  · intro k hk
    obtain ⟨j, hj, rfl⟩ := List.mem_take_iff_getElem.mp hk
    have hlt := Nat.lt_min.mp hj
    refine separates.above i j s _ hs ?_ (Nat.le_of_lt_succ hlt.1)
    rw [List.getElem?_map, List.getElem?_eq_getElem hlt.2]
    rfl
  · intro k hk
    obtain ⟨j, hj, rfl⟩ := List.mem_drop_iff_getElem.mp hk
    refine separates.below i (i + 1 + j) s _ hs ?_ (Nat.le_add_right _ _)
    rw [List.getElem?_map, List.getElem?_eq_getElem (by omega)]
    rfl

/-- A tree of due sizes is ordered. -/
theorem Tree.Sized.ordered (proper : kind.Proper) : ∀ {h : Nat} {isRoot : Bool} {t : Tree h},
    t.Sized kind isRoot → t.keys.Pairwise (· < ·) → t.Ordered isRoot
  | 0, isRoot, t, sized, sorted => by
      cases t using Tree.leafCases with | leaf l => ?_
      rw [Tree.keys_leaf] at sorted
      refine ⟨.inr fun hnil => ?_, sorted⟩
      have hleast : leastItems kind isRoot ≤ l.items.length := LeafPage.Sized.least sized
      have hpos := leastItems_pos proper isRoot
      rw [show l.items = [] from hnil, List.length_nil] at hleast
      omega
  | h + 1, isRoot, t, sized, sorted => by
      cases t using Tree.branchCases with | branch b kids => ?_
      obtain ⟨hb, hkids⟩ := Tree.sized_branch.mp sized
      have hleast := hb.least
      have htwo := leastKids_two proper isRoot
      have hcount := hb.separates.count
      rw [List.length_map] at hleast hcount
      rw [Tree.keys_branch] at sorted
      have hfilled : ∀ g ∈ kids.map Tree.keys, g ≠ [] := by
        intro g hg
        obtain ⟨k, hk, rfl⟩ := List.mem_map.mp hg
        obtain ⟨-, -, first, -, -, hfirst⟩ := (hkids k hk).exists_first proper
        intro hnil
        rw [hnil] at hfirst
        cases hfirst
      refine ⟨htwo.trans hleast, hcount, hb.separates.ascending hfilled,
        fun i s hs => take_drop_separated hb.separates hs, fun k hk => ?_⟩
      exact (hkids k hk).ordered proper ((List.pairwise_flatMap.mp sorted).1 k hk)

namespace BStarPlusIndex

variable {idx : BStarPlusIndex} {H : Nat} {m : OrderedMap IndexKey UInt64}

theorem Represents.spells {t : Tree H} (r : idx.Represents t) : idx.Spells t := by
  have holds := r.holds_whole
  have hleaves : Context.leavesWith (top : Context H H) [t] = t.leaves := by
    simp [Context.leavesWith, leftLeaves, rightLeaves]
  have hfirst := r.open.first
  have hchained := r.open.chained
  have hsorted := r.open.sorted
  rw [hleaves] at hfirst hchained hsorted
  exact ⟨r.open.root, r.open.height, holds.nodes, holds.distinct, holds.allocated,
    holds.sized.ordered r.open.sound.kind hsorted,
    fun node hnode => nodeFitsPage_of_storable (holds.sized.storable_nodes node hnode), hfirst,
    hchained⟩

theorem Contents.wellFormed (c : idx.Contents m) : idx.WellFormed := by
  rcases c.tree with ⟨hblank, -⟩ | ⟨H, t, r, -⟩
  · refine .inl ?_
    rw [hblank]
    exact ⟨rfl, rfl, rfl⟩
  · exact .inr ⟨H, t, r.spells⟩

/-- Whatever is done with a new index, with keys that it can store, its pages spell out a
tree; the file has room all the while. -/
theorem wellFormed_run {kind : IndexKeyKind} (proper : kind.Proper) (ops : List Operation)
    (admissible : ∀ op ∈ ops, op.Admissible kind)
    (room : StaysIn HasRoom Operation.onIndex ops (created kind)) :
    (runMachine Operation.onIndex ops (created kind)).2.WellFormed :=
  (mirrors_run proper admissible room).2.contents.wellFormed

/-- After two insertions. -/
theorem wellFormed_run_of_insertions : (runMachine Operation.onIndex [.insert (.int 2) 7,
    .insert (.int 1) 8] (created .int64)).2.WellFormed := by
  refine wellFormed_run (.inl rfl) _ ?_ (staysIn_of_le fun n hn => Nat.not_le.mpr ?_)
  · intro op hop
    simp only [List.mem_cons, List.not_mem_nil, or_false] at hop
    rcases hop with rfl | rfl <;> exact rfl
  · revert n
    decide +kernel

end BStarPlusIndex
end CwDb.Index
