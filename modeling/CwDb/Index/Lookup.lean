/-
  Index/Lookup.lean --- the way down to the leaf of a key.
-/
import CwDb.Index.Settle

set_option autoImplicit false

namespace CwDb.Index

open CwDb.Cpp
open CwDb.Foundation
open LevelTree LevelContext

theorem Tree.mem_keys {h : Nat} {t : Tree h} {l : LeafPage} {x : IndexKey} (hl : l ∈ t.leaves)
    (hx : x ∈ l.keys) : x ∈ Tree.keys t := List.mem_flatMap.mpr ⟨l, hl, hx⟩

/-- A key that the separators leave room for lies between the leaves around the hole. -/
theorem Context.Admits.between {kind : IndexKeyKind} : ∀ {h H : Nat} {ctx : Context h H}
    {key : IndexKey}, ctx.Sized kind → ctx.Admits key →
      (∀ l ∈ ctx.leftLeaves, ∀ x ∈ l.keys, x < key) ∧ ∀ l ∈ ctx.rightLeaves, ∀ x ∈ l.keys, key < x
  | _, _, top, _, _, _ => ⟨nofun, nofun⟩
  | _, _, frame b left right up, key, sized, admits => by
      obtain ⟨hb, hsides, hup⟩ := sized
      obtain ⟨hbetween, hadmits⟩ := admits
      obtain ⟨hbefore, hafter⟩ := Context.Admits.between hup hadmits
      have hlength : (left.map Tree.keys).length = left.length := List.length_map _
      obtain ⟨hleft, hright⟩ := hb.separates.lt_of_between (hlength.symm ▸ hbetween)
      constructor
      · intro l hl x hx
        rcases List.mem_append.mp hl with hl | hl
        · exact hbefore l hl x hx
        · obtain ⟨k, hk, hl⟩ := List.mem_flatMap.mp hl
          exact hleft _ (List.mem_map_of_mem hk) x (Tree.mem_keys hl hx)
      · intro l hl x hx
        rcases List.mem_append.mp hl with hl | hl
        · obtain ⟨k, hk, hl⟩ := List.mem_flatMap.mp hl
          exact hright _ (List.mem_map_of_mem hk) x (Tree.mem_keys hl hx)
        · exact hafter l hl x hx

namespace BStarPlusIndex

variable {idx : BStarPlusIndex} {h H : Nat}

theorem Sound.ne_invalid (sound : idx.Sound) {p : PageId} (allocated : p < idx.disk.pageCount) :
    p ≠ invalidPageId := by
  rintro rfl
  have hcount := sound.disk.addressable
  have hlt : invalidPageId.toNat < idx.disk.pageCount.toNat := allocated
  have hinvalid : invalidPageId.toNat = 2 ^ 64 - 1 := rfl
  omega

/-- `std::upper_bound` comes to the place of a key among separators. -/
theorem childIndexForKey_eq {seps : List IndexKey} {i : Nat} {key : IndexKey}
    (between : Between seps i key) (hi : i ≤ seps.length) : childIndexForKey seps key = i := by
  have hbefore : ∀ s ∈ seps.take i, (!decide (key < s)) = true := fun s hs => by
    simpa using between.1 s hs
  have hbehind : ∀ s ∈ seps.drop i, (!decide (key < s)) = false := fun s hs => by
    simpa using between.2 s hs
  have hplace := partitionPoint_append hbefore hbehind
  rwa [List.take_append_drop, List.length_take, Nat.min_eq_left hi] at hplace

/-- A branch has a child for a key. -/
theorem Tree.Sized.exists_child {kind : IndexKeyKind} (proper : kind.Proper) {isRoot : Bool}
    {b : BranchPage} {kids : List (Tree h)}
    (sized : Tree.Sized kind isRoot (branch b kids : Tree (h + 1))) (key : IndexKey) :
    ∃ left k right, kids = left ++ k :: right ∧ Between b.seps left.length key := by
  obtain ⟨hb, hkids⟩ := Tree.sized_branch.mp sized
  have hfilled : ∀ g ∈ kids.map Tree.keys, g ≠ [] := by
    intro g hg
    obtain ⟨k, hk, rfl⟩ := List.mem_map.mp hg
    obtain ⟨-, -, first, -, -, hfirst⟩ := (hkids k hk).exists_first proper
    intro hnil
    rw [hnil] at hfirst
    cases hfirst
  obtain ⟨i, hi, hbetween⟩ := exists_between (hb.separates.ascending hfilled) key
  have hcount := hb.separates.count
  rw [List.length_map] at hcount
  have hlt : i < kids.length := by omega
  refine ⟨kids.take i, kids[i], kids.drop (i + 1), ?_, ?_⟩
  · rw [List.getElem_cons_drop, List.take_append_drop]
  · rw [List.length_take, Nat.min_eq_left (Nat.le_of_lt hlt)]
    exact hbetween

/-- A tree has a leaf for a key. -/
theorem exists_leaf {kind : IndexKeyKind} (proper : kind.Proper) (key : IndexKey) :
    ∀ {h H : Nat} {isRoot : Bool} (ctx : Context h H) (t : Tree h), t.Sized kind isRoot →
      ctx.Admits key → ∃ (ctx' : Context 0 H) (l : LeafPage),
        ctx.plug t = ctx'.plug (leaf l) ∧ ctx'.Admits key
  | 0, _, _, ctx, l, _, admits => ⟨ctx, l, rfl, admits⟩
  | h + 1, _, _, ctx, t, sized, admits => by
      cases t using Tree.branchCases with | branch b kids => ?_
      obtain ⟨left, k, right, rfl, hbetween⟩ := Tree.Sized.exists_child proper sized key
      exact exists_leaf proper key (frame b left right ctx) k
        ((Tree.sized_branch.mp sized).2 k (by simp)) ⟨hbetween, admits⟩

/-- What `find` reads in a leaf. -/
def leafRecord (l : LeafPage) (key : IndexKey) : Option UInt64 :=
  let index := lowerBound l.node.keys key
  if l.node.keys[index]? = some key then l.node.records[index]? else none

theorem length_path : ∀ {h H : Nat} (ctx : Context h H), h + ctx.path.length = H
  | _, _, top => rfl
  | _, _, frame _ _ _ up => by
      have := length_path up
      change _ + (Context.path up).length = _ at this
      change _ + ((Context.path up).length + 1) = _
      omega

/-- The ways down from the root come to every place that has room for the key. -/
theorem Represents.walk {key : IndexKey} (fuel : Nat) : ∀ {h H : Nat} (ctx : Context h H)
    {t : Tree h}, idx.Represents (ctx.plug t) → ctx.Admits key →
      idx.findLeafLoop key (fuel + ctx.path.length) idx.metadata.rootPageId [] =
        idx.findLeafLoop key fuel t.id ctx.path ∧
      idx.findLoop key (fuel + ctx.path.length) idx.metadata.rootPageId =
        idx.findLoop key fuel t.id := by
  intro h H ctx
  induction ctx generalizing fuel with
  | top =>
      intro t r _
      have hroot : idx.metadata.rootPageId = t.id := r.open.root
      rw [hroot]
      exact ⟨rfl, rfl⟩
  | frame b left right up ih =>
      intro t r admits
      obtain ⟨hbetween, hadmits⟩ := admits
      obtain ⟨hleaf, hfind⟩ := ih (fuel + 1) (t := branch b (left ++ t :: right)) r hadmits
      have holds : idx.Holds up.isTop (branch b (left ++ t :: right)) := Represents.holds r
      have hread : idx.readNode b.id = .ok (b.node ((left ++ t :: right).map Tree.id)) :=
        holds.readNode
      have hvalid := r.open.sound.ne_invalid (holds.allocated _ (Tree.id_mem_pages _))
      have hcount := (Tree.sized_branch.mp holds.sized).1.separates.count
      rw [List.length_map, List.length_append, List.length_cons] at hcount
      have hchild : ((left ++ t :: right).map Tree.id)[childIndexForKey b.seps key]? =
          some t.id := by
        rw [childIndexForKey_eq hbetween (by omega)]
        simp
      have hfuel : fuel + (Context.path (frame b left right up)).length =
          fuel + 1 + (Context.path up).length := by
        change fuel + ((Context.path up).length + 1) = _
        omega
      rw [hfuel, hleaf, hfind]
      constructor
      · rw [findLeafLoop, if_neg hvalid]
        simp only [Tree.id_branch, hread, bind, Except.bind, BranchPage.isLeaf_node,
          Bool.false_eq_true, if_false, BranchPage.children_node, BranchPage.keys_node, hchild]
        rfl
      · rw [findLoop, if_neg hvalid]
        simp only [Tree.id_branch, hread, bind, Except.bind, BranchPage.isLeaf_node,
          Bool.false_eq_true, if_false, BranchPage.children_node, BranchPage.keys_node, hchild]

/-- `find` comes to the leaf that has room for the key, in as many rounds as the tree has
levels. -/
theorem Represents.findLoop_eq {ctx : Context 0 H} {l : LeafPage} {key : IndexKey}
    (r : idx.Represents (ctx.plug (leaf l))) (admits : ctx.Admits key) {fuel : Nat}
    (enough : H < fuel) :
    idx.findLoop key fuel idx.metadata.rootPageId = .ok (leafRecord l key) := by
  have holds : idx.Holds ctx.isTop (leaf l) := Represents.holds r
  have hlength := length_path ctx
  have hread : idx.readNode l.id = .ok l.node := holds.readNode
  have hvalid := r.open.sound.ne_invalid (holds.allocated _ (Tree.id_mem_pages _))
  obtain ⟨rest, hfuel⟩ : ∃ rest, fuel = rest + 1 + ctx.path.length :=
    ⟨fuel - 1 - ctx.path.length, by omega⟩
  obtain ⟨-, hfind⟩ := r.walk (rest + 1) ctx admits
  rw [hfuel, hfind, findLoop, if_neg hvalid]
  simp only [Tree.id_leaf, hread, bind, Except.bind, LeafPage.isLeaf_node, if_true, leafRecord]
  split <;> rfl

/-- `find_leaf` comes to it as well. -/
theorem Represents.findLeaf_eq {ctx : Context 0 H} {l : LeafPage} {key : IndexKey}
    (r : idx.Represents (ctx.plug (leaf l))) (admits : ctx.Admits key) :
    idx.findLeaf key = .ok (l.node, l.id :: ctx.path) := by
  have hwhole : idx.Holds true (ctx.plug (leaf l)) := r.holds_whole
  have holds : idx.Holds ctx.isTop (leaf l) := Represents.holds r
  have hheight := hwhole.height_lt r.open.sound
  have hlength := length_path ctx
  have hread : idx.readNode l.id = .ok l.node := holds.readNode
  have hvalid := r.open.sound.ne_invalid (holds.allocated _ (Tree.id_mem_pages _))
  obtain ⟨fuel, hfuel⟩ : ∃ fuel, idx.walkBound = fuel + 1 + ctx.path.length :=
    ⟨idx.walkBound - 1 - ctx.path.length, by omega⟩
  obtain ⟨hleaf, -⟩ := r.walk (fuel + 1) ctx admits
  rw [findLeaf, hfuel, hleaf, findLeafLoop, if_neg hvalid]
  simp only [Tree.id_leaf, hread, bind, Except.bind, LeafPage.isLeaf_node, if_true]
  rfl

/-! ## The place of a key in a leaf -/

/-- `std::lower_bound` comes to the first item that is not below the key. -/
theorem lowerBound_eq {before after : List Item} {key : IndexKey}
    (less : ∀ e ∈ before, e.1 < key) (notLess : ∀ e ∈ after, ¬ e.1 < key) :
    lowerBound ((before ++ after).map Prod.fst) key = before.length := by
  have hbefore : ∀ k ∈ before.map Prod.fst, decide (k < key) = true := by
    intro k hk
    obtain ⟨e, he, rfl⟩ := List.mem_map.mp hk
    exact decide_eq_true (less e he)
  have hafter : ∀ k ∈ after.map Prod.fst, decide (k < key) = false := by
    intro k hk
    obtain ⟨e, he, rfl⟩ := List.mem_map.mp hk
    exact decide_eq_false (notLess e he)
  rw [lowerBound, List.map_append, partitionPoint_append hbefore hafter, List.length_map]

/-- A sorted list of items splits at a key. -/
theorem exists_split {l : List Item} (sorted : (l.map Prod.fst).Pairwise (· < ·))
    (key : IndexKey) : ∃ before after, l = before ++ after ∧
      lowerBound (l.map Prod.fst) key = before.length ∧ (∀ e ∈ before, e.1 < key) ∧
      ((∃ record rest, after = (key, record) :: rest ∧ ∀ e ∈ rest, key < e.1) ∨
        ∀ e ∈ after, key < e.1) := by
  obtain ⟨before, after, rfl, less, hafter⟩ := OrderedMap.exists_place sorted key
  refine ⟨before, after, rfl, lowerBound_eq less ?_, less, hafter⟩
  intro e he
  rcases hafter with ⟨record, rest, rfl, hrest⟩ | hafter
  · rcases List.mem_cons.mp he with rfl | he
    · exact lt_irrefl _
    · exact not_lt_of_gt (hrest e he)
  · exact not_lt_of_gt (hafter e he)

/-- The items of a leaf ascend. -/
theorem Represents.sorted_leaf {ctx : Context 0 H} {l : LeafPage}
    (r : idx.Represents (ctx.plug (leaf l))) : (l.items.map Prod.fst).Pairwise (· < ·) := by
  have hsorted := r.opened.1.sorted
  simp only [Context.leavesWith, List.flatMap_append, List.flatMap_singleton, leaves_leaf] at hsorted
  exact (List.pairwise_append.mp (List.pairwise_append.mp hsorted).1).2.1

end BStarPlusIndex
end CwDb.Index
