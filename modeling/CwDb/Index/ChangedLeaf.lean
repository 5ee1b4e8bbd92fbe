/-
  Index/ChangedLeaf.lean --- a leaf the items of which have changed in memory.

  Insertion and erasure change the items of the leaf of the key; what the page of the leaf
  holds from then on does not matter.  Either the leaf is written as it is, or it turns to
  a sibling.
-/
import CwDb.Index.LeafSiblings
import CwDb.Index.Lookup

set_option autoImplicit false

namespace CwDb.Index

open CwDb.Cpp
open CwDb.Foundation
open LevelTree LevelContext

namespace BStarPlusIndex

variable {idx idx' : BStarPlusIndex} {H : Nat} {ctx : Context 0 H} {l y z : LeafPage}
  {items : List Item} {Q : PUnit → BStarPlusIndex → Prop} {E : Fault → BStarPlusIndex → Prop}
  {b : BranchPage} {left right : List (Tree 0)} {up : Context 1 H}

/-- The leaf in the hole may get any items that the separators leave room for. -/
theorem Open.withItems {new : List Item} (o : idx.Open ctx l.id [leaf l])
    (ascending : (new.map Prod.fst).Pairwise (· < ·)) (admitted : ∀ e ∈ new, ctx.Admits e.1) :
    idx.Open ctx l.id [leaf { l with items := new }] := by
  have hleaves : ∀ l : LeafPage, ctx.leavesWith [leaf l] = ctx.leftLeaves ++ [l] ++ ctx.rightLeaves :=
    fun l => by simp [Context.leavesWith]
  have hfirst := o.first
  have hsorted := o.sorted
  have hchained := o.chained
  rw [hleaves] at hfirst hsorted hchained
  have hadmitted : ∀ x ∈ new.map Prod.fst, ctx.Admits x := by
    intro x hx
    obtain ⟨e, he, rfl⟩ := List.mem_map.mp hx
    exact admitted e he
  refine ⟨o.sound, o.root, o.height, ?_, o.stored, o.sized, ?_, ?_, ?_, o.distinct, o.allocated⟩
  · rw [hfirst, hleaves]
    simp only [firstLeaf, firstId_append]
    rfl
  · intro x hx
    rw [List.flatMap_singleton, Tree.keys_leaf] at hx
    exact hadmitted x hx
  · simp only [List.flatMap_append, List.flatMap_singleton] at hsorted
    obtain ⟨hleft, hright, hapart⟩ := List.pairwise_append.mp hsorted
    rw [hleaves]
    simp only [List.flatMap_append, List.flatMap_singleton]
    refine List.pairwise_append.mpr ⟨List.pairwise_append.mpr
      ⟨(List.pairwise_append.mp hleft).1, ascending, ?_⟩, hright, ?_⟩
    · intro x hx k hk
      obtain ⟨l', hl', hx⟩ := List.mem_flatMap.mp hx
      exact (Context.Admits.between o.sized (hadmitted k hk)).1 l' hl' x hx
    · intro x hx k hk
      rcases List.mem_append.mp hx with hx | hx
      · exact hapart x (List.mem_append_left _ hx) k hk
      · obtain ⟨l', hl', hk⟩ := List.mem_flatMap.mp hk
        exact (Context.Admits.between o.sized (hadmitted x hx)).2 l' hl' k hk
  · rw [hleaves]
    exact hchained.replace (fun _ => rfl) fun hlinked => hlinked

/-- The leaf in the hole is yet to be written.  The whole tree has the given items. -/
structure Changed (idx : BStarPlusIndex) (ctx : Context 0 H) (l : LeafPage) (items : List Item) :
    Prop where
  «open» : idx.Open ctx l.id [leaf l]
  admissible : ∀ e ∈ l.items, Admissible idx.metadata.keyKind e.1
  content : ctx.itemsWith [leaf l] = items

theorem Changed.counts (p : idx.Changed (frame b left right up) l items) :
    leastKids idx.metadata.keyKind up.isTop ≤ left.length + right.length + 1 ∧
      left.length + right.length + 1 ≤ maxInternalKeyCount idx.metadata.keyKind + 1 := by
  obtain ⟨hb, -, -⟩ := p.open.sized
  have hlength : (left.map Tree.keys ++ [] :: right.map Tree.keys).length =
      left.length + right.length + 1 := by
    simp only [List.length_append, List.length_cons, List.length_map]
    omega
  exact ⟨hlength ▸ hb.least, hlength ▸ hb.most⟩

/-- The leaf is written. -/
theorem Changed.ends_write (p : idx.Changed ctx l items)
    (least : leastItems idx.metadata.keyKind ctx.isTop ≤ l.items.length)
    (most : l.items.length ≤ maxLeafKeyCount idx.metadata.keyKind)
    (hQ : ∀ idx', idx'.metadata = idx.metadata → idx'.Represents (ctx.plug (leaf l)) →
      Tree.items (ctx.plug (leaf l)) = items → Q ⟨⟩ idx') :
    Ends (writeNode l.node) idx Q E := by
  refine Open.ends_write (t := leaf l) p.open ⟨nofun, least, most, p.admissible⟩
    fun idx' touches r => hQ idx' touches.metadata r ?_
  rw [Context.items_plug]
  exact p.content

/-- The leaf and its right sibling. -/
theorem Changed.pairRight (p : idx.Changed (frame b left (leaf z :: right) up) y items) :
    idx.LeafPair up b.id left y z right items := by
  have hholds := p.open.holds_sides
  have hrise := p.open.rise []
  have hsame : left ++ [leaf y] ++ leaf z :: right = left ++ [leaf y, leaf z] ++ right := by simp
  rw [hsame] at hrise
  have hcounts := p.counts
  simp only [List.length_cons] at hcounts
  refine ⟨hrise, fun k hk => hholds k ?_, ?_, by omega, by omega, ?_⟩
  · rcases List.mem_append.mp hk with hk | hk
    · exact List.mem_append_left _ hk
    · exact List.mem_append_right _ (List.mem_cons_of_mem _ hk)
  · intro e he
    rcases List.mem_append.mp he with he | he
    · exact p.admissible e he
    · exact LeafPage.Sized.admissible (hholds (leaf z) (by simp)).sized e he
  · rw [← p.content, Context.itemsWith_frame ⟨b.id, []⟩, hsame]

/-- The leaf and its left sibling. -/
theorem Changed.pairLeft (p : idx.Changed (frame b (left ++ [leaf y]) right up) z items) :
    idx.LeafPair up b.id left y z right items := by
  have hholds := p.open.holds_sides
  have hrise := p.open.rise []
  have hsame : left ++ [leaf y] ++ [leaf z] ++ right = left ++ [leaf y, leaf z] ++ right := by simp
  rw [hsame] at hrise
  have hcounts := p.counts
  simp only [List.length_append, List.length_singleton] at hcounts
  refine ⟨hrise, fun k hk => hholds k ?_, ?_, by omega, by omega, ?_⟩
  · rcases List.mem_append.mp hk with hk | hk
    · exact List.mem_append_left _ (List.mem_append_left _ hk)
    · exact List.mem_append_right _ hk
  · intro e he
    rcases List.mem_append.mp he with he | he
    · exact LeafPage.Sized.admissible (hholds (leaf y) (by simp)).sized e he
    · exact p.admissible e he
  · rw [← p.content, Context.itemsWith_frame ⟨b.id, []⟩, hsame]

/-! ## Shares -/

theorem nodeFitsPage_leaf (sound : idx.Sound)
    (admissible : ∀ e ∈ l.items, Admissible idx.metadata.keyKind e.1)
    (few : l.items.length ≤ 2 * maxLeafKeyCount idx.metadata.keyKind) :
    idx.nodeFitsPage l.node =
      .ok (decide (l.items.length ≤ maxLeafKeyCount idx.metadata.keyKind)) := by
  have hfits := l.fits_iff idx.metadata.keyKind
  by_cases hmost : l.items.length ≤ maxLeafKeyCount idx.metadata.keyKind
  · rw [decide_eq_true hmost]
    exact nodeFitsPage_of_storable (LeafPage.storable hmost admissible)
  · rw [decide_eq_false hmost]
    refine nodeFitsPage_of_large l.shaped_node ?_ ?_ ?_
    · intro key hkey
      obtain ⟨e, he, rfl⟩ := List.mem_map.mp hkey
      exact admissible e he
    · rw [LeafPage.keys_node, List.length_map]
      have hsmall : maxLeafKeyCount idx.metadata.keyKind ≤ 225 := by
        rcases sound.kind.counts with ⟨hmax, -⟩ | ⟨hmax, -⟩ <;> rw [hmax]
        decide
      have : pageSize = 4096 := rfl
      omega
    · exact Nat.lt_of_not_le fun hle => hmost (hfits.mp hle)

theorem leastItems_le_maxLeafKeyCount {kind : IndexKeyKind} (proper : kind.Proper) :
    leastItems kind false ≤ maxLeafKeyCount kind := by
  rcases proper with rfl | rfl <;> decide

theorem minLeafKeyCount_le {kind : IndexKeyKind} (proper : kind.Proper) :
    minLeafKeyCount kind ≤ maxLeafKeyCount kind := by
  rcases proper.counts with ⟨hmax, hmin, -⟩ | ⟨hmax, hmin, -⟩ <;> rw [hmax, hmin] <;> decide

/-- Two leaves do not fit into one page, when one has the fewest items and the other one less. -/
theorem two_mul_minLeafKeyCount {kind : IndexKeyKind} (proper : kind.Proper) :
    maxLeafKeyCount kind + 1 < 2 * minLeafKeyCount kind := by
  rcases proper.counts with ⟨hmax, hmin, -⟩ | ⟨hmax, hmin, -⟩ <;> rw [hmax, hmin] <;> decide

/-- The leaf and its sibling have got other shares of their items. -/
theorem Settled.mended_leaves {left' right' kids : List (Tree 0)} {ys zs : List Item}
    (s : idx.Settled idx' (up.plug (rebuilt b.id kids)))
    (content : Tree.items (up.plug (rebuilt b.id kids)) = items)
    (hkids : kids = left' ++ leafTrees z.next [(y.id, ys), (z.id, zs)] ++ right')
    (sides : ∀ k ∈ left' ++ right', k ∈ left ++ right)
    (count : left'.length + right'.length + 1 = left.length + right.length) :
    idx.Mended idx' H items (Context.Filled idx.metadata.keyKind (frame b left right up))
      (minLeafKeyCount idx.metadata.keyKind ≤ ys.length ∧
        minLeafKeyCount idx.metadata.keyKind ≤ zs.length) := by
  refine s.mended content fun given => ?_
  obtain ⟨hcount, hsides, hup⟩ := Context.filled_frame.mp given
  rw [filled_leafParent hkids]
  simp only [List.mem_cons, List.not_mem_nil, or_false, forall_eq_or_imp, forall_eq]
  refine ⟨fun hall => hall.2.2.1, fun hfull => ?_⟩
  refine ⟨hcount.imp_right fun h => ?_, fun k hk => hsides k (sides k hk), hfull, hup⟩
  change _ ≤ left'.length + 2 + right'.length
  omega

theorem Settled.mended_shared {left' right' kids : List (Tree 0)} {ys zs : List Item}
    (s : idx.Settled idx' (up.plug (rebuilt b.id kids)))
    (content : Tree.items (up.plug (rebuilt b.id kids)) = items)
    (hkids : kids = left' ++ leafTrees z.next [(y.id, ys), (z.id, zs)] ++ right')
    (sides : ∀ k ∈ left' ++ right', k ∈ left ++ right)
    (count : left'.length + right'.length + 1 = left.length + right.length)
    (full : (∀ k ∈ left ++ right, Tree.Filled idx.metadata.keyKind false k) →
      minLeafKeyCount idx.metadata.keyKind ≤ ys.length ∧
        minLeafKeyCount idx.metadata.keyKind ≤ zs.length) :
    idx.Mended idx' H items (Context.Filled idx.metadata.keyKind (frame b left right up)) True := by
  refine (s.mended_leaves content hkids sides count).imp id fun given => ?_
  exact iff_of_true (full (Context.filled_frame.mp given).2.1) trivial

end BStarPlusIndex
end CwDb.Index
