/-
  Index/Contents.lean --- an index between two operations, and the map it holds.
-/
import CwDb.Index.ChangedLeaf

set_option autoImplicit false

namespace CwDb.Index

open CwDb.Cpp
open CwDb.Foundation
open LevelTree LevelContext

namespace BStarPlusIndex

variable {idx idx' : BStarPlusIndex} {h H : Nat} {ctx : Context 0 H} {l : LeafPage} {key : IndexKey}
  {m : OrderedMap IndexKey UInt64}

/-- The index holds the map: its tree has the entries for items, and its header page says how
to find the tree. -/
structure Contents (idx : BStarPlusIndex) (m : OrderedMap IndexKey UInt64) : Prop where
  sound : idx.Sound
  tree : (idx.metadata = { keyKind := idx.metadata.keyKind } ∧ m.entries = []) ∨
    ∃ (H : Nat) (t : Tree H), idx.Represents t ∧ t.items = m.entries
  size : idx.metadata.size.toNat = m.entries.length
  saved : idx.disk.readMetadata = idx.metadata

/-- An index without a root is an empty one. -/
theorem Contents.cases (c : idx.Contents m) : (idx.metadata.empty = true ∧ m.entries = []) ∨
    ∃ (H : Nat) (t : Tree H), idx.Represents t ∧ t.items = m.entries := by
  refine c.tree.imp_left fun blank => ⟨?_, blank.2⟩
  rw [blank.1]
  rfl

theorem Represents.empty_eq {t : Tree H} (r : idx.Represents t) :
    idx.metadata.empty = false := by
  have hroot := r.open.sound.ne_invalid (r.holds_whole.allocated _ t.id_mem_pages)
  have hheight := r.open.height
  have hne : idx.metadata.height ≠ 0 := by
    intro heq
    rw [heq] at hheight
    cases hheight
  have hid : idx.metadata.rootPageId = t.id := r.open.root
  rw [BStarPlusIndexMetadata.empty, hid, beq_eq_false_iff_ne.mpr hroot,
    beq_eq_false_iff_ne.mpr hne, Bool.or_false]

/-! ## Saving -/

/-- The tree does not depend on the count of the keys. -/
theorem Represents.withSize {t : Tree H} (r : idx.Represents t) (size : UInt64) :
    (BStarPlusIndex.mk idx.disk { idx.metadata with size }).Represents t := by
  obtain ⟨o, hnodes, hsized⟩ := r
  exact ⟨⟨⟨o.sound.disk, o.sound.kind⟩, o.root, o.height, o.first, nofun, o.sized, o.admitted,
    o.sorted, o.chained, o.distinct, o.allocated⟩, hnodes, hsized⟩

/-- Nor does it depend on what the header page says. -/
theorem Represents.save {t : Tree H} (r : idx.Represents t) (metadata : BStarPlusIndexMetadata) :
    (BStarPlusIndex.mk (idx.disk.writeMetadata metadata) idx.metadata).Represents t := by
  obtain ⟨o, hnodes, hsized⟩ := r
  exact ⟨⟨⟨⟨o.sound.disk.counted, o.sound.disk.addressable⟩, o.sound.kind⟩, o.root, o.height,
    o.first, nofun, o.sized, o.admitted, o.sorted, o.chained, o.distinct, o.allocated⟩, hnodes,
    hsized⟩

theorem readMetadata_writeMetadata (disk : DiskPageManager) (metadata : BStarPlusIndexMetadata) :
    (disk.writeMetadata metadata).readMetadata = metadata :=
  BStarPlusIndexMetadata.decode_encode_append metadata _

/-- The items of a tree can be counted. -/
theorem Represents.length_items_lt {t : Tree H} (r : idx.Represents t) :
    t.items.length < 2 ^ 64 := by
  have holds : idx.Holds true t := r.holds_whole
  have hitems := holds.sized.length_items_le
  have hpages := length_pages_le holds.distinct holds.allocated
  have hcount := r.open.sound.disk.addressable
  have hmost : maxLeafKeyCount idx.metadata.keyKind ≤ 225 := by
    rcases r.open.sound.kind.counts with ⟨hmax, -⟩ | ⟨hmax, -⟩ <;> rw [hmax]
    decide
  have hmul := Nat.mul_le_mul hmost hpages
  omega

/-! ## The place of a key -/

/-- Where a key stands, or would stand, among the items of the tree. -/
structure Place (ctx : Context 0 H) (l : LeafPage) (key : IndexKey) (before after : List Item) :
    Prop where
  items : l.items = before ++ after
  index : lowerBound (l.items.map Prod.fst) key = before.length
  less : ∀ e ∈ ctx.leftLeaves.flatMap LeafPage.items ++ before, e.1 < key
  right : ∀ e ∈ ctx.rightLeaves.flatMap LeafPage.items, key < e.1

/-- A key is in the tree when it is in the leaf that has room for it. -/
theorem Represents.place (r : idx.Represents (ctx.plug (leaf l))) (admits : ctx.Admits key) :
    ∃ before after, Place ctx l key before after ∧
      ((∃ record rest, after = (key, record) :: rest ∧ ∀ e ∈ rest, key < e.1) ∨
        ∀ e ∈ after, key < e.1) := by
  obtain ⟨before, after, hitems, hindex, hless, hafter⟩ := exists_split r.sorted_leaf key
  obtain ⟨hleft, hright⟩ := Context.Admits.between r.opened.1.sized admits
  refine ⟨before, after, ⟨hitems, hindex, ?_, ?_⟩, hafter⟩
  · intro e he
    rcases List.mem_append.mp he with he | he
    · obtain ⟨l', hl', he⟩ := List.mem_flatMap.mp he
      exact hleft l' hl' e.1 (List.mem_map_of_mem he)
    · exact hless e he
  · intro e he
    obtain ⟨l', hl', he⟩ := List.mem_flatMap.mp he
    exact hright l' hl' e.1 (List.mem_map_of_mem he)

section Place

variable {before after rest : List Item} {record : UInt64}

/-- The items of the tree, at the place of a key. -/
theorem Place.items_plug (place : Place ctx l key before after) :
    Tree.items (ctx.plug (leaf l)) = (ctx.leftLeaves.flatMap LeafPage.items ++ before) ++
      (after ++ ctx.rightLeaves.flatMap LeafPage.items) := by
  rw [Context.items_plug, Context.itemsWith_eq, List.flatMap_singleton, Tree.items_leaf,
    place.items]
  simp only [List.append_assoc]

theorem Place.greater (place : Place ctx l key before after) (hafter : ∀ e ∈ after, key < e.1) :
    ∀ e ∈ after ++ ctx.rightLeaves.flatMap LeafPage.items, key < e.1 := by
  intro e he
  rcases List.mem_append.mp he with he | he
  · exact hafter e he
  · exact place.right e he

theorem Place.greater_rest (place : Place ctx l key before ((key, record) :: rest))
    (hrest : ∀ e ∈ rest, key < e.1) :
    ∀ e ∈ rest ++ ctx.rightLeaves.flatMap LeafPage.items, key < e.1 := by
  intro e he
  rcases List.mem_append.mp he with he | he
  · exact hrest e he
  · exact place.right e he

/-- The record of a key in the leaf. -/
theorem Place.leafRecord_present (place : Place ctx l key before ((key, record) :: rest)) :
    l.node.keys[lowerBound l.node.keys key]? = some key ∧
      leafRecord l key = some record := by
  have hkey : l.node.keys[lowerBound l.node.keys key]? = some key := by
    rw [LeafPage.keys_node, place.index, place.items]
    simp
  refine ⟨hkey, ?_⟩
  rw [leafRecord]
  simp only [hkey, if_true]
  rw [LeafPage.keys_node, place.index, LeafPage.records_node, place.items]
  simp

theorem Place.leafRecord_absent (place : Place ctx l key before after)
    (hafter : ∀ e ∈ after, key < e.1) :
    l.node.keys[lowerBound l.node.keys key]? ≠ some key ∧ leafRecord l key = none := by
  have hkey : l.node.keys[lowerBound l.node.keys key]? ≠ some key := by
    rw [LeafPage.keys_node, place.index, place.items, List.map_append,
      List.getElem?_append_right (by simp), List.length_map, Nat.sub_self]
    cases after with
    | nil => exact nofun
    | cons e after =>
        intro heq
        exact absurd (Option.some.inj heq) (ne_of_gt (hafter e List.mem_cons_self))
  refine ⟨hkey, ?_⟩
  rw [leafRecord]
  simp only [hkey, if_false]

end Place

/-! ## Lookup -/

theorem validateKeyKind_eq {kind : IndexKeyKind} {key : IndexKey} (h : Admissible kind key) :
    validateKeyKind key kind = .ok () := by
  rw [validateKeyKind, h.matches]
  rfl

theorem Represents.exists_leaf {t : Tree H} (r : idx.Represents t) (key : IndexKey) :
    ∃ (ctx : Context 0 H) (l : LeafPage), t = ctx.plug (leaf l) ∧ ctx.Admits key :=
  BStarPlusIndex.exists_leaf r.open.sound.kind key (top : Context H H) t r.sized trivial

/-- The loop of `find` finds what the tree has. -/
theorem Represents.findLoop_eq_find? {t : Tree H} (r : idx.Represents t)
    (content : t.items = m.entries) {fuel : Nat} (enough : H < fuel) :
    idx.findLoop key fuel idx.metadata.rootPageId = .ok (m.find? key) := by
  obtain ⟨ctx, l, rfl, admits⟩ := r.exists_leaf key
  obtain ⟨before, after, place, hafter⟩ := r.place admits
  rw [r.findLoop_eq admits enough]
  rw [place.items_plug] at content
  rcases hafter with ⟨record, rest, rfl, hrest⟩ | hafter
  · rw [place.leafRecord_present.2, OrderedMap.find?_of_mem place.less content.symm]
  · rw [(place.leafRecord_absent hafter).2,
      OrderedMap.find?_of_not_mem place.less (place.greater hafter) content.symm]

/-- `find` finds what the map has. -/
theorem Contents.find_eq (c : idx.Contents m)
    (valid : validateKeyKind key idx.metadata.keyKind = .ok ()) :
    idx.find key = .ok (m.find? key) := by
  rw [find, valid]
  rcases c.cases with ⟨hempty, hnil⟩ | ⟨H, t, r, hitems⟩
  · have hnone : m.find? key = none := by rw [OrderedMap.find?, hnil]; rfl
    simp only [bind, Except.bind, hempty, if_true, hnone]
    rfl
  · have hheight : H < idx.walkBound := r.holds_whole.height_lt r.open.sound
    simp only [bind, Except.bind, r.empty_eq, Bool.false_eq_true, if_false]
    exact r.findLoop_eq_find? hitems hheight

end BStarPlusIndex
end CwDb.Index
