/-
  Index/SpelledTree.lean --- the index on whose pages a given tree stands.

  The pages of an index determine its tree, and every tree is the one of some index.
-/
import CwDb.Index.Contents

set_option autoImplicit false

namespace CwDb.Index

open CwDb.Cpp
open CwDb.Foundation
open LevelTree LevelContext

/-! ## One tree -/

theorem LeafPage.node_inj {l l' : LeafPage} (h : l.node = l'.node) : l = l' := by
  obtain ⟨id, next, items⟩ := l
  obtain ⟨id', next', items'⟩ := l'
  simp only [LeafPage.node, IndexNode.mk.injEq, true_and] at h
  obtain ⟨rfl, rfl, hkeys, hrecords⟩ := h
  have hitems : items = items' := by
    rw [← BStarPlusIndex.zip_fst_snd items, hkeys, hrecords, BStarPlusIndex.zip_fst_snd]
  rw [hitems]

namespace BStarPlusIndex

variable {idx : BStarPlusIndex} {H H' : Nat}

/-- The pages from a page down determine the tree. -/
theorem stores_unique : ∀ {h : Nat} {t t' : Tree h}, idx.Stores t.nodes → idx.Stores t'.nodes →
    t.id = t'.id → t = t'
  | 0, t, t', hstores, hstores', hid => by
      cases t using Tree.leafCases with | leaf l => ?_
      cases t' using Tree.leafCases with | leaf l' => ?_
      have hread := hstores l.node List.mem_cons_self
      have hread' := hstores' l'.node List.mem_cons_self
      have hsame : l.id = l'.id := hid
      rw [LeafPage.pageId_node, hsame, ← LeafPage.pageId_node, hread'] at hread
      rw [LeafPage.node_inj (Except.ok.inj hread)]
  | h + 1, t, t', hstores, hstores', hid => by
      cases t using Tree.branchCases with | branch b kids => ?_
      cases t' using Tree.branchCases with | branch b' kids' => ?_
      rw [Tree.nodes_branch, stores_cons] at hstores hstores'
      obtain ⟨hread, hkids⟩ := hstores
      obtain ⟨hread', hkids'⟩ := hstores'
      have hsame : b.id = b'.id := hid
      rw [BranchPage.pageId_node, hsame, ← BranchPage.pageId_node, hread'] at hread
      have hnode := Except.ok.inj hread
      obtain ⟨id, seps⟩ := b
      obtain ⟨id', seps'⟩ := b'
      simp only [BranchPage.node, IndexNode.mk.injEq, true_and, and_true] at hnode
      obtain ⟨rfl, rfl, hids⟩ := hnode
      suffices hall : ∀ ks ks' : List (Tree h), idx.Stores (ks.flatMap Tree.nodes) →
          idx.Stores (ks'.flatMap Tree.nodes) → ks'.map Tree.id = ks.map Tree.id → ks = ks' by
        rw [hall kids kids' hkids hkids' hids]
      intro ks
      induction ks with
      | nil =>
          intro ks' _ _ hnil
          exact (List.map_eq_nil_iff.mp hnil).symm
      | cons k ks ih =>
          intro ks' hks hks' heq
          cases ks' with
          | nil => cases heq
          | cons k' ks' =>
              rw [List.flatMap_cons, stores_append] at hks hks'
              rw [List.map_cons, List.map_cons, List.cons.injEq] at heq
              rw [stores_unique hks.1 hks'.1 heq.1.symm, ih ks' hks.2 hks'.2 heq.2]

/-- An index has one tree. -/
theorem Represents.unique {t t' : Tree H} (r : idx.Represents t) (r' : idx.Represents t') :
    t = t' := by
  have hroot : idx.metadata.rootPageId = t.id := r.open.root
  have hroot' : idx.metadata.rootPageId = t'.id := r'.open.root
  exact stores_unique r.nodes r'.nodes (hroot.symm.trans hroot')

theorem Represents.height_unique {t : Tree H} {t' : Tree H'} (r : idx.Represents t)
    (r' : idx.Represents t') : H = H' :=
  Nat.succ.inj (r.open.height.symm.trans r'.open.height)

/-! ## A file for a tree -/

/-- The page of a node that can be stored. -/
def pageOf (kind : IndexKeyKind) (node : IndexNode) : Page :=
  match serializeNode node kind with
  | .ok bytes => if h : bytes.length = pageSize then ⟨bytes, h⟩ else zeroPage
  | .error _ => zeroPage

/-- The index on whose pages the tree stands, when it has the first pages. -/
def spelled (kind : IndexKeyKind) (t : Tree H) : BStarPlusIndex :=
  let metadata : BStarPlusIndexMetadata :=
    { rootPageId := t.id, firstLeafPageId := firstLeaf invalidPageId t.leaves,
      height := UInt32.ofNat (H + 1), size := UInt64.ofNat t.items.length, keyKind := kind }
  let pages := (List.range t.pages.length).map fun p =>
    ((t.nodes.find? fun node => node.pageId.toNat = p).map (pageOf kind)).getD zeroPage
  ⟨⟨⟨IndexFile.writeHeader zeroPage metadata, pages⟩, UInt64.ofNat t.pages.length⟩, metadata⟩

variable {kind : IndexKeyKind} {t : Tree H}

theorem pageOf_storable {node : IndexNode} (storable : node.Storable kind) :
    pageOf kind node = storable.page := by
  rw [pageOf, serializeNode_eq storable]
  dsimp only
  rw [dif_pos storable.page.length]

/-- What a tree must be like to stand on the first pages of a file. -/
structure Spellable (kind : IndexKeyKind) (t : Tree H) : Prop where
  proper : kind.Proper
  sized : t.Sized kind true
  sorted : t.keys.Pairwise (· < ·)
  chained : Chained invalidPageId t.leaves
  distinct : t.pages.Nodup
  first : ∀ p ∈ t.pages, p.toNat < t.pages.length
  few : t.pages.length < 2 ^ 51
  low : H + 1 < 2 ^ 32

theorem Spellable.sound (s : Spellable kind t) : (spelled kind t).Sound := by
  have hcount : (UInt64.ofNat t.pages.length).toNat = t.pages.length :=
    UInt64.toNat_ofNat_of_lt (lt_trans s.few (by decide))
  refine ⟨⟨?_, ?_⟩, s.proper⟩
  · change ((List.range t.pages.length).map _).length = (UInt64.ofNat t.pages.length).toNat
    rw [List.length_map, List.length_range, hcount]
  · change (UInt64.ofNat t.pages.length).toNat < 2 ^ 51
    rw [hcount]
    exact s.few

theorem Spellable.stores (s : Spellable kind t) : (spelled kind t).Stores t.nodes := by
  intro node hnode
  have hstorable := s.sized.storable_nodes node hnode
  have hid : node.pageId ∈ t.pages := by
    rw [← Tree.pageId_nodes]
    exact List.mem_map_of_mem hnode
  have hfind : t.nodes.find? (fun n => n.pageId.toNat = node.pageId.toNat) = some node := by
    cases hfound : t.nodes.find? fun n => n.pageId.toNat = node.pageId.toNat with
    | none => exact absurd (List.find?_eq_none.mp hfound node hnode) (by simp)
    | some other =>
        have hid : other.pageId.toNat = node.pageId.toNat := by
          simpa using List.find?_some hfound
        have hsame := UInt64.toNat_inj.mp hid
        have hdistinct := s.distinct
        rw [← Tree.pageId_nodes] at hdistinct
        rw [List.inj_on_of_nodup_map hdistinct (List.mem_of_find?_eq_some hfound) hnode hsame]
  have hpage : (spelled kind t).disk.file.pages[node.pageId.toNat]? = some hstorable.page := by
    change ((List.range t.pages.length).map _)[node.pageId.toNat]? = _
    rw [List.getElem?_map, List.getElem?_range (s.first _ hid), Option.map_some, hfind,
      ← pageOf_storable hstorable]
    rfl
  have hread := DiskPageManager.readPage_eq s.sound.disk hpage
  unfold readNode
  rw [hread]
  exact deserializeNode_eq hstorable

/-- The index spells out the tree. -/
theorem Spellable.represents (s : Spellable kind t) : (spelled kind t).Represents t := by
  have hleaves : Context.leavesWith (top : Context H H) [t] = t.leaves := by
    simp [Context.leavesWith, leftLeaves, rightLeaves]
  have hheight : (UInt32.ofNat (H + 1)).toNat = H + 1 := UInt32.toNat_ofNat_of_lt s.low
  have hcount : (UInt64.ofNat t.pages.length).toNat = t.pages.length :=
    UInt64.toNat_ofNat_of_lt (lt_trans s.few (by decide))
  refine ⟨⟨s.sound, rfl, hheight, ?_, List.forall_mem_nil _, trivial, fun _ _ => trivial, ?_, ?_,
    ?_, ?_⟩, s.stores, s.sized⟩
  · rw [hleaves]
    rfl
  · rw [hleaves]
    exact s.sorted
  · rw [hleaves]
    exact s.chained
  · simpa using s.distinct
  · intro p hp
    have hmem : p ∈ t.pages := by simpa using hp
    change p < UInt64.ofNat t.pages.length
    rw [UInt64.lt_iff_toNat_lt, hcount]
    exact s.first p hmem

/-- The index holds the items of the tree. -/
theorem Spellable.contents (s : Spellable kind t) {m : OrderedMap IndexKey UInt64}
    (content : t.items = m.entries) : (spelled kind t).Contents m := by
  have hlength := s.represents.length_items_lt
  have hsaved : (spelled kind t).disk.readMetadata = (spelled kind t).metadata :=
    BStarPlusIndexMetadata.decode_encode_append _ _
  refine ⟨s.sound, .inr ⟨H, t, s.represents, content⟩, ?_, hsaved⟩
  change (UInt64.ofNat t.items.length).toNat = _
  have hcount : (UInt64.ofNat t.items.length).toNat = t.items.length :=
    UInt64.toNat_ofNat_of_lt hlength
  rw [hcount, content]

end BStarPlusIndex
end CwDb.Index
