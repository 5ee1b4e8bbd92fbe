/-
  Index/Pages.lean --- what reading and writing nodes does to the pages of an index.

  Each writer has a rule that says which pages it touches; everything else an algorithm
  relies on stands as before by the frame condition of `Touches`.
-/
import CwDb.Index.Tree

set_option autoImplicit false

namespace CwDb.Index

open CwDb.Cpp
open CwDb.Foundation

/-! ## Nodes that can be stored -/

theorem LeafPage.shaped_node (l : LeafPage) : l.node.Shaped :=
  ⟨fun _ => ⟨rfl, by simp [LeafPage.node]⟩, fun h => by cases h⟩

theorem LeafPage.size_node (kind : IndexKeyKind) (l : LeafPage) :
    l.node.size kind = indexNodeHeaderSize + l.items.length * (fixedKeySize kind + recordSize) := by
  simp only [LeafPage.node, IndexNode.size, List.length_map, if_true, Nat.mul_add]
  omega

/-- A leaf fits into a page when it has no more than the most keys. -/
theorem LeafPage.fits_iff (kind : IndexKeyKind) (l : LeafPage) :
    l.node.size kind ≤ pageSize ↔ l.items.length ≤ maxLeafKeyCount kind := by
  have hpos : 0 < fixedKeySize kind + recordSize := Nat.add_pos_right _ (by decide)
  rw [LeafPage.size_node, maxLeafKeyCount, Nat.le_div_iff_mul_le hpos]
  simp only [pageSize, indexNodeHeaderSize]
  omega

theorem LeafPage.storable {kind : IndexKeyKind} {l : LeafPage}
    (most : l.items.length ≤ maxLeafKeyCount kind)
    (admissible : ∀ e ∈ l.items, Admissible kind e.1) : l.node.Storable kind := by
  refine ⟨l.shaped_node, ?_, (l.fits_iff kind).mpr most⟩
  intro key hkey
  obtain ⟨e, he, rfl⟩ := List.mem_map.mp hkey
  exact admissible e he

theorem BranchPage.shaped_node {b : BranchPage} {children : List PageId}
    (count : children.length = b.seps.length + 1) : (b.node children).Shaped :=
  ⟨(fun h => by cases h), fun _ => ⟨rfl, count⟩⟩

/-- A branch fits into a page when it has no more than the most children. -/
theorem BranchPage.fits_iff (kind : IndexKeyKind) {b : BranchPage} {children : List PageId}
    (count : children.length = b.seps.length + 1) :
    (b.node children).size kind ≤ pageSize ↔
      children.length ≤ maxInternalKeyCount kind + 1 := by
  have hwidth : Scalar.width PageId = 8 := rfl
  have hpos : 0 < fixedKeySize kind + Scalar.width PageId := Nat.add_pos_right _ (by decide)
  have hsize : (b.node children).size kind = indexNodeHeaderSize +
      b.seps.length * fixedKeySize kind + children.length * Scalar.width PageId := rfl
  rw [hsize, count, Nat.add_le_add_iff_right, maxInternalKeyCount, Nat.le_div_iff_mul_le hpos,
    Nat.mul_add, hwidth]
  simp only [pageSize, indexNodeHeaderSize]
  omega

theorem BranchPage.storable {kind : IndexKeyKind} {b : BranchPage} {children : List PageId}
    (count : children.length = b.seps.length + 1)
    (most : children.length ≤ maxInternalKeyCount kind + 1)
    (admissible : ∀ s ∈ b.seps, Admissible kind s) : (b.node children).Storable kind :=
  ⟨BranchPage.shaped_node count, admissible, (BranchPage.fits_iff kind count).mpr most⟩

namespace BStarPlusIndex

/-- The state of an index that its operations work on. -/
structure Sound (idx : BStarPlusIndex) : Prop where
  disk : idx.disk.Sound
  kind : idx.metadata.keyKind.Proper

/-- The nodes stand on their pages. -/
def Stores (idx : BStarPlusIndex) (nodes : List IndexNode) : Prop :=
  ∀ node ∈ nodes, idx.readNode node.pageId = .ok node

/-- From `idx` to `idx'` the contents of no other pages than `pages` have changed. -/
structure Touches (pages : List PageId) (idx idx' : BStarPlusIndex) : Prop where
  metadata : idx'.metadata = idx.metadata
  header : idx'.disk.file.header = idx.disk.file.header
  sound : idx'.Sound
  grows : idx.disk.pageCount.toNat ≤ idx'.disk.pageCount.toNat
  frame : ∀ p ∉ pages, idx'.readNode p = idx.readNode p

theorem Touches.trans {ps qs : List PageId} {a b c : BStarPlusIndex} (h : a.Touches ps b)
    (h' : b.Touches qs c) : a.Touches (ps ++ qs) c := by
  refine ⟨h'.metadata.trans h.metadata, h'.header.trans h.header, h'.sound,
    h.grows.trans h'.grows, fun p hp => ?_⟩
  rw [List.mem_append, not_or] at hp
  rw [h'.frame p hp.2, h.frame p hp.1]

theorem Touches.kind {ps : List PageId} {a b : BStarPlusIndex} (h : a.Touches ps b) :
    b.metadata.keyKind = a.metadata.keyKind := by rw [h.metadata]

theorem Stores.mono {idx : BStarPlusIndex} {nodes more : List IndexNode} (h : idx.Stores more)
    (sub : ∀ n ∈ nodes, n ∈ more) : idx.Stores nodes := fun n hn => h n (sub n hn)

theorem stores_append {idx : BStarPlusIndex} {ns ms : List IndexNode} :
    idx.Stores (ns ++ ms) ↔ idx.Stores ns ∧ idx.Stores ms := by
  simp only [Stores, List.mem_append]
  exact ⟨fun h => ⟨fun n hn => h n (.inl hn), fun n hn => h n (.inr hn)⟩,
    fun h n hn => hn.elim (h.1 n) (h.2 n)⟩

theorem stores_cons {idx : BStarPlusIndex} {n : IndexNode} {ns : List IndexNode} :
    idx.Stores (n :: ns) ↔ idx.readNode n.pageId = .ok n ∧ idx.Stores ns := by
  simp [Stores]

/-- Nodes on untouched pages stay. -/
theorem Stores.touch {ps : List PageId} {idx idx' : BStarPlusIndex} {nodes : List IndexNode}
    (h : idx.Stores nodes) (touches : idx.Touches ps idx')
    (apart : ∀ n ∈ nodes, n.pageId ∉ ps) : idx'.Stores nodes := fun n hn => by
  rw [touches.frame _ (apart n hn)]
  exact h n hn

/-! ## The rules of the writers -/

variable {idx : BStarPlusIndex} {α : Type} {Q : PUnit → BStarPlusIndex → Prop}
  {E : Fault → BStarPlusIndex → Prop}

theorem ends_reading {f : BStarPlusIndex → Except Fault α} {a : α}
    {Q : α → BStarPlusIndex → Prop} (h : f idx = .ok a) (hQ : Q a idx) :
    Ends (reading f) idx Q E := by
  rw [reading, ends_bind, ends_get, h, fromExcept_ok, ends_pure]
  exact hQ

theorem ends_modifyMetadata {f : BStarPlusIndexMetadata → BStarPlusIndexMetadata}
    (hQ : Q ⟨⟩ { idx with metadata := f idx.metadata }) : Ends (modifyMetadata f) idx Q E := by
  rw [modifyMetadata, ends_modify]
  exact hQ

/-- A page other than the one written is read as before. -/
theorem readPage_withPage {disk : DiskPageManager} {pageId p : PageId} {page : Page}
    (sound : disk.Sound) (h : pageId < disk.pageCount) (hne : p ≠ pageId) :
    (disk.withPage pageId page).readPage p = disk.readPage p := by
  have hpages : (disk.withPage pageId page).file.pages = _ :=
    DiskPageManager.pages_withPage sound h
  have hget : (disk.withPage pageId page).file.pages[p.toNat]? = disk.file.pages[p.toNat]? := by
    rw [hpages, List.getElem?_set_ne]
    exact fun heq => hne (UInt64.toNat_inj.mp heq).symm
  by_cases hlt : p.toNat < disk.file.pages.length
  · obtain ⟨pg, hpg⟩ : ∃ pg, disk.file.pages[p.toNat]? = some pg :=
      ⟨_, List.getElem?_eq_getElem hlt⟩
    rw [DiskPageManager.readPage_eq sound hpg,
      DiskPageManager.readPage_eq (sound.withPage h) (hget.trans hpg)]
  · have hge : disk.pageCount.toNat ≤ p.toNat := by
      have := sound.counted
      omega
    have hge' : (disk.withPage pageId page).pageCount.toNat ≤ p.toNat := hge
    rw [DiskPageManager.readPage_of_le hge, DiskPageManager.readPage_of_le hge']

/-- A storable node is written to its page. -/
theorem ends_writeNode (node : IndexNode) (sound : idx.Sound)
    (allocated : node.pageId < idx.disk.pageCount)
    (storable : node.Storable idx.metadata.keyKind)
    (hQ : ∀ idx', idx.Touches [node.pageId] idx' → idx'.disk.pageCount = idx.disk.pageCount →
      idx'.readNode node.pageId = .ok node → Q ⟨⟩ idx') : Ends (writeNode node) idx Q E := by
  have hlt : node.pageId.toNat < idx.disk.file.pages.length := by
    rw [sound.disk.counted]
    exact allocated
  rw [writeNode, ends_bind, ends_get, serializeNode_eq storable, fromExcept_ok, pure_bind, onDisk,
    ends_zoom, ends_of_ok (DiskPageManager.writePage_run storable.page sound.disk allocated)]
  refine hQ _ ⟨rfl, rfl, ⟨sound.disk.withPage allocated, sound.kind⟩, le_refl _, ?_⟩ rfl ?_
  · intro p hp
    have hne : p ≠ node.pageId := by simpa using hp
    simp only [readNode, readPage_withPage sound.disk allocated hne]
  · have hpage : (idx.disk.withPage node.pageId storable.page).file.pages[node.pageId.toNat]? =
        some storable.page := by
      rw [DiskPageManager.pages_withPage sound.disk allocated, List.getElem?_set_self hlt]
    simp only [readNode, DiskPageManager.readPage_eq (sound.disk.withPage allocated) hpage, bind,
      Except.bind, deserializeNode_eq storable]

/-- A page is allocated, and no node is on it; or the file is full. -/
theorem ends_allocatePage {Q : PageId → BStarPlusIndex → Prop} (sound : idx.Sound)
    (full : idx.disk.Full → ∀ e, E e idx)
    (hQ : ∀ idx', idx.Touches [idx.disk.pageCount] idx' →
      idx'.disk.pageCount.toNat = idx.disk.pageCount.toNat + 1 → Q idx.disk.pageCount idx') :
    Ends allocatePage idx Q E := by
  rw [allocatePage, onDisk, ends_zoom]
  refine (DiskPageManager.ends_allocatePage sound.disk).mono ?_ ?_
  · rintro pageId disk' ⟨rfl, rfl, hroom⟩
    have hcount := DiskPageManager.toNat_pageCount_grown hroom
    refine hQ _ ⟨rfl, rfl, ⟨sound.disk.grown hroom, sound.kind⟩, by
      change _ ≤ idx.disk.grown.pageCount.toNat
      omega, ?_⟩ hcount
    intro p hp
    have hne : p ≠ idx.disk.pageCount := by simpa using hp
    have hread : idx.disk.grown.readPage p = idx.disk.readPage p := by
      have hpages := DiskPageManager.pages_grown sound.disk
      by_cases hlt : p.toNat < idx.disk.file.pages.length
      · obtain ⟨pg, hpg⟩ : ∃ pg, idx.disk.file.pages[p.toNat]? = some pg :=
          ⟨_, List.getElem?_eq_getElem hlt⟩
        rw [DiskPageManager.readPage_eq sound.disk hpg,
          DiskPageManager.readPage_eq (sound.disk.grown hroom)
            (by rw [hpages, List.getElem?_append_left hlt]; exact hpg)]
      · have hne' : p.toNat ≠ idx.disk.pageCount.toNat := fun heq =>
          hne (UInt64.toNat_inj.mp heq)
        have hcounted := sound.disk.counted
        rw [DiskPageManager.readPage_of_le (show idx.disk.pageCount.toNat ≤ p.toNat by omega),
          DiskPageManager.readPage_of_le (show idx.disk.grown.pageCount.toNat ≤ p.toNat by omega)]
    simp only [readNode, hread]
  · rintro e disk' ⟨rfl, hfull⟩
    exact full hfull e

/-! ## Whether a node fits -/

theorem nodeFitsPage_of_storable {node : IndexNode}
    (h : node.Storable idx.metadata.keyKind) : idx.nodeFitsPage node = .ok true := by
  rw [nodeFitsPage, serializeNode_eq h]

theorem nodeFitsPage_of_large {node : IndexNode} (h : node.Shaped)
    (admissible : ∀ key ∈ node.keys, Admissible idx.metadata.keyKind key)
    (few : node.keys.length < pageSize - 1) (large : pageSize < node.size idx.metadata.keyKind) :
    idx.nodeFitsPage node = .ok false := by
  rw [nodeFitsPage, serializeNode_of_large h admissible few large]
  rfl

theorem nodesFitPage_of_storable {nodes : List IndexNode}
    (h : ∀ n ∈ nodes, n.Storable idx.metadata.keyKind) : idx.nodesFitPage nodes = .ok true := by
  induction nodes with
  | nil => rfl
  | cons n nodes ih =>
      have hrest := ih fun m hm => h m (List.mem_cons_of_mem n hm)
      simp only [nodesFitPage, nodeFitsPage_of_storable (h n List.mem_cons_self), bind,
        Except.bind, if_true, hrest]

theorem nodesFitPage_pair {a c : IndexNode} {p q : Bool} (ha : idx.nodeFitsPage a = .ok p)
    (hc : idx.nodeFitsPage c = .ok q) : idx.nodesFitPage [a, c] = .ok (p && q) := by
  simp only [nodesFitPage, ha, hc, bind, Except.bind]
  cases p <;> cases q <;> rfl

end BStarPlusIndex
end CwDb.Index
