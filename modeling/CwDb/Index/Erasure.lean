/-
  Index/Erasure.lean --- `erase`: from the leaf of the key up to the root.
-/
import CwDb.Index.Insertion
import CwDb.Index.LeafMerge

set_option autoImplicit false

namespace CwDb.Index

open CwDb.Cpp
open CwDb.Foundation
open LevelTree LevelContext

namespace BStarPlusIndex

variable {idx idx' : BStarPlusIndex} {H : Nat} {ctx : Context 0 H} {l : LeafPage}
  {items : List Item} {E : Fault → BStarPlusIndex → Prop}

/-! ## The leaf has lost the key -/

/-- The leaf is written; when it has lost its first key, the ancestors hear of it. -/
theorem Changed.ends_writeErased (p : idx.Changed ctx l items) (index : Nat)
    (least : leastItems idx.metadata.keyKind ctx.isTop ≤ l.items.length)
    (most : l.items.length ≤ maxLeafKeyCount idx.metadata.keyKind) :
    Ends (do writeNode l.node
             if index = 0 ∧ l.node.keys ≠ [] then
               propagateSubtreeMinChange l.node.pageId (l.id :: ctx.path)
             else pure ⟨⟩) idx
      (fun _ idx' => idx.Settled idx' (ctx.plug (leaf l)) ∧
        Tree.items (ctx.plug (leaf l)) = items) E := by
  rw [ends_bind]
  refine p.ends_write least most fun idx' same r content => ?_
  rw [ends_ite]
  split
  · exact (r.ends_propagate (E := E)).mono
      (fun _ _ settled => ⟨settled.of_metadata same, content⟩) fun _ _ he => he
  · exact ⟨r.settled same, content⟩

/-- A leaf that has lost an item is written, or its siblings help out. -/
theorem Changed.ends_eraseFromLeaf (index : Nat) :
    ∀ {H : Nat} {ctx : Context 0 H}, idx.Changed ctx l items →
      leastItems idx.metadata.keyKind ctx.isTop ≤ l.items.length + 1 →
      (ctx.isTop = true → l.items ≠ []) →
      l.items.length ≤ maxLeafKeyCount idx.metadata.keyKind →
      Ends (eraseFromLeaf l.node index (l.id :: ctx.path)) idx
        (fun _ idx' => idx.Mended idx' H items
          (ctx.Filled idx.metadata.keyKind ∧
            (ctx.isTop = true ∨ minLeafKeyCount idx.metadata.keyKind ≤ l.items.length + 1))
          (ctx.isTop = true ∨ minLeafKeyCount idx.metadata.keyKind ≤ l.items.length ∨
            ctx.HasItemToSpare idx.metadata.keyKind)) E
  | _, top, p, _, filled, most => by
      have hroot : l.node.pageId = idx.metadata.rootPageId := p.open.root.symm
      have hleast : leastItems idx.metadata.keyKind true ≤ l.items.length :=
        List.length_pos_iff.mpr (filled rfl)
      rw [eraseFromLeaf, ends_bind, ends_get, if_pos (.inl hroot)]
      refine (p.ends_writeErased index hleast most).mono ?_ fun _ _ he => he
      rintro _ idx' ⟨settled, content⟩
      exact settled.mended content fun _ =>
        iff_of_true (Tree.filled_leaf.mpr (.inl rfl)) (.inl rfl)
  | H, frame b left right up, p, few, _, most => by
      have hroot : l.node.pageId ≠ idx.metadata.rootPageId := p.open.ne_root (by simp)
      have hkeys : l.node.keys.length = l.items.length := List.length_map _
      have htop : isTop (frame b left right up) = false := rfl
      have hmin := leastItems_le_minLeafKeyCount p.open.sound.kind
      rw [htop] at few
      rw [eraseFromLeaf, ends_bind, ends_get, hkeys, htop]
      simp only [hroot, false_or, Bool.false_eq_true]
      by_cases hlow : minLeafKeyCount idx.metadata.keyKind ≤ l.items.length
      · rw [if_pos hlow]
        refine (p.ends_writeErased index (hmin.trans hlow) most).mono ?_ fun _ _ he => he
        rintro _ idx' ⟨settled, content⟩
        refine settled.mended content fun given => ?_
        rw [filled_plug]
        exact iff_of_true ⟨Tree.filled_leaf.mpr (.inr hlow), given.1⟩ (.inl hlow)
      · rw [if_neg hlow]
        refine (p.ends_fixLeafUnderflow (Nat.lt_of_not_le hlow) few).mono
          (fun _ idx' relieved => ?_) fun _ _ he => he
        refine relieved.imp (fun given => ⟨given.1, ?_⟩) fun _ => (or_iff_right hlow).symm
        have := given.2
        omega

/-! ## The last key -/

/-- What the erasure of the last key leaves behind. -/
structure Emptied (idx idx' : BStarPlusIndex) : Prop where
  sound : idx'.Sound
  metadata : idx'.metadata = { keyKind := idx.metadata.keyKind }
  saved : idx'.disk.readMetadata = idx'.metadata

/-- The leaf is written without items, and the index has no root any more. -/
theorem Changed.ends_eraseLast (p : idx.Changed ctx l items) (size : idx.metadata.size = 0) :
    Ends (do eraseLast l.node
             saveMetadata
             pure true) idx (fun found idx' => found = true ∧ idx.Emptied idx') E := by
  have hnode : { l.node with keys := [], records := [] } = LeafPage.node ⟨l.id, l.next, []⟩ := rfl
  have hstorable : (LeafPage.node ⟨l.id, l.next, []⟩).Storable idx.metadata.keyKind :=
    LeafPage.storable (Nat.zero_le _) (List.forall_mem_nil _)
  rw [eraseLast, hnode, ends_bind, ends_bind]
  refine ends_writeNode _ p.open.sound (p.open.allocated l.id (by simp)) hstorable
    fun idx' touches _ _ => ?_
  refine ends_modifyMetadata ?_
  rw [ends_bind, saveMetadata, ends_modify]
  refine ⟨rfl, ⟨⟨touches.sound.disk.counted, touches.sound.disk.addressable⟩, touches.sound.kind⟩,
    ?_, readMetadata_writeMetadata _ _⟩
  change ({ idx'.metadata with
    rootPageId := _, firstLeafPageId := _, height := 0 } : BStarPlusIndexMetadata) = _
  rw [touches.metadata]
  exact congrArg (fun size => ({ size, keyKind := idx.metadata.keyKind } :
    BStarPlusIndexMetadata)) size

/-! ## Erasure of a key -/

variable {key : IndexKey} {m : OrderedMap IndexKey UInt64}

/-- `erase` of a key that the index does not have answers so, and changes nothing. -/
theorem Represents.erase_absent {t : Tree H} (r : idx.Represents t) (content : t.items = m.entries)
    (valid : validateKeyKind key idx.metadata.keyKind = .ok ()) (absent : m.find? key = none) :
    erase key idx = .ok false idx := by
  obtain ⟨ctx, l, rfl, admits⟩ := r.exists_leaf key
  obtain ⟨before, after, place, hafter⟩ := r.place admits
  have hleaf := r.findLeaf_eq admits
  rw [place.items_plug] at content
  rcases hafter with ⟨record, rest, rfl, hrest⟩ | hafter
  · rw [List.cons_append] at content
    rw [OrderedMap.find?_of_mem place.less content.symm] at absent
    cases absent
  · have hkey := (place.leafRecord_absent hafter).1
    rw [erase, bind_ok get_run, valid, fromExcept_ok, pure_bind, if_neg (by simp [r.empty_eq]),
      hleaf, fromExcept_ok, pure_bind]
    simp only [ne_eq, hkey, not_false_eq_true, if_true]
    rfl

/-- There are no leaves around the whole tree. -/
theorem leaves_of_isTop (h : ctx.isTop = true) : ctx.leftLeaves = [] ∧ ctx.rightLeaves = [] := by
  cases ctx with
  | top => exact ⟨rfl, rfl⟩
  | frame b left right up => cases h

theorem eraseIdx_length_append {α : Type} (l r : List α) (a : α) :
    (l ++ a :: r).eraseIdx l.length = l ++ r := by
  induction l with
  | nil => rfl
  | cons b l ih => exact congrArg (List.cons b) ih

/-- The leaf without the key. -/
theorem Represents.changed_erase {before rest : List Item} {record : UInt64}
    (r : idx.Represents (ctx.plug (leaf l))) (place : Place ctx l key before ((key, record) :: rest))
    (content : Tree.items (ctx.plug (leaf l)) = m.entries) (hrest : ∀ e ∈ rest, key < e.1)
    (size : UInt64) :
    (BStarPlusIndex.mk idx.disk { idx.metadata with size }).Changed ctx
      { l with items := before ++ rest } (m.erase key).entries := by
  obtain ⟨o, -, hsized⟩ := (r.withSize size).opened
  have hitems := place.items
  have hsorted := r.sorted_leaf
  rw [hitems] at hsorted
  have hsub : (before ++ rest).Sublist (before ++ (key, record) :: rest) :=
    (List.sublist_cons_self _ _).append_left _
  have hold : ∀ e ∈ before ++ rest, e ∈ l.items := fun e he => hitems ▸ hsub.subset he
  refine ⟨o.withItems (hsorted.sublist (hsub.map _)) fun e he => ?_, fun e he => ?_, ?_⟩
  · refine o.admitted _ ?_
    rw [List.flatMap_singleton, Tree.keys_leaf]
    exact List.mem_map_of_mem (hold e he)
  · exact LeafPage.Sized.admissible hsized e (hold e he)
  · rw [place.items_plug, List.cons_append] at content
    rw [OrderedMap.entries_erase place.less (place.greater_rest hrest) content.symm,
      Context.itemsWith_eq]
    simp

/-- `erase` of a key that the index has. -/
theorem Represents.ends_erase (r : idx.Represents (ctx.plug (leaf l))) (admits : ctx.Admits key)
    (content : Tree.items (ctx.plug (leaf l)) = m.entries)
    (size : idx.metadata.size.toNat = m.entries.length)
    (valid : validateKeyKind key idx.metadata.keyKind = .ok ()) (present : m.find? key ≠ none) :
    Ends (erase key) idx
      (fun found idx' => found = true ∧
        ((m.erase key).entries = [] ∧ idx.Emptied idx' ∨
          idx.Finished idx' H (m.erase key).entries (idx.metadata.size - 1)
            (Tree.Filled idx.metadata.keyKind true (ctx.plug (leaf l)))
            (ctx.isTop = true ∨ minLeafKeyCount idx.metadata.keyKind < l.items.length ∨
              ctx.HasItemToSpare idx.metadata.keyKind))) E := by
  obtain ⟨before, after, place, hafter⟩ := r.place admits
  have hleaf := r.findLeaf_eq admits
  have hplug := place.items_plug
  rw [hplug] at content
  rcases hafter with ⟨record, rest, rfl, hrest⟩ | hafter
  · have hkey := place.leafRecord_present.1
    have hindex : lowerBound l.node.keys key = before.length := place.index
    have hitems := place.items
    have hlength : l.items.length = (before ++ rest).length + 1 := by
      rw [hitems, List.length_append, List.length_append, List.length_cons, Nat.add_assoc]
    have hsized : LeafPage.Sized idx.metadata.keyKind ctx.isTop l := r.opened.2.2
    have hleast := hsized.least
    have hmost := hsized.most
    have herased : (m.erase key).entries = _ :=
      OrderedMap.entries_erase place.less (place.greater_rest hrest) content.symm
    have hentries := OrderedMap.length_erase present
    have hgone : ∀ {α : Type} (f : Item → α),
        (l.items.map f).eraseIdx before.length = (before ++ rest).map f := by
      intro α f
      have := eraseIdx_length_append (before.map f) (rest.map f) (f (key, record))
      rw [List.length_map] at this
      rw [hitems, List.map_append, List.map_cons, this, List.map_append]
    have hkeys : l.node.keys.eraseIdx before.length = (before ++ rest).map Prod.fst := hgone Prod.fst
    have hrecords : l.node.records.eraseIdx before.length = (before ++ rest).map Prod.snd :=
      hgone Prod.snd
    have hnode : { l.node with
        keys := l.node.keys.eraseIdx before.length,
        records := l.node.records.eraseIdx before.length } =
        LeafPage.node { l with items := before ++ rest } := by
      rw [hkeys, hrecords]
      rfl
    have hpos : 0 < idx.metadata.size := by
      rw [UInt64.lt_iff_toNat_lt, size, hentries]
      exact Nat.succ_pos _
    have hchanged := r.changed_erase place (hplug.trans content) hrest (idx.metadata.size - 1)
    rw [erase, ends_bind, ends_get, valid, fromExcept_ok, pure_bind,
      if_neg (by simp [r.empty_eq]), hleaf, fromExcept_ok, pure_bind]
    simp only [ne_eq, hkey, not_true_eq_false, if_false]
    rw [hindex, hnode, ends_bind]
    refine ends_modifyMetadata ?_
    rw [if_pos hpos, ends_bind, ends_get]
    have hless : (idx.metadata.size - 1).toNat = (m.erase key).entries.length := by
      rw [UInt64.toNat_sub_of_le _ _ hpos, size, hentries]
      rfl
    generalize hlow : BStarPlusIndex.mk idx.disk
      { idx.metadata with size := idx.metadata.size - 1 } = low at hchanged ⊢
    have hkind : low.metadata.keyKind = idx.metadata.keyKind := by rw [← hlow]
    have hcount : low.metadata.size = idx.metadata.size - 1 := by rw [← hlow]
    rw [ends_ite]
    split
    · rename_i hnone
      refine (hchanged.ends_eraseLast hnone).mono ?_ fun _ _ he => he
      rintro found idx' ⟨hfound, emptied⟩
      refine ⟨hfound, .inl ⟨?_, emptied.sound, hkind ▸ emptied.metadata, emptied.saved⟩⟩
      rw [hcount] at hnone
      rw [hnone] at hless
      exact List.length_eq_zero_iff.mp hless.symm
    · rename_i hsome
      have hfilled : ctx.isTop = true → before ++ rest ≠ [] := by
        intro htop hnil
        obtain ⟨hleft, hright⟩ := leaves_of_isTop htop
        obtain ⟨rfl, rfl⟩ := List.append_eq_nil_iff.mp hnil
        rw [herased, hleft, hright, ← hcount] at hless
        exact hsome (UInt64.toNat_inj.mp hless)
      rw [ends_bind]
      have hfew : leastItems low.metadata.keyKind ctx.isTop ≤ (before ++ rest).length + 1 := by
        rw [hkind, ← hlength]
        exact hleast
      have hroom : (before ++ rest).length ≤ maxLeafKeyCount low.metadata.keyKind := by
        rw [hkind]
        omega
      refine (hchanged.ends_eraseFromLeaf before.length hfew hfilled hroom).mono
        (fun _ idx' mended => ?_) fun _ _ he => he
      obtain ⟨⟨H', t, r', hcontent, hheight, hfill⟩, hkind', hsize'⟩ := mended
      rw [hkind] at hheight hfill
      have hgiven : Tree.Filled idx.metadata.keyKind true (ctx.plug (leaf l)) →
          ctx.Filled idx.metadata.keyKind ∧ (ctx.isTop = true ∨
            minLeafKeyCount idx.metadata.keyKind ≤ (before ++ rest).length + 1) := by
        intro given
        obtain ⟨hl, hctx⟩ := (filled_plug ctx (leaf l)).mp given
        exact ⟨hctx, (Tree.filled_leaf.mp hl).imp_right fun h => hlength ▸ h⟩
      rw [ends_bind, saveMetadata, ends_modify]
      refine ⟨rfl, .inr ⟨⟨H', t, r'.save _, hcontent, fun given => hheight (hgiven given),
        fun hH given => ?_⟩, hkind'.trans hkind, hsize'.trans hcount,
        readMetadata_writeMetadata _ _⟩⟩
      rw [hfill hH (hgiven given), hlength, Nat.lt_succ_iff]
  · exact absurd (OrderedMap.find?_of_not_mem place.less (place.greater hafter) content.symm)
      present

/-- `erase` of a key that an index, which may have no root, does not have. -/
theorem Contents.erase_absent (c : idx.Contents m)
    (valid : validateKeyKind key idx.metadata.keyKind = .ok ()) (absent : m.find? key = none) :
    erase key idx = .ok false idx := by
  rcases c.cases with ⟨hempty, -⟩ | ⟨H, t, r, hitems⟩
  · rw [erase, bind_ok get_run, valid, fromExcept_ok, pure_bind, if_pos hempty]
    rfl
  · exact r.erase_absent hitems valid absent

/-- `erase` takes a key out of the map, and answers whether it was there. -/
theorem Contents.ends_erase (c : idx.Contents m)
    (valid : validateKeyKind key idx.metadata.keyKind = .ok ()) :
    Ends (erase key) idx
      (fun found idx' => found = (m.find? key).isSome ∧ idx'.Contents (m.erase key) ∧
        idx'.metadata.keyKind = idx.metadata.keyKind) E := by
  cases hfind : m.find? key with
  | none =>
      rw [ends_of_ok (c.erase_absent valid hfind), OrderedMap.erase_of_not_mem hfind]
      exact ⟨rfl, c, rfl⟩
  | some record =>
      have hpresent : m.find? key ≠ none := by rw [hfind]; exact Option.some_ne_none _
      have hlength := OrderedMap.length_erase hpresent
      rcases c.cases with ⟨-, hnil⟩ | ⟨H, t, r, hitems⟩
      · rw [hnil] at hlength
        cases hlength
      · obtain ⟨ctx, l, rfl, admits⟩ := r.exists_leaf key
        refine (r.ends_erase admits hitems c.size valid hpresent).mono ?_ fun _ _ he => he
        rintro found idx' ⟨rfl, ⟨hnil, emptied⟩ | finished⟩
        · have hkind : idx'.metadata.keyKind = idx.metadata.keyKind := by rw [emptied.metadata]
          refine ⟨rfl, ⟨emptied.sound, .inl ⟨hkind ▸ emptied.metadata, hnil⟩, ?_, emptied.saved⟩,
            hkind⟩
          rw [emptied.metadata, hnil]
          rfl
        · obtain ⟨⟨H', t, r', hcontent, -⟩, hkind, hless, hsaved⟩ := finished
          refine ⟨rfl, ⟨r'.open.sound, .inr ⟨H', t, r', hcontent⟩, ?_, hsaved⟩, hkind⟩
          have hone : (1 : UInt64) ≤ idx.metadata.size := by
            rw [UInt64.le_iff_toNat_le, c.size, hlength]
            exact Nat.succ_le_succ (Nat.zero_le _)
          rw [hless, UInt64.toNat_sub_of_le _ _ hone, c.size, hlength]
          rfl

end BStarPlusIndex
end CwDb.Index
