/-
  Index/Window.lean --- adjacent children of one branch that are written anew.

  Insertion and erasure repair a tree from the place of the change upwards.  Each stage
  exchanges adjacent children of a branch (`Open.regroup`), writes them from left to
  right (`Window`), and then has the branch itself to write (`Pending`), the separators of
  which it reads back from the children.
-/
import CwDb.Index.OpenTree

set_option autoImplicit false

namespace CwDb.Index

open CwDb.Cpp
open CwDb.Foundation
open LevelTree LevelContext

/-- The node of a tree of due size can be written. -/
theorem Tree.Sized.storable {kind : IndexKeyKind} : ∀ {isRoot : Bool} {h : Nat} {t : Tree h},
    t.Sized kind isRoot → t.node.Storable kind
  | _, 0, l, hl => by
      cases l using Tree.leafCases with | leaf l => ?_
      exact LeafPage.storable (LeafPage.Sized.most hl) (LeafPage.Sized.admissible hl)
  | _, h + 1, t, ht => by
      cases t using Tree.branchCases with | branch b kids => ?_
      obtain ⟨hb, -⟩ := Tree.sized_branch.mp ht
      have hcount : (kids.map Tree.id).length = b.seps.length + 1 := by
        simpa using hb.separates.count
      have hmost : (kids.map Tree.id).length ≤ maxInternalKeyCount kind + 1 := by
        simpa using hb.most
      exact BranchPage.storable hcount hmost hb.admissible

/-- The nodes of a tree of due sizes can be stored. -/
theorem Tree.Sized.storable_nodes {kind : IndexKeyKind} : ∀ {h : Nat} {isRoot : Bool} {t : Tree h},
    t.Sized kind isRoot → ∀ node ∈ t.nodes, node.Storable kind
  | 0, _, t, sized, node, hnode => by
      cases t using Tree.leafCases with | leaf l => ?_
      obtain rfl := List.mem_singleton.mp hnode
      exact sized.storable
  | h + 1, _, t, sized, node, hnode => by
      cases t using Tree.branchCases with | branch b kids => ?_
      rw [Tree.nodes_branch] at hnode
      rcases List.mem_cons.mp hnode with rfl | hnode
      · exact sized.storable
      · obtain ⟨k, hk, hnode⟩ := List.mem_flatMap.mp hnode
        exact storable_nodes ((Tree.sized_branch.mp sized).2 k hk) node hnode

/-- What is small enough for a part of the tree is small enough for the whole. -/
theorem Tree.Sized.asRoot {kind : IndexKeyKind} (proper : kind.Proper) {isRoot : Bool} :
    ∀ {h : Nat} {t : Tree h}, t.Sized kind false → t.Sized kind isRoot
  | 0, l, hl => by
      cases l using Tree.leafCases with | leaf l => ?_
      refine ⟨?_, LeafPage.Sized.most hl, LeafPage.Sized.admissible hl⟩
      have hleast : leastItems kind false ≤ l.items.length := LeafPage.Sized.least hl
      have hpos := leastItems_pos proper false
      change leastItems kind isRoot ≤ l.items.length
      cases isRoot
      · exact hleast
      · have : leastItems kind true = 1 := rfl
        omega
  | h + 1, t, ht => by
      cases t using Tree.branchCases with | branch b kids => ?_
      obtain ⟨hb, hkids⟩ := Tree.sized_branch.mp ht
      refine Tree.sized_branch.mpr ⟨⟨?_, hb.most, hb.admissible, hb.separates⟩, hkids⟩
      have hleast := hb.least
      have htwo := leastKids_two proper false
      cases isRoot
      · exact hleast
      · have : leastKids kind true = 2 := rfl
        omega

theorem Context.items_plug {h H : Nat} (ctx : Context h H) (t : Tree h) :
    Tree.items (ctx.plug t) = ctx.itemsWith [t] := by
  rw [Tree.items, leaves_plug, Context.itemsWith, Context.leavesWith, List.flatMap_singleton]

theorem Context.itemsWith_frame {h H : Nat} {b : BranchPage} (b' : BranchPage)
    {left right ts : List (Tree h)} {up : Context (h + 1) H} :
    Context.itemsWith (frame b left right up) ts =
      up.itemsWith [(branch b' (left ++ ts ++ right) : Tree (h + 1))] := by
  rw [Context.itemsWith, Context.itemsWith, BStarPlusIndex.leavesWith_frame]

/-- The root is on a page around the hole, unless it is the hole. -/
theorem Context.rootId_frame_mem : ∀ {h H : Nat} (b : BranchPage) (left right : List (Tree h))
    (up : Context (h + 1) H) (hole : PageId),
    Context.rootId (frame b left right up) hole ∈ Context.pages (frame b left right up)
  | _, _, b, left, right, top, _ => List.mem_cons_self
  | _, _, b, left, right, frame b' left' right' up, hole => by
      have := rootId_frame_mem b' left' right' up b.id
      rw [pages_frame]
      exact List.mem_cons_of_mem _ (List.mem_append_right _ this)

namespace BStarPlusIndex

variable {idx idx' : BStarPlusIndex} {h H : Nat} {pid : PageId} {b : BranchPage}
  {left middle right : List (Tree h)} {items : List Item}

/-! ## Exchanging children -/

/-- In a list of trees on distinct pages, none has a page of another. -/
theorem apart_of_nodup {y : Tree h} (distinct : ((left ++ y :: right).flatMap Tree.pages).Nodup) :
    y.pages.Nodup ∧ ∀ k ∈ left ++ right, ∀ p ∈ k.pages, p ∉ y.pages := by
  rw [List.flatMap_append, List.flatMap_cons] at distinct
  obtain ⟨-, hrest, hleft⟩ := List.nodup_append.mp distinct
  obtain ⟨hy, -, hright⟩ := List.nodup_append.mp hrest
  refine ⟨hy, fun k hk p hp hpy => ?_⟩
  rcases List.mem_append.mp hk with hk | hk
  · exact hleft p (List.mem_flatMap.mpr ⟨k, hk, hp⟩) p (List.mem_append_left _ hpy) rfl
  · exact hright p hpy p (List.mem_flatMap.mpr ⟨k, hk, hp⟩) rfl

/-- The children around a hole stand on their pages. -/
theorem Open.holds_sides {up : Context (h + 1) H} {hole : PageId} {ts : List (Tree h)}
    (o : idx.Open (frame b left right up) hole ts) : ∀ k ∈ left ++ right, idx.Holds false k := by
  obtain ⟨-, hsides, -⟩ := o.sized
  have hdistinct := (List.nodup_append.mp o.distinct).2.1
  rw [Context.pages_frame, List.nodup_cons, List.nodup_append] at hdistinct
  obtain ⟨-, hkids, -⟩ := hdistinct
  rw [← List.flatMap_append] at hkids
  intro k hk
  refine ⟨fun n hn => o.stored n ?_, (hsides k hk).1, ?_, fun p hp => o.allocated p ?_⟩
  · simp only [Context.nodes, List.mem_cons, List.mem_append, List.mem_flatMap]
    rcases List.mem_append.mp hk with hk | hk
    · exact .inr (.inl (.inl ⟨k, hk, hn⟩))
    · exact .inr (.inl (.inr ⟨k, hk, hn⟩))
  · exact (List.nodup_flatMap.mp hkids).1 k hk
  · refine List.mem_append_right _ ?_
    rw [Context.pages_frame, ← List.flatMap_append]
    exact List.mem_cons_of_mem _ (List.mem_append_left _ (List.mem_flatMap.mpr ⟨k, hk, hp⟩))

/-- Adjacent children may be exchanged for others with the same items, on their pages or
new ones. -/
theorem Open.regroup {up : Context (h + 1) H} {old new : List (Tree h)} {b' : BranchPage}
    (o : idx.Open up pid [branch b (left ++ old ++ right)]) (hb : b'.id = b.id)
    (items : new.flatMap Tree.items = old.flatMap Tree.items)
    (first : ∀ s, firstLeaf s (new.flatMap leaves) = firstLeaf s (old.flatMap leaves))
    (chained : ∀ s, Chained s (old.flatMap leaves) → Chained s (new.flatMap leaves))
    (distinct : (new.flatMap Tree.pages).Nodup)
    (fresh : ∀ p ∈ new.flatMap Tree.pages, p ∈ old.flatMap Tree.pages ∨
      p ∉ b.id :: ((left ++ old ++ right).flatMap Tree.pages ++ up.pages) ∧
        p < idx.disk.pageCount) :
    idx.Open up pid [branch b' (left ++ new ++ right)] := by
  have hall : [(branch b (left ++ old ++ right) : Tree (h + 1))].flatMap Tree.pages ++ up.pages =
      b.id :: ((left ++ old ++ right).flatMap Tree.pages ++ up.pages) := by simp
  have hdistinct := o.distinct
  have hallocated := o.allocated
  rw [hall] at hdistinct hallocated
  have hdisjoint : ∀ p ∈ new.flatMap Tree.pages, p ≠ b.id ∧ p ∉ left.flatMap Tree.pages ∧
      p ∉ right.flatMap Tree.pages ∧ p ∉ up.pages ∧ p < idx.disk.pageCount := by
    simp only [List.flatMap_append, List.append_assoc] at hdistinct fresh hallocated
    obtain ⟨hself, hkids⟩ := List.nodup_cons.mp hdistinct
    obtain ⟨-, hkids, hleft⟩ := List.nodup_append.mp hkids
    obtain ⟨-, -, hold⟩ := List.nodup_append.mp hkids
    intro p hp
    rcases fresh p hp with hmem | ⟨hnot, hlt⟩
    · refine ⟨?_, ?_, ?_, ?_, hallocated p ?_⟩
      · rintro rfl
        exact hself (by simp [hmem])
      · exact fun hl => hleft p hl p (by simp [hmem]) rfl
      · exact fun hr => hold p hmem p (by simp [hr]) rfl
      · exact fun hu => hold p hmem p (by simp [hu]) rfl
      · simp [hmem]
    · simp only [List.mem_cons, List.mem_append, not_or] at hnot
      exact ⟨hnot.1, hnot.2.1, hnot.2.2.2.1, hnot.2.2.2.2, hlt⟩
  refine o.exchange ?_ ?_ ?_ ?_ ?_
  · simp [List.flatMap_append, items]
  · intro s
    have hfirst : ∀ s, firstId LeafPage.id s (new.flatMap leaves) =
        firstId LeafPage.id s (old.flatMap leaves) := first
    simp [List.flatMap_append, hfirst]
  · intro s hs
    simp only [List.flatMap_singleton, leaves_branch, List.flatMap_append] at hs ⊢
    exact hs.replace first (chained _)
  · rw [List.flatMap_append, List.flatMap_append] at hdistinct
    obtain ⟨hself, hkids⟩ := List.nodup_cons.mp hdistinct
    obtain ⟨hkids, -, -⟩ := List.nodup_append.mp hkids
    obtain ⟨hleftold, hright, hor⟩ := List.nodup_append.mp hkids
    obtain ⟨hleft, -, -⟩ := List.nodup_append.mp hleftold
    simp only [List.flatMap_singleton, Tree.pages_branch, List.flatMap_append, hb]
    refine List.nodup_cons.mpr ⟨?_, List.nodup_append.mpr ⟨List.nodup_append.mpr ⟨hleft, distinct,
      ?_⟩, hright, ?_⟩⟩
    · simp only [List.mem_append, not_or]
      refine ⟨⟨fun hl => hself (by simp [hl]), fun hn => (hdisjoint _ hn).1 rfl⟩,
        fun hr => hself (by simp [hr])⟩
    · rintro p hp q hq rfl
      exact (hdisjoint p hq).2.1 hp
    · rintro p hp q hq rfl
      rcases List.mem_append.mp hp with hp | hp
      · exact hor p (List.mem_append_left _ hp) p hq rfl
      · exact (hdisjoint p hp).2.2.1 hq
  · intro p hp
    simp only [List.flatMap_singleton, Tree.pages_branch, List.flatMap_append, List.mem_cons,
      List.mem_append, hb] at hp
    rcases hp with rfl | (hp | hp) | hp
    · refine ⟨fun hu => (List.nodup_cons.mp hdistinct).1 (List.mem_append_right _ hu), ?_⟩
      exact hallocated _ List.mem_cons_self
    · refine ⟨fun hu => ?_, hallocated p (by simp [hp])⟩
      obtain ⟨-, -, hno⟩ := List.nodup_append.mp (List.nodup_cons.mp hdistinct).2
      exact hno p (by simp [hp]) p hu rfl
    · exact ⟨(hdisjoint p hp).2.2.2.1, (hdisjoint p hp).2.2.2.2⟩
    · refine ⟨fun hu => ?_, hallocated p (by simp [hp])⟩
      obtain ⟨-, -, hno⟩ := List.nodup_append.mp (List.nodup_cons.mp hdistinct).2
      exact hno p (by simp [hp]) p hu rfl

/-- The separators of a branch in the hole do not matter. -/
theorem Open.relabel {up : Context (h + 1) H} {kids : List (Tree h)} {b' : BranchPage}
    (o : idx.Open up pid [branch b kids]) (hb : b'.id = b.id) :
    idx.Open up pid [branch b' kids] := by
  have hdistinct : ([(branch b kids : Tree (h + 1))].flatMap Tree.pages).Nodup :=
    (List.nodup_append.mp o.distinct).1
  refine o.exchange (by simp) (fun s => by simp) (fun s hs => by simpa using hs)
    (by simpa [hb] using hdistinct) ?_
  intro p hp
  have hp' : p ∈ [(branch b kids : Tree (h + 1))].flatMap Tree.pages := by simpa [hb] using hp
  obtain ⟨-, -, hno⟩ := List.nodup_append.mp o.distinct
  exact ⟨fun hu => hno p hp' p hu rfl, o.allocated p (List.mem_append_left _ hp')⟩

/-! ## Writing the children -/

/-- Everything under the root of the tree stands on its page, and the root may be written. -/
structure Ready (idx : BStarPlusIndex) (isRoot : Bool) (t : Tree h) : Prop where
  below : idx.Stores t.nodes.tail
  sized : t.Sized idx.metadata.keyKind isRoot

/-- The children of the branch on the page `pid` stand on their pages; the branch does not.
The whole tree has the given items. -/
structure Pending (idx : BStarPlusIndex) (up : Context (h + 1) H) (pid : PageId)
    (kids : List (Tree h)) (items : List Item) : Prop where
  «open» : idx.Open up pid [branch ⟨pid, []⟩ kids]
  holds : ∀ k ∈ kids, idx.Holds false k
  content : up.itemsWith [branch ⟨pid, []⟩ kids] = items

/-- The children `middle` of the branch on the page `pid` are yet to be written. -/
structure Window (idx : BStarPlusIndex) (up : Context (h + 1) H) (pid : PageId)
    (left middle right : List (Tree h)) (items : List Item) : Prop where
  «open» : idx.Open up pid [branch ⟨pid, []⟩ (left ++ middle ++ right)]
  holds : ∀ k ∈ left ++ right, idx.Holds false k
  ready : ∀ k ∈ middle, idx.Ready false k
  content : up.itemsWith [branch ⟨pid, []⟩ (left ++ middle ++ right)] = items

theorem pageId_mem_tail {t : Tree h} {n : IndexNode} (hn : n ∈ t.nodes.tail) :
    n.pageId ∈ t.pages.tail := by
  rw [← Tree.pageId_nodes, ← List.map_tail]
  exact List.mem_map_of_mem hn

theorem pages_eq_cons (t : Tree h) : t.pages = t.id :: t.pages.tail := by
  cases h <;> rfl

theorem stores_nodes_iff {t : Tree h} :
    idx.Stores t.nodes ↔ idx.readNode t.id = .ok t.node ∧ idx.Stores t.nodes.tail := by
  have hnodes : t.nodes = t.node :: t.nodes.tail := by cases h <;> rfl
  rw [hnodes, stores_cons, Tree.pageId_node]
  rfl

theorem Ready.touch {ps : List PageId} {isRoot : Bool} {t : Tree h} (ready : idx.Ready isRoot t)
    (touches : idx.Touches ps idx') (apart : ∀ p ∈ t.pages.tail, p ∉ ps) :
    idx'.Ready isRoot t :=
  ⟨ready.below.touch touches fun _ hn => apart _ (pageId_mem_tail hn),
    touches.kind ▸ ready.sized⟩

variable {Q : PUnit → BStarPlusIndex → Prop} {E : Fault → BStarPlusIndex → Prop}

/-- The tree in the hole is written. -/
theorem Open.ends_write {ctx : Context h H} {t : Tree h} (o : idx.Open ctx t.id [t])
    (ready : idx.Ready ctx.isTop t)
    (hQ : ∀ idx', idx.Touches [t.id] idx' → idx'.Represents (ctx.plug t) → Q ⟨⟩ idx') :
    Ends (writeNode t.node) idx Q E := by
  have hdistinct := o.distinct
  rw [List.flatMap_singleton, pages_eq_cons t, List.cons_append, List.nodup_cons] at hdistinct
  refine ends_writeNode _ o.sound ?_ ready.sized.storable ?_
  · rw [Tree.pageId_node]
    exact o.allocated _ (by simp [t.id_mem_pages])
  · intro idx' touches _ hread
    rw [Tree.pageId_node] at touches hread
    refine hQ idx' touches ((o.touch touches ?_).close ?_ (touches.kind ▸ ready.sized))
    · rintro p hp hctx
      obtain rfl := List.mem_singleton.mp hp
      exact hdistinct.1 (List.mem_append_right _ hctx)
    · refine stores_nodes_iff.mpr ⟨hread, (ready.touch touches ?_).below⟩
      rintro p hp hself
      obtain rfl := List.mem_singleton.mp hself
      exact hdistinct.1 (List.mem_append_left _ hp)

/-- The next child of the window is written. -/
theorem Window.ends_write {up : Context (h + 1) H} {y : Tree h}
    (w : idx.Window up pid left (y :: middle) right items)
    (hQ : ∀ idx', idx.Touches [y.id] idx' → idx'.Window up pid (left ++ [y]) middle right items →
      Q ⟨⟩ idx') : Ends (writeNode y.node) idx Q E := by
  have hsplit : left ++ y :: middle ++ right = left ++ y :: (middle ++ right) := by simp
  have hdistinct := w.open.distinct
  have hallocated := w.open.allocated
  rw [List.flatMap_singleton, hsplit, Tree.pages_branch, List.cons_append, List.nodup_cons,
    List.nodup_append] at hdistinct
  obtain ⟨-, hkids, -, hno⟩ := hdistinct
  obtain ⟨hy, hapart⟩ := apart_of_nodup hkids
  have hmem : ∀ p ∈ y.pages, p ∈ (left ++ y :: (middle ++ right)).flatMap Tree.pages :=
    fun p hp => List.mem_flatMap.mpr ⟨y, by simp, hp⟩
  have hin : ∀ p ∈ y.pages, p < idx.disk.pageCount := by
    intro p hp
    refine hallocated p (List.mem_append_left _ ?_)
    rw [List.flatMap_singleton, hsplit, Tree.pages_branch]
    exact List.mem_cons_of_mem _ (hmem p hp)
  have hready := w.ready y List.mem_cons_self
  have hself : ∀ k ∈ left ++ (middle ++ right), ∀ p ∈ k.pages, p ∉ [y.id] := by
    intro k hk p hp hpy
    obtain rfl := List.mem_singleton.mp hpy
    exact hapart k hk _ hp y.id_mem_pages
  refine ends_writeNode _ w.open.sound ?_ hready.sized.storable ?_
  · rw [Tree.pageId_node]
    exact hin _ y.id_mem_pages
  · intro idx' touches _ hread
    rw [Tree.pageId_node] at touches hread
    refine hQ idx' touches ⟨?_, ?_, ?_, by simpa using w.content⟩
    · have hopen := w.open.touch touches fun p hp hup => by
        obtain rfl := List.mem_singleton.mp hp
        exact hno _ (hmem _ y.id_mem_pages) _ hup rfl
      simpa using hopen
    · have hothers : ∀ k ∈ left ++ right, idx'.Holds false k := fun k hk =>
        (w.holds k hk).touch touches (hself k (by
          rcases List.mem_append.mp hk with hk | hk <;> simp [hk]))
      have hthis : idx'.Holds false y := by
        refine ⟨stores_nodes_iff.mpr ⟨hread, (hready.touch touches ?_).below⟩,
          touches.kind ▸ hready.sized, hy, fun p hp => lt_of_lt_of_le (hin p hp) touches.grows⟩
        rintro p hp hpy
        obtain rfl := List.mem_singleton.mp hpy
        rw [pages_eq_cons y, List.nodup_cons] at hy
        exact hy.1 hp
      intro k hk
      simp only [List.mem_append, List.mem_singleton, or_assoc] at hk
      rcases hk with hk | rfl | hk
      · exact hothers k (by simp [hk])
      · exact hthis
      · exact hothers k (by simp [hk])
    · intro k hk
      exact (w.ready k (by simp [hk])).touch touches fun p hp =>
        hself k (by simp [hk]) p (List.mem_of_mem_tail hp)

theorem Window.pending {up : Context (h + 1) H} (w : idx.Window up pid left [] right items) :
    idx.Pending up pid (left ++ right) items := by
  obtain ⟨hopen, hholds, -, hcontent⟩ := w
  rw [List.append_nil] at hopen hcontent
  exact ⟨hopen, hholds, hcontent⟩

/-! ## Writing the branch -/

section Pending

variable {up : Context (h + 1) H} {kids : List (Tree h)}

/-- The branch over its children, with the separators read back from them. -/
def rebuilt (pid : PageId) (kids : List (Tree h)) : Tree (h + 1) :=
  branch ⟨pid, Tree.separators kids⟩ kids

theorem Pending.rebuildInternalKeys_eq (p : idx.Pending up pid kids items) (hb : b.id = pid) :
    idx.rebuildInternalKeys (b.node (kids.map Tree.id)) = .ok (rebuilt pid kids).node := by
  rw [BStarPlusIndex.rebuildInternalKeys_eq p.open.sound p.holds, hb]
  rfl

theorem Pending.sorted (p : idx.Pending up pid kids items) :
    (kids.flatMap Tree.keys).Pairwise (· < ·) := by
  have hsorted := p.open.sorted
  simp only [Context.leavesWith, List.flatMap_append, List.flatMap_singleton, leaves_branch,
    List.flatMap_assoc] at hsorted
  exact (List.pairwise_append.mp (List.pairwise_append.mp hsorted).1).2.1

theorem Pending.ready (p : idx.Pending up pid kids items)
    (least : leastKids idx.metadata.keyKind up.isTop ≤ kids.length)
    (most : kids.length ≤ maxInternalKeyCount idx.metadata.keyKind + 1) :
    idx.Ready up.isTop (rebuilt pid kids) := by
  refine ⟨fun n hn => ?_, Tree.sized_rebuilt p.open.sound.kind (fun k hk => (p.holds k hk).sized)
    p.sorted least most⟩
  obtain ⟨k, hk, hn⟩ := List.mem_flatMap.mp (show n ∈ kids.flatMap Tree.nodes from hn)
  exact (p.holds k hk).nodes n hn

theorem Pending.opened (p : idx.Pending up pid kids items) :
    idx.Open up (rebuilt pid kids).id [rebuilt pid kids] := p.open.relabel rfl

/-- The branch over the children is written. -/
theorem Pending.ends_write (p : idx.Pending up pid kids items)
    (least : leastKids idx.metadata.keyKind up.isTop ≤ kids.length)
    (most : kids.length ≤ maxInternalKeyCount idx.metadata.keyKind + 1)
    (hQ : ∀ idx', idx.Touches [pid] idx' → idx'.Represents (up.plug (rebuilt pid kids)) →
      Tree.items (up.plug (rebuilt pid kids)) = items → Q ⟨⟩ idx') :
    Ends (writeNode (rebuilt pid kids).node) idx Q E := by
  refine p.opened.ends_write (p.ready least most) fun idx' touches r => hQ idx' touches r ?_
  rw [Context.items_plug, ← p.content, Context.itemsWith_eq, Context.itemsWith_eq]
  simp [rebuilt]

end Pending

/-- Two siblings are written, and their parent. -/
theorem Window.ends_writeSiblings {up : Context (h + 1) H} {y z : Tree h}
    (w : idx.Window up pid left [y, z] right items) (hb : b.id = pid)
    (least : leastKids idx.metadata.keyKind up.isTop ≤ (left ++ y :: z :: right).length)
    (most : (left ++ y :: z :: right).length ≤ maxInternalKeyCount idx.metadata.keyKind + 1)
    (hQ : ∀ idx', idx'.metadata = idx.metadata →
      idx'.Represents (up.plug (rebuilt pid (left ++ y :: z :: right))) →
      Tree.items (up.plug (rebuilt pid (left ++ y :: z :: right))) = items → Q ⟨⟩ idx') :
    Ends (writeSiblings y.node z.node (b.node ((left ++ y :: z :: right).map Tree.id))) idx Q
      E := by
  rw [writeSiblings, ends_bind]
  refine w.ends_write fun idx₁ touches₁ w₁ => ?_
  rw [ends_bind]
  refine w₁.ends_write fun idx₂ touches₂ w₂ => ?_
  have hkids : left ++ [y] ++ [z] ++ right = left ++ y :: z :: right := by simp
  have hpending := w₂.pending
  rw [hkids] at hpending
  have hkind : idx₂.metadata.keyKind = idx.metadata.keyKind := touches₂.kind.trans touches₁.kind
  rw [ends_bind]
  refine ends_reading (hpending.rebuildInternalKeys_eq hb) ?_
  refine hpending.ends_write (hkind ▸ least) (hkind ▸ most) fun idx₃ touches₃ r hitems => ?_
  refine hQ idx₃ ?_ r hitems
  rw [touches₃.metadata, touches₂.metadata, touches₁.metadata]

end BStarPlusIndex
end CwDb.Index
