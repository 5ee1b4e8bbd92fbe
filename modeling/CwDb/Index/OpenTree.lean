/-
  Index/OpenTree.lean --- a tree on the pages of an index, with one place under repair.

  `Open idx ctx hole ts` is the state in the middle of an operation: around the hole the
  tree stands on its pages, and the trees `ts` are to take the place of the hole.  What
  the operation does to `ts` (sharing items or children out anew, splitting, merging)
  keeps this state; closing the hole with one tree gives a tree again.
-/
import CwDb.Index.Pages

set_option autoImplicit false

namespace CwDb.Index

open CwDb.Cpp
open CwDb.Foundation
open LevelTree LevelContext

/-- The leaves of the whole tree, when trees take the place of the hole. -/
def Context.leavesWith {h H : Nat} (ctx : Context h H) (ts : List (Tree h)) : List LeafPage :=
  ctx.leftLeaves ++ ts.flatMap leaves ++ ctx.rightLeaves

/-- The items of the whole tree, when trees take the place of the hole. -/
def Context.itemsWith {h H : Nat} (ctx : Context h H) (ts : List (Tree h)) : List Item :=
  (ctx.leavesWith ts).flatMap LeafPage.items

theorem Tree.keys_eq_map_items {h : Nat} (t : Tree h) : t.keys = t.items.map Prod.fst := by
  rw [Tree.keys, Tree.items, List.map_flatMap]
  rfl

theorem Context.itemsWith_eq {h H : Nat} (ctx : Context h H) (ts : List (Tree h)) :
    ctx.itemsWith ts = ctx.leftLeaves.flatMap LeafPage.items ++ ts.flatMap Tree.items ++
      ctx.rightLeaves.flatMap LeafPage.items := by
  simp only [Context.itemsWith, Context.leavesWith, List.flatMap_append, List.flatMap_assoc]
  rfl

/-- The page of the first of the leaves. -/
abbrev firstLeaf (stop : PageId) (ls : List LeafPage) : PageId := firstId LeafPage.id stop ls

/-- Each of the leaves names the next, the last `stop`. -/
abbrev Chained (stop : PageId) (ls : List LeafPage) : Prop :=
  Linked LeafPage.id LeafPage.next stop ls

namespace BStarPlusIndex

/-- Around the hole of `ctx`, which is on the page `hole`, the index spells out the tree;
`ts` fit in there. -/
structure Open (idx : BStarPlusIndex) {h H : Nat} (ctx : Context h H) (hole : PageId)
    (ts : List (Tree h)) : Prop where
  sound : idx.Sound
  root : idx.metadata.rootPageId = ctx.rootId hole
  height : idx.metadata.height.toNat = H + 1
  first : idx.metadata.firstLeafPageId = firstLeaf invalidPageId (ctx.leavesWith ts)
  stored : idx.Stores (ctx.nodes hole)
  sized : ctx.Sized idx.metadata.keyKind
  admitted : ∀ x ∈ ts.flatMap Tree.keys, ctx.Admits x
  sorted : ((ctx.leavesWith ts).flatMap LeafPage.keys).Pairwise (· < ·)
  chained : Chained invalidPageId (ctx.leavesWith ts)
  distinct : (ts.flatMap Tree.pages ++ ctx.pages).Nodup
  allocated : ∀ p ∈ ts.flatMap Tree.pages ++ ctx.pages, p < idx.disk.pageCount

/-- The index spells out the tree. -/
structure Represents (idx : BStarPlusIndex) {H : Nat} (t : Tree H) : Prop where
  «open» : idx.Open (top : Context H H) t.id [t]
  nodes : idx.Stores t.nodes
  sized : t.Sized idx.metadata.keyKind true

variable {idx idx' : BStarPlusIndex} {h H : Nat} {ctx : Context h H} {hole : PageId}
  {ts ts' : List (Tree h)}

/-! ## Opening and closing -/

theorem leavesWith_plug (ctx : Context h H) (t : Tree h) :
    Context.leavesWith (top : Context H H) [ctx.plug t] = ctx.leavesWith [t] := by
  simp [Context.leavesWith, leftLeaves, rightLeaves, leaves_plug]

/-- A tree may be opened at any place. -/
theorem Represents.opened {t : Tree h} (r : idx.Represents (ctx.plug t)) :
    idx.Open ctx t.id [t] ∧ idx.Stores t.nodes ∧ t.Sized idx.metadata.keyKind ctx.isTop := by
  obtain ⟨o, hnodes, hsized⟩ := r
  obtain ⟨ht, hctx, hadmits⟩ := (sized_plug ctx t).mp hsized
  have hperm : (Tree.pages (ctx.plug t)).Perm (t.pages ++ ctx.pages) := Context.pages_plug ctx t
  have hpages : ([t].flatMap Tree.pages ++ ctx.pages) = t.pages ++ ctx.pages := by simp
  have hold : [ctx.plug t].flatMap Tree.pages ++ Context.pages (top : Context H H) =
      Tree.pages (ctx.plug t) := by simp
  have hdistinct := o.distinct
  have hallocated := o.allocated
  rw [hold] at hdistinct hallocated
  refine ⟨⟨o.sound, ?_, o.height, ?_, ?_, hctx, by simpa using hadmits, ?_, ?_, ?_, ?_⟩, ?_, ht⟩
  · rw [o.root]
    exact Context.id_plug ctx t
  · rw [o.first, leavesWith_plug]
  · exact fun n hn => hnodes n ((Context.mem_nodes_plug ctx t n).mpr (.inr hn))
  · rw [← leavesWith_plug]
    exact o.sorted
  · rw [← leavesWith_plug]
    exact o.chained
  · rw [hpages]
    exact hperm.nodup_iff.mp hdistinct
  · rw [hpages]
    exact fun p hp => hallocated p (hperm.mem_iff.mpr hp)
  · exact fun n hn => hnodes n ((Context.mem_nodes_plug ctx t n).mpr (.inl hn))

/-- A hole is closed by a tree on its page. -/
theorem Open.close {t : Tree h} (o : idx.Open ctx t.id [t]) (hnodes : idx.Stores t.nodes)
    (hsized : t.Sized idx.metadata.keyKind ctx.isTop) : idx.Represents (ctx.plug t) := by
  have hperm : (Tree.pages (ctx.plug t)).Perm (t.pages ++ ctx.pages) := Context.pages_plug ctx t
  have hpages : ([t].flatMap Tree.pages ++ ctx.pages) = t.pages ++ ctx.pages := by simp
  have hnew : [ctx.plug t].flatMap Tree.pages ++ Context.pages (top : Context H H) =
      Tree.pages (ctx.plug t) := by simp
  have hdistinct := o.distinct
  have hallocated := o.allocated
  rw [hpages] at hdistinct hallocated
  refine ⟨⟨o.sound, ?_, o.height, ?_, ?_, trivial, ?_, ?_, ?_, ?_, ?_⟩, ?_, ?_⟩
  · rw [o.root]
    exact (Context.id_plug ctx t).symm
  · rw [o.first, leavesWith_plug]
  · exact fun n hn => by cases hn
  · exact fun _ _ => trivial
  · rw [leavesWith_plug]
    exact o.sorted
  · rw [leavesWith_plug]
    exact o.chained
  · rw [hnew]
    exact hperm.nodup_iff.mpr hdistinct
  · rw [hnew]
    exact fun p hp => hallocated p (hperm.mem_iff.mp hp)
  · intro n hn
    exact ((Context.mem_nodes_plug ctx t n).mp hn).elim (hnodes n) (o.stored n)
  · exact (sized_plug ctx t).mpr ⟨hsized, o.sized, by simpa using o.admitted⟩

/-- Writing to pages in the hole leaves the surroundings alone. -/
theorem Open.touch {ps : List PageId} (o : idx.Open ctx hole ts) (touches : idx.Touches ps idx')
    (inside : ∀ p ∈ ps, p ∉ ctx.pages) : idx'.Open ctx hole ts := by
  refine ⟨touches.sound, touches.metadata ▸ o.root, touches.metadata ▸ o.height,
    touches.metadata ▸ o.first, ?_, touches.metadata ▸ o.sized, o.admitted, o.sorted, o.chained,
    o.distinct, fun p hp => lt_of_lt_of_le (o.allocated p hp) touches.grows⟩
  exact o.stored.touch touches fun n hn hp => inside _ hp (Context.pageId_mem_pages hn)

/-- Trees may take the place of others with the same items, on their pages or new ones. -/
theorem Open.exchange (o : idx.Open ctx hole ts)
    (items : ts'.flatMap Tree.items = ts.flatMap Tree.items)
    (first : ∀ s, firstLeaf s (ts'.flatMap leaves) = firstLeaf s (ts.flatMap leaves))
    (chained : ∀ s, Chained s (ts.flatMap leaves) → Chained s (ts'.flatMap leaves))
    (distinct : (ts'.flatMap Tree.pages).Nodup)
    (fresh : ∀ p ∈ ts'.flatMap Tree.pages, p ∉ ctx.pages ∧ p < idx.disk.pageCount) :
    idx.Open ctx hole ts' := by
  have hkeys : ∀ us : List (Tree h), (ctx.leavesWith us).flatMap LeafPage.keys =
      ctx.leftLeaves.flatMap LeafPage.keys ++ us.flatMap Tree.keys ++
        ctx.rightLeaves.flatMap LeafPage.keys := by
    intro us
    simp only [Context.leavesWith, List.flatMap_append, List.flatMap_assoc]
    rfl
  have hmap : ∀ us : List (Tree h), us.flatMap Tree.keys =
      (us.flatMap Tree.items).map Prod.fst := by
    intro us
    rw [List.map_flatMap]
    exact List.flatMap_congr fun k _ => k.keys_eq_map_items
  have hsame : ts'.flatMap Tree.keys = ts.flatMap Tree.keys := by rw [hmap, hmap, items]
  refine ⟨o.sound, o.root, o.height, ?_, o.stored, o.sized, hsame ▸ o.admitted, ?_, ?_, ?_, ?_⟩
  · have hfirst : ∀ s, firstId LeafPage.id s (ts'.flatMap leaves) =
        firstId LeafPage.id s (ts.flatMap leaves) := first
    rw [o.first]
    simp only [Context.leavesWith, List.append_assoc, firstId_append, hfirst]
  · rw [hkeys, hsame, ← hkeys]
    exact o.sorted
  · exact o.chained.replace first (chained _)
  · rw [List.nodup_append]
    refine ⟨distinct, (List.nodup_append.mp o.distinct).2.1, ?_⟩
    rintro p hp q hq rfl
    exact (fresh p hp).1 hq
  · intro p hp
    rcases List.mem_append.mp hp with hp | hp
    · exact (fresh p hp).2
    · exact o.allocated p (List.mem_append_right _ hp)

/-! ## Going up to the parent -/

theorem leavesWith_frame {b b' : BranchPage} {left right : List (Tree h)}
    {up : Context (h + 1) H} :
    Context.leavesWith (frame b left right up) ts =
      up.leavesWith [(branch b' (left ++ ts ++ right) : Tree (h + 1))] := by
  simp [Context.leavesWith, leftLeaves, rightLeaves, List.append_assoc]

/-- The parent of a hole is a hole itself, with separators yet to be chosen. -/
theorem Open.rise {b : BranchPage} {left right : List (Tree h)} {up : Context (h + 1) H}
    (o : idx.Open (frame b left right up) hole ts) (seps : List IndexKey) :
    idx.Open up b.id [branch ⟨b.id, seps⟩ (left ++ ts ++ right)] := by
  obtain ⟨hb, hsides, hup⟩ := o.sized
  have hleaves : up.leavesWith [(branch ⟨b.id, seps⟩ (left ++ ts ++ right) : Tree (h + 1))] =
      Context.leavesWith (frame b left right up) ts := leavesWith_frame.symm
  have hperm : (([(branch ⟨b.id, seps⟩ (left ++ ts ++ right) : Tree (h + 1))]).flatMap Tree.pages ++
      up.pages).Perm (ts.flatMap Tree.pages ++ Context.pages (frame b left right up)) := by
    simp only [List.flatMap_cons, List.flatMap_nil, List.append_nil, Tree.pages_branch,
      List.flatMap_append, Context.pages_frame, List.cons_append, List.append_assoc]
    refine (List.Perm.cons _ ?_).trans List.perm_middle.symm
    exact List.perm_append_comm_assoc _ _ _
  refine ⟨o.sound, o.root, o.height, ?_, ?_, hup, ?_, ?_, ?_, ?_, ?_⟩
  · rw [o.first, hleaves]
  · refine o.stored.mono fun n hn => ?_
    simp only [Context.nodes, List.mem_cons, List.mem_append]
    exact .inr (.inr hn)
  · intro x hx
    simp only [List.flatMap_cons, List.flatMap_nil, List.append_nil, Tree.keys_branch,
      List.flatMap_append, List.mem_append] at hx
    rcases hx with (hx | hx) | hx
    · obtain ⟨k, hk, hx⟩ := List.mem_flatMap.mp hx
      exact (hsides k (List.mem_append_left _ hk)).2 x hx
    · exact (o.admitted x hx).2
    · obtain ⟨k, hk, hx⟩ := List.mem_flatMap.mp hx
      exact (hsides k (List.mem_append_right _ hk)).2 x hx
  · rw [hleaves]
    exact o.sorted
  · rw [hleaves]
    exact o.chained
  · exact hperm.nodup_iff.mpr o.distinct
  · exact fun p hp => o.allocated p (hperm.mem_iff.mp hp)

end BStarPlusIndex

/-! ## Sizes -/

theorem leastItems_pos {kind : IndexKeyKind} (proper : kind.Proper) (isRoot : Bool) :
    1 ≤ leastItems kind isRoot := by
  unfold leastItems
  rcases proper.counts with ⟨h, -⟩ | ⟨h, -⟩ <;> rw [h] <;> split <;> decide

theorem leastKids_two {kind : IndexKeyKind} (proper : kind.Proper) (isRoot : Bool) :
    2 ≤ leastKids kind isRoot := by
  unfold leastKids
  rcases proper.counts with ⟨-, -, h, -⟩ | ⟨-, -, h, -⟩ <;> rw [h] <;> split <;> decide

namespace Tree

variable {kind : IndexKeyKind} {h : Nat}

theorem Sized.keys_admissible : ∀ {isRoot : Bool} {h : Nat} {t : Tree h}, t.Sized kind isRoot →
    ∀ x ∈ t.keys, Admissible kind x
  | _, 0, l, hl, x, hx => by
      cases l using Tree.leafCases with | leaf l => ?_
      rw [keys_leaf] at hx
      obtain ⟨e, he, rfl⟩ := List.mem_map.mp hx
      exact LeafPage.Sized.admissible hl e he
  | _, h + 1, t, ht, x, hx => by
      cases t using Tree.branchCases with | branch b kids => ?_
      rw [keys_branch] at hx
      obtain ⟨k, hk, hx⟩ := List.mem_flatMap.mp hx
      exact Sized.keys_admissible (ht.2 k hk) x hx

/-- A tree of height `h` has `2 ^ h` pages and more. -/
theorem Sized.two_pow_le (proper : kind.Proper) : ∀ {isRoot : Bool} {h : Nat} {t : Tree h},
    t.Sized kind isRoot → 2 ^ h ≤ t.pages.length
  | _, 0, l, _ => by
      cases l using Tree.leafCases with | leaf l => ?_
      simp
  | isRoot, h + 1, t, ht => by
      cases t using Tree.branchCases with | branch b kids => ?_
      have hleast : leastKids kind isRoot ≤ (kids.map Tree.keys).length := ht.1.least
      have htwo := leastKids_two proper isRoot
      have hsized : ∀ k ∈ kids, Tree.Sized kind false k := ht.2
      rw [List.length_map] at hleast
      match kids, hsized with
      | [], _ | [_], _ => simp at hleast; omega
      | k :: k' :: kids, hkids =>
          have hk := Sized.two_pow_le proper (hkids k (by simp))
          have hk' := Sized.two_pow_le proper (hkids k' (by simp))
          simp only [pages_branch, List.flatMap_cons, List.length_cons, List.length_append]
          omega

/-- Children have together what each of them has at least, so many times. -/
theorem length_mul_le_length_items {n : Nat} {kids : List (Tree h)}
    (each : ∀ k ∈ kids, n ≤ k.items.length) :
    kids.length * n ≤ (kids.flatMap Tree.items).length := by
  induction kids with
  | nil => simp
  | cons k kids ih =>
      have hk := each k List.mem_cons_self
      have hkids := ih fun j hj => each j (List.mem_cons_of_mem k hj)
      rw [List.flatMap_cons, List.length_append, List.length_cons, Nat.add_one_mul]
      omega

/-- A part of a tree has items for the leaves that its height asks for. -/
theorem Sized.pow_mul_le_length_items : ∀ {h : Nat} {t : Tree h}, t.Sized kind false →
    leastKids kind false ^ h * leastItems kind false ≤ t.items.length
  | 0, l, hl => by
      cases l using Tree.leafCases with | leaf l => ?_
      have hleast : leastItems kind false ≤ l.items.length := LeafPage.Sized.least hl
      rw [items_leaf, Nat.pow_zero, Nat.one_mul]
      exact hleast
  | h + 1, t, ht => by
      cases t using Tree.branchCases with | branch b kids => ?_
      have hsized : ∀ k ∈ kids, Tree.Sized kind false k := ht.2
      have hleast : leastKids kind false ≤ (kids.map Tree.keys).length := ht.1.least
      rw [List.length_map] at hleast
      have hitems := length_mul_le_length_items
        fun k hk => Sized.pow_mul_le_length_items (hsized k hk)
      rw [items_branch, Nat.pow_succ, Nat.mul_comm (leastKids kind false ^ h), Nat.mul_assoc]
      exact (Nat.mul_le_mul_right _ hleast).trans hitems

/-- The items are no more than the pages have room for. -/
theorem Sized.length_items_le : ∀ {isRoot : Bool} {h : Nat} {t : Tree h},
    t.Sized kind isRoot → t.items.length ≤ maxLeafKeyCount kind * t.pages.length
  | _, 0, l, hl => by
      cases l using Tree.leafCases with | leaf l => ?_
      have hmost : l.items.length ≤ maxLeafKeyCount kind := LeafPage.Sized.most hl
      rw [items_leaf, pages_leaf, List.length_singleton, Nat.mul_one]
      exact hmost
  | isRoot, h + 1, t, ht => by
      cases t using Tree.branchCases with | branch b kids => ?_
      have hkids : ∀ ks : List (Tree h), (∀ k ∈ ks, k.Sized kind false) →
          (ks.flatMap Tree.items).length ≤
            maxLeafKeyCount kind * (ks.flatMap Tree.pages).length := by
        intro ks hks
        induction ks with
        | nil => simp
        | cons k ks ih =>
            have hk := Sized.length_items_le (hks k List.mem_cons_self)
            have hrest := ih fun j hj => hks j (List.mem_cons_of_mem k hj)
            simp only [List.flatMap_cons, List.length_append, Nat.mul_add]
            omega
      have := hkids kids ht.2
      rw [items_branch, pages_branch, List.length_cons, Nat.mul_add]
      omega

/-- The first leaf, which has a first key. -/
theorem Sized.exists_first (proper : kind.Proper) : ∀ {isRoot : Bool} {h : Nat} {t : Tree h},
    t.Sized kind isRoot → ∃ l rest key, t.leaves = l :: rest ∧ l.keys.head? = some key ∧
      t.keys.head? = some key
  | isRoot, 0, l, hl => by
      cases l using Tree.leafCases with | leaf l => ?_
      have hleast := LeafPage.Sized.least hl
      have hpos := leastItems_pos proper isRoot
      obtain ⟨key, hkey⟩ : ∃ key, l.keys.head? = some key := by
        cases hitems : l.items with
        | nil =>
            have : leastItems kind isRoot ≤ l.items.length := hleast
            rw [hitems] at this
            simp at this
            omega
        | cons e items => exact ⟨e.1, by simp [LeafPage.keys, hitems]⟩
      exact ⟨l, [], key, rfl, hkey, by rw [keys_leaf]; exact hkey⟩
  | isRoot, h + 1, t, ht => by
      cases t using Tree.branchCases with | branch b kids => ?_
      have hleast := ht.1.least
      have htwo := leastKids_two proper isRoot
      cases kids with
      | nil =>
          have : leastKids kind isRoot ≤ 0 := hleast
          omega
      | cons k kids =>
          obtain ⟨l, rest, key, hleaves, hfirst, hkey⟩ :=
            Sized.exists_first proper (ht.2 k List.mem_cons_self)
          refine ⟨l, rest ++ kids.flatMap leaves, key, by simp [hleaves], hfirst, ?_⟩
          simp [hkey]

/-- The separators that `rebuild_internal_keys` finds: the first keys under all children but
the first. -/
def separators (kids : List (Tree h)) : List IndexKey :=
  kids.tail.filterMap fun k => k.keys.head?

theorem firsts_separators (proper : kind.Proper) {kids : List (Tree h)} (filled : kids ≠ [])
    (sized : ∀ k ∈ kids, k.Sized kind false) : Firsts (separators kids) (kids.map Tree.keys) := by
  refine ⟨by simpa using filled, ?_⟩
  cases kids with
  | nil => exact absurd rfl filled
  | cons first rest =>
      simp only [separators, List.tail_cons, List.map_cons, List.map_map]
      have hrest : ∀ k ∈ rest, k.Sized kind false := fun k hk => sized k (List.mem_cons_of_mem _ hk)
      clear sized filled
      induction rest with
      | nil => rfl
      | cons k rest ih =>
          obtain ⟨-, -, key, -, -, hkey⟩ := (hrest k List.mem_cons_self).exists_first proper
          have htail := ih fun j hj => hrest j (List.mem_cons_of_mem k hj)
          simp [hkey, htail]

theorem separators_admissible {kids : List (Tree h)} (sized : ∀ k ∈ kids, k.Sized kind false) :
    ∀ s ∈ separators kids, Admissible kind s := by
  intro s hs
  obtain ⟨k, hk, hkey⟩ := List.mem_filterMap.mp hs
  exact (sized k (List.mem_of_mem_tail hk)).keys_admissible s (List.mem_of_head? hkey)

/-- A branch with rebuilt separators. -/
theorem sized_rebuilt (proper : kind.Proper) {isRoot : Bool} {id : PageId} {kids : List (Tree h)}
    (sized : ∀ k ∈ kids, k.Sized kind false) (sorted : (kids.flatMap Tree.keys).Pairwise (· < ·))
    (least : leastKids kind isRoot ≤ kids.length)
    (most : kids.length ≤ maxInternalKeyCount kind + 1) :
    Tree.Sized kind isRoot (branch ⟨id, separators kids⟩ kids : Tree (h + 1)) := by
  have htwo := leastKids_two proper isRoot
  have hfilled : kids ≠ [] := by
    rintro rfl
    simp at least
    omega
  refine Tree.sized_branch.mpr ⟨⟨by simpa using least, by simpa using most,
    separators_admissible sized, ?_⟩, sized⟩
  refine (firsts_separators proper hfilled sized).separates ?_
  rw [← List.flatMap_def]
  exact sorted

theorem length_separators (proper : kind.Proper) {kids : List (Tree h)} (filled : kids ≠ [])
    (sized : ∀ k ∈ kids, k.Sized kind false) :
    kids.length = (separators kids).length + 1 := by
  obtain ⟨hne, hfirsts⟩ := firsts_separators proper filled sized
  have := congrArg List.length hfirsts
  simp only [List.length_map, List.length_tail] at this
  have hpos := List.length_pos_iff.mpr filled
  omega

end Tree

namespace BStarPlusIndex

/-! ## Reading a subtree -/

/-- The index holds the tree as a part. -/
structure Holds (idx : BStarPlusIndex) {h : Nat} (isRoot : Bool) (t : Tree h) : Prop where
  nodes : idx.Stores t.nodes
  sized : t.Sized idx.metadata.keyKind isRoot
  distinct : t.pages.Nodup
  allocated : ∀ p ∈ t.pages, p < idx.disk.pageCount

variable {idx idx' : BStarPlusIndex} {h H : Nat} {isRoot : Bool}

theorem Holds.touch {ps : List PageId} {t : Tree h} (holds : idx.Holds isRoot t)
    (touches : idx.Touches ps idx') (apart : ∀ p ∈ t.pages, p ∉ ps) : idx'.Holds isRoot t := by
  refine ⟨holds.nodes.touch touches fun n hn => apart _ ?_, touches.kind ▸ holds.sized,
    holds.distinct, fun p hp => lt_of_lt_of_le (holds.allocated p hp) touches.grows⟩
  rw [← Tree.pageId_nodes]
  exact List.mem_map_of_mem hn

/-- Distinct pages are no more than there are. -/
theorem length_pages_le {ps : List PageId} (distinct : ps.Nodup)
    (allocated : ∀ p ∈ ps, p < idx.disk.pageCount) : ps.length ≤ idx.disk.pageCount.toNat := by
  have hnodup : (ps.map UInt64.toNat).Nodup :=
    distinct.map fun a b hab => UInt64.toNat_inj.mp hab
  have hsub : ps.map UInt64.toNat ⊆ List.range idx.disk.pageCount.toNat := by
    intro n hn
    obtain ⟨p, hp, rfl⟩ := List.mem_map.mp hn
    exact List.mem_range.mpr (allocated p hp)
  simpa using (List.subperm_of_subset hnodup hsub).length_le

theorem Holds.height_lt {t : Tree h} (sound : idx.Sound) (holds : idx.Holds isRoot t) :
    h < idx.walkBound := by
  have hheight := holds.sized.two_pow_le sound.kind
  have hpages := length_pages_le holds.distinct holds.allocated
  have hlt : h < 2 ^ h := Nat.lt_two_pow_self
  unfold walkBound
  omega

/-- The leftmost walk ends at the first leaf. -/
theorem leftmostLeaf_eq {kind : IndexKeyKind} (proper : kind.Proper) :
    ∀ {isRoot : Bool} {h fuel : Nat} {t : Tree h}, idx.Stores t.nodes → t.Sized kind isRoot →
      h < fuel → ∃ l rest, t.leaves = l :: rest ∧ idx.leftmostLeaf fuel t.node = .ok l.node
  | _, 0, fuel + 1, t, _, _, _ => by
      cases t using Tree.leafCases with | leaf l => ?_
      exact ⟨l, [], rfl, rfl⟩
  | isRoot, h + 1, fuel + 1, t, hstores, hsized, hfuel => by
      cases t using Tree.branchCases with | branch b kids => ?_
      have hleast := hsized.1.least
      have htwo := leastKids_two proper isRoot
      cases kids with
      | nil =>
          have : leastKids kind isRoot ≤ 0 := hleast
          omega
      | cons k kids =>
          rw [Tree.nodes_branch, List.flatMap_cons, stores_cons, stores_append] at hstores
          obtain ⟨-, hk, -⟩ := hstores
          obtain ⟨l, rest, hleaves, hwalk⟩ := leftmostLeaf_eq proper hk
            (hsized.2 k List.mem_cons_self) (show h < fuel by omega)
          refine ⟨l, rest ++ kids.flatMap leaves, by simp [hleaves], ?_⟩
          have hread : idx.readNode k.id = .ok k.node := by
            have := hk _ k.node_mem_nodes
            rwa [Tree.pageId_node] at this
          rw [Tree.node_branch, leftmostLeaf]
          simp only [BranchPage.node, List.map_cons, Bool.false_eq_true, if_false, hread, bind,
            Except.bind]
          exact hwalk

theorem Holds.readNode {t : Tree h} (holds : idx.Holds isRoot t) :
    idx.readNode t.id = .ok t.node := by
  have := holds.nodes _ t.node_mem_nodes
  rwa [Tree.pageId_node] at this

/-- `subtree_min_key` finds the first key under a page. -/
theorem Holds.subtreeMinKey {t : Tree h} (sound : idx.Sound) (holds : idx.Holds isRoot t) :
    ∃ key, t.keys.head? = some key ∧ idx.subtreeMinKey t.id = .ok key := by
  obtain ⟨l, rest, key, hleaves, hfirst, hkey⟩ := holds.sized.exists_first sound.kind
  obtain ⟨l', rest', hleaves', hwalk⟩ :=
    leftmostLeaf_eq sound.kind holds.nodes holds.sized (holds.height_lt sound)
  rw [hleaves] at hleaves'
  obtain ⟨rfl, -⟩ := List.cons.inj hleaves'
  refine ⟨key, hkey, ?_⟩
  obtain ⟨keys, hkeys⟩ : ∃ keys, l.node.keys = key :: keys := by
    have : l.node.keys.head? = some key := hfirst
    cases hl : l.node.keys with
    | nil => rw [hl] at this; cases this
    | cons a as =>
        rw [hl] at this
        exact ⟨as, by rw [Option.some.inj this]⟩
  simp only [BStarPlusIndex.subtreeMinKey, holds.readNode, hwalk, hkeys, bind, Except.bind]
  rfl

/-- `leftmost_leaf_page_id` finds the page of the first leaf under a page. -/
theorem Holds.leftmostLeafPageId {t : Tree h} (sound : idx.Sound) (holds : idx.Holds isRoot t)
    (stop : PageId) : idx.leftmostLeafPageId t.id = .ok (firstLeaf stop t.leaves) := by
  obtain ⟨l, rest, hleaves, hwalk⟩ :=
    leftmostLeaf_eq sound.kind holds.nodes holds.sized (holds.height_lt sound)
  simp only [BStarPlusIndex.leftmostLeafPageId, holds.readNode, hwalk, bind, Except.bind, hleaves]
  rfl

/-- `rebuild_internal_keys` on a node over subtrees. -/
theorem rebuildInternalKeys_eq {kids : List (Tree h)} {b : BranchPage} (sound : idx.Sound)
    (holds : ∀ k ∈ kids, idx.Holds false k) :
    idx.rebuildInternalKeys (b.node (kids.map Tree.id)) =
      .ok (BranchPage.node ⟨b.id, Tree.separators kids⟩ (kids.map Tree.id)) := by
  cases kids with
  | nil => rfl
  | cons first rest =>
      have hmins : ∀ ks : List (Tree h), (∀ k ∈ ks, idx.Holds false k) →
          (ks.map Tree.id).mapM idx.subtreeMinKey =
            .ok (ks.filterMap fun k => k.keys.head?) := by
        intro ks hks
        induction ks with
        | nil => rfl
        | cons k ks ih =>
            obtain ⟨key, hkey, hmin⟩ := (hks k List.mem_cons_self).subtreeMinKey sound
            have htail := ih fun j hj => hks j (List.mem_cons_of_mem k hj)
            rw [List.map_cons, List.mapM_cons, hmin, htail, List.filterMap_cons, hkey]
            rfl
      have hrest := hmins rest fun k hk => holds k (List.mem_cons_of_mem first hk)
      simp only [rebuildInternalKeys, BranchPage.node, Bool.false_eq_true, if_false, List.map_cons,
        hrest, bind, Except.bind]
      rfl

end BStarPlusIndex
end CwDb.Index
