/-
  Index/Tree.lean --- the tree that the pages of an index spell out.

  The tree says nothing of how it came about: leaves with their items, branches with
  their separators, each on a page of its own.  What the algorithms keep is stated of a
  tree (`Tree.Sized`) and, piece by piece, of a tree with a hole (`Context.Sized`).
-/
import CwDb.Foundation.LevelTree
import CwDb.Foundation.Linked
import CwDb.Foundation.OrderedMap
import CwDb.Foundation.Separators
import CwDb.Index.BStarPlusIndex

set_option autoImplicit false

namespace CwDb.Index

open CwDb.Cpp
open CwDb.Foundation

/-- A key with its record. -/
abbrev Item : Type := IndexKey × UInt64

/-- A leaf: its page, the page of the next leaf, its items. -/
structure LeafPage where
  id : PageId
  next : PageId
  items : List Item

/-- A branch: its page and its separators. -/
structure BranchPage where
  id : PageId
  seps : List IndexKey

abbrev Tree (h : Nat) : Type := LevelTree LeafPage BranchPage h

/-- A tree of height `H` with a hole for a tree of height `h`. -/
abbrev Context (h H : Nat) : Type := LevelContext LeafPage BranchPage h H

namespace LeafPage

def keys (l : LeafPage) : List IndexKey := l.items.map Prod.fst

/-- The node of the leaf. -/
def node (l : LeafPage) : IndexNode :=
  { isLeaf := true, pageId := l.id, nextLeafPageId := l.next, keys := l.items.map Prod.fst,
    records := l.items.map Prod.snd }

end LeafPage

/-- The node of a branch. -/
def BranchPage.node (b : BranchPage) (children : List PageId) : IndexNode :=
  { isLeaf := false, pageId := b.id, keys := b.seps, children }

section

variable (l : LeafPage) (b : BranchPage) (children : List PageId)

@[simp] theorem LeafPage.isLeaf_node : l.node.isLeaf = true := rfl
@[simp] theorem LeafPage.pageId_node : l.node.pageId = l.id := rfl
@[simp] theorem LeafPage.keys_node : l.node.keys = l.items.map Prod.fst := rfl
@[simp] theorem LeafPage.records_node : l.node.records = l.items.map Prod.snd := rfl
@[simp] theorem LeafPage.nextLeafPageId_node : l.node.nextLeafPageId = l.next := rfl
@[simp] theorem BranchPage.isLeaf_node : (b.node children).isLeaf = false := rfl
@[simp] theorem BranchPage.pageId_node : (b.node children).pageId = b.id := rfl
@[simp] theorem BranchPage.keys_node : (b.node children).keys = b.seps := rfl
@[simp] theorem BranchPage.children_node : (b.node children).children = children := rfl

end

/-! ## What a tree spells out -/

namespace Tree

open LevelTree

variable {h : Nat}

@[elab_as_elim]
theorem leafCases {motive : Tree 0 → Prop} (leaf : ∀ l : LeafPage, motive (leaf l)) (t : Tree 0) :
    motive t := leaf t

@[elab_as_elim]
theorem branchCases {motive : Tree (h + 1) → Prop}
    (branch : ∀ (b : BranchPage) (kids : List (Tree h)), motive (branch b kids))
    (t : Tree (h + 1)) : motive t := branch (Branch.label t) (Branch.kids t)

/-- The page of the root. -/
def id (t : Tree h) : PageId := t.label LeafPage.id BranchPage.id

/-- All pages. -/
def pages (t : Tree h) : List PageId := t.labels LeafPage.id BranchPage.id

/-- The items of all leaves, from left to right. -/
def items (t : Tree h) : List Item := t.leaves.flatMap LeafPage.items

def keys (t : Tree h) : List IndexKey := t.leaves.flatMap LeafPage.keys

/-- The node of the root. -/
def node : {h : Nat} → Tree h → IndexNode
  | 0, l => LeafPage.node l
  | _ + 1, t => (Branch.label t).node ((Branch.kids t).map Tree.id)

/-- All nodes, in the order of `pages`. -/
def nodes : {h : Nat} → Tree h → List IndexNode
  | 0, l => [LeafPage.node l]
  | _ + 1, t => Tree.node t :: (Branch.kids t).flatMap nodes

@[simp] theorem id_leaf (l : LeafPage) : Tree.id (leaf l : Tree 0) = l.id := rfl

@[simp] theorem id_branch (b : BranchPage) (kids : List (Tree h)) :
    Tree.id (branch b kids : Tree (h + 1)) = b.id := rfl

@[simp] theorem pages_leaf (l : LeafPage) : Tree.pages (leaf l : Tree 0) = [l.id] := rfl

@[simp] theorem pages_branch (b : BranchPage) (kids : List (Tree h)) :
    Tree.pages (branch b kids : Tree (h + 1)) = b.id :: kids.flatMap Tree.pages := rfl

@[simp] theorem keys_leaf (l : LeafPage) : Tree.keys (leaf l : Tree 0) = l.keys := by
  simp [Tree.keys]

@[simp] theorem keys_branch (b : BranchPage) (kids : List (Tree h)) :
    Tree.keys (branch b kids : Tree (h + 1)) = kids.flatMap Tree.keys := by
  unfold Tree.keys
  rw [leaves_branch, List.flatMap_assoc]

@[simp] theorem items_leaf (l : LeafPage) : Tree.items (leaf l : Tree 0) = l.items := by
  simp [Tree.items]

@[simp] theorem items_branch (b : BranchPage) (kids : List (Tree h)) :
    Tree.items (branch b kids : Tree (h + 1)) = kids.flatMap Tree.items := by
  unfold Tree.items
  rw [leaves_branch, List.flatMap_assoc]

@[simp] theorem node_leaf (l : LeafPage) : Tree.node (leaf l : Tree 0) = l.node := rfl

@[simp] theorem node_branch (b : BranchPage) (kids : List (Tree h)) :
    Tree.node (branch b kids : Tree (h + 1)) = b.node (kids.map Tree.id) := rfl

@[simp] theorem nodes_leaf (l : LeafPage) : Tree.nodes (leaf l : Tree 0) = [l.node] := rfl

@[simp] theorem nodes_branch (b : BranchPage) (kids : List (Tree h)) :
    Tree.nodes (branch b kids : Tree (h + 1)) = b.node (kids.map Tree.id) :: kids.flatMap Tree.nodes :=
  rfl

theorem pageId_nodes : ∀ {h : Nat} (t : Tree h), t.nodes.map IndexNode.pageId = t.pages
  | 0, _ => rfl
  | h + 1, t => by
      cases t using branchCases with | branch b kids => ?_
      rw [nodes_branch, List.map_cons, pages_branch, List.map_flatMap]
      exact congrArg _ (List.flatMap_congr fun k _ => pageId_nodes k)

theorem pageId_flatMap_nodes (kids : List (Tree h)) :
    (kids.flatMap Tree.nodes).map IndexNode.pageId = kids.flatMap Tree.pages := by
  rw [List.map_flatMap]
  exact List.flatMap_congr fun k _ => pageId_nodes k

theorem node_mem_nodes (t : Tree h) : t.node ∈ t.nodes := by
  cases h <;> exact List.mem_cons_self

theorem id_mem_pages (t : Tree h) : t.id ∈ t.pages := by
  cases h <;> exact List.mem_cons_self

/-- The node of a leaf is one of the nodes. -/
theorem node_mem_nodes_of_mem_leaves : ∀ {h : Nat} {t : Tree h} {l : LeafPage},
    l ∈ t.leaves → l.node ∈ t.nodes
  | 0, t, l, hl => by
      cases t using leafCases with | leaf k => ?_
      obtain rfl := List.mem_singleton.mp hl
      exact List.mem_cons_self
  | h + 1, t, l, hl => by
      cases t using branchCases with | branch b kids => ?_
      rw [leaves_branch] at hl
      obtain ⟨k, hk, hl⟩ := List.mem_flatMap.mp hl
      rw [nodes_branch]
      exact List.mem_cons_of_mem _ (List.mem_flatMap.mpr ⟨k, hk, node_mem_nodes_of_mem_leaves hl⟩)

/-- A leaf stands on one of the pages. -/
theorem id_mem_pages_of_mem_leaves {t : Tree h} {l : LeafPage} (hl : l ∈ t.leaves) :
    l.id ∈ t.pages := by
  rw [← pageId_nodes]
  exact List.mem_map_of_mem (f := IndexNode.pageId) (node_mem_nodes_of_mem_leaves hl)

theorem pageId_node (t : Tree h) : t.node.pageId = t.id := by
  cases h <;> rfl

end Tree

namespace Context

open LevelTree LevelContext

/-- The page of the root, when the hole is on the given page. -/
def rootId : {h H : Nat} → Context h H → PageId → PageId
  | _, _, top, hole => hole
  | _, _, frame b _ _ up, _ => rootId up b.id

/-- The pages around the hole. -/
def pages {h H : Nat} (ctx : Context h H) : List PageId := ctx.labels LeafPage.id BranchPage.id

/-- The pages from the hole up to the root, without the hole. -/
def path {h H : Nat} (ctx : Context h H) : List PageId := ctx.spine BranchPage.id

/-- The nodes around the hole, when the hole is on the given page. -/
def nodes : {h H : Nat} → Context h H → PageId → List IndexNode
  | _, _, top, _ => []
  | _, _, frame b left right up, hole =>
      b.node (left.map Tree.id ++ hole :: right.map Tree.id) ::
        (left.flatMap Tree.nodes ++ right.flatMap Tree.nodes ++ nodes up b.id)

/-- The separators above the hole leave room for the key. -/
def Admits : {h H : Nat} → Context h H → IndexKey → Prop
  | _, _, top, _ => True
  | _, _, frame b left _ up, x => Between b.seps left.length x ∧ Admits up x

variable {h H : Nat}

@[simp] theorem pages_top : Context.pages (top : Context h h) = [] := rfl

@[simp] theorem pages_frame (b : BranchPage) (left right : List (Tree h))
    (up : Context (h + 1) H) : Context.pages (frame b left right up) =
      b.id :: (left.flatMap Tree.pages ++ right.flatMap Tree.pages ++ up.pages) := rfl

theorem id_plug : ∀ {h H : Nat} (ctx : Context h H) (t : Tree h),
    Tree.id (ctx.plug t) = ctx.rootId t.id
  | _, _, top, _ => rfl
  | _, _, frame b left right up, t => id_plug up (branch b (left ++ t :: right))

theorem pages_plug (ctx : Context h H) (t : Tree h) :
    (Tree.pages (ctx.plug t)).Perm (t.pages ++ ctx.pages) :=
  labels_plug ctx t

theorem mem_nodes_plug : ∀ {h H : Nat} (ctx : Context h H) (t : Tree h) (n : IndexNode),
    n ∈ Tree.nodes (ctx.plug t) ↔ n ∈ t.nodes ∨ n ∈ ctx.nodes t.id
  | _, _, top, t, n => by simp [plug, nodes]
  | _, _, frame b left right up, t, n => by
      rw [plug, mem_nodes_plug up]
      simp only [Tree.nodes_branch, Tree.id_branch, nodes, List.map_append, List.map_cons,
        List.flatMap_append, List.flatMap_cons, List.mem_cons, List.mem_append]
      tauto

theorem pageId_nodes : ∀ {h H : Nat} (ctx : Context h H) (hole : PageId),
    (ctx.nodes hole).map IndexNode.pageId = ctx.pages
  | _, _, top, _ => rfl
  | _, _, frame b left right up, hole => by
      rw [nodes, List.map_cons, List.map_append, List.map_append, Tree.pageId_flatMap_nodes,
        Tree.pageId_flatMap_nodes, pageId_nodes up]
      rfl

theorem pageId_mem_pages {ctx : Context h H} {hole : PageId} {n : IndexNode}
    (hn : n ∈ ctx.nodes hole) : n.pageId ∈ ctx.pages := by
  rw [← pageId_nodes ctx hole]
  exact List.mem_map_of_mem hn

end Context

/-! ## Sizes and separators -/

/-- Fewest items of a leaf. -/
def leastItems (kind : IndexKeyKind) (isRoot : Bool) : Nat :=
  if isRoot then 1 else (maxLeafKeyCount kind + 1) / 2

/-- Fewest children of a branch. -/
def leastKids (kind : IndexKeyKind) (isRoot : Bool) : Nat :=
  if isRoot then 2 else (maxInternalKeyCount kind + 2) / 2

/-- The kinds of keys that an index can have. -/
def IndexKeyKind.Proper (kind : IndexKeyKind) : Prop := kind = .int64 ∨ kind = .string

/-- All counts of a kind. -/
theorem IndexKeyKind.Proper.counts {kind : IndexKeyKind} (h : kind.Proper) :
    (maxLeafKeyCount kind = 225 ∧ minLeafKeyCount kind = 150 ∧ maxInternalKeyCount kind = 253 ∧
      minInternalKeyCount kind = 169) ∨
    (maxLeafKeyCount kind = 15 ∧ minLeafKeyCount kind = 10 ∧ maxInternalKeyCount kind = 15 ∧
      minInternalKeyCount kind = 10) := by
  rcases h with rfl | rfl
  · left
    decide
  · right
    decide

/-- The keys of a leaf can be stored, and it has neither too few nor too many. -/
structure LeafPage.Sized (kind : IndexKeyKind) (isRoot : Bool) (l : LeafPage) : Prop where
  least : leastItems kind isRoot ≤ l.items.length
  most : l.items.length ≤ maxLeafKeyCount kind
  admissible : ∀ e ∈ l.items, Admissible kind e.1

/-- The separators of a branch can be stored and separate the keys under its children, of
which it has neither too few nor too many. -/
structure BranchPage.Sized (kind : IndexKeyKind) (isRoot : Bool) (b : BranchPage)
    (groups : List (List IndexKey)) : Prop where
  least : leastKids kind isRoot ≤ groups.length
  most : groups.length ≤ maxInternalKeyCount kind + 1
  admissible : ∀ s ∈ b.seps, Admissible kind s
  separates : Separates b.seps groups

/-- Every node of the tree has its due size and separators. -/
def Tree.Sized (kind : IndexKeyKind) : (isRoot : Bool) → {h : Nat} → Tree h → Prop
  | isRoot, 0, l => LeafPage.Sized kind isRoot l
  | isRoot, _ + 1, t =>
      (Branch.label t).Sized kind isRoot ((Branch.kids t).map Tree.keys) ∧
        ∀ k ∈ Branch.kids t, Tree.Sized kind false k

theorem Tree.sized_branch {kind : IndexKeyKind} {isRoot : Bool} {h : Nat} {b : BranchPage}
    {kids : List (Tree h)} : Tree.Sized kind isRoot (LevelTree.branch b kids : Tree (h + 1)) ↔
      b.Sized kind isRoot (kids.map Tree.keys) ∧ ∀ k ∈ kids, Tree.Sized kind false k := Iff.rfl

/-- Every node around the hole has its due size and separators. -/
def Context.Sized (kind : IndexKeyKind) : {h H : Nat} → Context h H → Prop
  | _, _, .top => True
  | _, _, .frame b left right up =>
      b.Sized kind up.isTop (left.map Tree.keys ++ [] :: right.map Tree.keys) ∧
        (∀ k ∈ left ++ right, Tree.Sized kind false k ∧ ∀ x ∈ Tree.keys k, Context.Admits up x) ∧
        Context.Sized kind up

open LevelTree LevelContext in
/-- A tree is well formed when its parts are. -/
theorem sized_plug {kind : IndexKeyKind} : ∀ {h H : Nat} (ctx : Context h H) (t : Tree h),
    Tree.Sized kind true (ctx.plug t) ↔
      Tree.Sized kind ctx.isTop t ∧ Context.Sized kind ctx ∧ ∀ x ∈ t.keys, ctx.Admits x
  | _, _, top, t => by simp [plug, isTop, Context.Sized, Context.Admits]
  | _, _, frame b left right up, t => by
      rw [plug, sized_plug up, Tree.sized_branch, Tree.keys_branch]
      have hgroups : (left ++ t :: right).map Tree.keys =
          left.map Tree.keys ++ t.keys :: right.map Tree.keys := by simp
      have hlength : (left.map Tree.keys).length = left.length := List.length_map _
      rw [hgroups]
      constructor
      · rintro ⟨⟨hb, hkids⟩, hup, hadmits⟩
        refine ⟨hkids t (by simp), ⟨⟨by simpa using hb.least, by simpa using hb.most,
          hb.admissible, hb.separates.replace (by simp)⟩, ?_, hup⟩, ?_⟩
        · intro k hk
          have hmem : k ∈ left ++ t :: right := by
            rcases List.mem_append.mp hk with hk | hk <;> simp [hk]
          exact ⟨hkids k hmem, fun x hx => hadmits x (List.mem_flatMap.mpr ⟨k, hmem, hx⟩)⟩
        · intro x hx
          refine ⟨hlength ▸ hb.separates.between x hx, hadmits x ?_⟩
          exact List.mem_flatMap.mpr ⟨t, by simp, hx⟩
      · rintro ⟨ht, ⟨hb, hsides, hup⟩, hadmits⟩
        have hcases : ∀ k ∈ left ++ t :: right, k = t ∨ k ∈ left ++ right := by
          intro k hk
          simp only [List.mem_append, List.mem_cons] at hk ⊢
          tauto
        refine ⟨⟨⟨by simpa using hb.least, by simpa using hb.most, hb.admissible,
          hb.separates.replace fun x hx => ?_⟩, ?_⟩, hup, ?_⟩
        · rw [hlength]
          exact (hadmits x hx).1
        · intro k hk
          rcases hcases k hk with rfl | hk
          · exact ht
          · exact (hsides k hk).1
        · intro x hx
          obtain ⟨k, hk, hxk⟩ := List.mem_flatMap.mp hx
          rcases hcases k hk with rfl | hk
          · exact (hadmits x hxk).2
          · exact (hsides k hk).2 x hxk

end CwDb.Index
