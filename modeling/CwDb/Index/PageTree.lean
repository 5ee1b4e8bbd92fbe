/-
  Index/PageTree.lean --- the tree of an index as a reader of its pages comes upon it.

  Nothing is presupposed of the pages: `Under` starts at one of them and follows the children
  of the nodes that are read, `Chain` follows the next-leaf ids.
-/
import CwDb.Index.SearchDepth
import CwDb.Index.TreeShape

set_option autoImplicit false

namespace CwDb.Index

open CwDb.Cpp
open CwDb.Foundation
open LevelTree

/-- What is under a page: all pages, the leaves from left to right, and their keys. -/
structure Part where
  pages : List PageId
  leaves : List PageId
  keys : List IndexKey

/-- A page with what is under its children. -/
def Part.join (page : PageId) (parts : List Part) : Part where
  pages := page :: parts.flatMap Part.pages
  leaves := parts.flatMap Part.leaves
  keys := parts.flatMap Part.keys

namespace BStarPlusIndex

/-- Under the page there is a tree of the depth, and the part consists of it: the keys of every
node ascend, the node fits its page, a leaf is not empty unless it is the root, an internal node
has a child more than keys, and two at least, and each of its keys is above all keys under the
children before it, and not above those under the children behind it. -/
inductive Under (idx : BStarPlusIndex) : (isRoot : Bool) → (depth : Nat) → PageId → Part → Prop
  | leaf {isRoot : Bool} {page : PageId} {node : IndexNode} (read : idx.readNode page = .ok node)
      (isLeaf : node.isLeaf = true) (ascending : node.keys.Pairwise (· < ·))
      (fits : idx.nodeFitsPage node = .ok true) (filled : isRoot = true ∨ node.keys ≠ []) :
      Under idx isRoot 1 page ⟨[page], [page], node.keys⟩
  | branch {isRoot : Bool} {depth : Nat} {page : PageId} {node : IndexNode} {parts : List Part}
      (read : idx.readNode page = .ok node) (isInternal : node.isLeaf = false)
      (ascending : node.keys.Pairwise (· < ·)) (fits : idx.nodeFitsPage node = .ok true)
      (two : 2 ≤ node.children.length) (count : node.children.length = node.keys.length + 1)
      (each : parts.length = node.children.length)
      (below : ∀ (i : Nat) child part, node.children[i]? = some child → parts[i]? = some part →
        Under idx false depth child part)
      (separates : ∀ (i : Nat) key, node.keys[i]? = some key →
        (∀ part ∈ parts.take (i + 1), ∀ k ∈ part.keys, k < key) ∧
          ∀ part ∈ parts.drop (i + 1), ∀ k ∈ part.keys, key ≤ k) :
      Under idx isRoot (depth + 1) page (Part.join page parts)

/-- The pages from the given one on along the next-leaf ids, to the last. -/
inductive Chain (idx : BStarPlusIndex) : PageId → List PageId → Prop
  | nil : Chain idx invalidPageId []
  | cons {page : PageId} {node : IndexNode} {pages : List PageId}
      (read : idx.readNode page = .ok node) (rest : Chain idx node.nextLeafPageId pages) :
      Chain idx page (page :: pages)

/-- The pages form a tree of the depth that the metadata give, over distinct pages of the file,
and the chain from the first leaf goes through its leaves; or there is no page. -/
def PagesFormTree (idx : BStarPlusIndex) : Prop :=
  (idx.metadata.rootPageId = invalidPageId ∧ idx.metadata.firstLeafPageId = invalidPageId ∧
      idx.metadata.height = 0) ∨
    ∃ part, idx.Under true idx.metadata.height.toNat idx.metadata.rootPageId part ∧
      part.pages.Nodup ∧ (∀ page ∈ part.pages, page < idx.disk.pageCount) ∧
      idx.Chain idx.metadata.firstLeafPageId part.leaves

end BStarPlusIndex

/-! ## A tree that is spelled out -/

/-- What is under the root of a tree. -/
def Tree.part {h : Nat} (t : Tree h) : Part := ⟨t.pages, t.leaves.map LeafPage.id, t.keys⟩

theorem Tree.part_branch {h : Nat} (b : BranchPage) (kids : List (Tree h)) :
    Tree.part (branch b kids : Tree (h + 1)) = Part.join b.id (kids.map Tree.part) := by
  unfold Tree.part Part.join
  rw [pages_branch, leaves_branch, keys_branch, List.flatMap_map, List.flatMap_map,
    List.flatMap_map, List.map_flatMap]

namespace BStarPlusIndex

variable {idx : BStarPlusIndex}

/-- The pages of a tree, when they are read, have the tree under them. -/
theorem under_of_nodes : ∀ {h : Nat} {isRoot : Bool} {t : Tree h},
    (∀ node ∈ t.nodes, idx.readNode node.pageId = .ok node) →
    (∀ node ∈ t.nodes, idx.nodeFitsPage node = .ok true) → t.Ordered isRoot →
      idx.Under isRoot (h + 1) t.id t.part
  | 0, isRoot, t, reads, fits, ordered => by
      cases t using Tree.leafCases with | leaf l => ?_
      have hfilled : isRoot = true ∨ l.node.keys ≠ [] :=
        ordered.1.imp_right fun hitems hnil => hitems (List.map_eq_nil_iff.mp hnil)
      have hpart : Tree.part (leaf l : Tree 0) = ⟨[l.id], [l.id], l.node.keys⟩ := by
        unfold Tree.part
        rw [Tree.keys_leaf]
        rfl
      rw [hpart]
      exact .leaf (reads l.node List.mem_cons_self) rfl ordered.2
        (fits l.node List.mem_cons_self) hfilled
  | h + 1, isRoot, t, reads, fits, ordered => by
      cases t using Tree.branchCases with | branch b kids => ?_
      obtain ⟨htwo, hcount, hascending, hseparates, hkids⟩ := ordered
      change 2 ≤ kids.length at htwo
      change kids.length = b.seps.length + 1 at hcount
      rw [Tree.nodes_branch] at reads fits
      have hread := reads _ List.mem_cons_self
      have hunder : ∀ k ∈ kids, idx.Under false (h + 1) k.id k.part := by
        intro k hk
        have hnodes : ∀ node ∈ k.nodes, node ∈ kids.flatMap Tree.nodes :=
          fun node hnode => List.mem_flatMap.mpr ⟨k, hk, hnode⟩
        refine under_of_nodes (fun node hnode => ?_) (fun node hnode => ?_) (hkids k hk)
        · exact reads node (List.mem_cons_of_mem _ (hnodes node hnode))
        · exact fits node (List.mem_cons_of_mem _ (hnodes node hnode))
      rw [Tree.part_branch]
      refine .branch hread rfl hascending (fits _ List.mem_cons_self) ?_ ?_ ?_ ?_ ?_
      · rwa [BranchPage.children_node, List.length_map]
      · rwa [BranchPage.children_node, List.length_map]
      · rw [BranchPage.children_node, List.length_map, List.length_map]
      · intro i child part hchild hpart
        rw [BranchPage.children_node, List.getElem?_map, Option.map_eq_some_iff] at hchild
        rw [List.getElem?_map, Option.map_eq_some_iff] at hpart
        obtain ⟨k, hk, rfl⟩ := hchild
        obtain ⟨k', hk', rfl⟩ := hpart
        obtain rfl : k = k' := Option.some.inj (hk.symm.trans hk')
        exact hunder k (List.mem_of_getElem? hk)
      · intro i key hkey
        obtain ⟨hbefore, hbehind⟩ := hseparates i key hkey
        rw [← List.map_take, ← List.map_drop]
        constructor
        · intro part hpart
          obtain ⟨k, hk, rfl⟩ := List.mem_map.mp hpart
          exact hbefore k hk
        · intro part hpart
          obtain ⟨k, hk, rfl⟩ := List.mem_map.mp hpart
          exact hbehind k hk

theorem chain_of_linked : ∀ {leaves : List LeafPage},
    (∀ l ∈ leaves, idx.readNode l.id = .ok l.node) →
    Linked LeafPage.id LeafPage.next invalidPageId leaves →
      idx.Chain (firstId LeafPage.id invalidPageId leaves) (leaves.map LeafPage.id)
  | [], _, _ => .nil
  | l :: leaves, reads, linked => by
      have hrest := chain_of_linked (fun k hk => reads k (List.mem_cons_of_mem l hk)) linked.2
      rw [← linked.1] at hrest
      exact .cons (reads l List.mem_cons_self) hrest

/-- The shape of the pages is that of the tree that they spell out. -/
theorem WellFormed.pagesFormTree (wellFormed : idx.WellFormed) : idx.PagesFormTree := by
  rcases wellFormed with blank | ⟨H, t, spells⟩
  · exact .inl blank
  · refine .inr ⟨t.part, ?_, spells.distinct, spells.allocated, ?_⟩
    · rw [spells.depth, spells.root]
      exact under_of_nodes spells.nodes spells.fits spells.ordered
    · rw [spells.first]
      exact chain_of_linked
        (fun l hl => spells.nodes l.node (Tree.node_mem_nodes_of_mem_leaves hl)) spells.chained

/-- After any operations on a new index, with keys that it can store, its pages form a tree; the
file has room all the while. -/
theorem pagesFormTree_run {kind : IndexKeyKind} (proper : kind.Proper) (ops : List Operation)
    (admissible : ∀ op ∈ ops, op.Admissible kind)
    (room : StaysIn HasRoom Operation.onIndex ops (created kind)) :
    (runMachine Operation.onIndex ops (created kind)).2.PagesFormTree :=
  (mirrors_run proper admissible room).2.contents.wellFormed.pagesFormTree

/-- More strings than a leaf takes, in descending order, and one that is erased. -/
private def descendingLetters : List Operation :=
  (List.range 17).map (fun n => .insert (.str [UInt8.ofNat (122 - n)]) (UInt64.ofNat n)) ++
    [.erase (.str [122])]

/-- They are in a tree with a branch. -/
theorem pagesFormTree_run_of_descending :
    let idx := (runMachine Operation.onIndex descendingLetters (created .string)).2
    1 < idx.metadata.height.toNat ∧ idx.PagesFormTree := by
  have admissible : ∀ op ∈ descendingLetters, op.Admissible .string := by
    intro op hop
    have hletters : ∀ n ∈ List.range 17,
        Admissible .string (.str [UInt8.ofNat (122 - n)]) := by decide +kernel
    rcases List.mem_append.mp hop with hop | hop
    · obtain ⟨n, hn, rfl⟩ := List.mem_map.mp hop
      exact hletters n hn
    · obtain rfl := List.mem_singleton.mp hop
      exact (by decide : Admissible .string (.str [122]))
  have room := staysIn_hasRoom (.inr rfl) admissible (by decide)
  have mirrors := (mirrors_run (.inr rfl) admissible room).2
  have hmany : 15 < (runMachine Operation.onMap descendingLetters .empty).2.size := by
    decide +kernel
  exact ⟨mirrors.contents.one_lt_height (by rw [mirrors.kind]; exact hmany),
    pagesFormTree_run (.inr rfl) descendingLetters admissible room⟩

end BStarPlusIndex
end CwDb.Index
