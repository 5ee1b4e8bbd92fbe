/-
  Index/Settle.lean --- the end of a repair: the index spells out a tree again.

  After a repair the separators of the ancestors may lag behind the first key under a
  child.  `propagate_subtree_min_change` raises one of them, which is allowed at any time.
-/
import CwDb.Index.Fill
import CwDb.Index.Window

set_option autoImplicit false

namespace CwDb.Index

open CwDb.Cpp
open CwDb.Foundation
open LevelTree LevelContext

theorem idxOf?_append_cons {left right : List PageId} {hole : PageId} (absent : hole ∉ left) :
    (left ++ hole :: right).idxOf? hole = some left.length := by
  induction left with
  | nil => simp [List.idxOf?, List.findIdx?_cons]
  | cons p left ih =>
      simp only [List.mem_cons, not_or] at absent
      have := ih absent.2
      simp only [List.idxOf?] at this ⊢
      rw [List.cons_append, List.findIdx?_cons, this]
      simp [Ne.symm absent.1]

namespace BStarPlusIndex

variable {idx idx' idx'' : BStarPlusIndex} {h H : Nat}

/-- The index spells out a tree like `t`; its kind of keys and its count of them are those of
`idx`. -/
structure Settled (idx idx' : BStarPlusIndex) (t : Tree H) : Prop where
  tree : ∃ t' : Tree H, idx'.Represents t' ∧ t'.Alike t
  kind : idx'.metadata.keyKind = idx.metadata.keyKind
  size : idx'.metadata.size = idx.metadata.size

theorem Represents.settled {t : Tree H} (r : idx'.Represents t)
    (same : idx'.metadata = idx.metadata) : idx.Settled idx' t :=
  ⟨⟨t, r, .refl t⟩, by rw [same], by rw [same]⟩

theorem Settled.of_metadata {t : Tree H} (s : idx'.Settled idx'' t)
    (same : idx'.metadata = idx.metadata) : idx.Settled idx'' t :=
  ⟨s.tree, s.kind.trans (by rw [same]), s.size.trans (by rw [same])⟩

theorem Settled.alike {t t' : Tree H} (s : idx.Settled idx' t) (alike : t.Alike t') :
    idx.Settled idx' t' := by
  obtain ⟨t'', r, hlike⟩ := s.tree
  exact ⟨⟨t'', r, hlike.trans alike⟩, s.kind, s.size⟩

/-- A part of the tree. -/
theorem Represents.holds {ctx : Context h H} {t : Tree h} (r : idx.Represents (ctx.plug t)) :
    idx.Holds ctx.isTop t := by
  obtain ⟨o, hnodes, hsized⟩ := r.opened
  have hdistinct := o.distinct
  have hallocated := o.allocated
  rw [List.flatMap_singleton] at hdistinct hallocated
  exact ⟨hnodes, hsized, (List.nodup_append.mp hdistinct).1,
    fun p hp => hallocated p (List.mem_append_left _ hp)⟩

theorem Represents.holds_whole {t : Tree H} (r : idx.Represents t) : idx.Holds true t :=
  Represents.holds (show idx.Represents ((top : Context H H).plug t) from r)

section Parent

variable {b : BranchPage} {left right ts : List (Tree h)} {up : Context (h + 1) H} {hole : PageId}

/-- The parent of a hole. -/
theorem Open.readParent (o : idx.Open (frame b left right up) hole ts) :
    idx.readNode b.id = .ok (b.node (left.map Tree.id ++ hole :: right.map Tree.id)) :=
  o.stored _ List.mem_cons_self

/-- The place of a hole among the children of its parent. -/
theorem Open.idxOf?_hole (o : idx.Open (frame b left right up) hole ts)
    (inside : hole ∈ ts.flatMap Tree.pages) :
    (left.map Tree.id ++ hole :: right.map Tree.id).idxOf? hole = some left.length := by
  rw [idxOf?_append_cons, List.length_map]
  intro hleft
  obtain ⟨k, hk, rfl⟩ := List.mem_map.mp hleft
  obtain ⟨-, -, hno⟩ := List.nodup_append.mp o.distinct
  refine hno _ inside _ ?_ rfl
  rw [Context.pages_frame]
  refine List.mem_cons_of_mem _ (List.mem_append_left _ (List.mem_append_left _ ?_))
  exact List.mem_flatMap.mpr ⟨k, hk, k.id_mem_pages⟩

end Parent

/-! ## Raising separators -/

variable {E : Fault → BStarPlusIndex → Prop}

/-- The separator before a child may be set to the first key under it. -/
theorem Represents.ends_set_first {b : BranchPage} {first t : Tree h} {left right : List (Tree h)}
    {up : Context (h + 1) H} {key : IndexKey}
    (r : idx.Represents (up.plug (branch b (first :: left ++ t :: right))))
    (hkey : t.keys.head? = some key) :
    Ends (writeNode (BranchPage.node ⟨b.id, b.seps.set left.length key⟩
        ((first :: left ++ t :: right).map Tree.id))) idx
      (fun _ idx' => idx.Settled idx'
        (up.plug (branch b (first :: left ++ t :: right)))) E := by
  obtain ⟨o, hnodes, hsized⟩ := r.opened
  obtain ⟨hb, hkids⟩ := Tree.sized_branch.mp hsized
  have hsorted : ((first :: left ++ t :: right).map Tree.keys).flatten.Pairwise (· < ·) := by
    have hwhole := o.sorted
    simp only [Context.leavesWith, List.flatMap_append, List.flatMap_singleton, leaves_branch,
      List.flatMap_assoc] at hwhole
    rw [← List.flatMap_def, List.flatMap_append]
    exact (List.pairwise_append.mp (List.pairwise_append.mp hwhole).1).2.1
  have hadmissible : Admissible idx.metadata.keyKind key :=
    (hkids t (by simp)).keys_admissible key (List.mem_of_head? hkey)
  have hseps : Separates (b.seps.set left.length key)
      ((first :: left ++ t :: right).map Tree.keys) :=
    hb.separates.set_first hsorted (i := left.length) (g := t.keys) (by simp) hkey
  have hready : idx.Ready up.isTop
      (branch ⟨b.id, b.seps.set left.length key⟩ (first :: left ++ t :: right) : Tree (h + 1)) := by
    rw [Tree.nodes_branch, stores_cons] at hnodes
    refine ⟨by rw [Tree.nodes_branch]; exact hnodes.2, Tree.sized_branch.mpr
      ⟨⟨hb.least, hb.most, fun s hs => ?_, hseps⟩, hkids⟩⟩
    rcases List.mem_or_eq_of_mem_set hs with hs | rfl
    · exact hb.admissible s hs
    · exact hadmissible
  have hopen : idx.Open up b.id
      [(branch ⟨b.id, b.seps.set left.length key⟩ (first :: left ++ t :: right) : Tree (h + 1))] :=
    Open.relabel (b := b) o rfl
  refine Open.ends_write (t := branch ⟨b.id, b.seps.set left.length key⟩
    (first :: left ++ t :: right)) hopen hready fun idx' touches r' => ?_
  exact (r'.settled touches.metadata).alike ((Tree.alike_branch _ _ _).plug up)

theorem Represents.ends_propagateLoop : ∀ {h H : Nat} (ctx : Context h H) {idx : BStarPlusIndex}
    {t : Tree h} {key : IndexKey}, idx.Represents (ctx.plug t) → t.keys.head? = some key →
      Ends (propagateLoop t.id key ctx.path) idx
        (fun _ idx' => idx.Settled idx' (ctx.plug t)) E
  | _, _, top, idx, t, key, r, _ => r.settled rfl
  | _, _, frame b left right up, idx, t, key, r, hkey => by
      obtain ⟨o, -, -⟩ := r.opened
      change Ends (propagateLoop t.id key (b.id :: Context.path up)) idx _ E
      rw [propagateLoop, ends_bind]
      refine ends_reading o.readParent ?_
      have hplace := o.idxOf?_hole (by simp [t.id_mem_pages])
      simp only [BranchPage.isLeaf_node, Bool.false_eq_true, if_false]
      cases left with
      | nil =>
          obtain ⟨key', hkey', hmin⟩ := Holds.subtreeMinKey o.sound
            (Represents.holds (t := branch b ([] ++ t :: right)) r)
          simp only [BranchPage.children_node, hplace, List.length_nil]
          rw [ends_bind]
          refine ends_reading hmin ?_
          exact Represents.ends_propagateLoop up (t := branch b ([] ++ t :: right)) r hkey'
      | cons first left =>
          simp only [BranchPage.children_node, hplace, List.length_cons]
          have := Represents.ends_set_first (E := E) r hkey
          rw [List.map_append, List.map_cons] at this
          exact this

/-- `propagate_subtree_min_change` keeps the tree but for its separators. -/
theorem Represents.ends_propagate {ctx : Context h H} {t : Tree h}
    (r : idx.Represents (ctx.plug t)) :
    Ends (propagateSubtreeMinChange t.id (t.id :: ctx.path)) idx
      (fun _ idx' => idx.Settled idx' (ctx.plug t)) E := by
  cases ctx with
  | top => exact r.settled rfl
  | frame b left right up =>
      obtain ⟨o, -, -⟩ := r.opened
      obtain ⟨key, hkey, hmin⟩ := r.holds.subtreeMinKey o.sound
      change Ends (propagateSubtreeMinChange t.id (t.id :: b.id :: Context.path up)) idx _ E
      rw [propagateSubtreeMinChange, if_neg (not_not.mpr rfl), ends_bind]
      exact ends_reading hmin (Represents.ends_propagateLoop (frame b left right up) r hkey)

end BStarPlusIndex
end CwDb.Index
