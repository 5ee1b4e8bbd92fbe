/-
  Index/Fill.lean --- how full the nodes of a tree are.

  `Tree.Sized` asks of a node what every operation keeps; `Tree.Filled` asks for the two
  thirds that the algorithms aim at.
-/
import CwDb.Index.Tree

set_option autoImplicit false

namespace CwDb.Index

open CwDb.Foundation
open LevelTree LevelContext

/-- Every node has its minimal number of keys, but for the root. -/
def Tree.Filled (kind : IndexKeyKind) : (isRoot : Bool) → {h : Nat} → Tree h → Prop
  | isRoot, 0, l => isRoot = true ∨ minLeafKeyCount kind ≤ (LeafPage.items l).length
  | isRoot, _ + 1, t =>
      (isRoot = true ∨ minInternalKeyCount kind + 1 ≤ (Branch.kids t).length) ∧
        ∀ k ∈ Branch.kids t, Tree.Filled kind false k

/-- Every node around the hole has its minimal number of keys, but for the root. -/
def Context.Filled (kind : IndexKeyKind) : {h H : Nat} → Context h H → Prop
  | _, _, .top => True
  | _, _, .frame _ left right up =>
      (up.isTop = true ∨ minInternalKeyCount kind + 1 ≤ left.length + right.length + 1) ∧
        (∀ k ∈ left ++ right, Tree.Filled kind false k) ∧ Context.Filled kind up

/-- An adjacent sibling of the hole has room for children. -/
def Context.HasRoom (kind : IndexKeyKind) {h H : Nat} : Context (h + 1) H → Prop
  | .top => False
  | .frame _ left right _ => ∃ t : Tree (h + 1), (right.head? = some t ∨ left.getLast? = some t) ∧
      (Branch.kids t).length ≤ maxInternalKeyCount kind

/-- A leaf that is full need not be split: an adjacent sibling has room for an item. -/
def Context.HasRoomForItem (kind : IndexKeyKind) {H : Nat} : Context 0 H → Prop
  | .top => False
  | .frame _ left right _ => ∃ t : Tree 0, (right.head? = some t ∨ left.getLast? = some t) ∧
      (LeafPage.items t).length < maxLeafKeyCount kind

/-- A leaf that is low need not share with a sibling as low: an adjacent one has an item to
spare. -/
def Context.HasItemToSpare (kind : IndexKeyKind) {H : Nat} : Context 0 H → Prop
  | .top => False
  | .frame _ left right _ => ∃ t : Tree 0, (right.head? = some t ∨ left.getLast? = some t) ∧
      minLeafKeyCount kind < (LeafPage.items t).length

/-- The parent of the hole has room for a child, or is split without a node that is left
with too few: only the last of three INT nodes is. -/
def Context.SplitsEvenly (kind : IndexKeyKind) {H : Nat} : Context 0 H → Prop
  | .top => False
  | .frame _ left right up => left.length + right.length < maxInternalKeyCount kind ∨
      (kind = .int64 → Context.HasRoom kind up)

variable {kind : IndexKeyKind} {isRoot : Bool} {h H : Nat}

theorem Tree.filled_leaf {l : LeafPage} : Tree.Filled kind isRoot (leaf l : Tree 0) ↔
    isRoot = true ∨ minLeafKeyCount kind ≤ l.items.length := Iff.rfl

theorem Tree.filled_branch {b : BranchPage} {kids : List (Tree h)} :
    Tree.Filled kind isRoot (branch b kids : Tree (h + 1)) ↔
      (isRoot = true ∨ minInternalKeyCount kind + 1 ≤ kids.length) ∧
        ∀ k ∈ kids, Tree.Filled kind false k := Iff.rfl

theorem Context.filled_frame {b : BranchPage} {left right : List (Tree h)}
    {up : Context (h + 1) H} : Context.Filled kind (frame b left right up) ↔
      (up.isTop = true ∨ minInternalKeyCount kind + 1 ≤ left.length + right.length + 1) ∧
        (∀ k ∈ left ++ right, Tree.Filled kind false k) ∧ Context.Filled kind up := Iff.rfl

/-- A tree is filled when its parts are. -/
theorem filled_plug : ∀ {h H : Nat} (ctx : Context h H) (t : Tree h),
    Tree.Filled kind true (ctx.plug t) ↔ Tree.Filled kind ctx.isTop t ∧ Context.Filled kind ctx
  | _, _, top, t => by simp [plug, isTop, Context.Filled]
  | _, _, frame b left right up, t => by
      rw [plug, filled_plug up, Tree.filled_branch, Context.filled_frame]
      have hlength : (left ++ t :: right).length = left.length + right.length + 1 := by
        rw [List.length_append, List.length_cons, Nat.add_assoc]
      rw [hlength]
      simp only [List.mem_append, List.mem_cons, isTop]
      constructor
      · rintro ⟨⟨hcount, hkids⟩, hup⟩
        exact ⟨hkids t (.inr (.inl rfl)), hcount,
          fun k hk => hkids k (hk.imp_right .inr), hup⟩
      · rintro ⟨ht, hcount, hsides, hup⟩
        refine ⟨⟨hcount, ?_⟩, hup⟩
        rintro k (hk | rfl | hk)
        · exact hsides k (.inl hk)
        · exact ht
        · exact hsides k (.inr hk)

/-- The trees have the same items, and nodes of the same sizes. -/
def Tree.Alike (t t' : Tree h) : Prop :=
  t.items = t'.items ∧ ∀ kind isRoot, t.Filled kind isRoot ↔ t'.Filled kind isRoot

theorem Tree.Alike.refl (t : Tree h) : t.Alike t := ⟨rfl, fun _ _ => Iff.rfl⟩

theorem Tree.Alike.trans {t t' t'' : Tree h} (h₁ : t.Alike t') (h₂ : t'.Alike t'') :
    t.Alike t'' :=
  ⟨h₁.1.trans h₂.1, fun kind isRoot => (h₁.2 kind isRoot).trans (h₂.2 kind isRoot)⟩

theorem Tree.alike_branch (b b' : BranchPage) (kids : List (Tree h)) :
    Tree.Alike (branch b kids : Tree (h + 1)) (branch b' kids) :=
  ⟨by rw [Tree.items_branch, Tree.items_branch], fun _ _ => Iff.rfl⟩

/-- Alike trees may be exchanged anywhere. -/
theorem Tree.Alike.plug {t t' : Tree h} (alike : t.Alike t') (ctx : Context h H) :
    Tree.Alike (ctx.plug t) (ctx.plug t') := by
  induction ctx with
  | top => exact alike
  | frame b left right up ih =>
      suffices hbranch : Tree.Alike (branch b (left ++ t :: right) : Tree (_ + 1))
          (branch b (left ++ t' :: right)) from ih hbranch
      constructor
      · simp only [Tree.items_branch, List.flatMap_append, List.flatMap_cons, alike.1]
      · intro kind isRoot
        have hsame : Tree.Filled kind false t ↔ Tree.Filled kind false t' := alike.2 kind false
        simp only [Tree.filled_branch, List.length_append, List.length_cons, List.mem_append,
          List.mem_cons, or_imp, forall_and, forall_eq, hsame]

end CwDb.Index
