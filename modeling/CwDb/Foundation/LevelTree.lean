/-
  Foundation/LevelTree.lean --- trees with all leaves on one level, and their one-hole
  contexts.

  Leaves carry an `L`, branches a `B`; the height is part of the type, so that a branch
  has children of one height only.
-/
import Mathlib.Data.List.Basic

set_option autoImplicit false

namespace CwDb.Foundation

variable {L B : Type}

/-- A branch over children of type `α`. -/
structure Branch (B α : Type) where
  label : B
  kids : List α

/-- The trees of a height. -/
def LevelTree (L B : Type) : (height : Nat) → Type
  | 0 => L
  | h + 1 => Branch B (LevelTree L B h)

namespace LevelTree

def leaf (l : L) : LevelTree L B 0 := l

def branch {h : Nat} (label : B) (kids : List (LevelTree L B h)) : LevelTree L B (h + 1) :=
  Branch.mk label kids

/-- The leaves from left to right. -/
def leaves : {h : Nat} → LevelTree L B h → List L
  | 0, l => [l]
  | _ + 1, t => (Branch.kids t).flatMap leaves

/-- What `f` reads of the leaves and `g` of the branches. -/
def labels {γ : Type} (f : L → γ) (g : B → γ) : {h : Nat} → LevelTree L B h → List γ
  | 0, l => [f l]
  | _ + 1, t => g (Branch.label t) :: (Branch.kids t).flatMap (labels f g)

/-- What `f` reads of the root when it is a leaf, `g` when it is a branch. -/
def label {γ : Type} (f : L → γ) (g : B → γ) : {h : Nat} → LevelTree L B h → γ
  | 0, l => f l
  | _ + 1, t => g (Branch.label t)

section

variable {h : Nat} {γ : Type} {f : L → γ} {g : B → γ}

@[simp] theorem leaves_leaf (l : L) : (leaf l : LevelTree L B 0).leaves = [l] := rfl

@[simp] theorem leaves_branch (b : B) (kids : List (LevelTree L B h)) :
    (branch b kids).leaves = kids.flatMap leaves := rfl

@[simp] theorem labels_leaf (l : L) : (leaf l : LevelTree L B 0).labels f g = [f l] := rfl

@[simp] theorem labels_branch (b : B) (kids : List (LevelTree L B h)) :
    (branch b kids).labels f g = g b :: kids.flatMap (labels f g) := rfl

@[simp] theorem label_leaf (l : L) : (leaf l : LevelTree L B 0).label f g = f l := rfl

@[simp] theorem label_branch (b : B) (kids : List (LevelTree L B h)) :
    (branch b kids).label f g = g b := rfl

end

end LevelTree

/-! ## Contexts -/

/-- A tree of height `H` with a hole for a tree of height `h`, from the hole up. -/
inductive LevelContext (L B : Type) : Nat → Nat → Type
  | top {h : Nat} : LevelContext L B h h
  | frame {h H : Nat} (label : B) (left right : List (LevelTree L B h))
      (up : LevelContext L B (h + 1) H) : LevelContext L B h H

namespace LevelContext

open LevelTree

/-- The tree with the hole filled. -/
def plug : {h H : Nat} → LevelContext L B h H → LevelTree L B h → LevelTree L B H
  | _, _, top, t => t
  | _, _, frame label left right up, t => up.plug (branch label (left ++ t :: right))

/-- The leaves to the left of the hole. -/
def leftLeaves : {h H : Nat} → LevelContext L B h H → List L
  | _, _, top => []
  | _, _, frame _ left _ up => up.leftLeaves ++ left.flatMap leaves

/-- The leaves to the right of the hole. -/
def rightLeaves : {h H : Nat} → LevelContext L B h H → List L
  | _, _, top => []
  | _, _, frame _ _ right up => right.flatMap leaves ++ up.rightLeaves

/-- What `f` reads of the leaves and `g` of the branches around the hole. -/
def labels {γ : Type} (f : L → γ) (g : B → γ) : {h H : Nat} → LevelContext L B h H → List γ
  | _, _, top => []
  | _, _, frame label left right up =>
      g label :: (left.flatMap (LevelTree.labels f g) ++ right.flatMap (LevelTree.labels f g) ++
        up.labels f g)

/-- What `g` reads of the branches above the hole, from the hole up. -/
def spine {γ : Type} (g : B → γ) : {h H : Nat} → LevelContext L B h H → List γ
  | _, _, top => []
  | _, _, frame label _ _ up => g label :: up.spine g

/-- The hole is the whole tree. -/
def isTop : {h H : Nat} → LevelContext L B h H → Bool
  | _, _, top => true
  | _, _, frame _ _ _ _ => false

theorem height_le {h H : Nat} (ctx : LevelContext L B h H) : h ≤ H := by
  induction ctx with
  | top => exact Nat.le_refl _
  | frame label left right up ih => exact Nat.le_of_succ_le ih

variable {γ : Type} {f : L → γ} {g : B → γ}

theorem leaves_plug : ∀ {h H : Nat} (ctx : LevelContext L B h H) (t : LevelTree L B h),
    (ctx.plug t).leaves = ctx.leftLeaves ++ t.leaves ++ ctx.rightLeaves
  | _, _, top, t => by simp [plug, leftLeaves, rightLeaves]
  | _, _, frame label left right up, t => by
      rw [plug, leaves_plug up]
      simp [leftLeaves, rightLeaves, List.append_assoc]

theorem labels_plug : ∀ {h H : Nat} (ctx : LevelContext L B h H) (t : LevelTree L B h),
    ((ctx.plug t).labels f g).Perm (t.labels f g ++ ctx.labels f g)
  | _, _, top, t => by simp [plug, labels]
  | _, _, frame label left right up, t => by
      rw [plug]
      refine (labels_plug up _).trans ?_
      simp only [labels_branch, List.flatMap_append, List.flatMap_cons, labels, List.cons_append]
      refine ((List.Perm.cons _ ?_).trans List.perm_middle.symm)
      simp only [List.append_assoc]
      refine (List.perm_append_comm_assoc _ _ _).trans ?_
      exact List.Perm.refl _

end LevelContext

end CwDb.Foundation
