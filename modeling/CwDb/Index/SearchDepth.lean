/-
  Index/SearchDepth.lean --- `find` goes down as many levels as the number of keys asks for.

  An insertion goes up no more levels, and adds a page on each at most: no run of 2^44
  operations fills the file.
-/
import CwDb.Index.FileGrowth
import CwDb.Index.MapRefinement
import CwDb.Index.SearchEnd
import Mathlib.Data.Nat.Log

set_option autoImplicit false

namespace CwDb.Index

open CwDb.Cpp
open CwDb.Foundation
open LevelTree LevelContext

variable {kind : IndexKeyKind} {h : Nat}

/-- A tree with a branch for its root has two parts at least. -/
theorem Tree.Sized.two_mul_le_length_items {t : Tree (h + 1)} (sized : t.Sized kind true) :
    2 * (leastKids kind false ^ h * leastItems kind false) ≤ t.items.length := by
  cases t using Tree.branchCases with | branch b kids => ?_
  have hkids : ∀ k ∈ kids, Tree.Sized kind false k := sized.2
  have htwo : 2 ≤ (kids.map Tree.keys).length := sized.1.least
  rw [List.length_map] at htwo
  have hitems := Tree.length_mul_le_length_items fun k hk => (hkids k hk).pow_mul_le_length_items
  rw [Tree.items_branch]
  exact (Nat.mul_le_mul_right _ htwo).trans hitems

/-- The most levels that a tree with so many keys has. -/
def mostLevels (kind : IndexKeyKind) (size : Nat) : Nat :=
  Nat.log (leastKids kind false) (size / (2 * leastItems kind false)) + 2

theorem Tree.Sized.height_lt_mostLevels (proper : kind.Proper) {t : Tree h}
    (sized : t.Sized kind true) : h < mostLevels kind t.items.length := by
  cases h with
  | zero => exact Nat.succ_pos _
  | succ h =>
      have hleast := sized.two_mul_le_length_items
      have hpos : 0 < 2 * leastItems kind false :=
        Nat.mul_pos (Nat.succ_pos 1) (leastItems_pos proper false)
      have hkids : 1 < leastKids kind false := leastKids_two proper false
      have hpow : leastKids kind false ^ h ≤ t.items.length / (2 * leastItems kind false) := by
        rw [Nat.le_div_iff_mul_le hpos, Nat.mul_left_comm]
        exact hleast
      exact Nat.add_lt_add_right (Nat.lt_succ_of_le (Nat.le_log_of_pow_le hkids hpow)) 1

namespace BStarPlusIndex

variable {idx : BStarPlusIndex} {m : OrderedMap IndexKey UInt64} {key : IndexKey}

theorem Contents.height_le (c : idx.Contents m) :
    idx.metadata.height.toNat ≤ mostLevels idx.metadata.keyKind m.size := by
  rcases c.tree with ⟨hblank, -⟩ | ⟨H, t, r, hitems⟩
  · rw [hblank]
    exact Nat.zero_le _
  · have hheight := r.sized.height_lt_mostLevels r.open.sound.kind
    rw [hitems] at hheight
    exact r.open.height.trans_le hheight

/-! ## Room -/

theorem mostLevels_le (proper : kind.Proper) {size : Nat} (below : size < 2 ^ 64) :
    mostLevels kind size ≤ 65 := by
  have hkids : 2 ≤ leastKids kind false := leastKids_two proper false
  have hlog : Nat.log (leastKids kind false) (size / (2 * leastItems kind false)) < 64 :=
    Nat.log_lt_of_lt_pow' (by decide)
      (((Nat.div_le_self _ _).trans_lt below).trans_le (Nat.pow_le_pow_left hkids 64))
  unfold mostLevels
  omega

/-- An insertion adds a page for each level at most, and one for a new root. -/
theorem Contents.ends_insert_within {n : Nat} (c : idx.Contents m) (within : idx.Within n)
    (key : IndexKey) (record : UInt64) :
    Ends (insert key record) idx
      (fun _ idx' => idx'.Within (n + (mostLevels idx.metadata.keyKind m.size + 1)))
      (fun _ idx' => idx'.Within (n + (mostLevels idx.metadata.keyKind m.size + 1))) := by
  have hsame := within_mono n _ idx
    (Nat.le_add_right n (mostLevels idx.metadata.keyKind m.size + 1)) within
  rw [insert, ends_bind, ends_get, ends_bind, ends_fromExcept]
  refine ⟨fun _ _ => ?_, fun _ _ => hsame⟩
  rcases c.cases with ⟨hempty, -⟩ | ⟨H, t, r, hitems⟩
  · rw [if_pos hempty]
    have hle := Nat.add_le_add_left (Nat.le_add_left 1 (mostLevels idx.metadata.keyKind m.size)) n
    exact (raises_insertFirst key record n idx within).mono (fun _ _ => within_mono _ _ _ hle)
      fun _ _ => within_mono _ _ _ hle
  · have hheight := r.sized.height_lt_mostLevels r.open.sound.kind
    rw [hitems] at hheight
    obtain ⟨ctx, l, rfl, admits⟩ := r.exists_leaf key
    have hpath := length_path ctx
    rw [r.empty_eq, if_neg Bool.false_ne_true, r.findLeaf_eq admits, fromExcept_ok, pure_bind]
    dsimp only
    rw [ends_ite]
    split
    · exact hsame
    · have hle : n + ((l.id :: ctx.path).length + 1) ≤
          n + (mostLevels idx.metadata.keyKind m.size + 1) := by
        rw [List.length_cons]
        change H < mostLevels idx.metadata.keyKind m.size at hheight
        omega
      exact (raises_insertIntoLeaf _ _ n idx within).mono (fun _ _ => within_mono _ _ _ hle)
        fun _ _ => within_mono _ _ _ hle

theorem hasRoom_of_within {n : Nat} (within : idx.Within n) (few : n < 2 ^ 51 - 1) :
    idx.HasRoom := by
  have hpages := within.few
  unfold HasRoom DiskPageManager.Full IndexFile.size pageSize
  omega

/-- One operation adds 66 pages at most. -/
theorem within_onIndex {n : Nat} {op : Operation} (admissible : op.Admissible kind)
    (mirrors : Mirrors kind idx m) (within : idx.Within n) :
    (op.onIndex idx).2.Within (n + 66) := by
  have hends : Ends op.perform idx (fun _ idx' => idx'.Within (n + 66))
      (fun _ idx' => idx'.Within (n + 66)) := by
    have hsame := within_mono n (n + 66) idx (Nat.le_add_right n 66) within
    have c := mirrors.contents
    cases op with
    | insert key record =>
        have hsize : m.entries.length < 2 ^ 64 := c.size ▸ idx.metadata.size.toNat_lt
        have hlevels : mostLevels idx.metadata.keyKind m.size ≤ 65 :=
          mostLevels_le c.sound.kind hsize
        have hle : n + (mostLevels idx.metadata.keyKind m.size + 1) ≤ n + 66 := by omega
        rw [Operation.perform, ends_bind]
        exact (c.ends_insert_within within key record).mono (fun _ _ => within_mono _ _ _ hle)
          fun _ _ => within_mono _ _ _ hle
    | erase key =>
        rw [Operation.perform, ends_bind]
        exact (maintains_erase key idx within).mono
          (fun _ _ => within_mono _ _ _ (Nat.le_add_right n 66))
          fun _ _ => within_mono _ _ _ (Nat.le_add_right n 66)
    | find key =>
        rw [Operation.perform, ends_bind]
        exact maintains_reading _ idx hsame
    | rangeSearch low high =>
        rw [Operation.perform, ends_bind]
        exact maintains_reading _ idx hsame
    | reopen kind =>
        rw [Operation.perform, ends_bind, ends_modify, ends_bind, ends_of_ok (c.reopen kind)]
        exact hsame
  unfold Operation.onIndex
  unfold Ends at hends
  generalize op.perform idx = r at hends
  cases r <;> exact hends

/-- A new index has room for 2^44 operations. -/
theorem staysIn_hasRoom (proper : kind.Proper) {ops : List Operation}
    (admissible : ∀ op ∈ ops, op.Admissible kind) (short : ops.length ≤ 2 ^ 44) :
    StaysIn HasRoom Operation.onIndex ops (created kind) := by
  have hrun : ∀ n ≤ ops.length,
      (runMachine Operation.onIndex (ops.take n) (created kind)).2.Within (66 * n) ∧
        Mirrors kind (runMachine Operation.onIndex (ops.take n) (created kind)).2
          (runMachine Operation.onMap (ops.take n) .empty).2 := by
    intro n
    induction n with
    | zero => exact fun _ => ⟨⟨le_refl _, le_refl _⟩, contents_created proper, rfl⟩
    | succ n ih =>
        intro hn
        obtain ⟨within, mirrors⟩ := ih (Nat.le_of_succ_le hn)
        have hop : ops[n] ∈ ops := List.getElem_mem hn
        have hnext := within_onIndex (admissible _ hop) mirrors within
        have hroom : (ops[n].onIndex
            (runMachine Operation.onIndex (ops.take n) (created kind)).2).2.HasRoom :=
          hasRoom_of_within hnext (by omega)
        rw [← List.take_concat_get' ops n hn, runMachine_concat_snd, runMachine_concat_snd]
        exact ⟨hnext, (mimics_map kind).keeps _ _ _ (admissible _ hop) mirrors hroom⟩
  exact staysIn_of_le fun n hn => hasRoom_of_within (hrun n hn).1 (by omega)

/-! ## Runs -/

/-- More keys than a leaf takes are in a tree with a branch. -/
theorem Contents.one_lt_height (c : idx.Contents m)
    (many : maxLeafKeyCount idx.metadata.keyKind < m.size) : 1 < idx.metadata.height.toNat := by
  rcases c.cases with ⟨-, hnil⟩ | ⟨H, t, r, hitems⟩
  · rw [OrderedMap.size, hnil] at many
    cases many
  · rw [r.open.height]
    cases H with
    | zero =>
        cases t using Tree.leafCases with | leaf l => ?_
        have hmost := r.sized.length_items_le
        rw [Tree.pages_leaf, List.length_singleton, Nat.mul_one, hitems] at hmost
        exact absurd hmost (Nat.not_le.mpr many)
    | succ H => exact Nat.succ_lt_succ (Nat.succ_pos H)

section Instances

end Instances

end BStarPlusIndex
end CwDb.Index
