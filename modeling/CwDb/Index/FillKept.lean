/-
  Index/FillKept.lean --- when an operation keeps every node two thirds full.

  An insertion that splits two full INT nodes leaves one of the three a child too few, and an
  erasure that finds its siblings at their least leaves one of the two an item too few.
-/
import CwDb.Index.Erasure
import CwDb.Index.SpelledTree

set_option autoImplicit false

namespace CwDb.Index

open CwDb.Cpp
open CwDb.Foundation
open LevelTree LevelContext

namespace BStarPlusIndex

variable {idx idx' : BStarPlusIndex} {H : Nat} {ctx : Context 0 H} {l : LeafPage}
  {key : IndexKey} {m : OrderedMap IndexKey UInt64}

/-- The index has a tree, every node of which has its minimal number of keys, but for the
root. -/
def TwoThirdsFull (idx : BStarPlusIndex) : Prop :=
  ∃ (H : Nat) (t : Tree H), idx.Represents t ∧ t.Filled idx.metadata.keyKind true

/-- The tree of an index has what the index holds. -/
theorem Contents.items_eq {t : Tree H} (c : idx.Contents m) (r : idx.Represents t) :
    t.items = m.entries := by
  rcases c.cases with ⟨hempty, -⟩ | ⟨H', t', r', hitems⟩
  · rw [r.empty_eq] at hempty
    cases hempty
  · obtain rfl := r.height_unique r'
    rw [r.unique r', hitems]

/-- What an operation leaves behind, when it makes no new root. -/
theorem Finished.twoThirdsFull_iff {items : List Item} {size : UInt64} {given fill : Prop}
    {t : Tree H} (f : idx.Finished idx' H items size given fill) (r : idx.Represents t)
    (hgiven : given) (noRoot : idx'.metadata.height ≤ idx.metadata.height) :
    idx'.TwoThirdsFull ↔ fill := by
  obtain ⟨⟨H', t', r', -, hlower, hfill⟩, hkind, -⟩ := f
  have hheight : idx'.metadata.height.toNat ≤ idx.metadata.height.toNat := noRoot
  rw [r'.open.height, r.open.height] at hheight
  obtain rfl : H = H' := Nat.le_antisymm (hlower hgiven) (Nat.le_of_succ_le_succ hheight)
  rw [← hfill rfl hgiven, ← hkind]
  constructor
  · rintro ⟨H'', t'', r'', filled⟩
    obtain rfl := r'.height_unique r''
    rwa [r'.unique r'']
  · exact fun filled => ⟨_, t', r', filled⟩

section Kept

variable (c : idx.Contents m) (r : idx.Represents (ctx.plug (leaf l)))
  (filled : Tree.Filled idx.metadata.keyKind true (ctx.plug (leaf l))) (admits : ctx.Admits key)

include c r filled admits

/-- After an insertion that makes no new root. -/
theorem twoThirdsFull_insert_iff {record : UInt64}
    (admissible : Admissible idx.metadata.keyKind key) (absent : m.find? key = none)
    (noRoot : idx'.metadata.height ≤ idx.metadata.height)
    (run : insert key record idx = .ok ⟨⟩ idx') :
    idx'.TwoThirdsFull ↔ l.items.length < maxLeafKeyCount idx.metadata.keyKind ∨
      ctx.HasRoomForItem idx.metadata.keyKind ∨ ctx.SplitsEvenly idx.metadata.keyKind := by
  have hends : Ends (insert key record) idx _ fun _ _ => True :=
    r.ends_insert admits (c.items_eq r) admissible absent fun _ _ _ => trivial
  exact (hends.of_ok run).twoThirdsFull_iff r filled noRoot

/-- After an erasure: the index is empty, or has a tree. -/
theorem twoThirdsFull_erase {found : Bool} (admissible : Admissible idx.metadata.keyKind key)
    (present : m.find? key ≠ none) (noRoot : idx'.metadata.height ≤ idx.metadata.height)
    (run : erase key idx = .ok found idx') :
    (m.erase key).entries = [] ∧ idx.Emptied idx' ∨ (idx'.TwoThirdsFull ↔ ctx.isTop = true ∨
      minLeafKeyCount idx.metadata.keyKind < l.items.length ∨
        ctx.HasItemToSpare idx.metadata.keyKind) := by
  have hends := r.ends_erase (E := fun _ _ => True) admits (c.items_eq r) c.size
    (validateKeyKind_eq admissible) present
  exact (hends.of_ok run).2.imp_right fun finished => finished.twoThirdsFull_iff r filled noRoot

/-- After an erasure that leaves the root where it is. -/
theorem twoThirdsFull_erase_iff {found : Bool} (admissible : Admissible idx.metadata.keyKind key)
    (present : m.find? key ≠ none) (same : idx'.metadata.height = idx.metadata.height)
    (run : erase key idx = .ok found idx') :
    idx'.TwoThirdsFull ↔ ctx.isTop = true ∨
      minLeafKeyCount idx.metadata.keyKind < l.items.length ∨
        ctx.HasItemToSpare idx.metadata.keyKind := by
  refine (twoThirdsFull_erase c r filled admits admissible present
    (UInt32.le_of_eq same) run).resolve_left fun ⟨_, emptied⟩ => ?_
  have hheight := r.open.height
  rw [← same, emptied.metadata] at hheight
  cases hheight

end Kept

/-- An operation that leaves the root where it is keeps every node two thirds full just when
the leaf of the key, its siblings and its parent leave it room enough. -/
theorem twoThirdsFull_kept_iff (c : idx.Contents m) (r : idx.Represents (ctx.plug (leaf l)))
    (filled : Tree.Filled idx.metadata.keyKind true (ctx.plug (leaf l))) (admits : ctx.Admits key)
    (admissible : Admissible idx.metadata.keyKind key) :
    (∀ record idx', m.find? key = none → insert key record idx = .ok ⟨⟩ idx' →
      idx'.metadata.height = idx.metadata.height →
        (idx'.TwoThirdsFull ↔ l.items.length < maxLeafKeyCount idx.metadata.keyKind ∨
          ctx.HasRoomForItem idx.metadata.keyKind ∨ ctx.SplitsEvenly idx.metadata.keyKind)) ∧
    (∀ found idx', m.find? key ≠ none → erase key idx = .ok found idx' →
      idx'.metadata.height = idx.metadata.height →
        (idx'.TwoThirdsFull ↔ ctx.isTop = true ∨
          minLeafKeyCount idx.metadata.keyKind < l.items.length ∨
            ctx.HasItemToSpare idx.metadata.keyKind)) ∧
    (∀ record, m.find? key ≠ none → insert key record idx =
      .error (.throws .invalidArgument (text "Duplicate index key")) idx) ∧
    (m.find? key = none → erase key idx = .ok false idx) :=
  ⟨fun _ _ absent run same =>
      twoThirdsFull_insert_iff c r filled admits admissible absent (UInt32.le_of_eq same) run,
    fun _ _ present run same =>
      twoThirdsFull_erase_iff c r filled admits admissible present same run,
    fun _ present => r.insert_present (c.items_eq r) (validateKeyKind_eq admissible) present,
    fun absent => r.erase_absent (c.items_eq r) (validateKeyKind_eq admissible) absent⟩

section Instances

/-- So many items with keys of one letter, from the given one on. -/
def letters (first count : Nat) : List Item :=
  (List.range count).map fun i => (.str [UInt8.ofNat (first + i)], UInt64.ofNat i)

def leftTen : LeafPage := ⟨0, 1, letters 65 10⟩
def rightTen : LeafPage := ⟨1, invalidPageId, letters 75 10⟩

/-- Two leaves of ten strings each, the fewest there may be. -/
def tenAndTen : Tree 1 := rebuilt 2 [leaf leftTen, leaf rightTen]

def aroundLeftTen : Context 0 1 :=
  frame ⟨2, Tree.separators [leaf leftTen, leaf rightTen]⟩ [] [leaf rightTen] top

theorem sized_leaf_of_ten {l : LeafPage} (ten : l.items.length = 10)
    (admissible : ∀ e ∈ l.items, Admissible .string e.1) :
    Tree.Sized .string false (leaf l : Tree 0) := by
  have hsized : LeafPage.Sized .string false l :=
    ⟨by rw [ten]; decide, by rw [ten]; decide, admissible⟩
  exact hsized

theorem pages_tenAndTen : tenAndTen.pages = [2, 0, 1] := rfl

theorem sorted_tenAndTen : tenAndTen.keys.Pairwise (· < ·) := by decide +kernel

theorem spellable_tenAndTen : Spellable .string tenAndTen := by
  refine ⟨.inr rfl, Tree.sized_rebuilt (.inr rfl) ?_ ?_ (by decide) (by decide),
    sorted_tenAndTen, ⟨rfl, rfl, trivial⟩, by decide, ?_, by decide, by decide⟩
  · intro k hk
    simp only [List.mem_cons, List.not_mem_nil, or_false] at hk
    rcases hk with rfl | rfl
    · exact sized_leaf_of_ten rfl (by decide +kernel)
    · exact sized_leaf_of_ten rfl (by decide +kernel)
  · exact sorted_tenAndTen
  · intro p hp
    rw [pages_tenAndTen] at hp ⊢
    simp only [List.mem_cons, List.not_mem_nil, or_false] at hp
    rcases hp with rfl | rfl | rfl <;> decide

theorem represents_tenAndTen :
    (spelled .string tenAndTen).Represents (aroundLeftTen.plug (leaf leftTen)) :=
  spellable_tenAndTen.represents

def twentyLetters : OrderedMap IndexKey UInt64 where
  entries := tenAndTen.items
  sorted := by
    rw [← Tree.keys_eq_map_items]
    exact sorted_tenAndTen

theorem filled_tenAndTen :
    Tree.Filled .string true (aroundLeftTen.plug (leaf leftTen)) := by
  change Tree.Filled .string true tenAndTen
  refine Tree.filled_branch.mpr ⟨.inl rfl, fun k hk => ?_⟩
  simp only [List.mem_cons, List.not_mem_nil, or_false] at hk
  rcases hk with rfl | rfl
  · exact Tree.filled_leaf.mpr (.inr (by decide))
  · exact Tree.filled_leaf.mpr (.inr (by decide))

theorem admits_a : aroundLeftTen.Admits (.str [65]) :=
  ⟨⟨by decide, by decide⟩, trivial⟩

theorem nothing_to_spare : ¬ (aroundLeftTen.isTop = true ∨
    minLeafKeyCount .string < leftTen.items.length ∨ aroundLeftTen.HasItemToSpare .string) := by
  rintro (h | h | ⟨t, ht | ht, h⟩)
  · cases h
  · exact absurd h (by decide)
  · obtain rfl : leaf rightTen = t := Option.some.inj ht
    exact absurd h (by decide)
  · cases ht

/-- Both leaves have the fewest keys. -/
theorem twoThirdsFull_kept_iff_of_least : (spelled .string tenAndTen).TwoThirdsFull ∧
    ∀ found idx', erase (.str [65]) (spelled .string tenAndTen) = .ok found idx' →
      idx'.metadata.height = (spelled .string tenAndTen).metadata.height →
        ¬ idx'.TwoThirdsFull := by
  refine ⟨⟨1, tenAndTen, represents_tenAndTen, filled_tenAndTen⟩, ?_⟩
  intro found idx' run same full
  have hkept := twoThirdsFull_kept_iff (spellable_tenAndTen.contents (m := twentyLetters) rfl)
    represents_tenAndTen filled_tenAndTen admits_a (by decide)
  exact nothing_to_spare ((hkept.2.1 found idx' (by decide) run same).mp full)

end Instances

end BStarPlusIndex
end CwDb.Index
