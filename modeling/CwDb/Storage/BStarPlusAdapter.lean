/-
  Storage/BStarPlusAdapter.lean --- `BStarPlusIndexAdapter`: an `IIndex` over an index
  that knows nothing of NULL.
-/
import CwDb.Index.Key
import CwDb.Storage.Index

set_option autoImplicit false

namespace CwDb.Storage

open CwDb.Cpp
open CwDb.Foundation
open CwDb.Index

/-- `db::BStarPlusIndex`, as the adapter calls it. -/
class KeyIndex (π : Type) (ω : outParam Type) where
  find : π → IndexKey → ω → Except Fault (Option UInt64)
  rangeSearch : π → IndexKey → IndexKey → ω → Except Fault (List UInt64)
  insert : π → IndexKey → UInt64 → EStateM Fault ω PUnit
  erase : π → IndexKey → EStateM Fault ω Bool

/-- `BStarPlusIndexAdapter`. -/
structure BStarPlusIndexAdapter (π : Type) where
  index : π
  deriving DecidableEq

/-- `BStarPlusIndexAdapter::to_index_key`. -/
def toIndexKey (value : Value ByteString) : Except Fault IndexKey :=
  match value with
  | .int n => .ok (.int n)
  | .str s => .ok (.str s)
  | .null =>
      raise .invalidArgument (text "BStarPlusIndexAdapter: NULL cannot be used as index key")

/-- An argument that is converted before the call, whatever state the call is made in. -/
def withIndexKey {ω α : Type} (value : Value ByteString) (call : IndexKey → EStateM Fault ω α) :
    EStateM Fault ω α :=
  match toIndexKey value with
  | .ok key => call key
  | .error fault => throw fault

section Adapter

variable {π ω : Type} [KeyIndex π ω]

instance : IIndex (BStarPlusIndexAdapter π) ω where
  find i key w := do
    let key ← toIndexKey key
    KeyIndex.find i.index key w
  rangeSearch i low high w := do
    let low ← toIndexKey low
    let high ← toIndexKey high
    KeyIndex.rangeSearch i.index low high w
  insert i key id := withIndexKey key fun key => KeyIndex.insert i.index key id
  erase i key := withIndexKey key fun key => KeyIndex.erase i.index key

/-- NULL is refused before the index is asked. -/
theorem find_null (i : BStarPlusIndexAdapter π) (w : ω) :
    IIndex.find i .null w = raise .invalidArgument
      (text "BStarPlusIndexAdapter: NULL cannot be used as index key") := rfl

/-- A range from or to NULL is refused as well. -/
theorem rangeSearch_ok_bounds {i : BStarPlusIndexAdapter π} {low high : Value ByteString}
    {w : ω} {ids : List RowId} (h : IIndex.rangeSearch i low high w = .ok ids) :
    low ≠ .null ∧ high ≠ .null := by
  constructor
  · rintro rfl
    cases h
  · rintro rfl
    cases low with
    | null => cases h
    | int n => cases h
    | str s => cases h

end Adapter

/-! ## An adapter over indexes in memory -/

/-- The value that `to_index_key` makes the key of. -/
def ofIndexKey : IndexKey → Value ByteString
  | .int n => .int n
  | .str s => .str s

theorem toIndexKey_ofIndexKey {value : Value ByteString} (present : value ≠ .null) :
    ∃ key, toIndexKey value = .ok key ∧ ofIndexKey key = value := by
  cases value with
  | null => exact absurd rfl present
  | int n => exact ⟨_, rfl, rfl⟩
  | str s => exact ⟨_, rfl, rfl⟩

/-- Any index serves as the partner of an adapter. -/
instance {ι ω : Type} [IIndex ι ω] : KeyIndex ι ω where
  find i key w := IIndex.find i (ofIndexKey key) w
  rangeSearch i low high w := IIndex.rangeSearch i (ofIndexKey low) (ofIndexKey high) w
  insert i key id := IIndex.insert i (ofIndexKey key) id
  erase i key := IIndex.erase i (ofIndexKey key)

section Lawful

variable {ι ω : Type} [IIndex ι ω]

theorem find_adapter {i : BStarPlusIndexAdapter ι} {k : Value ByteString} {w : ω}
    (present : k ≠ .null) : IIndex.find i k w = IIndex.find i.index k w := by
  cases k with
  | null => exact absurd rfl present
  | int n => rfl
  | str s => rfl

theorem rangeSearch_adapter {i : BStarPlusIndexAdapter ι} {low high : Value ByteString} {w : ω}
    (lowPresent : low ≠ .null) (highPresent : high ≠ .null) :
    IIndex.rangeSearch i low high w = IIndex.rangeSearch i.index low high w := by
  obtain ⟨lowKey, hlow, rfl⟩ := toIndexKey_ofIndexKey lowPresent
  obtain ⟨highKey, hhigh, rfl⟩ := toIndexKey_ofIndexKey highPresent
  change (toIndexKey _ >>= fun low => toIndexKey _ >>= fun high =>
    KeyIndex.rangeSearch i.index low high w) = _
  rw [hlow, hhigh]
  rfl

theorem insert_adapter {i : BStarPlusIndexAdapter ι} {k : Value ByteString} {id : RowId}
    (present : k ≠ .null) :
    (IIndex.insert i k id : EStateM Fault ω PUnit) = IIndex.insert i.index k id := by
  cases k with
  | null => exact absurd rfl present
  | int n => rfl
  | str s => rfl

theorem erase_adapter {i : BStarPlusIndexAdapter ι} {k : Value ByteString}
    (present : k ≠ .null) :
    (IIndex.erase i k : EStateM Fault ω Bool) = IIndex.erase i.index k := by
  cases k with
  | null => exact absurd rfl present
  | int n => rfl
  | str s => rfl

/-- The adapter keeps the contract of the index under it, for all keys but NULL. -/
instance [LawfulIndex ι ω] : LawfulIndex (BStarPlusIndexAdapter ι) ω where
  Holds w i m := LawfulIndex.Holds w i.index m
  Apart i j := LawfulIndex.Apart i.index j.index
  Reads i k := k ≠ .null ∧ LawfulIndex.Reads i.index k
  Admits i k := k ≠ .null ∧ LawfulIndex.Admits i.index k
  Spent w := LawfulIndex.Spent (ι := ι) w
  apart_symm h := LawfulIndex.apart_symm h
  reads_of_admits h := ⟨h.1, LawfulIndex.reads_of_admits h.2⟩
  find_spec holds reads := (find_adapter reads.1).trans (LawfulIndex.find_spec holds reads.2)
  find_ok := by
    intro w i m k r holds h
    by_cases present : k = .null
    · rw [present, find_null] at h
      cases h
    · rw [find_adapter present] at h
      exact LawfulIndex.find_ok holds h
  rangeSearch_spec := by
    intro w i m low high holds hlow hhigh
    rw [rangeSearch_adapter hlow.1 hhigh.1]
    exact LawfulIndex.rangeSearch_spec holds hlow.2 hhigh.2
  rangeSearch_ok := by
    intro w i m low high ids holds h
    have bounds := rangeSearch_ok_bounds h
    rw [rangeSearch_adapter bounds.1 bounds.2] at h
    exact LawfulIndex.rangeSearch_ok holds h
  rangeSearch_bounds h := rangeSearch_ok_bounds h
  insert_spec := by
    intro w i m k id holds admits
    rw [insert_adapter admits.1]
    refine Ends.mono (LawfulIndex.insert_spec holds admits.2) ?_ ?_
    · intro _ w' h
      exact ⟨h.1, h.2.1, fun j m' => h.2.2 j.index m'⟩
    · intro _ w' h
      exact h
  erase_spec := by
    intro w i m k holds admits
    rw [erase_adapter admits.1]
    refine Ends.mono (LawfulIndex.erase_spec holds admits.2) ?_ ?_
    · intro _ w' h
      exact ⟨h.1, h.2.1, fun j m' => h.2.2 j.index m'⟩
    · intro _ w' h
      exact h

end Lawful
end CwDb.Storage
