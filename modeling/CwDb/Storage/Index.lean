/-
  Storage/Index.lean --- the interface `IIndex` and its contract.

  An index is reached through a pointer (`IIndexPtr`), so what a call changes lies
  outside the table: `ω` is the state of all index objects, `ι` the pointers.
-/
import CwDb.Foundation.Effect
import CwDb.Foundation.UnorderedMap
import CwDb.Storage.Value
import Mathlib.Data.List.Sort
import Mathlib.Logic.Function.Basic

set_option autoImplicit false

namespace CwDb.Storage

open CwDb.Cpp
open CwDb.Foundation

/-- `using RowId = std::uint64_t`. -/
abbrev RowId : Type := UInt64

/-- `class IIndex`. -/
class IIndex (ι : Type) (ω : outParam Type) where
  find : ι → Value ByteString → ω → Except Fault (Option RowId)
  rangeSearch : ι → Value ByteString → Value ByteString → ω → Except Fault (List RowId)
  insert : ι → Value ByteString → RowId → EStateM Fault ω PUnit
  erase : ι → Value ByteString → EStateM Fault ω Bool

/-! ## The contract -/

/-- What an index is for: a partial map from keys to rows. -/
abbrev IndexMap : Type := Value ByteString → Option RowId

namespace IndexMap

/-- `ids` are the rows of the keys from `low` to `high`, by ascending key. -/
def IsRange (m : IndexMap) (low high : Value ByteString) (ids : List RowId) : Prop :=
  ∃ keys : List (Value ByteString), keys.Pairwise (fun a b => Value.compare a b = some .lt) ∧
    keys.map m = ids.map some ∧
    ∀ k, k ∈ keys ↔ (m k).isSome = true ∧ Value.Le low k ∧ Value.Le k high

end IndexMap

/-- The contract of an index: it is a map with unique keys.  `Holds w i m` says that
the index `i` is open in `w` and holds `m`; a call on one index leaves alone the
indexes that are `Apart` from it.  `Spent` states are those in which the medium can
take no more; the contract promises nothing from there on. -/
class LawfulIndex (ι : Type) (ω : outParam Type) [IIndex ι ω] where
  Holds : ω → ι → IndexMap → Prop
  Apart : ι → ι → Prop
  /-- The keys the index can be asked about. -/
  Reads : ι → Value ByteString → Prop
  /-- The keys the index takes. -/
  Admits : ι → Value ByteString → Prop
  Spent : ω → Prop
  apart_symm : ∀ {i j : ι}, Apart i j → Apart j i
  reads_of_admits : ∀ {i : ι} {k : Value ByteString}, Admits i k → Reads i k
  find_spec : ∀ {w : ω} {i : ι} {m : IndexMap} {k : Value ByteString},
    Holds w i m → Reads i k → IIndex.find i k w = .ok (m k)
  find_ok : ∀ {w : ω} {i : ι} {m : IndexMap} {k : Value ByteString} {r : Option RowId},
    Holds w i m → IIndex.find i k w = .ok r → r = m k
  rangeSearch_spec : ∀ {w : ω} {i : ι} {m : IndexMap} {low high : Value ByteString},
    Holds w i m → Reads i low → Reads i high →
      ∃ ids, IIndex.rangeSearch i low high w = .ok ids
  rangeSearch_ok : ∀ {w : ω} {i : ι} {m : IndexMap} {low high : Value ByteString}
    {ids : List RowId}, Holds w i m → IIndex.rangeSearch i low high w = .ok ids →
      m.IsRange low high ids
  /-- NULL is not a key. -/
  rangeSearch_bounds : ∀ {w : ω} {i : ι} {low high : Value ByteString} {ids : List RowId},
    IIndex.rangeSearch i low high w = .ok ids → low ≠ .null ∧ high ≠ .null
  insert_spec : ∀ {w : ω} {i : ι} {m : IndexMap} {k : Value ByteString} {id : RowId},
    Holds w i m → Admits i k →
      Ends (IIndex.insert i k id) w
        (fun _ w' => m k = none ∧ Holds w' i (Function.update m k (some id)) ∧
          ∀ j m', Apart i j → Holds w j m' → Holds w' j m')
        (fun _ w' => Spent w' ∨ (m k).isSome = true ∧ w' = w)
  erase_spec : ∀ {w : ω} {i : ι} {m : IndexMap} {k : Value ByteString},
    Holds w i m → Admits i k →
      Ends (IIndex.erase i k) w
        (fun erased w' => erased = (m k).isSome ∧ Holds w' i (Function.update m k none) ∧
          ∀ j m', Apart i j → Holds w j m' → Holds w' j m')
        (fun _ w' => Spent w')

/-! ## Indexes in memory -/

/-- The reference implementation: a store of maps, a pointer being a position. -/
abbrev MapStore : Type := List (UnorderedMap (Value ByteString) RowId)

namespace MapStore

/-- The map a pointer leads to. -/
def get (w : MapStore) (i : Nat) : UnorderedMap (Value ByteString) RowId := w.getD i .empty

/-- The entries of the keys from `low` to `high`, by ascending key. -/
def range (m : UnorderedMap (Value ByteString) RowId) (low high : Value ByteString) :
    List (Value ByteString × RowId) :=
  (m.entries.filter fun e => Value.le low e.1 && Value.le e.1 high).insertionSort
    fun a b => a.1 ≤ b.1

instance : IIndex Nat MapStore where
  find i k w := .ok ((get w i).find? k)
  rangeSearch i low high w :=
    if low = .null ∨ high = .null then
      raise .invalidArgument (text "NULL cannot be used as index key")
    else .ok ((range (get w i) low high).map Prod.snd)
  insert i k id := do
    let w ← MonadState.get
    if (get w i).contains k then throw (.throws .logicError (text "Duplicate index key"))
    else set (w.set i ((get w i).emplace k id))
  erase i k := do
    let w ← MonadState.get
    set (w.set i ((get w i).erase k))
    pure ((get w i).contains k)

variable {m : UnorderedMap (Value ByteString) RowId} {low high k : Value ByteString}

theorem mem_range {e : Value ByteString × RowId} :
    e ∈ range m low high ↔ e ∈ m.entries ∧ Value.Le low e.1 ∧ Value.Le e.1 high := by
  simp [range, Value.Le]

theorem isRange_range : IndexMap.IsRange m.find? low high ((range m low high).map Prod.snd) := by
  have hfind : ∀ e ∈ range m low high, m.find? e.1 = some e.2 := fun e he =>
    UnorderedMap.find?_eq_some_iff.mpr (mem_range.mp he).1
  have hnodup : ((range m low high).map Prod.fst).Nodup := by
    have hperm : (range m low high).Perm
        (m.entries.filter fun e => Value.le low e.1 && Value.le e.1 high) :=
      List.perm_insertionSort _ _
    exact (hperm.map Prod.fst).nodup_iff.mpr
      (m.nodup.sublist (List.filter_sublist.map Prod.fst))
  have hsorted : ((range m low high).map Prod.fst).Pairwise (· ≤ ·) := by
    rw [List.pairwise_map]
    exact List.pairwise_insertionSort (fun a b : Value ByteString × RowId => a.1 ≤ b.1) _
  refine ⟨(range m low high).map Prod.fst, ?_, ?_, ?_⟩
  · refine (hsorted.and hnodup).imp_of_mem ?_
    rintro a b ha hb ⟨hle, hne⟩
    obtain ⟨x, hx, rfl⟩ := List.mem_map.mp ha
    obtain ⟨y, hy, rfl⟩ := List.mem_map.mp hb
    have hcomparable := Value.compare_isSome_of_le_le (mem_range.mp hx).2.1 (mem_range.mp hy).2.1
    exact Value.compare_eq_some_lt_iff.mpr ⟨lt_of_le_of_ne hle hne, hcomparable⟩
  · rw [List.map_map, List.map_map]
    exact List.map_congr_left hfind
  · intro k
    rw [List.mem_map]
    constructor
    · rintro ⟨e, he, rfl⟩
      exact ⟨by simp [hfind e he], (mem_range.mp he).2⟩
    · rintro ⟨hk, hle⟩
      obtain ⟨id, hid⟩ := Option.isSome_iff_exists.mp hk
      exact ⟨(k, id), mem_range.mpr ⟨UnorderedMap.find?_eq_some_iff.mp hid, hle⟩, rfl⟩

/-- The map behind another pointer is untouched by a write. -/
theorem get_set {w : MapStore} {i j : Nat} (hi : i < w.length) :
    get (w.set i m) j = if i = j then m else get w j := by
  unfold get
  by_cases h : i = j
  · subst h
    simp [hi]
  · simp [List.getD_eq_getElem?_getD, h]

instance : LawfulIndex Nat MapStore where
  Holds w i m := i < w.length ∧ ∀ k, m k = (get w i).find? k
  Apart i j := i ≠ j
  Reads _ k := k ≠ .null
  Admits _ k := k ≠ .null
  Spent _ := False
  apart_symm h := Ne.symm h
  reads_of_admits h := h
  find_spec := by
    rintro w i m k ⟨-, hm⟩ -
    exact congrArg Except.ok (hm k).symm
  find_ok := by
    rintro w i m k r ⟨-, hm⟩ h
    rw [hm k]
    exact (Except.ok.inj h).symm
  rangeSearch_spec _ hlow hhigh := ⟨_, if_neg (by simp [hlow, hhigh])⟩
  rangeSearch_ok := by
    rintro w i m low high ids ⟨-, hm⟩ h
    obtain rfl : m = (get w i).find? := funext hm
    change (if low = .null ∨ high = .null then _ else _) = _ at h
    split at h
    · simp [raise] at h
    · exact Except.ok.inj h ▸ isRange_range
  rangeSearch_bounds := by
    intro w i low high ids h
    change (if low = .null ∨ high = .null then _ else _) = _ at h
    split at h
    · simp [raise] at h
    · next hnull => exact not_or.mp hnull
  insert_spec := by
    rintro w i m k id ⟨hi, hm⟩ -
    change Ends (MonadState.get >>= fun w => _) w _ _
    rw [ends_bind]
    change Ends (if _ then _ else _) w _ _
    rw [ends_ite]
    split
    · next h => exact .inr ⟨by rw [hm]; exact h, rfl⟩
    · next h =>
        have hnone : (get w i).find? k = none := by
          simpa [UnorderedMap.contains] using h
        refine ⟨(hm k).trans hnone, ⟨by simpa using hi, fun j => ?_⟩, ?_⟩
        · rw [get_set hi, if_pos rfl, UnorderedMap.find?_emplace, hnone]
          by_cases hj : j = k
          · simp [hj]
          · simp [hj, hm]
        · rintro j m' hne ⟨hj, hm'⟩
          refine ⟨by simpa using hj, fun k' => ?_⟩
          rw [get_set hi, if_neg hne, hm' k']
  erase_spec := by
    rintro w i m k ⟨hi, hm⟩ -
    change Ends (MonadState.get >>= fun w => _) w _ _
    rw [ends_bind]
    refine ⟨by rw [hm]; rfl, ⟨by simpa using hi, fun j => ?_⟩, ?_⟩
    · rw [get_set hi, if_pos rfl, UnorderedMap.find?_erase]
      by_cases hj : j = k
      · simp [hj]
      · simp [hj, hm]
    · rintro j m' hne ⟨hj, hm'⟩
      refine ⟨by simpa using hj, fun k' => ?_⟩
      rw [get_set hi, if_neg hne, hm' k']

end MapStore
end CwDb.Storage
