/-
  Storage/IndexObjects.lean --- index objects that each have a file of their own.

  The contract of an index is kept by `BStarPlusIndex` behind its adapter, for the keys that a
  page has room for, as long as no file is full.
-/
import CwDb.Index.RefusedKeys
import CwDb.Storage.MapDirectory

set_option autoImplicit false

namespace CwDb.Storage

open CwDb.Cpp
open CwDb.Foundation
open CwDb.Index
open CwDb.Index.BStarPlusIndex (Mirrors validateKeyKind_eq)

/-- The index objects that there are. -/
abbrev IndexObjects : Type := List BStarPlusIndex

/-- What leads to an index object, and the kind of its keys. -/
structure ObjectPointer where
  number : Nat
  keyKind : IndexKeyKind
  deriving DecidableEq

/-- The adapter of an index object. -/
abbrev ObjectRef : Type := BStarPlusIndexAdapter ObjectPointer

namespace IndexObjects

/-- A read from an index object; a pointer that leads nowhere has no meaning. -/
def readObject {α : Type} (p : ObjectPointer) (f : BStarPlusIndex → Except Fault α)
    (w : IndexObjects) : Except Fault α :=
  match w[p.number]? with
  | some idx => f idx
  | none => .error .diverges

/-- A call on an index object. -/
def onObject {α : Type} (p : ObjectPointer) (m : IndexM α) : EStateM Fault IndexObjects α := do
  let w ← get
  match w[p.number]? with
  | some idx => zoom (fun _ => idx) (fun w idx => w.set p.number idx) m
  | none => throw .diverges

instance : KeyIndex ObjectPointer IndexObjects where
  find p key w := readObject p (fun idx => idx.find key) w
  rangeSearch p low high w := readObject p (fun idx => idx.rangeSearch low high) w
  insert p key record := onObject p (BStarPlusIndex.insert key record)
  erase p key := onObject p (BStarPlusIndex.erase key)

/-! ## Calls -/

section Calls

variable {α : Type} {i : ObjectRef} {p : ObjectPointer} {key low high : IndexKey}
  {w : IndexObjects} {idx : BStarPlusIndex}

theorem ends_onObject (h : w[p.number]? = some idx) {m : IndexM α}
    {Q : α → IndexObjects → Prop} {E : Fault → IndexObjects → Prop} :
    Ends (onObject p m) w Q E ↔
      Ends m idx (fun a idx' => Q a (w.set p.number idx'))
        (fun e idx' => E e (w.set p.number idx')) := by
  rw [onObject, ends_bind, ends_get]
  simp only [h]
  exact ends_zoom

theorem readObject_eq (h : w[p.number]? = some idx) (f : BStarPlusIndex → Except Fault α) :
    readObject p f w = f idx := by
  rw [readObject, h]

theorem find_ref :
    IIndex.find i (ofIndexKey key) w = readObject i.index (fun idx => idx.find key) w := by
  cases key <;> rfl

theorem rangeSearch_ref : IIndex.rangeSearch i (ofIndexKey low) (ofIndexKey high) w =
    readObject i.index (fun idx => idx.rangeSearch low high) w := by
  cases low <;> cases high <;> rfl

theorem insert_ref {id : RowId} : (IIndex.insert i (ofIndexKey key) id : EStateM Fault _ _) =
    onObject i.index (BStarPlusIndex.insert key id) := by
  cases key <;> rfl

theorem erase_ref : (IIndex.erase i (ofIndexKey key) : EStateM Fault _ _) =
    onObject i.index (BStarPlusIndex.erase key) := by
  cases key <;> rfl

end Calls

/-! ## The contract -/

/-- The index takes the value as a key. -/
def Takes (i : ObjectRef) (v : Value ByteString) : Prop :=
  ∃ key, v = ofIndexKey key ∧ Admissible i.index.keyKind key

/-- The index object holds the map from values to rows. -/
def HoldsValues (w : IndexObjects) (i : ObjectRef) (values : IndexMap) : Prop :=
  ∃ idx m, w[i.index.number]? = some idx ∧ Mirrors i.index.keyKind idx m ∧
    values = (KeyedMap.mk i.index.keyKind m).values

section Contract

variable {w : IndexObjects} {i : ObjectRef} {values : IndexMap} {key low high : IndexKey}
  {idx : BStarPlusIndex} {m : OrderedMap IndexKey UInt64}

/-- One object is written, and the others are as they were. -/
theorem holdsValues_set_ne {j : ObjectRef} {idx' : BStarPlusIndex}
    (ne : i.index.number ≠ j.index.number) (h : HoldsValues w j values) :
    HoldsValues (w.set i.index.number idx') j values := by
  obtain ⟨idx, m, hobject, hrest⟩ := h
  exact ⟨idx, m, by rwa [List.getElem?_set_ne ne], hrest⟩

theorem holdsValues_set {idx' : BStarPlusIndex} {r : Option RowId}
    {m' : OrderedMap IndexKey UInt64} (here : w[i.index.number]? = some idx)
    (mirrors : Mirrors i.index.keyKind idx' m') (found : m'.find? key = r)
    (others : ∀ j, j ≠ key → m'.find? j = m.find? j) :
    HoldsValues (w.set i.index.number idx') i
      (Function.update (KeyedMap.mk i.index.keyKind m).values (ofIndexKey key) r) :=
  ⟨idx', m', List.getElem?_set_self (List.getElem?_eq_some_iff.mp here).1, mirrors,
    (KeyedMap.values_update found others).symm⟩

theorem validateKeyKind_of_matches {idx : BStarPlusIndex} (mirrors : Mirrors i.index.keyKind idx m)
    (valid : keyMatchesKind key i.index.keyKind = true) :
    validateKeyKind key idx.metadata.keyKind = .ok () := by
  rw [mirrors.kind, validateKeyKind, if_pos valid]

end Contract

/-- `range_search` looks at the kinds of its keys first. -/
theorem valid_of_rangeSearch {idx : BStarPlusIndex} {low high : IndexKey} {records : List UInt64}
    (h : idx.rangeSearch low high = .ok records) :
    validateKeyKind low idx.metadata.keyKind = .ok () ∧
      validateKeyKind high idx.metadata.keyKind = .ok () := by
  unfold BStarPlusIndex.rangeSearch at h
  cases hlow : validateKeyKind low idx.metadata.keyKind with
  | error fault =>
      rw [hlow] at h
      cases h
  | ok _ =>
      cases hhigh : validateKeyKind high idx.metadata.keyKind with
      | error fault =>
          simp only [hlow, hhigh, bind, Except.bind] at h
          cases h
      | ok _ => exact ⟨rfl, rfl⟩

/-- `insert` keeps the contract. -/
theorem ends_insert {w : IndexObjects} {i : ObjectRef} {values : IndexMap} {v : Value ByteString}
    {id : RowId} (holds : HoldsValues w i values) (takes : Takes i v) :
    Ends (IIndex.insert i v id) w
      (fun _ w' => values v = none ∧ HoldsValues w' i (Function.update values v (some id)) ∧
        ∀ j values', i.index.number ≠ j.index.number → HoldsValues w j values' →
          HoldsValues w' j values')
      (fun _ w' => (∃ idx ∈ w', idx.disk.Full) ∨ (values v).isSome = true ∧ w' = w) := by
  obtain ⟨idx, m, hobject, mirrors, rfl⟩ := holds
  obtain ⟨key, rfl, admissible⟩ := takes
  have hlt := (List.getElem?_eq_some_iff.mp hobject).1
  have hadmissible : Admissible idx.metadata.keyKind key := mirrors.kind.symm ▸ admissible
  rw [insert_ref, ends_onObject hobject, KeyedMap.values_ofIndexKey]
  cases hfind : m.find? key with
  | some old =>
      have hpresent : m.find? key ≠ none := by rw [hfind]; nofun
      rw [ends_of_error (mirrors.contents.insert_present (validateKeyKind_eq hadmissible) hpresent)]
      obtain ⟨hlt, rfl⟩ := List.getElem?_eq_some_iff.mp hobject
      rw [List.set_getElem_self hlt]
      exact .inr ⟨rfl, rfl⟩
  | none =>
      have hends : Ends (BStarPlusIndex.insert key id) idx _ fun _ idx' => idx'.disk.Full :=
        mirrors.contents.ends_insert hadmissible hfind fun _ full _ => full
      refine hends.mono ?_ fun _ idx' full => .inl ⟨idx', List.mem_set hlt _, full⟩
      rintro - idx' ⟨c', hkind⟩
      refine ⟨rfl, ?_, fun j values' ne h => holdsValues_set_ne ne h⟩
      exact holdsValues_set hobject ⟨c', hkind.trans mirrors.kind⟩
        (OrderedMap.find?_insert.trans (if_pos rfl))
        fun j hj => OrderedMap.find?_insert.trans (if_neg hj)

/-- `erase` keeps the contract. -/
theorem ends_erase {w : IndexObjects} {i : ObjectRef} {values : IndexMap} {v : Value ByteString}
    (holds : HoldsValues w i values) (takes : Takes i v) :
    Ends (IIndex.erase i v) w
      (fun erased w' => erased = (values v).isSome ∧
        HoldsValues w' i (Function.update values v none) ∧
        ∀ j values', i.index.number ≠ j.index.number → HoldsValues w j values' →
          HoldsValues w' j values')
      (fun _ w' => ∃ idx ∈ w', idx.disk.Full) := by
  obtain ⟨idx, m, hobject, mirrors, rfl⟩ := holds
  obtain ⟨key, rfl, admissible⟩ := takes
  have hadmissible : Admissible idx.metadata.keyKind key := mirrors.kind.symm ▸ admissible
  rw [erase_ref, ends_onObject hobject, KeyedMap.values_ofIndexKey]
  have hends := mirrors.contents.ends_erase (E := fun _ _ => False)
    (validateKeyKind_eq hadmissible)
  refine hends.mono ?_ fun _ _ h => h.elim
  rintro found idx' ⟨rfl, c', hkind⟩
  refine ⟨rfl, ?_, fun j values' ne h => holdsValues_set_ne ne h⟩
  exact holdsValues_set hobject ⟨c', hkind.trans mirrors.kind⟩
    (OrderedMap.find?_erase.trans (if_pos rfl))
    fun j hj => OrderedMap.find?_erase.trans (if_neg hj)

instance : LawfulIndex ObjectRef IndexObjects where
  Holds := HoldsValues
  Apart i j := i.index.number ≠ j.index.number
  Reads i v := ∃ key, v = ofIndexKey key ∧ keyMatchesKind key i.index.keyKind = true
  Admits := Takes
  Spent w := ∃ idx ∈ w, idx.disk.Full
  apart_symm h := Ne.symm h
  reads_of_admits := by
    rintro i v ⟨key, rfl, admissible⟩
    exact ⟨key, rfl, admissible.matches⟩
  find_spec := by
    rintro w i values v ⟨idx, m, hobject, mirrors, rfl⟩ ⟨key, rfl, valid⟩
    rw [find_ref, readObject_eq hobject, KeyedMap.values_ofIndexKey]
    exact mirrors.contents.find_eq (validateKeyKind_of_matches mirrors valid)
  find_ok := by
    rintro w i values v r ⟨idx, m, hobject, mirrors, rfl⟩ h
    by_cases present : v = .null
    · rw [present] at h
      cases h
    · obtain ⟨key, -, rfl⟩ := toIndexKey_ofIndexKey present
      rw [find_ref, readObject_eq hobject] at h
      cases hvalid : validateKeyKind key idx.metadata.keyKind with
      | error fault =>
          rw [BStarPlusIndex.find, hvalid] at h
          cases h
      | ok _ =>
          rw [mirrors.contents.find_eq hvalid] at h
          rw [KeyedMap.values_ofIndexKey]
          exact (Except.ok.inj h).symm
  rangeSearch_spec := by
    rintro w i values low high ⟨idx, m, hobject, mirrors, rfl⟩ ⟨lowKey, rfl, validLow⟩
      ⟨highKey, rfl, validHigh⟩
    refine ⟨m.range lowKey highKey, ?_⟩
    rw [rangeSearch_ref, readObject_eq hobject]
    exact mirrors.contents.rangeSearch_eq (validateKeyKind_of_matches mirrors validLow)
      (validateKeyKind_of_matches mirrors validHigh)
  rangeSearch_ok := by
    rintro w i values low high ids ⟨idx, m, hobject, mirrors, rfl⟩ h
    obtain ⟨hlow, hhigh⟩ := rangeSearch_ok_bounds h
    obtain ⟨lowKey, -, rfl⟩ := toIndexKey_ofIndexKey hlow
    obtain ⟨highKey, -, rfl⟩ := toIndexKey_ofIndexKey hhigh
    rw [rangeSearch_ref, readObject_eq hobject] at h
    obtain ⟨validLow, validHigh⟩ := valid_of_rangeSearch h
    rw [mirrors.contents.rangeSearch_eq validLow validHigh] at h
    obtain rfl := Except.ok.inj h
    exact KeyedMap.isRange_range (keyMatchesKind_of_validateKeyKind validLow)
      (keyMatchesKind_of_validateKeyKind validHigh)
  rangeSearch_bounds h := rangeSearch_ok_bounds h
  insert_spec := ends_insert
  erase_spec := ends_erase

end IndexObjects
end CwDb.Storage
