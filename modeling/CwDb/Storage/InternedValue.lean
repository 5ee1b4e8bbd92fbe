/-
  Storage/InternedValue.lean --- values over the pool, and the values they stand for.

  `operator==` looks at the ids and `compare` at the strings.  They agree because the pool
  gives a string one id: the values that were made over a pool compare as their contents do.
-/
import CwDb.Storage.StringPool
import CwDb.Storage.Value
import Mathlib.Data.List.Dedup
import Mathlib.Data.List.Perm.Subperm
import Mathlib.Order.Defs.Unbundled

set_option autoImplicit false

namespace CwDb.Storage

open CwDb.Cpp
open CwDb.Foundation

/-! ## The strings of a pool -/

namespace StringPool

/-- Every string of the pool was interned, and once. -/
structure Listed (pool : StringPool) (strings : List ByteString) : Prop where
  reserved : ∃ interned, pool.byId = [] :: interned ∧ interned.Nodup ∧ interned ⊆ strings
  found : ∀ s, (pool.byValue.find? s).isSome = true ↔ s ∈ pool.byId.tail

theorem listed_initial : initial.Listed [] where
  reserved := ⟨[], rfl, List.nodup_nil, List.nil_subset []⟩
  found s := by simp [initial]

theorem Listed.intern {pool : StringPool} {strings : List ByteString}
    (h : pool.Listed strings) (s : ByteString) :
    (pool.intern s).2.Listed (strings ++ [s]) := by
  obtain ⟨interned, hbyId, hnodup, hsubset⟩ := h.reserved
  have hfound := h.found
  rw [hbyId, List.tail_cons] at hfound
  unfold StringPool.intern
  cases hs : pool.byValue.find? s with
  | some id =>
      exact ⟨⟨interned, hbyId, hnodup, fun t ht => List.mem_append_left [s] (hsubset ht)⟩, h.found⟩
  | none =>
      have hnew : s ∉ interned := by
        intro hmem
        have := (hfound s).mpr hmem
        rw [hs] at this
        cases this
      have htail : (pool.byId ++ [s]).tail = interned ++ [s] := by rw [hbyId]; rfl
      refine ⟨⟨interned ++ [s], by rw [hbyId]; rfl, ?_, ?_⟩, fun t => ?_⟩
      · exact List.nodup_append.mpr ⟨hnodup, List.nodup_singleton s, fun t ht u hu heq =>
          hnew (List.mem_singleton.mp hu ▸ heq ▸ ht)⟩
      · intro t ht
        rcases List.mem_append.mp ht with hold | hlast
        · exact List.mem_append_left [s] (hsubset hold)
        · exact List.mem_append_right strings hlast
      · rw [htail, UnorderedMap.find?_emplace, hs]
        by_cases hts : t = s
        · rw [if_pos hts, hts]
          simp
        · rw [if_neg hts, hfound, List.mem_append, List.mem_singleton]
          exact (or_iff_left hts).symm

/-- A pool holds no more strings than were interned. -/
theorem Listed.length_le {pool : StringPool} {strings : List ByteString}
    (h : pool.Listed strings) : pool.byId.length ≤ strings.dedup.length + 1 := by
  obtain ⟨interned, hbyId, hnodup, hsubset⟩ := h.reserved
  rw [hbyId, List.length_cons]
  have hsub : interned ⊆ strings.dedup := fun s hs => List.mem_dedup.mpr (hsubset hs)
  exact Nat.succ_le_succ (List.subperm_of_subset hnodup hsub).length_le

/-- An id stands for one string, and a string has one id. -/
theorem Consistent.string?_inj {pool : StringPool} (h : pool.Consistent) {id id' : StringId}
    {s s' : ByteString} (hs : pool.string? id = some s) (hs' : pool.string? id' = some s') :
    id = id' ↔ s = s' := by
  constructor
  · rintro rfl
    exact Option.some.inj (hs.symm.trans hs')
  · rintro rfl
    exact Option.some.inj (((h.inverse s id).mpr hs).symm.trans ((h.inverse s id').mpr hs'))

end StringPool

/-! ## Values over a pool -/

namespace Value

variable {σ : Type}

/-- The string of a value. -/
def str? : Value σ → Option σ
  | str s => some s
  | _ => none

/-- `Value::of_int`. -/
def ofInt (n : Int64) : Value StringId := .int n

/-- `Value::of_str`. -/
def ofStr (s : ByteString) (pool : StringPool) : Value StringId × StringPool :=
  let (id, pool) := pool.intern s
  (.str id, pool)

/-- `Value::as_str`, of a string. -/
def asStr (pool : StringPool) (id : StringId) : Except Fault ByteString := pool.get id

/-- `Value::compare`: it is `noexcept`, so a fault of `as_str` ends the process. -/
def compareIn (pool : StringPool) : Value StringId → Value StringId →
    Except Fault (Option Ordering)
  | int a, int b => .ok (some (threeWay a b))
  | str a, str b =>
      if a = b then .ok (some .eq)
      else do
        let a ← asStr pool a
        let b ← asStr pool b
        pure (some (threeWay a b))
  | _, _ => .ok none

/-- `Value::operator==`. -/
def equals : Value StringId → Value StringId → Bool
  | null, null => true
  | int a, int b => a == b
  | str a, str b => a == b
  | _, _ => false

theorem equals_iff {v w : Value StringId} : equals v w = true ↔ v = w := by
  cases v <;> cases w <;> simp [equals]

/-- One value of the given contents. -/
def make : (contents : Value ByteString) → StringPool → Value StringId × StringPool
  | null, pool => (.null, pool)
  | int n, pool => (ofInt n, pool)
  | str s, pool => ofStr s pool

/-- Values made one after another. -/
def makeAll : List (Value ByteString) → StringPool → List (Value StringId) × StringPool
  | [], pool => ([], pool)
  | c :: rest, pool =>
      let (v, pool) := make c pool
      let (values, pool) := makeAll rest pool
      (v :: values, pool)

/-- The value stands for the contents. -/
inductive Denotes (pool : StringPool) : Value StringId → Value ByteString → Prop where
  | null : Denotes pool null null
  | int (n : Int64) : Denotes pool (int n) (int n)
  | str {id : StringId} {s : ByteString} (h : pool.string? id = some s) :
      Denotes pool (str id) (str s)

variable {pool : StringPool} {v w : Value StringId} {c d : Value ByteString}

theorem Denotes.extends {pool' : StringPool} (h : Denotes pool v c)
    (grown : pool.Extends pool') : Denotes pool' v c := by
  cases h with
  | null => exact .null
  | int n => exact .int n
  | str h => exact .str (grown.string? h)

/-- Values that stand for contents compare as these do. -/
theorem compareIn_eq (consistent : pool.Consistent) (hv : Denotes pool v c)
    (hw : Denotes pool w d) : compareIn pool v w = .ok (compare c d) := by
  cases hv with
  | null => rfl
  | int n => cases hw <;> rfl
  | @str id s hid =>
      cases hw with
      | null => rfl
      | int m => rfl
      | @str id' s' hid' =>
          change (if id = id' then _ else _) = Except.ok (some (threeWay s s'))
          split
          · next heq =>
              have heqs := (consistent.string?_inj hid hid').mp heq
              rw [threeWay_eq_eq_iff.mpr heqs]
          · unfold asStr
            rw [StringPool.get_eq_ok_iff.mpr hid, StringPool.get_eq_ok_iff.mpr hid']
            rfl

/-- They are equal when these are. -/
theorem Denotes.inj (consistent : pool.Consistent) (hv : Denotes pool v c)
    (hw : Denotes pool w d) : v = w ↔ c = d := by
  cases hv with
  | null => cases hw <;> simp
  | int n => cases hw <;> simp
  | str hid =>
      cases hw with
      | null => simp
      | int m => simp
      | str hid' =>
          rw [Value.str.injEq, Value.str.injEq]
          exact consistent.string?_inj hid hid'

/-- Equality of ids is what `compare` says of the strings. -/
theorem equals_iff_compareIn (consistent : pool.Consistent) (hv : Denotes pool v c)
    (hw : Denotes pool w d) :
    equals v w = true ↔ (v.isNull = true ∧ w.isNull = true) ∨
      compareIn pool v w = .ok (some .eq) := by
  have hnull : ∀ {v : Value StringId} {c : Value ByteString}, Denotes pool v c →
      (v.isNull = true ↔ c = null) := by
    intro v c h
    cases h <;> simp [isNull]
  have hcompare : compareIn pool v w = .ok (some .eq) ↔ c = d ∧ c ≠ null := by
    rw [compareIn_eq consistent hv hw, Except.ok.injEq, compare_eq_some_eq_iff]
  rw [equals_iff, hv.inj consistent hw, hnull hv, hnull hw, hcompare]
  by_cases hc : c = null
  · simp [hc, eq_comm]
  · simp [hc]

/-! ## The order of the values of one type -/

/-- The first value compares as less than or equal to the second. -/
def NotAbove (pool : StringPool) (v w : Value StringId) : Prop :=
  compareIn pool v w = .ok (some .lt) ∨ compareIn pool v w = .ok (some .eq)

/-- On contents of one type, none of them NULL, that is their order. -/
theorem notAbove_iff (consistent : pool.Consistent) (hv : Denotes pool v c)
    (hw : Denotes pool w d) (comparable : (compare c d).isSome = true) (notNull : c ≠ null) :
    NotAbove pool v w ↔ c ≤ d := by
  unfold NotAbove
  rw [compareIn_eq consistent hv hw, Except.ok.injEq, Except.ok.injEq, compare_eq_some_lt_iff,
    compare_eq_some_eq_iff, le_iff_lt_or_eq]
  simp [comparable, notNull]

theorem Denotes.matches (h : Denotes pool v c) (type : DataType) :
    v.matches type = c.matches type := by
  cases h <;> rfl

theorem Denotes.eq_null_iff (h : Denotes pool v c) : v = Value.null ↔ c = Value.null := by
  cases h <;> simp

/-- The values of one type, none of them NULL, in a list of values. -/
def OfType (values : List (Value StringId)) (type : DataType) : Type :=
  {v : Value StringId // v ∈ values ∧ v ≠ null ∧ v.matches type = true}

theorem isLinearOrder_notAbove (consistent : pool.Consistent)
    {values : List (Value StringId)} (denoted : ∀ v ∈ values, ∃ c, Denotes pool v c)
    (type : DataType) :
    IsLinearOrder (OfType values type) fun v w => NotAbove pool v.1 w.1 := by
  have hle : ∀ {v w : Value StringId} {c d : Value ByteString}, Denotes pool v c →
      Denotes pool w d → v ≠ null → w ≠ null → v.matches type = true → w.matches type = true →
      (NotAbove pool v w ↔ c ≤ d) := by
    intro v w c d hv hw hnv hnw hmv hmw
    have hnc : c ≠ null := mt hv.eq_null_iff.mpr hnv
    have hnd : d ≠ null := mt hw.eq_null_iff.mpr hnw
    rw [hv.matches] at hmv
    rw [hw.matches] at hmw
    exact notAbove_iff consistent hv hw (compare_isSome hmv hmw hnc hnd) hnc
  refine { refl := ?_, trans := ?_, antisymm := ?_, total := ?_ }
  · rintro ⟨v, hv, hnv, hmv⟩
    obtain ⟨c, hc⟩ := denoted v hv
    exact (hle hc hc hnv hnv hmv hmv).mpr le_rfl
  · rintro ⟨v, hv, hnv, hmv⟩ ⟨w, hw, hnw, hmw⟩ ⟨u, hu, hnu, hmu⟩ hvw hwu
    obtain ⟨c, hc⟩ := denoted v hv
    obtain ⟨d, hd⟩ := denoted w hw
    obtain ⟨e, he⟩ := denoted u hu
    have hcd := (hle hc hd hnv hnw hmv hmw).mp hvw
    have hde := (hle hd he hnw hnu hmw hmu).mp hwu
    exact (hle hc he hnv hnu hmv hmu).mpr (hcd.trans hde)
  · rintro ⟨v, hv, hnv, hmv⟩ ⟨w, hw, hnw, hmw⟩ hvw hwv
    obtain ⟨c, hc⟩ := denoted v hv
    obtain ⟨d, hd⟩ := denoted w hw
    have hcd := (hle hc hd hnv hnw hmv hmw).mp hvw
    have hdc := (hle hd hc hnw hnv hmw hmv).mp hwv
    exact Subtype.ext ((hc.inj consistent hd).mpr (le_antisymm hcd hdc))
  · rintro ⟨v, hv, hnv, hmv⟩ ⟨w, hw, hnw, hmw⟩
    obtain ⟨c, hc⟩ := denoted v hv
    obtain ⟨d, hd⟩ := denoted w hw
    rcases le_total c d with hcd | hdc
    · exact .inl ((hle hc hd hnv hnw hmv hmw).mpr hcd)
    · exact .inr ((hle hd hc hnw hnv hmw hmv).mpr hdc)

/-! ## Runs -/

/-- The strings of some contents. -/
def strings (contents : List (Value ByteString)) : List ByteString := contents.filterMap str?

theorem make_spec {interned : List ByteString} (listed : pool.Listed interned)
    (c : Value ByteString) :
    (make c pool).2.Listed (interned ++ strings [c]) ∧ pool.Extends (make c pool).2 := by
  cases c with
  | null =>
      have hnone : interned ++ strings [null] = interned := List.append_nil interned
      rw [hnone]
      exact ⟨listed, List.prefix_rfl⟩
  | int n =>
      have hnone : interned ++ strings [int n] = interned := List.append_nil interned
      rw [hnone]
      exact ⟨listed, List.prefix_rfl⟩
  | str s => exact ⟨listed.intern s, StringPool.extends_intern s pool⟩

theorem makeAll_spec (contents : List (Value ByteString)) {interned : List ByteString}
    (listed : pool.Listed interned) :
    (makeAll contents pool).2.Listed (interned ++ strings contents) ∧
      pool.Extends (makeAll contents pool).2 := by
  induction contents generalizing pool interned with
  | nil => exact ⟨by simpa [strings, makeAll] using listed, List.prefix_rfl⟩
  | cons c contents ih =>
      obtain ⟨hlisted, hextends⟩ := make_spec listed c
      obtain ⟨hall, hmore⟩ := ih hlisted
      refine ⟨?_, hextends.trans hmore⟩
      have happend : interned ++ strings (c :: contents) =
          interned ++ strings [c] ++ strings contents := by
        unfold strings
        rw [List.append_assoc, ← List.filterMap_append]
        rfl
      rw [happend]
      exact hall

theorem denotes_make (consistent : pool.Consistent) {c : Value ByteString}
    (fits : (make c pool).2.byId.length ≤ 2 ^ 32) :
    (make c pool).2.Consistent ∧ Denotes (make c pool).2 (make c pool).1 c := by
  cases c with
  | null => exact ⟨consistent, .null⟩
  | int n => exact ⟨consistent, .int n⟩
  | str s =>
      obtain ⟨hpool, hid⟩ := consistent.intern (s := s) fits
      exact ⟨hpool, .str hid⟩

/-- Every value that was made still stands for its contents. -/
theorem denotes_makeAll (contents : List (Value ByteString)) (consistent : pool.Consistent)
    {interned : List ByteString} (listed : pool.Listed interned)
    (fits : (makeAll contents pool).2.byId.length ≤ 2 ^ 32) :
    (makeAll contents pool).2.Consistent ∧
      List.Forall₂ (Denotes (makeAll contents pool).2) (makeAll contents pool).1 contents := by
  induction contents generalizing pool interned with
  | nil => exact ⟨consistent, .nil⟩
  | cons c contents ih =>
      obtain ⟨hlisted, -⟩ := make_spec listed c
      obtain ⟨-, hextends⟩ := makeAll_spec contents hlisted
      obtain ⟨hpool, hfirst⟩ := denotes_make consistent (c := c)
        (Nat.le_trans hextends.length_le fits)
      obtain ⟨hall, hmore⟩ := ih hpool hlisted fits
      exact ⟨hall, .cons (hfirst.extends hextends) hmore⟩

/-- The values made from contents with fewer than `2 ^ 32 - 1` strings: every id still stands for
its string, ids are equal when the strings are, `operator==` is what `compare` says, and `compare`
is the order of the contents, that of the numbers and the lexicographic one of the strings, a
linear order on the values of one type. -/
theorem interned_values (contents : List (Value ByteString))
    (few : (strings contents).dedup.length < 2 ^ 32 - 1) :
    List.Forall₂ (fun v c => ∀ s, c = str s → ∃ id, v = str id ∧
        (makeAll contents .initial).2.get id = .ok s)
      (makeAll contents .initial).1 contents ∧
    (∀ (i j : Nat) (v w : Value StringId) (c d : Value ByteString),
      (makeAll contents .initial).1[i]? = some v → contents[i]? = some c →
      (makeAll contents .initial).1[j]? = some w → contents[j]? = some d →
      (v = w ↔ c = d) ∧
      compareIn (makeAll contents .initial).2 v w = .ok (compare c d) ∧
      (∀ a b : Int64, c = int a → d = int b →
        (compareIn (makeAll contents .initial).2 v w = .ok (some .lt) ↔ a < b)) ∧
      (∀ a b : ByteString, c = str a → d = str b →
        (compareIn (makeAll contents .initial).2 v w = .ok (some .lt) ↔ a < b)) ∧
      (equals v w = true ↔ (v.isNull = true ∧ w.isNull = true) ∨
        compareIn (makeAll contents .initial).2 v w = .ok (some .eq))) ∧
    (∀ type, IsLinearOrder (OfType (makeAll contents .initial).1 type)
      fun v w => NotAbove (makeAll contents .initial).2 v.1 w.1) := by
  obtain ⟨hlisted, -⟩ := makeAll_spec contents StringPool.listed_initial
  have hlength := hlisted.length_le
  rw [List.nil_append] at hlength
  obtain ⟨hconsistent, hdenotes⟩ := denotes_makeAll contents
    StringPool.consistent_initial StringPool.listed_initial (by omega)
  refine ⟨?_, fun i j v w c d hv hc hw hd => ?_, fun type => ?_⟩
  · refine hdenotes.imp fun v c h s hs => ?_
    subst hs
    cases h with
    | str hid => exact ⟨_, rfl, StringPool.get_eq_ok_iff.mpr hid⟩
  · have hat : ∀ {i : Nat} {v : Value StringId} {c : Value ByteString},
        (makeAll contents .initial).1[i]? = some v → contents[i]? = some c →
        Denotes (makeAll contents .initial).2 v c := by
      intro i v c hv hc
      obtain ⟨hi, rfl⟩ := List.getElem?_eq_some_iff.mp hv
      obtain ⟨hi', rfl⟩ := List.getElem?_eq_some_iff.mp hc
      exact (List.forall₂_iff_get.mp hdenotes).2 i hi hi'
    have hvc := hat hv hc
    have hwd := hat hw hd
    have hcompare := compareIn_eq hconsistent hvc hwd
    refine ⟨hvc.inj hconsistent hwd, hcompare, ?_, ?_, equals_iff_compareIn hconsistent hvc hwd⟩
    · rintro a b rfl rfl
      rw [hcompare, Except.ok.injEq, compare, Option.some.injEq, threeWay_eq_lt_iff]
    · rintro a b rfl rfl
      rw [hcompare, Except.ok.injEq, compare, Option.some.injEq, threeWay_eq_lt_iff]
  · apply isLinearOrder_notAbove hconsistent
    intro v hv
    obtain ⟨i, hi, rfl⟩ := List.mem_iff_getElem.mp hv
    have hi' : i < contents.length := hdenotes.length_eq ▸ hi
    exact ⟨contents[i], (List.forall₂_iff_get.mp hdenotes).2 i hi hi'⟩

/-- NULL, a number, and the empty string before and behind another one. -/
def someContents : List (Value ByteString) :=
  [null, int 5, str [], str (text "a"), str []]

/-- The empty string has id 1 both times. -/
theorem interned_values_some :
    (makeAll someContents .initial).1 = [null, int 5, str 1, str 2, str 1] ∧
      (strings someContents).dedup.length = 2 ∧
      List.Forall₂ (fun v c => ∀ s, c = str s → ∃ id, v = str id ∧
          (makeAll someContents .initial).2.get id = .ok s)
        (makeAll someContents .initial).1 someContents :=
  ⟨by decide, by decide, (interned_values someContents (by decide)).1⟩

end Value
end CwDb.Storage
