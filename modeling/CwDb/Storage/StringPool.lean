/-
  Storage/StringPool.lean --- `storage/src/string_pool.cpp`.

  Ids are positions in `by_id_`, where position 0 is reserved; `by_value_` finds the
  position of a string that is there.
-/
import CwDb.Foundation.Scalar
import CwDb.Foundation.UnorderedMap
import CwDb.Cpp.Text

set_option autoImplicit false

namespace CwDb.Storage

open CwDb.Cpp
open CwDb.Foundation

/-- `StringPool::Id`. -/
abbrev StringId : Type := UInt32

/-- `class StringPool`. -/
structure StringPool where
  byValue : UnorderedMap ByteString StringId
  byId : List ByteString

namespace StringPool

/-- `StringPool()`: id 0 is reserved. -/
def initial : StringPool := ⟨.empty, [[]]⟩

/-- `StringPool::intern`. -/
def intern (s : ByteString) (pool : StringPool) : StringId × StringPool :=
  match pool.byValue.find? s with
  | some id => (id, pool)
  | none =>
      let id := UInt32.ofNat pool.byId.length
      (id, ⟨pool.byValue.emplace s id, pool.byId ++ [s]⟩)

/-- `StringPool::get`. -/
def get (pool : StringPool) (id : StringId) : Except Fault ByteString :=
  if id = 0 then raise .runtimeError (text "StringPool: invalid id")
  else
    match pool.byId[id.toNat]? with
    | some s => .ok s
    | none => raise .runtimeError (text "StringPool: invalid id")

/-- One string of `StringPool::serialize`. -/
def serializeString (s : ByteString) : ByteString :=
  let len := UInt32.ofNat s.length
  Scalar.encode len ++ s.take len.toNat

/-- `StringPool::serialize`. The counter of its loop is 32 bits wide and passes every bound
but the largest one. -/
def serialize (pool : StringPool) : Except Fault ByteString :=
  let count := UInt32.ofNat (pool.byId.length - 1)
  if count = 0xFFFFFFFF then .error .diverges
  else .ok (Scalar.encode count ++ ((pool.byId.drop 1).take count.toNat).flatMap serializeString)

/-- Strings interned one after another: their ids, and the pool they leave. -/
def internAll : List ByteString → StringPool → List StringId × StringPool
  | [], pool => ([], pool)
  | s :: rest, pool =>
      let (id, pool) := pool.intern s
      let (ids, pool) := internAll rest pool
      (id :: ids, pool)

/-! ## Consistency -/

/-- The string of an id. -/
def string? (pool : StringPool) (id : StringId) : Option ByteString :=
  if id = 0 then none else pool.byId[id.toNat]?

theorem get_eq_ok_iff {pool : StringPool} {id : StringId} {s : ByteString} :
    pool.get id = .ok s ↔ pool.string? id = some s := by
  unfold get string?
  split
  · simp [raise]
  · cases pool.byId[id.toNat]? <;> simp [raise]

/-- The two members are inverse to each other. -/
structure Consistent (pool : StringPool) : Prop where
  reserved : 0 < pool.byId.length
  inverse : ∀ s id, pool.byValue.find? s = some id ↔ pool.string? id = some s

theorem consistent_initial : initial.Consistent where
  reserved := Nat.one_pos
  inverse s id := by
    unfold string? initial
    split
    · simp
    · next hne =>
        have : ([[]] : List ByteString)[id.toNat]? = none := by
          have : 0 < id.toNat := Nat.pos_of_ne_zero fun h => hne (UInt32.toNat_inj.mp h)
          simp
          omega
        simp [this]

/-- Every id of the one pool stands for the same string in the other. -/
def Extends (pool pool' : StringPool) : Prop := pool.byId <+: pool'.byId

theorem Extends.string? {pool pool' : StringPool} (h : pool.Extends pool') {id : StringId}
    {s : ByteString} (known : pool.string? id = some s) : pool'.string? id = some s := by
  unfold StringPool.string? at known ⊢
  split at known
  · cases known
  · next hne =>
      rw [if_neg hne]
      obtain ⟨more, hmore⟩ := h
      obtain ⟨hlt, -⟩ := List.getElem?_eq_some_iff.mp known
      rw [← hmore, List.getElem?_append_left hlt, known]

theorem Extends.length_le {pool pool' : StringPool} (h : pool.Extends pool') :
    pool.byId.length ≤ pool'.byId.length := List.IsPrefix.length_le h

theorem extends_intern (s : ByteString) (pool : StringPool) :
    pool.Extends (pool.intern s).2 := by
  unfold intern Extends
  split
  · exact List.prefix_rfl
  · exact List.prefix_append _ _

/-- `intern` gives an id of the string and keeps the pool consistent while it fits its ids. -/
theorem Consistent.intern {pool : StringPool} (h : pool.Consistent) {s : ByteString}
    (fits : (pool.intern s).2.byId.length ≤ 2 ^ 32) :
    (pool.intern s).2.Consistent ∧ (pool.intern s).2.string? (pool.intern s).1 = some s := by
  unfold StringPool.intern at fits ⊢
  cases hfound : pool.byValue.find? s with
  | some id => exact ⟨h, (h.inverse s id).mp hfound⟩
  | none =>
      rw [hfound] at fits
      dsimp only at fits ⊢
      rw [List.length_append, List.length_singleton] at fits
      have hreserved := h.reserved
      have hid : (UInt32.ofNat pool.byId.length).toNat = pool.byId.length := by
        exact (UInt32.toNat_ofNat').trans (Nat.mod_eq_of_lt (by omega))
      have hne : UInt32.ofNat pool.byId.length ≠ 0 := by
        intro heq
        rw [heq] at hid
        exact absurd hid (Nat.ne_of_lt hreserved)
      have hnew : StringPool.string? ⟨pool.byValue.emplace s (UInt32.ofNat pool.byId.length),
          pool.byId ++ [s]⟩ (UInt32.ofNat pool.byId.length) = some s := by
        unfold string?
        rw [if_neg hne, hid, List.getElem?_concat_length]
      have hextends : pool.Extends ⟨pool.byValue.emplace s (UInt32.ofNat pool.byId.length),
          pool.byId ++ [s]⟩ := List.prefix_append _ _
      refine ⟨⟨by simp, fun s' id => ?_⟩, hnew⟩
      rw [UnorderedMap.find?_emplace, hfound]
      constructor
      · intro hfind
        split at hfind
        · next heq =>
            obtain rfl := Option.some.inj hfind
            rw [heq, hnew]
        · exact hextends.string? ((h.inverse s' id).mp hfind)
      · intro hstring
        have hlast : id.toNat < pool.byId.length ∨ id.toNat = pool.byId.length := by
          unfold string? at hstring
          split at hstring
          · cases hstring
          · obtain ⟨hlt, -⟩ := List.getElem?_eq_some_iff.mp hstring
            rw [List.length_append, List.length_singleton] at hlt
            omega
        rcases hlast with hlt | heq
        · have hold : pool.string? id = some s' := by
            unfold string? at hstring ⊢
            split at hstring
            · cases hstring
            · next hid' => rw [if_neg hid', ← hstring, List.getElem?_append_left hlt]
          have hfind := (h.inverse s' id).mpr hold
          have hother : s' ≠ s := by
            rintro rfl
            rw [hfound] at hfind
            cases hfind
          rw [if_neg hother]
          exact hfind
        · obtain rfl : id = UInt32.ofNat pool.byId.length :=
            UInt32.toNat_inj.mp (heq.trans hid.symm)
          obtain rfl := Option.some.inj (hnew.symm.trans hstring)
          rw [if_pos rfl, Option.none_or]

theorem extends_internAll (strings : List ByteString) (pool : StringPool) :
    pool.Extends (internAll strings pool).2 := by
  induction strings generalizing pool with
  | nil => exact List.prefix_rfl
  | cons s strings ih => exact (extends_intern s pool).trans (ih (pool.intern s).2)

/-- Interning several strings gives an id of each. -/
theorem Consistent.internAll {strings : List ByteString} : ∀ {pool : StringPool},
    pool.Consistent → (internAll strings pool).2.byId.length ≤ 2 ^ 32 →
      (internAll strings pool).2.Consistent ∧
        (internAll strings pool).1.map (internAll strings pool).2.string? =
          strings.map some := by
  induction strings with
  | nil => exact fun h _ => ⟨h, rfl⟩
  | cons s strings ih =>
      intro pool h fits
      have hextends := extends_internAll strings (pool.intern s).2
      obtain ⟨hpool, hid⟩ := h.intern (s := s) (Nat.le_trans hextends.length_le fits)
      obtain ⟨hall, hids⟩ := ih hpool fits
      refine ⟨hall, ?_⟩
      change (StringPool.internAll strings (pool.intern s).2).2.string? (pool.intern s).1 ::
        (StringPool.internAll strings (pool.intern s).2).1.map
          (StringPool.internAll strings (pool.intern s).2).2.string? = _
      rw [hids, hextends.string? hid]
      rfl

end StringPool
end CwDb.Storage
