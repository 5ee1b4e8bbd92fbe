/-
  Storage/Value.lean --- `cw_db::Value`.

  A value holds a string as a handle of type `σ`: an id of the `StringPool`, or, in
  all that compares values, the contents that the id stands for.
-/
import CwDb.Cpp.Text
import CwDb.Foundation.MachineOrder
import Mathlib.Data.Sum.Order

set_option autoImplicit false

namespace CwDb.Storage

open CwDb.Cpp
open CwDb.Foundation

/-- `enum class DataType`. -/
inductive DataType where
  | int | str
  deriving DecidableEq, Repr, Inhabited

/-- `class Value`: the tag and the member of the union it selects. -/
inductive Value (σ : Type) where
  | null
  | int (n : Int64)
  | str (s : σ)
  deriving DecidableEq, Repr, Inhabited

namespace Value

variable {σ : Type}

/-- The value with its string looked up. -/
def map {τ : Type} (f : σ → τ) : Value σ → Value τ
  | null => .null
  | int n => .int n
  | str s => .str (f s)

/-- `Value::is_null`. -/
def isNull : Value σ → Bool
  | null => true
  | _ => false

/-- `Value::is_str`. -/
def isStr : Value σ → Bool
  | str _ => true
  | _ => false

/-- `Value::matches`. -/
def «matches» : Value σ → DataType → Bool
  | null, _ => true
  | int _, t => t == .int
  | str _, t => t == .str

/-- `if (a < b) return -1; if (a > b) return 1; return 0;`. -/
def threeWay {α : Type} [LinearOrder α] (a b : α) : Ordering := cmp a b

/-- `Value::compare`; `none` stands for `valid = false`. -/
def compare : Value ByteString → Value ByteString → Option Ordering
  | int a, int b => some (threeWay a b)
  | str a, str b => some (threeWay a b)
  | _, _ => none

/-- The first value compares as less than or equal to the second. -/
def le (a b : Value ByteString) : Bool :=
  compare a b == some .lt || compare a b == some .eq

def Le (a b : Value ByteString) : Prop := le a b = true

/-- All values in one line: NULL, the integers, the strings. -/
def rank : Value ByteString → Unit ⊕ₗ (Int64 ⊕ₗ ByteString)
  | null => Sum.inlₗ ()
  | int n => Sum.inrₗ (Sum.inlₗ n)
  | str s => Sum.inrₗ (Sum.inrₗ s)

theorem rank_injective : Function.Injective rank := by
  intro a b h
  cases a <;> cases b <;> simp_all [rank, Sum.inlₗ, Sum.inrₗ]

instance : LinearOrder (Value ByteString) := LinearOrder.lift' rank rank_injective

theorem threeWay_eq_lt_iff {α : Type} [LinearOrder α] {a b : α} :
    threeWay a b = .lt ↔ a < b := cmp_eq_lt_iff a b

theorem threeWay_eq_eq_iff {α : Type} [LinearOrder α] {a b : α} :
    threeWay a b = .eq ↔ a = b := cmp_eq_eq_iff a b

theorem threeWay_swap {α : Type} [LinearOrder α] (a b : α) :
    (threeWay a b).swap = threeWay b a := cmp_swap a b

/-- On values that compare, `compare` is the order. -/
theorem compare_eq_some_lt_iff {a b : Value ByteString} :
    compare a b = some .lt ↔ a < b ∧ (compare a b).isSome = true := by
  change _ ↔ rank a < rank b ∧ _
  cases a <;> cases b <;>
    simp [compare, rank, threeWay_eq_lt_iff, Sum.inlₗ, Sum.inrₗ]

/-- Two values compare equal when they are the same and not NULL. -/
theorem compare_eq_some_eq_iff {a b : Value ByteString} :
    compare a b = some .eq ↔ a = b ∧ a ≠ null := by
  cases a <;> cases b <;> simp [compare, threeWay_eq_eq_iff]

theorem compare_swap (a b : Value ByteString) : (compare a b).map Ordering.swap = compare b a := by
  cases a <;> cases b <;> simp [compare, threeWay_swap]

/-- `Le` the other way round. -/
theorem le_iff_compare {a b : Value ByteString} :
    Le a b ↔ compare b a = some .gt ∨ compare b a = some .eq := by
  rw [← compare_swap a b]
  unfold Le le
  cases compare a b with
  | none => simp
  | some o => cases o <;> simp

/-- Two values of one type, neither of them NULL, compare. -/
theorem compare_isSome {a b : Value ByteString} {t : DataType} (ha : a.matches t = true)
    (hb : b.matches t = true) (hna : a ≠ null) (hnb : b ≠ null) :
    (compare a b).isSome = true := by
  cases a <;> cases b <;> cases t <;> simp_all [compare, «matches»]

/-- Values above one bound compare with each other. -/
theorem compare_isSome_of_le_le {a b low : Value ByteString} (ha : Le low a) (hb : Le low b) :
    (compare a b).isSome = true := by
  cases low <;> cases a <;> cases b <;> simp_all [Le, le, compare]

end Value
end CwDb.Storage
