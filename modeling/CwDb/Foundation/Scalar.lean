/-
  Foundation/Scalar.lean --- fixed-width scalars as little-endian bytes.
-/
import Mathlib.Data.List.Basic
import Mathlib.Tactic.Ring

set_option autoImplicit false

namespace CwDb.Foundation

/-! ## Bytes of a number -/

/-- The `width` low bytes of a number, the lowest first. -/
def leBytes : (width : Nat) → Nat → List UInt8
  | 0, _ => []
  | width + 1, n => UInt8.ofNat n :: leBytes width (n / 256)

/-- The number with the given bytes. -/
def leValue : List UInt8 → Nat
  | [] => 0
  | b :: bytes => b.toNat + 256 * leValue bytes

@[simp] theorem length_leBytes : ∀ width n : Nat, (leBytes width n).length = width
  | 0, _ => rfl
  | width + 1, n => by
      rw [leBytes, List.length_cons, length_leBytes width]

theorem leValue_leBytes : ∀ width n : Nat, leValue (leBytes width n) = n % 256 ^ width
  | 0, n => by simp [leBytes, leValue, Nat.mod_one]
  | width + 1, n => by
      have hbyte : (UInt8.ofNat n).toNat = n % 256 := by simp
      rw [leBytes, leValue, leValue_leBytes width, hbyte, pow_succ', Nat.mod_mul]

theorem leValue_leBytes_of_lt {width n : Nat} (h : n < 256 ^ width) :
    leValue (leBytes width n) = n := by
  rw [leValue_leBytes, Nat.mod_eq_of_lt h]

theorem leBytes_leValue (bytes : List UInt8) : leBytes bytes.length (leValue bytes) = bytes := by
  induction bytes with
  | nil => rfl
  | cons b bytes ih =>
      have hlow : UInt8.ofNat (b.toNat + 256 * leValue bytes) = b := by
        apply UInt8.toNat_inj.mp
        have := b.toNat_lt
        rw [UInt8.toNat_ofNat']
        omega
      have hhigh : (b.toNat + 256 * leValue bytes) / 256 = leValue bytes := by
        have := b.toNat_lt
        omega
      rw [List.length_cons, leBytes, leValue, hlow, hhigh, ih]

theorem leValue_lt (bytes : List UInt8) : leValue bytes < 256 ^ bytes.length := by
  induction bytes with
  | nil => exact Nat.one_pos
  | cons b bytes ih =>
      have := b.toNat_lt
      rw [leValue, List.length_cons, pow_succ']
      omega

/-! ## Scalars -/

/-- A type whose values are copied to and from a fixed number of bytes. -/
class Scalar (α : Type) where
  width : Nat
  toNat : α → Nat
  ofNat : Nat → α
  toNat_lt : ∀ a, toNat a < 256 ^ width
  ofNat_toNat : ∀ a, ofNat (toNat a) = a

instance : Scalar UInt8 where
  width := 1
  toNat := UInt8.toNat
  ofNat := UInt8.ofNat
  toNat_lt a := a.toNat_lt
  ofNat_toNat a := by simp

instance : Scalar UInt16 where
  width := 2
  toNat := UInt16.toNat
  ofNat := UInt16.ofNat
  toNat_lt a := a.toNat_lt
  ofNat_toNat a := by simp

instance : Scalar UInt32 where
  width := 4
  toNat := UInt32.toNat
  ofNat := UInt32.ofNat
  toNat_lt a := a.toNat_lt
  ofNat_toNat a := by simp

instance : Scalar UInt64 where
  width := 8
  toNat := UInt64.toNat
  ofNat := UInt64.ofNat
  toNat_lt a := a.toNat_lt
  ofNat_toNat a := by simp

instance : Scalar Int64 where
  width := 8
  toNat a := a.toUInt64.toNat
  ofNat n := (UInt64.ofNat n).toInt64
  toNat_lt a := a.toUInt64.toNat_lt
  ofNat_toNat a := by simp

/-- A scalar that any bytes of its width are those of. -/
class ExactScalar (α : Type) extends Scalar α where
  toNat_ofNat : ∀ n, n < 256 ^ width → toNat (ofNat n) = n

instance : ExactScalar UInt8 where
  toNat_ofNat _ h := UInt8.toNat_ofNat'.trans (Nat.mod_eq_of_lt h)

instance : ExactScalar UInt16 where
  toNat_ofNat _ h := UInt16.toNat_ofNat'.trans (Nat.mod_eq_of_lt h)

instance : ExactScalar UInt32 where
  toNat_ofNat _ h := UInt32.toNat_ofNat'.trans (Nat.mod_eq_of_lt h)

instance : ExactScalar UInt64 where
  toNat_ofNat _ h := UInt64.toNat_ofNat'.trans (Nat.mod_eq_of_lt h)

instance : ExactScalar Int64 where
  toNat_ofNat _ h := UInt64.toNat_ofNat'.trans (Nat.mod_eq_of_lt h)

namespace Scalar

variable {α : Type} [Scalar α]

def encode (a : α) : List UInt8 := leBytes (width α) (toNat a)

def decode (bytes : List UInt8) : α := ofNat (leValue bytes)

@[simp] theorem length_encode (a : α) : (encode a).length = width α := length_leBytes _ _

@[simp] theorem decode_encode (a : α) : decode (encode a) = a := by
  rw [decode, encode, leValue_leBytes_of_lt (toNat_lt a), ofNat_toNat]

theorem encode_decode {α : Type} [ExactScalar α] {bytes : List UInt8}
    (h : bytes.length = width α) : encode (decode bytes : α) = bytes := by
  have hlt : leValue bytes < 256 ^ width α := h ▸ leValue_lt bytes
  rw [encode, decode, ExactScalar.toNat_ofNat _ hlt, ← h, leBytes_leValue]

end Scalar
end CwDb.Foundation
