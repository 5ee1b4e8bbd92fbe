/-
  Cpp/Text.lean --- the pieces of the C++ standard library that the program
  reads text with.

  A `std::string` is a list of bytes.  The `<cctype>` classes are those of the
  "C" locale: a byte from 0x80 up belongs to none of them.
-/
import Mathlib.Algebra.Group.Int.Defs
import Mathlib.Algebra.Group.Nat.Defs
import Mathlib.Data.List.Basic

set_option autoImplicit false

namespace CwDb.Cpp

/-- `std::string`. -/
abbrev ByteString : Type := List UInt8

/-- An ASCII literal of the source as a byte string. -/
def text (literal : String) : ByteString :=
  literal.toList.map fun c => c.toNat.toUInt8

/-! ## Exceptions -/

/-- The exception classes the program throws or lets through. -/
inductive ExceptionClass where
  | parseError
  | invalidArgument
  | outOfRange
  | lengthError
  | logicError
  | runtimeError
  | regexError
  deriving DecidableEq, Repr, Inhabited

/-- How a computation fails to return: it throws, with the text of `what()`, it never ends,
or it reads behind the end of a container, after which C++ promises nothing. -/
inductive Fault where
  | throws (cls : ExceptionClass) (what : ByteString)
  | diverges
  | outOfBounds
  deriving DecidableEq, Repr, Inhabited

/-- `throw cls(what)`. -/
def raise {α : Type} (cls : ExceptionClass) (what : ByteString) : Except Fault α :=
  .error (.throws cls what)

/-! ## Containers -/

/-- `v.at(i)` of a `std::vector`. -/
def vectorAt {α : Type} (v : List α) (i : Nat) : Except Fault α :=
  match v[i]? with
  | some a => .ok a
  | none => raise .outOfRange (text "vector::_M_range_check")

@[simp] theorem vectorAt_eq_ok {α : Type} {v : List α} {i : Nat} {a : α} :
    vectorAt v i = .ok a ↔ v[i]? = some a := by
  unfold vectorAt
  cases h : v[i]? <;> simp [raise]

/-- `v[i]` of a `std::vector`. -/
def vectorIndex {α : Type} (v : List α) (i : Nat) : Except Fault α :=
  match v[i]? with
  | some a => .ok a
  | none => .error .outOfBounds

/-! ## Character classes -/

/-- `std::isspace`. -/
def isSpace (c : UInt8) : Bool := c == 0x20 || (0x09 ≤ c && c ≤ 0x0d)

/-- `std::isdigit`. -/
def isDigit (c : UInt8) : Bool := 0x30 ≤ c && c ≤ 0x39

/-- `std::isalpha`. -/
def isAlpha (c : UInt8) : Bool := (0x41 ≤ c && c ≤ 0x5a) || (0x61 ≤ c && c ≤ 0x7a)

/-- `std::isalnum`. -/
def isAlnum (c : UInt8) : Bool := isAlpha c || isDigit c

/-- `::toupper`. -/
def toUpper (c : UInt8) : UInt8 := if 0x61 ≤ c && c ≤ 0x7a then c - 0x20 else c

/-! ## Numbers -/

/-- `std::to_string` of a natural number. -/
def decimal (n : Nat) : ByteString :=
  (Nat.toDigits 10 n).map fun c => c.toNat.toUInt8

/-- `std::to_string` of an integer. -/
def decimalInt (n : Int) : ByteString :=
  if n < 0 then text "-" ++ decimal n.natAbs else decimal n.natAbs

/-- The value of a run of decimal digits. -/
def digitsValue (digits : ByteString) : Nat :=
  digits.foldl (fun acc d => 10 * acc + (d.toNat - 0x30)) 0

/-- The subject sequence of `strtoll` in base 10: its value and the number of
bytes up to its end, or nothing when there is no digit. -/
def strtoInteger (s : ByteString) : Option (Int × Nat) :=
  let afterSpace := s.dropWhile isSpace
  let negative := afterSpace.head? == some 0x2d
  let afterSign :=
    if negative || afterSpace.head? == some 0x2b then afterSpace.tail else afterSpace
  let digits := afterSign.takeWhile isDigit
  if digits.isEmpty then none
  else
    let magnitude : Int := digitsValue digits
    some (if negative then -magnitude else magnitude,
      s.length - afterSign.length + digits.length)

/-- `std::stoll(s, &pos)`: the value and `pos`. -/
def stoll (s : ByteString) : Except Fault (Int64 × Nat) :=
  match strtoInteger s with
  | none => raise .invalidArgument (text "stoll")
  | some (n, pos) =>
      if -(2 ^ 63) ≤ n ∧ n < 2 ^ 63 then .ok (Int64.ofInt n, pos)
      else raise .outOfRange (text "stoll")

/-- `std::stoi(s)`. -/
def stoi (s : ByteString) : Except Fault Int32 :=
  match strtoInteger s with
  | none => raise .invalidArgument (text "stoi")
  | some (n, _) =>
      if -(2 ^ 31) ≤ n ∧ n < 2 ^ 31 then .ok (Int32.ofInt n)
      else raise .outOfRange (text "stoi")

end CwDb.Cpp
