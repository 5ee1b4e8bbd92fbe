/-
  Foundation/Json.lean --- reading a JSON text.

  The reader follows the JSON grammar production by production and keeps what every value
  says: a number is a mantissa and a power of ten, an object is the sequence of its members.
  A byte from 0x80 up stands for itself.

  A value of `n` bytes is read with the fuel `2 * n + 2`: of two nested calls the second
  one has read a byte.
-/
import CwDb.Cpp.Strings

set_option autoImplicit false

namespace CwDb.Foundation

open CwDb.Cpp

/-- A JSON value. -/
inductive Json where
  | null
  | bool (b : Bool)
  /-- `mantissa * 10 ^ exponent`. -/
  | number (mantissa exponent : Int)
  | str (s : ByteString)
  | arr (elements : List Json)
  | obj (members : List (ByteString × Json))
  deriving Repr, Inhabited

namespace Json

/-! ## Strings -/

/-- A digit of `\u`. -/
def hexValue (c : UInt8) : Option Nat :=
  if isDigit c then some (c.toNat - 0x30)
  else if 0x41 ≤ c && c ≤ 0x46 then some (c.toNat - 0x41 + 10)
  else if 0x61 ≤ c && c ≤ 0x66 then some (c.toNat - 0x61 + 10)
  else none

/-- The four digits of `\u`. -/
def codeUnit (a b c d : UInt8) : Option Nat := do
  let a ← hexValue a
  let b ← hexValue b
  let c ← hexValue c
  let d ← hexValue d
  pure (0x1000 * a + 0x100 * b + 0x10 * c + d)

/-- A code point in UTF-8. -/
def utf8 (n : Nat) : ByteString :=
  if n < 0x80 then [n.toUInt8]
  else if n < 0x800 then [(0xc0 + n / 0x40).toUInt8, (0x80 + n % 0x40).toUInt8]
  else if n < 0x10000 then
    [(0xe0 + n / 0x1000).toUInt8, (0x80 + n / 0x40 % 0x40).toUInt8, (0x80 + n % 0x40).toUInt8]
  else
    [(0xf0 + n / 0x40000).toUInt8, (0x80 + n / 0x1000 % 0x40).toUInt8,
      (0x80 + n / 0x40 % 0x40).toUInt8, (0x80 + n % 0x40).toUInt8]

/-- An escape of two bytes. -/
def simpleEscape (c : UInt8) : Option UInt8 :=
  if c = 0x22 ∨ c = 0x5c ∨ c = 0x2f then some c
  else if c = 0x62 then some 0x08
  else if c = 0x66 then some 0x0c
  else if c = 0x6e then some 0x0a
  else if c = 0x72 then some 0x0d
  else if c = 0x74 then some 0x09
  else none

/-- What stands for one byte, or for one UTF-16 code unit, of a string. -/
inductive Piece where
  | byte (c : UInt8)
  | unit (n : Nat)
  deriving DecidableEq, Repr

/-- The rest of a string, behind its opening quote: its pieces and what follows it. -/
def parsePieces : ByteString → Option (List Piece × ByteString)
  | [] => none
  | c :: rest =>
      if c = 0x22 then some ([], rest)
      else if c = 0x5c then
        match rest with
        | 0x75 :: a :: b :: c :: d :: rest => do
            let unit ← codeUnit a b c d
            let (pieces, after) ← parsePieces rest
            pure (.unit unit :: pieces, after)
        | e :: rest => do
            let byte ← simpleEscape e
            let (pieces, after) ← parsePieces rest
            pure (.byte byte :: pieces, after)
        | [] => none
      else if c < 0x20 then none
      else do
        let (pieces, after) ← parsePieces rest
        pure (.byte c :: pieces, after)

/-- The bytes of a string; `high` is a high surrogate that may find its low one. -/
def bytesOf : (high : Option Nat) → List Piece → ByteString
  | none, [] => []
  | some h, [] => utf8 h
  | none, .byte c :: pieces => c :: bytesOf none pieces
  | some h, .byte c :: pieces => utf8 h ++ c :: bytesOf none pieces
  | none, .unit n :: pieces =>
      if 0xd800 ≤ n ∧ n < 0xdc00 then bytesOf (some n) pieces else utf8 n ++ bytesOf none pieces
  | some h, .unit n :: pieces =>
      if 0xdc00 ≤ n ∧ n < 0xe000 then
        utf8 (0x10000 + 0x400 * (h - 0xd800) + (n - 0xdc00)) ++ bytesOf none pieces
      else if 0xd800 ≤ n ∧ n < 0xdc00 then utf8 h ++ bytesOf (some n) pieces
      else utf8 h ++ utf8 n ++ bytesOf none pieces

/-- The rest of a string, behind its opening quote: what it holds and what follows it. -/
def parseChars (s : ByteString) : Option (ByteString × ByteString) :=
  (parsePieces s).map fun (pieces, after) => (bytesOf none pieces, after)

/-! ## Numbers -/

/-- `[ frac ]`: its digits. -/
def parseFraction (s : ByteString) : Option (ByteString × ByteString) :=
  match s with
  | 0x2e :: rest =>
      let digits := rest.takeWhile isDigit
      if digits.isEmpty then none else some (digits, rest.dropWhile isDigit)
  | _ => some ([], s)

/-- `[ exp ]`: its value. -/
def parseExponent (s : ByteString) : Option (Int × ByteString) :=
  match s with
  | c :: rest =>
      if c = 0x65 ∨ c = 0x45 then
        let negative := rest.head? == some 0x2d
        let rest := if negative || rest.head? == some 0x2b then rest.tail else rest
        let digits := rest.takeWhile isDigit
        if digits.isEmpty then none
        else some (if negative then -(digitsValue digits : Int) else digitsValue digits,
          rest.dropWhile isDigit)
      else some (0, s)
  | [] => some (0, s)

/-- `int [ frac ] [ exp ]`; an `int` of several digits does not start with 0. -/
def parseUnsigned (negative : Bool) (s : ByteString) : Option (Json × ByteString) := do
  let digits := s.takeWhile isDigit
  if digits.isEmpty || (digits.head? == some 0x30 && digits.length != 1) then none
  else
    let (fraction, rest) ← parseFraction (s.dropWhile isDigit)
    let (exponent, rest) ← parseExponent rest
    let magnitude : Int := digitsValue (digits ++ fraction)
    pure (.number (if negative then -magnitude else magnitude) (exponent - fraction.length), rest)

/-- `[ minus ] int [ frac ] [ exp ]`. -/
def parseNumber (s : ByteString) : Option (Json × ByteString) :=
  match s with
  | 0x2d :: rest => parseUnsigned true rest
  | _ => parseUnsigned false s

/-! ## Values -/

/-- `ws`. -/
def skipSpace (s : ByteString) : ByteString :=
  s.dropWhile fun c => c == 0x20 || c == 0x09 || c == 0x0a || c == 0x0d

mutual

/-- `ws value`. -/
def parseValue : (fuel : Nat) → ByteString → Option (Json × ByteString)
  | 0, _ => none
  | fuel + 1, s =>
      match skipSpace s with
      | 0x7b :: rest =>
          match skipSpace rest with
          | 0x7d :: after => some (.obj [], after)
          | _ => (parseMembers fuel rest).map fun (members, after) => (.obj members, after)
      | 0x5b :: rest =>
          match skipSpace rest with
          | 0x5d :: after => some (.arr [], after)
          | _ => (parseElements fuel rest).map fun (elements, after) => (.arr elements, after)
      | 0x22 :: rest => (parseChars rest).map fun (s, after) => (.str s, after)
      | 0x74 :: 0x72 :: 0x75 :: 0x65 :: after => some (.bool true, after)
      | 0x66 :: 0x61 :: 0x6c :: 0x73 :: 0x65 :: after => some (.bool false, after)
      | 0x6e :: 0x75 :: 0x6c :: 0x6c :: after => some (.null, after)
      | s => parseNumber s

/-- The elements of an array and its end. -/
def parseElements : (fuel : Nat) → ByteString → Option (List Json × ByteString)
  | 0, _ => none
  | fuel + 1, s => do
      let (v, rest) ← parseValue fuel s
      match skipSpace rest with
      | 0x2c :: rest => do
          let (vs, after) ← parseElements fuel rest
          pure (v :: vs, after)
      | 0x5d :: after => pure ([v], after)
      | _ => none

/-- The members of an object and its end. -/
def parseMembers : (fuel : Nat) → ByteString → Option (List (ByteString × Json) × ByteString)
  | 0, _ => none
  | fuel + 1, s =>
      match skipSpace s with
      | 0x22 :: rest => do
          let (key, rest) ← parseChars rest
          match skipSpace rest with
          | 0x3a :: rest => do
              let (v, rest) ← parseValue fuel rest
              match skipSpace rest with
              | 0x2c :: rest => do
                  let (members, after) ← parseMembers fuel rest
                  pure ((key, v) :: members, after)
              | 0x7d :: after => pure ([(key, v)], after)
              | _ => none
          | _ => none
      | _ => none

end

/-- The value of a JSON text; `none` is a text that is not well-formed. -/
def decode (s : ByteString) : Option Json :=
  match parseValue (2 * s.length + 2) s with
  | some (v, after) => if (skipSpace after).isEmpty then some v else none
  | none => none

/-! ## Reading what a writer writes -/

variable {s rest : ByteString} {c : UInt8}

theorem parsePieces_quote (s : ByteString) : parsePieces (0x22 :: s) = some ([], s) := by
  unfold parsePieces
  exact if_pos rfl

theorem parsePieces_plain (quote : c ≠ 0x22) (escape : c ≠ 0x5c) (printable : ¬ c < 0x20) :
    parsePieces (c :: s) = (parsePieces s).map fun p => (.byte c :: p.1, p.2) := by
  conv => lhs; unfold parsePieces
  rw [if_neg quote, if_neg escape, if_neg printable]
  cases parsePieces s <;> rfl

/-- No string holds a raw control byte. -/
theorem parsePieces_control (control : c < 0x20) : parsePieces (c :: s) = none := by
  have quote : c ≠ 0x22 := by
    rintro rfl
    exact absurd control (by decide)
  have escape : c ≠ 0x5c := by
    rintro rfl
    exact absurd control (by decide)
  unfold parsePieces
  rw [if_neg quote, if_neg escape, if_pos control]

theorem parsePieces_escape {e byte : UInt8} (h : simpleEscape e = some byte) :
    parsePieces (0x5c :: e :: s) = (parsePieces s).map fun p => (.byte byte :: p.1, p.2) := by
  have unicode : e ≠ 0x75 := by
    rintro rfl
    cases h
  conv => lhs; unfold parsePieces
  rw [if_neg (by decide), if_pos rfl]
  split
  · next heq => exact absurd (List.cons.inj heq).1 unicode
  · next e' rest' _ heq =>
      obtain ⟨rfl, rfl⟩ := List.cons.inj heq
      rw [h]
      cases parsePieces s <;> rfl
  · next heq => cases heq

theorem parsePieces_unicode {x y z d : UInt8} {unit : Nat} (h : codeUnit x y z d = some unit) :
    parsePieces (0x5c :: 0x75 :: x :: y :: z :: d :: s) =
      (parsePieces s).map fun p => (.unit unit :: p.1, p.2) := by
  conv => lhs; unfold parsePieces
  rw [if_neg (by decide), if_pos rfl]
  change (codeUnit x y z d).bind _ = _
  rw [h]
  cases parsePieces s <;> rfl

/-- A code unit that is no surrogate. -/
theorem bytesOf_unit {n : Nat} (h : n < 0xd800) (pieces : List Piece) :
    bytesOf none (.unit n :: pieces) = utf8 n ++ bytesOf none pieces := by
  conv => lhs; unfold bytesOf
  exact if_neg (by omega)

theorem utf8_ascii {n : Nat} (h : n < 0x80) : utf8 n = [n.toUInt8] := if_pos h

@[simp] theorem bytesOf_byte (c : UInt8) (pieces : List Piece) :
    bytesOf none (.byte c :: pieces) = c :: bytesOf none pieces := rfl

/-- `ws` before a byte that is none. -/
theorem skipSpace_cons (h : isSpace c = false) : skipSpace (c :: s) = c :: s := by
  unfold skipSpace
  refine List.dropWhile_cons_of_neg fun hspace => ?_
  have : isSpace c = true := by
    simp only [Bool.or_eq_true, beq_iff_eq] at hspace
    rcases hspace with ((rfl | rfl) | rfl) | rfl <;> rfl
  rw [h] at this
  cases this

/-- What may follow a value inside an array or an object. -/
def Closes (rest : ByteString) : Prop :=
  ∃ c after, rest = c :: after ∧ (c = 0x2c ∨ c = 0x5d ∨ c = 0x7d)

theorem takeWhile_digits (digits : ∀ c ∈ s, isDigit c = true) (closes : Closes rest) :
    (s ++ rest).takeWhile isDigit = s ∧ (s ++ rest).dropWhile isDigit = rest := by
  obtain ⟨c, after, rfl, hc⟩ := closes
  have hstop : isDigit c = false := by rcases hc with rfl | rfl | rfl <;> rfl
  constructor
  · rw [List.takeWhile_append_of_pos digits, List.takeWhile_cons_of_neg (by simp [hstop]),
      List.append_nil]
  · rw [List.dropWhile_append_of_pos digits, List.dropWhile_cons_of_neg (by simp [hstop])]

theorem parseUnsigned_decimal (negative : Bool) (n : Nat) (closes : Closes rest) :
    parseUnsigned negative (decimal n ++ rest) =
      some (.number (if negative then -n else n) 0, rest) := by
  obtain ⟨htake, hdrop⟩ := takeWhile_digits (s := decimal n)
    (fun c => isDigit_of_mem_decimal c) closes
  have hguard : ((decimal n).isEmpty ||
      ((decimal n).head? == some 0x30 && (decimal n).length != 1)) = false := by
    obtain ⟨d, ds, hcons, hzero⟩ := exists_decimal_cons (n := n)
    rw [hcons]
    by_cases h : d = 0x30
    · simp [hzero h]
    · simp [h]
  have hfraction : parseFraction rest = some ([], rest) := by
    obtain ⟨c, after, rfl, hc⟩ := closes
    rcases hc with rfl | rfl | rfl <;> rfl
  have hexponent : parseExponent rest = some (0, rest) := by
    obtain ⟨c, after, rfl, hc⟩ := closes
    rcases hc with rfl | rfl | rfl <;> rfl
  unfold parseUnsigned
  rw [htake, hdrop, hfraction]
  dsimp only
  rw [hguard, if_neg Bool.false_ne_true]
  change (parseExponent rest).bind _ = _
  rw [hexponent, List.append_nil, digitsValue_decimal]
  rfl

/-- A printed integer is read as that number. -/
theorem parseNumber_decimalInt (n : Int) (closes : Closes rest) :
    parseNumber (decimalInt n ++ rest) = some (.number n 0, rest) := by
  unfold decimalInt
  split
  · next hneg =>
      change parseUnsigned true (decimal n.natAbs ++ rest) = _
      rw [parseUnsigned_decimal true n.natAbs closes]
      have hvalue : -(n.natAbs : Int) = n := by omega
      change some (Json.number (-(n.natAbs : Int)) 0, rest) = _
      rw [hvalue]
  · next hneg =>
      obtain ⟨d, ds, hcons, -⟩ := exists_decimal_cons (n := n.natAbs)
      have hd : isDigit d = true := isDigit_of_mem_decimal d (by rw [hcons]; exact List.mem_cons_self)
      have hdash : d ≠ 0x2d := by
        rintro rfl
        cases hd
      have hunsigned : parseNumber (decimal n.natAbs ++ rest) =
          parseUnsigned false (decimal n.natAbs ++ rest) := by
        rw [hcons]
        unfold parseNumber
        split
        · next heq => exact absurd (List.cons.inj heq).1 hdash
        · rfl
      rw [hunsigned, parseUnsigned_decimal false n.natAbs closes]
      have : (n.natAbs : Int) = n := by omega
      simp [this]

/-- A value that starts as a number is one. -/
theorem parseValue_number {fuel : Nat} (h : isDigit c = true ∨ c = 0x2d) :
    parseValue (fuel + 1) (c :: s) = parseNumber (c :: s) := by
  have hspace : isSpace c = false := by
    unfold isDigit at h
    unfold isSpace
    grind
  have hother : c ≠ 0x7b ∧ c ≠ 0x5b ∧ c ≠ 0x22 ∧ c ≠ 0x74 ∧ c ≠ 0x66 ∧ c ≠ 0x6e := by
    unfold isDigit at h
    grind
  unfold parseValue
  rw [skipSpace_cons hspace]
  grind

theorem parseValue_decimalInt {fuel : Nat} (n : Int) (closes : Closes rest) :
    parseValue (fuel + 1) (decimalInt n ++ rest) = some (.number n 0, rest) := by
  rw [← parseNumber_decimalInt n closes]
  unfold decimalInt
  split
  · exact parseValue_number (.inr rfl)
  · obtain ⟨d, ds, hcons, -⟩ := exists_decimal_cons (n := n.natAbs)
    have hd : isDigit d = true :=
      isDigit_of_mem_decimal d (by rw [hcons]; exact List.mem_cons_self)
    rw [hcons]
    exact parseValue_number (.inl hd)

end Json
end CwDb.Foundation
