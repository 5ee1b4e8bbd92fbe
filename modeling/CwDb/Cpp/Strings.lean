/-
  Cpp/Strings.lean --- searching a `std::string` and printing hexadecimal numbers.
-/
import CwDb.Cpp.Text
import Mathlib.Data.List.DropRight
import Mathlib.Tactic.Ring

set_option autoImplicit false

namespace CwDb.Cpp

/-! ## Searching -/

/-- `haystack.find(needle)`; `none` is `npos`. -/
def find (haystack needle : ByteString) : Option Nat :=
  if needle <+: haystack then some 0
  else
    match haystack with
    | [] => none
    | _ :: rest => (find rest needle).map (· + 1)

/-- `haystack.find(needle, from)`. -/
def findFrom (haystack needle : ByteString) (start : Nat) : Option Nat :=
  if start ≤ haystack.length then (find (haystack.drop start) needle).map (· + start) else none

theorem find_of_isPrefix {haystack needle : ByteString} (h : needle <+: haystack) :
    find haystack needle = some 0 := by
  unfold find
  exact if_pos h

theorem find_cons_of_not_isPrefix {c : UInt8} {rest needle : ByteString}
    (h : ¬ needle <+: c :: rest) : find (c :: rest) needle = (find rest needle).map (· + 1) := by
  conv => lhs; unfold find
  exact if_neg h

/-- Bytes that do not start the needle are stepped over. -/
theorem find_append_of_not_mem {first : UInt8} {needle s t : ByteString} (h : first ∉ s) :
    find (s ++ t) (first :: needle) = (find t (first :: needle)).map (· + s.length) := by
  induction s with
  | nil => simp
  | cons c s ih =>
      have hc : first ≠ c := fun heq => h (heq ▸ List.mem_cons_self)
      have hs : first ∉ s := fun hmem => h (List.mem_cons_of_mem c hmem)
      rw [List.cons_append, find_cons_of_not_isPrefix, ih hs, Option.map_map]
      · rfl
      · rw [List.cons_prefix_cons]
        exact fun hpre => hc hpre.1

/-- A text that holds no occurrence and cannot start one is stepped over. -/
theorem find_append_of_apart {needle s t : ByteString}
    (apart : ∀ u ∈ s.tails, u ≠ [] → ¬ u <+: needle ∧ ¬ needle <+: u) :
    find (s ++ t) needle = (find t needle).map (· + s.length) := by
  induction s with
  | nil => simp
  | cons c s ih =>
      obtain ⟨hshort, hlong⟩ := apart (c :: s) (by simp) (by simp)
      have hpre : ¬ needle <+: c :: s ++ t := by
        intro hpre
        rcases List.prefix_or_prefix_of_prefix hpre (List.prefix_append (c :: s) t) with h | h
        · exact hlong h
        · exact hshort h
      rw [List.cons_append] at hpre ⊢
      rw [find_cons_of_not_isPrefix hpre, ih fun u hu => apart u (by simp [hu]), Option.map_map]
      rfl

theorem length_le_of_find {needle s : ByteString} {k : Nat} (h : find s needle = some k) :
    needle.length ≤ s.length := by
  induction s generalizing k with
  | nil =>
      unfold find at h
      split at h
      · next hpre => exact hpre.length_le
      · cases h
  | cons c s ih =>
      unfold find at h
      split at h
      · next hpre => exact hpre.length_le
      · obtain ⟨k', hk', -⟩ := Option.map_eq_some_iff.mp h
        exact Nat.le_succ_of_le (ih hk')

/-- The first occurrence is the same in a longer text. -/
theorem find_append_of_eq_some {needle s : ByteString} {k : Nat} (t : ByteString)
    (h : find s needle = some k) : find (s ++ t) needle = some k := by
  induction s generalizing k with
  | nil =>
      have hshort := length_le_of_find h
      obtain rfl := List.length_eq_zero_iff.mp (Nat.le_zero.mp hshort)
      rw [← h, find_of_isPrefix List.nil_prefix, find_of_isPrefix List.nil_prefix]
  | cons c s ih =>
      by_cases hpre : needle <+: c :: s
      · rw [← h, find_of_isPrefix hpre, find_of_isPrefix (hpre.trans (List.prefix_append _ t))]
      · have hshort := length_le_of_find h
        rw [find_cons_of_not_isPrefix hpre] at h
        obtain ⟨k', hk', rfl⟩ := Option.map_eq_some_iff.mp h
        rw [List.cons_append, find_cons_of_not_isPrefix, ih hk']
        · rfl
        · intro hlong
          exact hpre (List.prefix_of_prefix_length_le hlong (List.prefix_append (c :: s) t) hshort)

/-- What is found stays found in a longer text. -/
theorem isSome_find_append {needle : ByteString} (s : ByteString) {t : ByteString}
    (h : (find t needle).isSome = true) : (find (s ++ t) needle).isSome = true := by
  induction s with
  | nil => exact h
  | cons c s ih =>
      by_cases hpre : needle <+: c :: (s ++ t)
      · rw [List.cons_append, find_of_isPrefix hpre]
        rfl
      · rw [List.cons_append, find_cons_of_not_isPrefix hpre, Option.isSome_map]
        exact ih

/-! ## Hexadecimal -/

/-- A digit of `%x`. -/
def isHexLower (c : UInt8) : Bool := isDigit c || (0x61 ≤ c && c ≤ 0x66)

/-- `%0<width>x`. -/
def formatHex (width n : Nat) : ByteString :=
  ((Nat.toDigits 16 n).leftpad width '0').map fun c => c.toNat.toUInt8

private theorem isHexLower_digitChar :
    ∀ d < 16, isHexLower (Nat.digitChar d).toNat.toUInt8 = true := by decide

theorem isHexLower_of_mem_toDigits {n : Nat} :
    ∀ c ∈ Nat.toDigits 16 n, isHexLower c.toNat.toUInt8 = true := by
  induction n using Nat.strong_induction_on with
  | _ n ih =>
      intro c hc
      rcases Nat.lt_or_ge n 16 with hsmall | hlarge
      · rw [Nat.toDigits_of_lt_base hsmall, List.mem_singleton] at hc
        exact hc ▸ isHexLower_digitChar n hsmall
      · rw [Nat.toDigits_of_base_le (by omega) hlarge, List.mem_append, List.mem_singleton] at hc
        rcases hc with hc | rfl
        · exact ih (n / 16) (by omega) c hc
        · exact isHexLower_digitChar (n % 16) (Nat.mod_lt n (by omega))

/-- Only hexadecimal digits are printed. -/
theorem isHexLower_of_mem_formatHex {w n : Nat} :
    ∀ c ∈ formatHex w n, isHexLower c = true := by
  intro c hc
  unfold formatHex List.leftpad at hc
  obtain ⟨d, hd, rfl⟩ := List.mem_map.mp hc
  rcases List.mem_append.mp hd with hpad | hdigit
  · rw [List.eq_of_mem_replicate hpad]
    decide
  · exact isHexLower_of_mem_toDigits d hdigit

/-- A number that fits the width is printed in exactly that many digits. -/
theorem length_formatHex {width n : Nat} (filled : 0 < width) (fits : n < 16 ^ width) :
    (formatHex width n).length = width := by
  have := (Nat.length_toDigits_le_iff (by omega) filled).mpr fits
  unfold formatHex
  rw [List.length_map, List.length_leftpad]
  omega

/-- The four digits of a number from 0x1000 up. -/
theorem formatHex_four {n : Nat} (low : 4096 ≤ n) (high : n < 65536) :
    formatHex 4 n = [n / 4096, n / 256 % 16, n / 16 % 16, n % 16].map
      fun d => (Nat.digitChar d).toNat.toUInt8 := by
  have htwo : n / 16 / 16 = n / 256 := Nat.div_div_eq_div_mul n 16 16
  have hthree : n / 256 / 16 = n / 4096 := Nat.div_div_eq_div_mul n 256 16
  have hdigits : Nat.toDigits 16 n =
      [n / 4096, n / 256 % 16, n / 16 % 16, n % 16].map Nat.digitChar := by
    rw [Nat.toDigits_of_base_le (by omega) (by omega : 16 ≤ n),
      Nat.toDigits_of_base_le (by omega) (by omega : 16 ≤ n / 16), htwo,
      Nat.toDigits_of_base_le (by omega) (by omega : 16 ≤ n / 256), hthree,
      Nat.toDigits_of_lt_base (by omega : n / 4096 < 16)]
    rfl
  unfold formatHex
  rw [hdigits]
  rfl

/-! ## Decimal -/

private theorem isDigit_digitChar :
    ∀ d < 10, isDigit (Nat.digitChar d).toNat.toUInt8 = true := by decide

private theorem value_digitChar :
    ∀ d < 10, (Nat.digitChar d).toNat.toUInt8.toNat - 0x30 = d := by decide

/-- The digits of a number, the last one apart. -/
theorem decimal_of_ten_le {n : Nat} (large : 10 ≤ n) :
    decimal n = decimal (n / 10) ++ [(Nat.digitChar (n % 10)).toNat.toUInt8] := by
  unfold decimal
  rw [Nat.toDigits_of_base_le (by omega) large, List.map_append]
  rfl

theorem decimal_of_lt_ten {n : Nat} (small : n < 10) :
    decimal n = [(Nat.digitChar n).toNat.toUInt8] := by
  unfold decimal
  rw [Nat.toDigits_of_lt_base small]
  rfl

theorem isDigit_of_mem_decimal {n : Nat} : ∀ c ∈ decimal n, isDigit c = true := by
  induction n using Nat.strong_induction_on with
  | _ n ih =>
      intro c hc
      rcases Nat.lt_or_ge n 10 with hsmall | hlarge
      · rw [decimal_of_lt_ten hsmall, List.mem_singleton] at hc
        exact hc ▸ isDigit_digitChar n hsmall
      · rw [decimal_of_ten_le hlarge, List.mem_append, List.mem_singleton] at hc
        rcases hc with hc | rfl
        · exact ih (n / 10) (by omega) c hc
        · exact isDigit_digitChar (n % 10) (Nat.mod_lt n (by omega))

theorem digitsValue_concat (s : ByteString) (d : UInt8) :
    digitsValue (s ++ [d]) = 10 * digitsValue s + (d.toNat - 0x30) := by
  unfold digitsValue
  rw [List.foldl_append]
  rfl

/-- Printing a number and reading its digits. -/
theorem digitsValue_decimal (n : Nat) : digitsValue (decimal n) = n := by
  induction n using Nat.strong_induction_on with
  | _ n ih =>
      rcases Nat.lt_or_ge n 10 with hsmall | hlarge
      · rw [decimal_of_lt_ten hsmall]
        have := value_digitChar n hsmall
        change 10 * 0 + _ = n
        omega
      · rw [decimal_of_ten_le hlarge, digitsValue_concat, ih (n / 10) (by omega),
          value_digitChar (n % 10) (Nat.mod_lt n (by omega))]
        omega

/-- The first digit is not 0, but for the number 0. -/
theorem exists_decimal_cons {n : Nat} : ∃ c rest, decimal n = c :: rest ∧
    (c = 0x30 → rest = []) := by
  induction n using Nat.strong_induction_on with
  | _ n ih =>
      rcases Nat.lt_or_ge n 10 with hsmall | hlarge
      · exact ⟨_, [], decimal_of_lt_ten hsmall, fun _ => rfl⟩
      · obtain ⟨c, rest, hdecimal, hzero⟩ := ih (n / 10) (by omega)
        refine ⟨c, rest ++ [(Nat.digitChar (n % 10)).toNat.toUInt8], ?_, fun hc => ?_⟩
        · rw [decimal_of_ten_le hlarge, hdecimal, List.cons_append]
        · have hvalue : digitsValue (decimal (n / 10)) = 0 := by
            rw [hdecimal, hzero hc, hc]
            rfl
          rw [digitsValue_decimal] at hvalue
          omega

end CwDb.Cpp
