/-
  Executor/EscapedText.lean --- what `escapeJsonString` makes of a string is what a JSON
  text may hold between two quotes.
-/
import CwDb.Executor.SyncResponse
import Mathlib.Algebra.Group.Nat.Even

set_option autoImplicit false

namespace CwDb.Executor

open CwDb.Cpp
open CwDb.Foundation

/-- The backslashes that a text ends in. -/
def slashRun (s : ByteString) : Nat := (s.reverse.takeWhile (· == 0x5c)).length

theorem slashRun_slash (s : ByteString) : slashRun (s ++ [0x5c]) = slashRun s + 1 := by
  unfold slashRun
  rw [List.reverse_append, List.reverse_singleton, List.singleton_append,
    List.takeWhile_cons_of_pos rfl, List.length_cons]

theorem slashRun_plain {c : UInt8} (h : c ≠ 0x5c) (s : ByteString) :
    slashRun (s ++ [c]) = 0 := by
  unfold slashRun
  rw [List.reverse_append, List.reverse_singleton, List.singleton_append,
    List.takeWhile_cons_of_neg (by simpa using h), List.length_nil]

/-! ## One byte -/

/-- The control bytes without an escape of two bytes. -/
theorem codeUnit_control : ∀ n < 0x20, ∃ a b c d : UInt8,
    formatHex 4 n = [a, b, c, d] ∧ Json.codeUnit a b c d = some n ∧ d ≠ 0x5c := by
  intro n hn
  refine ⟨0x30, 0x30, (formatHex 4 n)[2]!, (formatHex 4 n)[3]!, ?_⟩
  revert n
  decide

/-- What a byte may be written as. -/
inductive EscapedAs (c : UInt8) (written : ByteString) : Prop where
  | plain (quote : c ≠ 0x22) (slash : c ≠ 0x5c) (printable : ¬ c < 0x20) (eq : written = [c])
  | simple (e : UInt8) (h : Json.simpleEscape e = some c) (visible : ¬ e < 0x20)
      (eq : written = [0x5c, e])
  | unicode (a b h d : UInt8) (control : c < 0x20) (visible : ∀ x ∈ [a, b, h, d], ¬ x < 0x20)
      (unit : Json.codeUnit a b h d = some c.toNat) (last : d ≠ 0x5c)
      (eq : written = [0x5c, 0x75, a, b, h, d])

theorem escapedAs (c : UInt8) : EscapedAs c (escapeJsonByte c) := by
  unfold escapeJsonByte
  split_ifs with hquote hslash hb hf hn hr ht hcontrol
  · exact .simple 0x22 (by rw [hquote]; rfl) (by decide) rfl
  · exact .simple 0x5c (by rw [hslash]; rfl) (by decide) rfl
  · exact .simple 0x62 (by rw [hb]; rfl) (by decide) rfl
  · exact .simple 0x66 (by rw [hf]; rfl) (by decide) rfl
  · exact .simple 0x6e (by rw [hn]; rfl) (by decide) rfl
  · exact .simple 0x72 (by rw [hr]; rfl) (by decide) rfl
  · exact .simple 0x74 (by rw [ht]; rfl) (by decide) rfl
  · have hsmall : c.toNat < 0x20 := hcontrol
    obtain ⟨a, b, h, d, hdigits, hunit, hlast⟩ := codeUnit_control c.toNat hsmall
    refine .unicode a b h d hcontrol (fun x hx => ?_) hunit hlast ?_
    · have hhex : isHexLower x = true := isHexLower_of_mem_formatHex x (hdigits ▸ hx)
      unfold isHexLower isDigit at hhex
      grind
    · rw [hdigits]
      rfl
  · exact .plain hquote hslash hcontrol rfl

/-- No written byte is a control byte. -/
theorem not_control_of_mem_escapeJsonString {s : ByteString} {c : UInt8}
    (h : c ∈ escapeJsonString s) : ¬ c < 0x20 := by
  obtain ⟨b, -, hc⟩ := List.mem_flatMap.mp h
  cases escapedAs b with
  | plain _ _ printable eq =>
      rw [eq, List.mem_singleton] at hc
      rw [hc]
      exact printable
  | simple e _ visible eq =>
      rw [eq] at hc
      rcases List.mem_cons.mp hc with rfl | hc
      · decide
      · rw [List.mem_singleton.mp hc]
        exact visible
  | unicode x y z d _ visible _ _ eq =>
      rw [eq] at hc
      rcases List.mem_cons.mp hc with rfl | hc
      · decide
      rcases List.mem_cons.mp hc with rfl | hc
      · decide
      exact visible c hc

/-! ## Reading it back -/

theorem parsePieces_escapeJsonString (s rest : ByteString) :
    ∃ pieces, Json.parsePieces (escapeJsonString s ++ 0x22 :: rest) = some (pieces, rest) ∧
      Json.bytesOf none pieces = s := by
  induction s with
  | nil => exact ⟨[], Json.parsePieces_quote rest, rfl⟩
  | cons c s ih =>
      obtain ⟨pieces, hparse, hbytes⟩ := ih
      have hcons : escapeJsonString (c :: s) ++ 0x22 :: rest =
          escapeJsonByte c ++ (escapeJsonString s ++ 0x22 :: rest) := by
        unfold escapeJsonString
        rw [List.flatMap_cons, List.append_assoc]
      rw [hcons]
      cases escapedAs c with
      | plain quote slash printable eq =>
          refine ⟨.byte c :: pieces, ?_, by rw [Json.bytesOf_byte, hbytes]⟩
          rw [eq]
          change Json.parsePieces (c :: (escapeJsonString s ++ 0x22 :: rest)) = _
          rw [Json.parsePieces_plain quote slash printable, hparse]
          rfl
      | simple e h visible eq =>
          refine ⟨.byte c :: pieces, ?_, by rw [Json.bytesOf_byte, hbytes]⟩
          rw [eq]
          change Json.parsePieces (0x5c :: e :: (escapeJsonString s ++ 0x22 :: rest)) = _
          rw [Json.parsePieces_escape h, hparse]
          rfl
      | unicode x y z d control visible unit last eq =>
          have hsmall : c.toNat < 0x20 := control
          refine ⟨.unit c.toNat :: pieces, ?_, ?_⟩
          · rw [eq]
            change Json.parsePieces (0x5c :: 0x75 :: x :: y :: z :: d ::
              (escapeJsonString s ++ 0x22 :: rest)) = _
            rw [Json.parsePieces_unicode unit, hparse]
            rfl
          · have hbyte : c.toNat.toUInt8 = c := UInt8.ofNat_toNat
            rw [Json.bytesOf_unit (by omega), hbytes, Json.utf8_ascii (by omega), hbyte]
            rfl

/-- The reader of a string gives back what was written, and stops at the quote behind it. -/
theorem parseChars_escapeJsonString (s rest : ByteString) :
    Json.parseChars (escapeJsonString s ++ 0x22 :: rest) = some (s, rest) := by
  obtain ⟨pieces, hparse, hbytes⟩ := parsePieces_escapeJsonString s rest
  unfold Json.parseChars
  rw [hparse]
  exact congrArg (fun bytes => some (bytes, rest)) hbytes

/-! ## Quotes -/

/-- A written string ends in pairs of backslashes. -/
theorem even_slashRun (s : ByteString) : Even (slashRun (escapeJsonString s)) := by
  induction s using List.reverseRecOn with
  | nil => exact Even.zero
  | append_singleton s c ih =>
      have hsnoc : escapeJsonString (s ++ [c]) = escapeJsonString s ++ escapeJsonByte c := by
        unfold escapeJsonString
        rw [List.flatMap_append, List.flatMap_singleton]
      rw [hsnoc]
      cases escapedAs c with
      | plain quote slash printable eq =>
          rw [eq, slashRun_plain slash]
          exact Even.zero
      | simple e h visible eq =>
          have hsplit : escapeJsonString s ++ [0x5c, e] = escapeJsonString s ++ [0x5c] ++ [e] := by
            simp
          rw [eq, hsplit]
          by_cases he : e = 0x5c
          · rw [he, slashRun_slash, slashRun_slash]
            exact ih.add even_two
          · rw [slashRun_plain he]
            exact Even.zero
      | unicode x y z d control visible unit last eq =>
          have hsplit : escapeJsonString s ++ [0x5c, 0x75, x, y, z, d] =
              escapeJsonString s ++ [0x5c, 0x75, x, y, z] ++ [d] := by
            simp
          rw [eq, hsplit, slashRun_plain last]
          exact Even.zero

/-- A quote comes from a quote. -/
theorem eq_of_escapeJsonString_eq {s before after : ByteString}
    (h : escapeJsonString s = before ++ 0x22 :: after) :
    ∃ t, before = escapeJsonString t ++ [0x5c] := by
  induction s generalizing before with
  | nil => simp [escapeJsonString] at h
  | cons c s ih =>
      have hcons : escapeJsonString (c :: s) = escapeJsonByte c ++ escapeJsonString s := by
        unfold escapeJsonString
        rw [List.flatMap_cons]
      rw [hcons] at h
      -- the quote is behind what `c` is written as
      have later : ∀ front : ByteString, before = escapeJsonByte c ++ front →
          escapeJsonString s = front ++ 0x22 :: after →
          ∃ t, before = escapeJsonString t ++ [0x5c] := by
        intro front hbefore hrest
        obtain ⟨t, ht⟩ := ih hrest
        refine ⟨c :: t, ?_⟩
        unfold escapeJsonString at ht ⊢
        rw [hbefore, ht, List.flatMap_cons, List.append_assoc]
      rcases List.append_eq_append_iff.mp h with ⟨front, hbefore, hrest⟩ | ⟨back, hbyte, hafter⟩
      · exact later front hbefore hrest
      cases back with
      | nil =>
          rw [List.append_nil] at hbyte
          exact later [] (by rw [hbyte, List.append_nil]) hafter.symm
      | cons d back =>
          obtain ⟨rfl, hback⟩ := List.cons.inj hafter
          by_cases hc : c = 0x22
          · have hpair : [0x5c, 0x22] = before ++ 0x22 :: back := by
              rw [← hbyte, hc]
              rfl
            refine ⟨[], ?_⟩
            cases before with
            | nil => exact absurd (List.cons.inj hpair).1 (by decide)
            | cons b before =>
                have htail : before = [] := by
                  have hlength := congrArg List.length hpair
                  simp only [List.length_cons, List.length_append, List.length_nil] at hlength
                  exact List.length_eq_zero_iff.mp (by omega)
                rw [htail, ← (List.cons.inj hpair).1]
                rfl
          · have hmem : 0x22 ∈ escapeJsonByte c := by
              rw [hbyte]
              simp
            rcases escapes_escapeJsonByte.other c hc with ⟨heq, -⟩ | ⟨code, heq, hcode⟩
            · rw [heq, List.mem_singleton] at hmem
              exact absurd hmem.symm hc
            · rw [heq] at hmem
              rcases List.mem_cons.mp hmem with hslash | hin
              · exact absurd hslash (by decide)
              · exact absurd hin hcode

/-- An odd run of backslashes stands before every quote. -/
theorem odd_slashRun {s before after : ByteString}
    (h : escapeJsonString s = before ++ 0x22 :: after) : Odd (slashRun before) := by
  obtain ⟨t, rfl⟩ := eq_of_escapeJsonString_eq h
  rw [slashRun_slash]
  exact (even_slashRun t).add_one

/-- The escaped text of any string has no control byte and no quote that ends it early, and it
is read back as that string. -/
theorem escapeJsonString_faithful (s : ByteString) :
    (∀ c ∈ escapeJsonString s, 0x20 ≤ c) ∧
    (∀ before after, escapeJsonString s = before ++ 0x22 :: after → Odd (slashRun before)) ∧
    (∀ rest, Json.parseChars (escapeJsonString s ++ 0x22 :: rest) = some (s, rest)) := by
  refine ⟨fun c hc => ?_, fun before after h => odd_slashRun h, parseChars_escapeJsonString s⟩
  exact UInt8.not_lt.mp (not_control_of_mem_escapeJsonString hc)

end CwDb.Executor
