/-
  Sql/SkippedBytes.lean --- which bytes `Lexer::tokenize` loses.

  `readOperator` has consumed an unknown byte when it reports that there is no operator,
  and `tokenize` then calls `advance` for it once more.  So the byte after an unknown one is
  passed over, whatever it is.
-/
import CwDb.Sql.Scanning
import Mathlib.Algebra.GroupWithZero.Nat

set_option autoImplicit false

namespace CwDb.Sql

open CwDb.Cpp

/-- The byte begins a token when it is read between two tokens, before the given input. -/
def startsToken (c : UInt8) (input : ByteString) : Bool :=
  isAlpha c || c == 0x5f || isDigit c || isQuote c || isComparison c ||
    (singleToken c).isSome || (c == 0x21 && input.head? == some 0x3d)

/-- The byte is neither white space nor the beginning of a token. -/
def Unrecognised (c : UInt8) (input : ByteString) : Prop :=
  isSpace c = false ∧ startsToken c input = false

instance (c : UInt8) (input : ByteString) : Decidable (Unrecognised c input) :=
  inferInstanceAs (Decidable (_ ∧ _))

/-- The mode of the scanner at the end of a text. -/
def modeAfter (u : ByteString) : Mode := Mode.between.after u

/-- The text ends inside a string literal. -/
def EndsInString (u : ByteString) : Prop := (modeAfter u).inString = true

/-- The text ends with an unrecognised byte that the scanner has read in its turn. -/
def EndsUnrecognised (u : ByteString) : Prop := (modeAfter u).passesOver = true

instance (u : ByteString) : Decidable (EndsInString u) := inferInstanceAs (Decidable (_ = _))

instance (u : ByteString) : Decidable (EndsUnrecognised u) := inferInstanceAs (Decidable (_ = _))

/-- Behind unrecognised bytes only: the byte that begins a token. -/
def firstTokenByte : ByteString → Option UInt8
  | [] => none
  | d :: v =>
      if isSpace d then none
      else if startsToken d v then some d
      else firstTokenByte v

/-- The unrecognised byte counts for as much as a blank. -/
def SkippedAlone (u : ByteString) (c : UInt8) (v : ByteString) : Prop :=
  lexemes (tokenize (u ++ c :: v)) = lexemes (tokenize (u ++ 0x20 :: v))

/-! ## Character classes -/

theorem classes_of_digit {c : UInt8} (h : isDigit c = true) :
    isSpace c = false ∧ (isAlpha c || c == 0x5f) = false := by
  unfold isDigit isSpace isAlpha at *
  grind

theorem isSpace_of_word {c : UInt8} (h : (isAlpha c || c == 0x5f) = true) :
    isSpace c = false := by
  unfold isSpace isAlpha at *
  grind

theorem isWordByte_cases {c : UInt8} (h : isWordByte c = true) :
    (isAlpha c || c == 0x5f) = true ∨ isDigit c = true := by
  simp only [isWordByte, isAlnum, Bool.or_eq_true] at h ⊢
  tauto

theorem classes_of_comparison {c : UInt8} (h : isComparison c = true) :
    isSpace c = false ∧ (isAlpha c || c == 0x5f) = false ∧ isDigit c = false ∧
      isQuote c = false := by
  unfold isComparison isQuote isSpace isAlpha isDigit at *
  grind

namespace Mode

theorem start_space {c : UInt8} (h : isSpace c = true) : start c = ([], between) := by
  rw [start, if_pos h]

theorem start_word {c : UInt8} (h : (isAlpha c || c == 0x5f) = true) :
    start c = ([], word [c]) := by
  rw [start, if_neg (by simp [isSpace_of_word h]), if_pos h]

theorem start_digit {c : UInt8} (h : isDigit c = true) : start c = ([], number [c]) := by
  obtain ⟨hspace, hword⟩ := classes_of_digit h
  rw [start, if_neg (by simp [hspace]), if_neg (by simp [hword]), if_pos h]

theorem start_comparison {c : UInt8} (h : isComparison c = true) :
    start c = ([], operator c) := by
  obtain ⟨hspace, hword, hdigit, hquote⟩ := classes_of_comparison h
  rw [start, if_neg (by simp [hspace]), if_neg (by simp [hword]), if_neg (by simp [hdigit]),
    if_neg (by simp [hquote]), if_pos h]

theorem run_between_cons (c : UInt8) (input : ByteString) :
    between.run (c :: input) = ((start c).2.run input).map ((start c).1 ++ ·) := rfl

/-- The byte after an unrecognised one is passed over. -/
theorem run_unrecognised {c : UInt8} {input : ByteString} (h : Unrecognised c input) :
    between.run (c :: input) = between.run input.tail := by
  obtain ⟨hspace, hstarts⟩ := h
  simp only [startsToken, Bool.or_eq_false_iff] at hstarts
  obtain ⟨⟨⟨⟨⟨hword, hdigit⟩, hquote⟩, hcmp⟩, hsingle⟩, hbang⟩ := hstarts
  rw [run_between_cons, start, if_neg (by simp [hspace]), if_neg (by simp [hword]),
    if_neg (by simp [hdigit]), if_neg (by simp [hquote]), if_neg (by simp [hcmp])]
  by_cases hc : c = 0x21
  · subst hc
    have hhead : ¬input.head? = some 0x3d := by simpa using hbang
    simp [run_bang, hhead]
  · have hnone : singleToken c = none := by simpa using hsingle
    simp [hc, hnone, run_skipping]

/-- Outside a string literal, and not after an unrecognised byte, a byte that continues
no token is read as between two tokens. -/
theorem exists_run_cons {m : Mode} (houtside : m.inString = false)
    (hnext : m.passesOver = false) : ∃ done : List Lexeme, ∀ (c : UInt8) (input : ByteString),
      isWordByte c = false → c ≠ 0x3d →
        m.run (c :: input) = (between.run (c :: input)).map (done ++ ·) := by
  have hdone : ∀ (lexeme : Lexeme) (c : UInt8) (input : ByteString),
      ((start c).2.run input).map (lexeme :: (start c).1 ++ ·) =
        (between.run (c :: input)).map ([lexeme] ++ ·) := by
    intro lexeme c input
    rw [run_between_cons, Option.map_map]
    rfl
  cases m with
  | between => exact ⟨[], fun c input _ _ => by simp [Function.comp_def]⟩
  | word w =>
      refine ⟨[(toKeyword w, w)], fun c input hc _ => ?_⟩
      rw [run_cons, next, if_neg (by simp [hc])]
      exact hdone _ c input
  | number n =>
      refine ⟨[(.intLiteral, n)], fun c input hc _ => ?_⟩
      have hdigit : isDigit c = false := by
        simp only [isWordByte, isAlnum, Bool.or_eq_false_iff] at hc
        exact hc.1.2
      rw [run_cons, next, if_neg (by simp [hdigit])]
      exact hdone _ c input
  | operator o =>
      refine ⟨[(shortOperator o, [o])], fun c input _ hc => ?_⟩
      rw [run_cons, next, if_neg (by simpa using hc)]
      exact hdone _ c input
  | string quote str => cases houtside
  | escape quote str => cases houtside
  | bang => cases hnext
  | skipping => cases hnext

/-- After an unrecognised byte any byte is passed over. -/
theorem run_passesOver {m : Mode} (hnext : m.passesOver = true) {c : UInt8} (hc : c ≠ 0x3d)
    (input : ByteString) : m.run (c :: input) = between.run input := by
  cases m with
  | bang => simp [next, hc]
  | skipping => simp [next]
  | between => cases hnext
  | word w => cases hnext
  | number n => cases hnext
  | operator o => cases hnext
  | string quote str => cases hnext
  | escape quote str => cases hnext

/-! ## The bytes that reach a token -/

/-- The bytes in the values of the tokens. -/
def weight (ls : List Lexeme) : Nat := (ls.map fun l => l.2.length).sum

/-- The bytes of a token other than a string literal that is being read. -/
def held : Mode → Option Nat
  | word w => some w.length
  | number n => some n.length
  | operator _ => some 1
  | _ => none

theorem weight_append (ls ms : List Lexeme) : weight (ls ++ ms) = weight ls + weight ms := by
  simp [weight]

theorem map_add_map_add (r : Option Nat) (m n : Nat) :
    (r.map (· + m)).map (· + n) = r.map (· + (m + n)) := by
  rw [Option.map_map]
  congr 1
  funext k
  exact Nat.add_assoc k m n

theorem map_weight_append (r : Option (List Lexeme)) (done : List Lexeme) :
    (r.map (done ++ ·)).map weight = (r.map weight).map (· + weight done) := by
  rw [Option.map_map, Option.map_map]
  congr 1
  funext ls
  simp [weight_append, Nat.add_comm]

/-- A token that is being read adds its bytes, and changes nothing in what comes after. -/
theorem map_weight_run {m : Mode} {n : Nat} (hheld : m.held = some n) (input : ByteString) :
    (m.run input).map weight = ((between.run input).map weight).map (· + n) := by
  induction input generalizing m n with
  | nil =>
      cases m with
      | word w => cases hheld; simp [finish, weight]
      | number d => cases hheld; simp [finish, weight]
      | operator o => cases hheld; simp [finish, weight]
      | between => cases hheld
      | bang => cases hheld
      | skipping => cases hheld
      | string quote str => cases hheld
      | escape quote str => cases hheld
  | cons c input ih =>
      have hends : ∀ (lexeme : Lexeme), lexeme.2.length = n →
          (((start c).2.run input).map (lexeme :: (start c).1 ++ ·)).map weight =
            ((between.run (c :: input)).map weight).map (· + n) := by
        intro lexeme hlexeme
        have := map_weight_append (between.run (c :: input)) [lexeme]
        rw [run_between_cons, Option.map_map] at this
        rw [run_between_cons]
        simpa [weight, hlexeme, Function.comp_def] using this
      cases m with
      | word w =>
          cases hheld
          rw [run_cons, next]
          by_cases hc : isWordByte c = true
          · rw [if_pos hc, run_between_cons]
            simp only [List.nil_append, Option.map_id']
            rw [ih (m := word (w ++ [c])) (n := w.length + 1) (by simp [held])]
            rcases isWordByte_cases hc with hword | hdigit
            · rw [start_word hword]
              simp only [List.nil_append, Option.map_id']
              rw [ih (m := word [c]) (n := 1) rfl, map_add_map_add, Nat.add_comm]
            · rw [start_digit hdigit]
              simp only [List.nil_append, Option.map_id']
              rw [ih (m := number [c]) (n := 1) rfl, map_add_map_add, Nat.add_comm]
          · rw [if_neg hc]
            exact hends (toKeyword w, w) rfl
      | number d =>
          cases hheld
          rw [run_cons, next]
          by_cases hc : isDigit c = true
          · rw [if_pos hc, run_between_cons, start_digit hc]
            simp only [List.nil_append, Option.map_id']
            rw [ih (m := number (d ++ [c])) (n := d.length + 1) (by simp [held]),
              ih (m := number [c]) (n := 1) rfl, map_add_map_add, Nat.add_comm]
          · rw [if_neg hc]
            exact hends (.intLiteral, d) rfl
      | operator o =>
          cases hheld
          rw [run_cons, next]
          by_cases hc : c = 0x3d
          · subst hc
            rw [if_pos (by rfl), run_between_cons, start_comparison (by decide),
              map_weight_append]
            simp only [List.nil_append, Option.map_id']
            rw [ih (m := operator 0x3d) (n := 1) rfl, Option.map_map]
            simp [Function.comp_def, weight]
          · rw [if_neg (by simpa using hc)]
            exact hends (shortOperator o, [o]) rfl
      | between => cases hheld
      | bang => cases hheld
      | skipping => cases hheld
      | string quote str => cases hheld
      | escape quote str => cases hheld

/-- A byte that begins a token other than a string literal is one byte more. -/
theorem map_weight_startsToken {d : UInt8} {input : ByteString}
    (hstarts : startsToken d input = true) (hquote : isQuote d = false) :
    (between.run (d :: input)).map weight = ((between.run input).map weight).map (· + 1) := by
  rw [run_between_cons]
  by_cases hword : (isAlpha d || d == 0x5f) = true
  · rw [start_word hword]
    simpa using map_weight_run (m := word [d]) rfl input
  by_cases hdigit : isDigit d = true
  · rw [start_digit hdigit]
    simpa using map_weight_run (m := number [d]) rfl input
  by_cases hcmp : isComparison d = true
  · rw [start_comparison hcmp]
    simpa using map_weight_run (m := operator d) rfl input
  have hspace : isSpace d = false := by
    simp only [startsToken, Bool.or_eq_true, not_or] at hstarts hword
    unfold singleToken isQuote isComparison at *
    unfold isSpace
    grind
  rw [start, if_neg (by simp [hspace]), if_neg hword, if_neg hdigit, if_neg (by simp [hquote]),
    if_neg hcmp]
  by_cases hbang : d = 0x21
  · subst hbang
    have hhead : input.head? = some 0x3d := by
      have : singleToken 0x21 = none := rfl
      simpa [startsToken, this, isAlpha, isDigit, isQuote, isComparison] using hstarts
    obtain ⟨rest, rfl⟩ : ∃ rest, input = 0x3d :: rest := by
      cases input with
      | nil => cases hhead
      | cons e rest => exact ⟨rest, by rw [Option.some.inj hhead]⟩
    have heq := map_weight_run (m := operator 0x3d) rfl rest
    rw [run_between_cons, start_comparison (by decide)]
    simp only [beq_self_eq_true, if_true, run_bang, List.head?_cons, List.tail_cons,
      List.nil_append, Option.map_id']
    have hlong := map_weight_append (between.run rest) [(.opNeq, [0x21, 0x3d])]
    rw [heq, map_add_map_add]
    simpa [weight] using hlong
  · obtain ⟨type, htype⟩ : ∃ type, singleToken d = some type := by
      rw [← Option.isSome_iff_exists]
      simp only [startsToken, Bool.or_eq_true, beq_iff_eq, Bool.and_eq_true] at hstarts
      simp only [Bool.or_eq_true, beq_iff_eq, not_or] at hword
      simp_all
    simp only [beq_iff_eq, hbang, if_false, htype]
    rw [map_weight_append]
    simp [weight]

end Mode

/-! ## The law -/

open Mode

/-- Nothing is lost when no token byte follows the unrecognised bytes at once. -/
theorem run_tail_of_firstTokenByte : ∀ {v : ByteString}, firstTokenByte v = none →
    between.run v.tail = between.run v
  | [], _ => rfl
  | d :: v, h => by
      rw [firstTokenByte] at h
      by_cases hspace : isSpace d = true
      · rw [run_between_cons, start_space hspace]
        simp
      · rw [if_neg hspace] at h
        by_cases hstarts : startsToken d v = true
        · rw [if_pos hstarts] at h
          cases h
        · rw [if_neg hstarts] at h
          rw [run_unrecognised ⟨by simpa using hspace, by simpa using hstarts⟩, List.tail_cons,
            run_tail_of_firstTokenByte h]

/-- The token byte is lost on one of the two readings and makes the difference. -/
theorem map_weight_tail : ∀ {v : ByteString} {d : UInt8}, firstTokenByte v = some d →
    isQuote d = false →
      (between.run v).map weight = ((between.run v.tail).map weight).map (· + 1) ∨
      (between.run v.tail).map weight = ((between.run v).map weight).map (· + 1)
  | [], _, h, _ => by cases h
  | e :: v, d, h, hquote => by
      rw [firstTokenByte] at h
      by_cases hspace : isSpace e = true
      · rw [if_pos hspace] at h
        cases h
      · rw [if_neg hspace] at h
        by_cases hstarts : startsToken e v = true
        · rw [if_pos hstarts] at h
          obtain rfl := Option.some.inj h
          exact .inl (map_weight_startsToken hstarts hquote)
        · rw [if_neg hstarts] at h
          rw [run_unrecognised ⟨by simpa using hspace, by simpa using hstarts⟩, List.tail_cons]
          exact (map_weight_tail h hquote).symm

/-- Unless the blank is passed over itself, both readings of `v` come in: with its first
byte and without. -/
theorem skippedAlone_iff {u v : ByteString} {c : UInt8} (outside : ¬EndsInString u)
    (unrecognised : Unrecognised c v) :
    SkippedAlone u c v ↔ EndsUnrecognised u ∨ between.run v.tail = between.run v := by
  have hword : isWordByte c = false := by
    have := unrecognised.2
    simp only [startsToken, Bool.or_eq_false_iff] at this
    simp [isWordByte, isAlnum, this]
  have heq : c ≠ 0x3d := by
    rintro rfl
    have := unrecognised.2
    simp [startsToken, isComparison] at this
  have houtside : (modeAfter u).inString = false := by simpa [EndsInString] using outside
  have hinjective : Function.Injective (between.output u ++ · : List Lexeme → List Lexeme) :=
    fun _ _ h => List.append_cancel_left h
  unfold SkippedAlone EndsUnrecognised
  rw [tokenize_eq_run, tokenize_eq_run, run_append, run_append,
    (Option.map_injective hinjective).eq_iff]
  change (modeAfter u).run (c :: v) = (modeAfter u).run (0x20 :: v) ↔ _
  cases hnext : (modeAfter u).passesOver with
  | true =>
      rw [run_passesOver hnext heq, run_passesOver hnext (by decide)]
      simp
  | false =>
      obtain ⟨done, hrun⟩ := exists_run_cons houtside hnext
      have hdone : Function.Injective (done ++ · : List Lexeme → List Lexeme) :=
        fun _ _ h => List.append_cancel_left h
      have hblank : between.run (0x20 :: v) = between.run v := by
        rw [run_between_cons, start_space (by decide)]
        simp
      rw [hrun c v hword heq, hrun 0x20 v (by decide) (by decide), run_unrecognised unrecognised,
        hblank, (Option.map_injective hdone).eq_iff]
      simp

/-- An unrecognised character is skipped alone when it is passed over itself, or when no
token follows at once, be it behind more unrecognised characters.  On a text that ends
outside a string literal, with a first token other than a string literal, it is skipped
alone in these cases only. -/
theorem unrecognised_skipped_alone_iff (u v : ByteString) (c : UInt8)
    (outside : ¬EndsInString u) (unrecognised : Unrecognised c v) :
    (EndsUnrecognised u ∨ firstTokenByte v = none → SkippedAlone u c v) ∧
    (¬EndsInString v → (∀ d, firstTokenByte v = some d → isQuote d = false) →
      (SkippedAlone u c v ↔ EndsUnrecognised u ∨ firstTokenByte v = none)) := by
  have hif : EndsUnrecognised u ∨ firstTokenByte v = none → SkippedAlone u c v := fun h =>
    (skippedAlone_iff outside unrecognised).mpr (h.imp_right run_tail_of_firstTokenByte)
  refine ⟨hif, fun hclosed hplain => ⟨fun halone => ?_, hif⟩⟩
  refine ((skippedAlone_iff outside unrecognised).mp halone).imp_right fun hsame => ?_
  cases hfirst : firstTokenByte v with
  | none => rfl
  | some d =>
      exfalso
      obtain ⟨ls, hls⟩ : ∃ ls, between.run v = some ls := by
        rw [← Option.isSome_iff_exists, run_isSome]
        simpa [EndsInString, modeAfter] using hclosed
      have hweight := map_weight_tail hfirst (hplain d hfirst)
      rw [hsame, hls] at hweight
      simp at hweight

theorem unrecognised_skipped_alone_of_blank :
    SkippedAlone (text "a") 0x40 (text " 5") ∧
    (SkippedAlone (text "(") 0x2d (text "5)") ↔
      EndsUnrecognised (text "(") ∨ firstTokenByte (text "5)") = none) :=
  ⟨(unrecognised_skipped_alone_iff (text "a") (text " 5") 0x40 (by decide) (by decide)).1
      (by decide),
    (unrecognised_skipped_alone_iff (text "(") (text "5)") 0x2d (by decide) (by decide)).2
      (by decide) (by
        intro d hd
        obtain rfl := Option.some.inj hd
        decide)⟩

/-- The sign before a number takes the first digit with it. -/
theorem unrecognised_takes_digit :
    ¬∀ (u v : ByteString) (c : UInt8), ¬EndsInString u → Unrecognised c v →
      SkippedAlone u c v := by
  intro h
  exact absurd (h (text "VALUE (") (text "5);") 0x2d (by decide) (by decide)) (by
    unfold SkippedAlone
    decide)

/-- A lost quote may go unnoticed: with and without it, the text holds one string literal
with the contents `\@`. -/
example : SkippedAlone [] 0x23 (text "\"\\@\"\\\\@\"") := by
  unfold SkippedAlone
  decide

end CwDb.Sql
