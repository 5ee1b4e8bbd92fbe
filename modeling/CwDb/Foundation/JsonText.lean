/-
  Foundation/JsonText.lean --- JSON texts put together from JSON texts.

  A value is read the same way whatever follows it.  What follows is the inside of an array
  or of an object: a number is the one value whose reading would go on into a digit.  So an
  object whose members are written one by one is read member by member.
-/
import CwDb.Foundation.Json

set_option autoImplicit false

namespace CwDb.Foundation.Json

open CwDb.Cpp

variable {s t rest after : ByteString} {c : UInt8}

/-! ## Strings -/

theorem parsePieces_append {pieces : List Piece} (h : parsePieces s = some (pieces, after)) :
    parsePieces (s ++ t) = some (pieces, after ++ t) := by
  fun_induction parsePieces s generalizing pieces with
  | case1 => cases h
  | case2 rest =>
      obtain ⟨rfl, rfl⟩ := Prod.mk.inj (Option.some.inj h)
      exact parsePieces_quote (rest ++ t)
  | case3 x y z d rest _ ih =>
      cases hunit : codeUnit x y z d with
      | none =>
          rw [hunit] at h
          cases h
      | some unit =>
          cases hrest : parsePieces rest with
          | none =>
              rw [hunit, hrest] at h
              cases h
          | some p =>
              rw [hunit, hrest] at h
              obtain ⟨rfl, rfl⟩ := Prod.mk.inj (Option.some.inj h)
              have hlong := ih hrest
              change parsePieces (0x5c :: 0x75 :: x :: y :: z :: d :: (rest ++ t)) = _
              rw [parsePieces_unicode hunit, hlong]
              rfl
  | case4 e rest _ _ ih =>
      cases hbyte : simpleEscape e with
      | none =>
          rw [hbyte] at h
          cases h
      | some byte =>
          cases hrest : parsePieces rest with
          | none =>
              rw [hbyte, hrest] at h
              cases h
          | some p =>
              rw [hbyte, hrest] at h
              obtain ⟨rfl, rfl⟩ := Prod.mk.inj (Option.some.inj h)
              change parsePieces (0x5c :: e :: (rest ++ t)) = _
              rw [parsePieces_escape hbyte, ih hrest]
              rfl
  | case5 => cases h
  | case6 => cases h
  | case7 c rest quote escape printable ih =>
      cases hrest : parsePieces rest with
      | none =>
          rw [hrest] at h
          cases h
      | some p =>
          rw [hrest] at h
          obtain ⟨rfl, rfl⟩ := Prod.mk.inj (Option.some.inj h)
          change parsePieces (c :: (rest ++ t)) = _
          rw [parsePieces_plain quote escape printable, ih hrest]
          rfl

theorem parseChars_append {value : ByteString} (h : parseChars s = some (value, after)) :
    parseChars (s ++ t) = some (value, after ++ t) := by
  unfold parseChars at h ⊢
  obtain ⟨⟨pieces, after'⟩, hpieces, heq⟩ := Option.map_eq_some_iff.mp h
  obtain ⟨rfl, rfl⟩ := Prod.mk.inj heq
  rw [parsePieces_append hpieces]
  rfl

/-! ## Numbers -/

/-- The digits of a text end where it ends, or before. -/
theorem digits_append (closes : Closes t) :
    (s ++ t).takeWhile isDigit = s.takeWhile isDigit ∧
      (s ++ t).dropWhile isDigit = s.dropWhile isDigit ++ t := by
  induction s with
  | nil => exact takeWhile_digits (s := []) (by simp) closes
  | cons c s ih =>
      by_cases hc : isDigit c = true
      · rw [List.cons_append, List.takeWhile_cons_of_pos hc, List.takeWhile_cons_of_pos hc,
          List.dropWhile_cons_of_pos hc, List.dropWhile_cons_of_pos hc, ih.1, ih.2]
        exact ⟨rfl, rfl⟩
      · rw [List.cons_append, List.takeWhile_cons_of_neg hc, List.takeWhile_cons_of_neg hc,
          List.dropWhile_cons_of_neg hc, List.dropWhile_cons_of_neg hc]
        exact ⟨rfl, rfl⟩

theorem parseFraction_append (closes : Closes t) {digits : ByteString}
    (h : parseFraction s = some (digits, after)) :
    parseFraction (s ++ t) = some (digits, after ++ t) := by
  cases s with
  | nil =>
      obtain ⟨rfl, rfl⟩ := Prod.mk.inj (Option.some.inj h)
      obtain ⟨c, u, rfl, hc⟩ := closes
      rcases hc with rfl | rfl | rfl <;> rfl
  | cons c s =>
      by_cases hc : c = 0x2e
      · subst hc
        unfold parseFraction at h ⊢
        obtain ⟨htake, hdrop⟩ := digits_append (s := s) closes
        simp only [List.cons_append, htake, hdrop] at h ⊢
        split at h
        · cases h
        · next hempty =>
            obtain ⟨rfl, rfl⟩ := Prod.mk.inj (Option.some.inj h)
            rw [if_neg hempty]
      · unfold parseFraction at h ⊢
        grind

theorem parseExponent_append (closes : Closes t) {exponent : Int}
    (h : parseExponent s = some (exponent, after)) :
    parseExponent (s ++ t) = some (exponent, after ++ t) := by
  cases s with
  | nil =>
      obtain ⟨rfl, rfl⟩ := Prod.mk.inj (Option.some.inj h)
      obtain ⟨c, u, rfl, hc⟩ := closes
      rcases hc with rfl | rfl | rfl <;> rfl
  | cons c s =>
      unfold parseExponent at h ⊢
      rw [List.cons_append]
      dsimp only at h ⊢
      split at h
      · next he =>
          rw [if_pos he]
          cases s with
          | nil => cases h
          | cons d s =>
              rw [List.cons_append, List.head?_cons, List.tail_cons]
              rw [List.head?_cons, List.tail_cons] at h
              -- a sign is no digit
              have happend : (if some d == some 0x2d || some d == some 0x2b then s ++ t
                  else d :: (s ++ t)) =
                  (if some d == some 0x2d || some d == some 0x2b then s else d :: s) ++ t := by
                split <;> rfl
              obtain ⟨htake, hdrop⟩ := digits_append closes
                (s := if some d == some 0x2d || some d == some 0x2b then s else d :: s)
              rw [happend, htake, hdrop]
              clear happend htake hdrop
              generalize (if some d == some 0x2d || some d == some 0x2b then s else d :: s) =
                digits at h ⊢
              split at h
              · cases h
              · next hempty =>
                  obtain ⟨rfl, rfl⟩ := Prod.mk.inj (Option.some.inj h)
                  rw [if_neg hempty]
      · next he =>
          rw [if_neg he]
          obtain ⟨rfl, rfl⟩ := Prod.mk.inj (Option.some.inj h)
          rfl

theorem parseUnsigned_append (closes : Closes t) (negative : Bool) {j : Json}
    (h : parseUnsigned negative s = some (j, after)) :
    parseUnsigned negative (s ++ t) = some (j, after ++ t) := by
  unfold parseUnsigned at h ⊢
  obtain ⟨htake, hdrop⟩ := digits_append (s := s) closes
  rw [htake, hdrop]
  dsimp only at h ⊢
  split at h
  · cases h
  · next hdigits =>
      rw [if_neg hdigits]
      obtain ⟨⟨fraction, u⟩, hfraction, h⟩ := Option.bind_eq_some_iff.mp h
      obtain ⟨⟨exponent, v⟩, hexponent, h⟩ := Option.bind_eq_some_iff.mp h
      obtain ⟨rfl, rfl⟩ := Prod.mk.inj (Option.some.inj h)
      rw [parseFraction_append closes hfraction]
      change (parseExponent (u ++ t)).bind _ = _
      rw [parseExponent_append closes hexponent]
      rfl

theorem exists_of_parseNumber {j : Json} (h : parseNumber s = some (j, after)) :
    ∃ c u, s = c :: u ∧ (isDigit c = true ∨ c = 0x2d) := by
  cases s with
  | nil => cases h
  | cons c u =>
      refine ⟨c, u, rfl, ?_⟩
      by_cases hdash : c = 0x2d
      · exact .inr hdash
      refine .inl ?_
      by_contra hdigit
      unfold parseNumber at h
      split at h
      · next heq => exact hdash (List.cons.inj heq).1
      · unfold parseUnsigned at h
        rw [List.takeWhile_cons_of_neg hdigit] at h
        cases h

theorem parseNumber_append (closes : Closes t) {j : Json}
    (h : parseNumber s = some (j, after)) : parseNumber (s ++ t) = some (j, after ++ t) := by
  obtain ⟨c, u, rfl, -⟩ := exists_of_parseNumber h
  by_cases hdash : c = 0x2d
  · subst hdash
    exact parseUnsigned_append closes true h
  · have hunsigned : ∀ u, parseNumber (c :: u) = parseUnsigned false (c :: u) := by
      intro u
      unfold parseNumber
      split
      · next heq => exact absurd (List.cons.inj heq).1 hdash
      · rfl
    rw [hunsigned] at h
    rw [List.cons_append, hunsigned]
    exact parseUnsigned_append closes false h

/-! ## Values -/

theorem skipSpace_append (h : skipSpace s = c :: rest) :
    skipSpace (s ++ t) = c :: (rest ++ t) := by
  unfold skipSpace at h ⊢
  rw [List.dropWhile_append, h]
  rfl

theorem exists_of_parseValue {fuel : Nat} {j : Json} (h : parseValue fuel s = some (j, after)) :
    ∃ c u, skipSpace s = c :: u := by
  cases fuel with
  | zero => cases h
  | succ fuel =>
      cases hskip : skipSpace s with
      | cons c u => exact ⟨c, u, rfl⟩
      | nil =>
          unfold parseValue at h
          rw [hskip] at h
          cases h

theorem exists_of_parseElements {fuel : Nat} {es : List Json}
    (h : parseElements fuel s = some (es, after)) : ∃ c u, skipSpace s = c :: u := by
  cases fuel with
  | zero => cases h
  | succ fuel =>
      unfold parseElements at h
      obtain ⟨⟨j, u⟩, hvalue, -⟩ := Option.bind_eq_some_iff.mp h
      exact exists_of_parseValue hvalue

theorem exists_of_parseMembers {fuel : Nat} {members : List (ByteString × Json)}
    (h : parseMembers fuel s = some (members, after)) : ∃ u, skipSpace s = 0x22 :: u := by
  cases fuel with
  | zero => cases h
  | succ fuel =>
      unfold parseMembers at h
      split at h
      · next u heq => exact ⟨u, heq⟩
      · cases h

theorem parseValue_object {fuel : Nat} (h : skipSpace s = 0x7b :: rest) :
    parseValue (fuel + 1) s =
      match skipSpace rest with
      | 0x7d :: after => some (.obj [], after)
      | _ => (parseMembers fuel rest).map fun (members, after) => (.obj members, after) := by
  conv => lhs; unfold parseValue
  rw [h]
  rfl

theorem parseValue_array {fuel : Nat} (h : skipSpace s = 0x5b :: rest) :
    parseValue (fuel + 1) s =
      match skipSpace rest with
      | 0x5d :: after => some (.arr [], after)
      | _ => (parseElements fuel rest).map fun (elements, after) => (.arr elements, after) := by
  conv => lhs; unfold parseValue
  rw [h]
  rfl

theorem parseValue_string {fuel : Nat} (h : skipSpace s = 0x22 :: rest) :
    parseValue (fuel + 1) s = (parseChars rest).map fun (s, after) => (.str s, after) := by
  conv => lhs; unfold parseValue
  rw [h]
  rfl

/-- More fuel, and a text behind the value, change nothing. -/
def Stable {α : Type} (parse : Nat → ByteString → Option (α × ByteString)) (fuel : Nat) : Prop :=
  ∀ s t a after, Closes t → parse fuel s = some (a, after) →
    ∀ fuel', fuel ≤ fuel' → parse fuel' (s ++ t) = some (a, after ++ t)

theorem stable_parseValue {fuel : Nat} (elements : Stable parseElements fuel)
    (members : Stable parseMembers fuel) : Stable parseValue (fuel + 1) := by
  intro s t j after closes h fuel' hfuel
  obtain ⟨fuel', rfl⟩ : ∃ more, fuel' = more + 1 := ⟨fuel' - 1, by omega⟩
  obtain ⟨c, u, hskip⟩ := exists_of_parseValue h
  by_cases hobject : c = 0x7b
  · rw [hobject] at hskip
    rw [parseValue_object hskip] at h
    rw [parseValue_object (skipSpace_append hskip)]
    split at h
    · next hclose =>
        obtain ⟨rfl, rfl⟩ := Prod.mk.inj (Option.some.inj h)
        rw [skipSpace_append hclose]
        rfl
    · next hopen =>
        obtain ⟨⟨ms, after'⟩, hmembers, hpair⟩ := Option.map_eq_some_iff.mp h
        obtain ⟨rfl, rfl⟩ := Prod.mk.inj hpair
        obtain ⟨v, hquote⟩ := exists_of_parseMembers hmembers
        rw [skipSpace_append hquote, members u t ms after' closes hmembers _ (by omega)]
        rfl
  by_cases harray : c = 0x5b
  · rw [harray] at hskip
    rw [parseValue_array hskip] at h
    rw [parseValue_array (skipSpace_append hskip)]
    split at h
    · next hclose =>
        obtain ⟨rfl, rfl⟩ := Prod.mk.inj (Option.some.inj h)
        rw [skipSpace_append hclose]
        rfl
    · next hopen =>
        obtain ⟨⟨es, after'⟩, helements, hpair⟩ := Option.map_eq_some_iff.mp h
        obtain ⟨rfl, rfl⟩ := Prod.mk.inj hpair
        obtain ⟨d, v, hfirst⟩ := exists_of_parseElements helements
        have hd : d ≠ 0x5d := fun heq => hopen v (heq ▸ hfirst)
        rw [skipSpace_append hfirst, elements u t es after' closes helements _ (by omega)]
        grind
  by_cases hstring : c = 0x22
  · rw [hstring] at hskip
    rw [parseValue_string hskip] at h
    rw [parseValue_string (skipSpace_append hskip)]
    obtain ⟨⟨value, after'⟩, hchars, hpair⟩ := Option.map_eq_some_iff.mp h
    obtain ⟨rfl, rfl⟩ := Prod.mk.inj hpair
    rw [parseChars_append hchars]
    rfl
  unfold parseValue at h
  rw [hskip] at h
  split at h
  · next heq => exact absurd (List.cons.inj heq).1 hobject
  · next heq => exact absurd (List.cons.inj heq).1 harray
  · next heq => exact absurd (List.cons.inj heq).1 hstring
  · next heq =>
      obtain ⟨rfl, rfl⟩ := Prod.mk.inj (Option.some.inj h)
      unfold parseValue
      rw [skipSpace_append (hskip.trans heq)]
      rfl
  · next heq =>
      obtain ⟨rfl, rfl⟩ := Prod.mk.inj (Option.some.inj h)
      unfold parseValue
      rw [skipSpace_append (hskip.trans heq)]
      rfl
  · next heq =>
      obtain ⟨rfl, rfl⟩ := Prod.mk.inj (Option.some.inj h)
      unfold parseValue
      rw [skipSpace_append (hskip.trans heq)]
      rfl
  · have hlong := parseNumber_append closes h
    obtain ⟨d, v, heq, hd⟩ := exists_of_parseNumber h
    obtain ⟨rfl, rfl⟩ := List.cons.inj heq
    have hspaced : parseValue (fuel' + 1) (s ++ t) = parseValue (fuel' + 1) (c :: u ++ t) := by
      have hnospace : skipSpace (c :: u ++ t) = c :: (u ++ t) := by
        rw [List.cons_append, ← skipSpace_append hskip]
        exact List.dropWhile_idempotent _ _
      unfold parseValue
      rw [skipSpace_append hskip, hnospace]
    rw [hspaced, ← hlong]
    exact parseValue_number hd

theorem stable_parseElements {fuel : Nat} (value : Stable parseValue fuel)
    (elements : Stable parseElements fuel) : Stable parseElements (fuel + 1) := by
  intro s t es after closes h fuel' hfuel
  obtain ⟨fuel', rfl⟩ : ∃ more, fuel' = more + 1 := ⟨fuel' - 1, by omega⟩
  unfold parseElements at h ⊢
  obtain ⟨⟨j, rest⟩, hvalue, h⟩ := Option.bind_eq_some_iff.mp h
  change (parseValue fuel' (s ++ t)).bind _ = _
  rw [value s t j rest closes hvalue fuel' (by omega), Option.bind_some]
  dsimp only at h ⊢
  split at h
  · next u hcomma =>
      obtain ⟨⟨more, after'⟩, hmore, h⟩ := Option.bind_eq_some_iff.mp h
      obtain ⟨rfl, rfl⟩ := Prod.mk.inj (Option.some.inj h)
      rw [skipSpace_append hcomma]
      change (parseElements fuel' (u ++ t)).bind _ = _
      rw [elements u t more after' closes hmore fuel' (by omega)]
      rfl
  · next u hclose =>
      obtain ⟨rfl, rfl⟩ := Prod.mk.inj (Option.some.inj h)
      rw [skipSpace_append hclose]
      rfl
  · cases h

theorem stable_parseMembers {fuel : Nat} (value : Stable parseValue fuel)
    (members : Stable parseMembers fuel) : Stable parseMembers (fuel + 1) := by
  intro s t ms after closes h fuel' hfuel
  obtain ⟨fuel', rfl⟩ : ∃ more, fuel' = more + 1 := ⟨fuel' - 1, by omega⟩
  obtain ⟨u, hquote⟩ := exists_of_parseMembers h
  unfold parseMembers at h ⊢
  rw [hquote] at h
  rw [skipSpace_append hquote]
  obtain ⟨⟨key, rest⟩, hkey, h⟩ := Option.bind_eq_some_iff.mp h
  change (parseChars (u ++ t)).bind _ = _
  rw [parseChars_append hkey, Option.bind_some]
  dsimp only at h ⊢
  split at h
  · next v hcolon =>
      obtain ⟨⟨j, rest'⟩, hvalue, h⟩ := Option.bind_eq_some_iff.mp h
      rw [skipSpace_append hcolon]
      change (parseValue fuel' (v ++ t)).bind _ = _
      rw [value v t j rest' closes hvalue fuel' (by omega), Option.bind_some]
      dsimp only at h ⊢
      split at h
      · next w hcomma =>
          obtain ⟨⟨more, after'⟩, hmore, h⟩ := Option.bind_eq_some_iff.mp h
          obtain ⟨rfl, rfl⟩ := Prod.mk.inj (Option.some.inj h)
          rw [skipSpace_append hcomma]
          change (parseMembers fuel' (w ++ t)).bind _ = _
          rw [members w t more after' closes hmore fuel' (by omega)]
          rfl
      · next w hclose =>
          obtain ⟨rfl, rfl⟩ := Prod.mk.inj (Option.some.inj h)
          rw [skipSpace_append hclose]
          rfl
      · cases h
  · cases h

theorem stable (fuel : Nat) :
    Stable parseValue fuel ∧ Stable parseElements fuel ∧ Stable parseMembers fuel := by
  induction fuel with
  | zero =>
      refine ⟨?_, ?_, ?_⟩ <;>
        · intro s t a after closes h
          cases h
  | succ fuel ih =>
      obtain ⟨value, elements, members⟩ := ih
      exact ⟨stable_parseValue elements members, stable_parseElements value elements,
        stable_parseMembers value members⟩

/-- Inside another text `s` is read as `j`; the blanks behind it are passed over. -/
def Reads (s : ByteString) (j : Json) : Prop :=
  ∀ t fuel, Closes t → 2 * s.length + 2 ≤ fuel →
    ∃ blank, parseValue fuel (s ++ t) = some (j, blank ++ t) ∧ skipSpace (blank ++ t) = t

theorem skipSpace_closes (closes : Closes t) : skipSpace t = t := by
  obtain ⟨c, u, rfl, hc⟩ := closes
  exact skipSpace_cons (by rcases hc with rfl | rfl | rfl <;> rfl)

/-- A text that is read up to its end. -/
theorem reads_of_parseValue {j : Json}
    (h : ∀ t fuel, Closes t → parseValue (fuel + 1) (s ++ t) = some (j, t)) : Reads s j := by
  intro t fuel closes hfuel
  obtain ⟨fuel, rfl⟩ : ∃ less, fuel = less + 1 := ⟨fuel - 1, by omega⟩
  exact ⟨[], h t fuel closes, skipSpace_closes closes⟩

/-- So is a complete text. -/
theorem reads_of_decode {j : Json} (h : decode s = some j) : Reads s j := by
  intro t fuel closes hfuel
  unfold decode at h
  split at h
  · next v after hvalue =>
      split at h
      · next hblank =>
          obtain rfl := Option.some.inj h
          refine ⟨after, (stable _).1 s t v after closes hvalue fuel hfuel, ?_⟩
          have hspace := skipSpace_closes closes
          have hempty : List.dropWhile (fun c => c == 0x20 || c == 0x09 || c == 0x0a || c == 0x0d)
              after = [] := List.isEmpty_iff.mp hblank
          unfold skipSpace at hspace ⊢
          rw [List.dropWhile_append, hempty]
          exact hspace
      · cases h
  · cases h

/-- What starts as an array or an object is one. -/
theorem arr_or_obj_of_parseValue {fuel : Nat} {j : Json} (hc : c = 0x5b ∨ c = 0x7b)
    (h : parseValue fuel (c :: s) = some (j, after)) :
    (∃ elements, j = .arr elements) ∨ ∃ members, j = .obj members := by
  cases fuel with
  | zero => cases h
  | succ fuel =>
      rcases hc with rfl | rfl
      · rw [parseValue_array (skipSpace_cons rfl)] at h
        split at h
        · obtain ⟨rfl, -⟩ := Prod.mk.inj (Option.some.inj h)
          exact .inl ⟨[], rfl⟩
        · obtain ⟨⟨elements, after'⟩, -, hpair⟩ := Option.map_eq_some_iff.mp h
          exact .inl ⟨elements, (Prod.mk.inj hpair).1.symm⟩
      · rw [parseValue_object (skipSpace_cons rfl)] at h
        split at h
        · obtain ⟨rfl, -⟩ := Prod.mk.inj (Option.some.inj h)
          exact .inr ⟨[], rfl⟩
        · obtain ⟨⟨members, after'⟩, -, hpair⟩ := Option.map_eq_some_iff.mp h
          exact .inr ⟨members, (Prod.mk.inj hpair).1.symm⟩

/-! ## Objects -/

/-- A member, its value written as `p.2`. -/
def memberText (p : ByteString × ByteString) : ByteString := 0x22 :: (p.1 ++ 0x22 :: 0x3a :: p.2)

def membersText : List (ByteString × ByteString) → ByteString
  | [] => []
  | [p] => memberText p
  | p :: ps => memberText p ++ 0x2c :: membersText ps

/-- An object, its members written one by one. -/
def objectText (pairs : List (ByteString × ByteString)) : ByteString :=
  0x7b :: (membersText pairs ++ [0x7d])

theorem membersText_cons (p : ByteString × ByteString) (ps : List (ByteString × ByteString)) :
    membersText (p :: ps) = memberText p ++ ps.flatMap fun q => 0x2c :: memberText q := by
  induction ps generalizing p with
  | nil => exact (List.append_nil _).symm
  | cons q ps ih =>
      change memberText p ++ 0x2c :: membersText (q :: ps) = _
      rw [ih, List.flatMap_cons, List.cons_append]

/-- A key is written as it is. -/
def PlainKey (key : ByteString) : Prop :=
  ∀ rest, parseChars (key ++ 0x22 :: rest) = some (key, rest)

/-- The text of a member is that of its value. -/
def Written (p : ByteString × ByteString) (m : ByteString × Json) : Prop :=
  p.1 = m.1 ∧ PlainKey p.1 ∧ Reads p.2 m.2

theorem length_memberText (p : ByteString × ByteString) :
    (memberText p).length = p.1.length + p.2.length + 3 := by
  unfold memberText
  simp only [List.length_cons, List.length_append]
  omega

/-- What follows a member. -/
def afterMember (fuel : Nat) (m : ByteString × Json) (rest : ByteString) :
    Option (List (ByteString × Json) × ByteString) :=
  match skipSpace rest with
  | 0x2c :: rest => (parseMembers fuel rest).bind fun q => some (m :: q.1, q.2)
  | 0x7d :: after => some ([m], after)
  | _ => none

theorem parseMembers_memberText {fuel : Nat} {p : ByteString × ByteString} (key : PlainKey p.1)
    (rest : ByteString) :
    parseMembers (fuel + 1) (memberText p ++ rest) =
      (parseValue fuel (p.2 ++ rest)).bind fun q => afterMember fuel (p.1, q.1) q.2 := by
  have hquote : skipSpace (memberText p ++ rest) =
      0x22 :: (p.1 ++ 0x22 :: (0x3a :: (p.2 ++ rest))) := by
    unfold memberText
    rw [List.cons_append, skipSpace_cons rfl, List.append_assoc]
    rfl
  conv => lhs; unfold parseMembers
  rw [hquote]
  change (parseChars (p.1 ++ 0x22 :: (0x3a :: (p.2 ++ rest)))).bind _ = _
  rw [key, Option.bind_some]
  have hcolon : skipSpace (0x3a :: (p.2 ++ rest)) = 0x3a :: (p.2 ++ rest) := skipSpace_cons rfl
  dsimp only
  rw [hcolon]
  rfl

theorem parseMembers_last {fuel : Nat} {p : ByteString × ByteString} {m : ByteString × Json}
    (written : Written p m) (hfuel : 2 * p.2.length + 2 ≤ fuel) (rest : ByteString) :
    parseMembers (fuel + 1) (memberText p ++ 0x7d :: rest) = some ([m], rest) := by
  obtain ⟨hkey, hplain, hvalue⟩ := written
  obtain ⟨blank, hparse, hblank⟩ :=
    hvalue (0x7d :: rest) fuel ⟨0x7d, rest, rfl, .inr (.inr rfl)⟩ hfuel
  rw [parseMembers_memberText hplain, hparse]
  change afterMember fuel (p.1, m.2) (blank ++ 0x7d :: rest) = _
  unfold afterMember
  rw [hblank, hkey]
  rfl

theorem parseMembers_more {fuel : Nat} {p : ByteString × ByteString} {m : ByteString × Json}
    (written : Written p m) (hfuel : 2 * p.2.length + 2 ≤ fuel) (rest : ByteString) :
    parseMembers (fuel + 1) (memberText p ++ 0x2c :: rest) =
      (parseMembers fuel rest).map fun q => (m :: q.1, q.2) := by
  obtain ⟨hkey, hplain, hvalue⟩ := written
  obtain ⟨blank, hparse, hblank⟩ :=
    hvalue (0x2c :: rest) fuel ⟨0x2c, rest, rfl, .inl rfl⟩ hfuel
  rw [parseMembers_memberText hplain, hparse]
  change afterMember fuel (p.1, m.2) (blank ++ 0x2c :: rest) = _
  unfold afterMember
  rw [hblank, hkey]
  change (parseMembers fuel rest).bind _ = _
  cases parseMembers fuel rest <;> rfl

/-- The members in front of one, and that one up to its value. -/
theorem parseMembers_membersText {pairs : List (ByteString × ByteString)}
    {ms : List (ByteString × Json)} (written : List.Forall₂ Written pairs ms)
    (p : ByteString × ByteString) (ps : List (ByteString × ByteString)) (fuel : Nat)
    (hfuel : 2 * (membersText (pairs ++ p :: ps)).length + 2 ≤ fuel) (rest : ByteString) :
    ∃ fuel', 2 * (membersText (p :: ps)).length + 2 ≤ fuel' ∧
      parseMembers fuel (membersText (pairs ++ p :: ps) ++ rest) =
        (parseMembers fuel' (membersText (p :: ps) ++ rest)).map fun q => (ms ++ q.1, q.2) := by
  induction written generalizing fuel with
  | nil =>
      refine ⟨fuel, hfuel, ?_⟩
      cases h : parseMembers fuel (membersText ([] ++ p :: ps) ++ rest) with
      | none =>
          rw [List.nil_append] at h
          rw [h]
          rfl
      | some q =>
          rw [List.nil_append] at h
          rw [h]
          rfl
  | @cons pair m pairs ms hpair _ ih =>
      have hcons : membersText (pair :: pairs ++ p :: ps) =
          memberText pair ++ 0x2c :: membersText (pairs ++ p :: ps) := by
        cases pairs <;> rfl
      rw [hcons] at hfuel ⊢
      have hlength := length_memberText pair
      simp only [List.length_append, List.length_cons] at hfuel
      obtain ⟨fuel, rfl⟩ : ∃ less, fuel = less + 1 := ⟨fuel - 1, by omega⟩
      obtain ⟨fuel', hfuel', heq⟩ := ih fuel (by omega)
      refine ⟨fuel', hfuel', ?_⟩
      rw [List.append_assoc, List.cons_append, parseMembers_more hpair (by omega), heq,
        Option.map_map]
      rfl

/-- An object is read up to the value of any of its members. -/
theorem decode_objectText {pairs : List (ByteString × ByteString)}
    {ms : List (ByteString × Json)} (written : List.Forall₂ Written pairs ms)
    (p : ByteString × ByteString) (ps : List (ByteString × ByteString)) :
    ∃ fuel, 2 * (membersText (p :: ps)).length + 2 ≤ fuel ∧
      decode (objectText (pairs ++ p :: ps)) =
        (parseMembers fuel (membersText (p :: ps) ++ [0x7d])).bind fun q =>
          if (skipSpace q.2).isEmpty then some (.obj (ms ++ q.1)) else none := by
  obtain ⟨fuel, hfuel, hparse⟩ := parseMembers_membersText written p ps
    (2 * (objectText (pairs ++ p :: ps)).length + 1)
    (by unfold objectText; simp only [List.length_append, List.length_cons]; omega) [0x7d]
  refine ⟨fuel, hfuel, ?_⟩
  have hopen : skipSpace (objectText (pairs ++ p :: ps)) =
      0x7b :: (membersText (pairs ++ p :: ps) ++ [0x7d]) := skipSpace_cons rfl
  have hquote : ∃ v, skipSpace (membersText (pairs ++ p :: ps) ++ [0x7d]) = 0x22 :: v := by
    obtain ⟨q, qs, hqs⟩ : ∃ q qs, pairs ++ p :: ps = q :: qs := by
      cases pairs with
      | nil => exact ⟨p, ps, rfl⟩
      | cons q qs => exact ⟨q, qs ++ p :: ps, rfl⟩
    rw [hqs]
    cases qs with
    | nil => exact ⟨_, skipSpace_cons rfl⟩
    | cons r qs => exact ⟨_, skipSpace_cons rfl⟩
  obtain ⟨v, hquote⟩ := hquote
  unfold decode
  have hlength : 2 * (objectText (pairs ++ p :: ps)).length + 2 =
      (2 * (objectText (pairs ++ p :: ps)).length + 1) + 1 := rfl
  rw [hlength, parseValue_object hopen, hquote]
  dsimp only
  rw [hparse]
  cases parseMembers fuel (membersText (p :: ps) ++ [0x7d]) <;> rfl

theorem parseMembers_complete {pairs : List (ByteString × ByteString)}
    {ms : List (ByteString × Json)} (written : List.Forall₂ Written pairs ms)
    (filled : pairs ≠ []) (fuel : Nat) (hfuel : 2 * (membersText pairs).length + 2 ≤ fuel)
    (rest : ByteString) :
    parseMembers fuel (membersText pairs ++ 0x7d :: rest) = some (ms, rest) := by
  induction written generalizing fuel with
  | nil => exact absurd rfl filled
  | @cons p m pairs ms first more ih =>
      have hlength := length_memberText p
      cases more with
      | nil =>
          change 2 * (memberText p).length + 2 ≤ fuel at hfuel
          obtain ⟨fuel, rfl⟩ : ∃ less, fuel = less + 1 := ⟨fuel - 1, by omega⟩
          exact parseMembers_last first (by omega) rest
      | @cons q n pairs ms second more =>
          have hcons : membersText (p :: q :: pairs) =
              memberText p ++ 0x2c :: membersText (q :: pairs) := rfl
          rw [hcons] at hfuel ⊢
          simp only [List.length_append, List.length_cons] at hfuel
          obtain ⟨fuel, rfl⟩ : ∃ less, fuel = less + 1 := ⟨fuel - 1, by omega⟩
          rw [List.append_assoc, List.cons_append, parseMembers_more first (by omega),
            ih (List.cons_ne_nil q pairs) fuel (by omega)]
          rfl

/-- A complete object. -/
theorem decode_objectText_complete {pairs : List (ByteString × ByteString)}
    {ms : List (ByteString × Json)} (written : List.Forall₂ Written pairs ms)
    (filled : pairs ≠ []) : decode (objectText pairs) = some (.obj ms) := by
  cases written with
  | nil => exact absurd rfl filled
  | @cons p m pairs ms first more =>
      have hcomplete := parseMembers_complete (List.Forall₂.cons first more) filled
        (2 * (objectText (p :: pairs)).length + 1)
        (by unfold objectText; simp only [List.length_append, List.length_cons]; omega) []
      obtain ⟨v, hquote⟩ := exists_of_parseMembers hcomplete
      have hopen : skipSpace (objectText (p :: pairs)) =
          0x7b :: (membersText (p :: pairs) ++ [0x7d]) := skipSpace_cons rfl
      have hlength : 2 * (objectText (p :: pairs)).length + 2 =
          (2 * (objectText (p :: pairs)).length + 1) + 1 := rfl
      unfold decode
      rw [hlength, parseValue_object hopen, hquote]
      dsimp only
      rw [hcomplete]
      rfl

/-- Of an object that is read, any member is what is read where its value stands. -/
theorem exists_of_decode_objectText {pairs : List (ByteString × ByteString)}
    {ms members : List (ByteString × Json)} (written : List.Forall₂ Written pairs ms)
    {p : ByteString × ByteString} {ps : List (ByteString × ByteString)} (key : PlainKey p.1)
    (h : decode (objectText (pairs ++ p :: ps)) = some (.obj members)) :
    ∃ fuel rest j after more, parseValue fuel (p.2 ++ rest) = some (j, after) ∧
      members = ms ++ (p.1, j) :: more := by
  obtain ⟨fuel, hfuel, heq⟩ := decode_objectText written p ps
  rw [heq] at h
  obtain ⟨⟨found, after⟩, hfound, h⟩ := Option.bind_eq_some_iff.mp h
  obtain ⟨fuel, rfl⟩ : ∃ less, fuel = less + 1 := ⟨fuel - 1, by omega⟩
  obtain ⟨rest, hrest⟩ : ∃ rest, membersText (p :: ps) ++ [0x7d] = memberText p ++ rest := by
    cases ps with
    | nil => exact ⟨[0x7d], rfl⟩
    | cons q qs =>
        refine ⟨0x2c :: membersText (q :: qs) ++ [0x7d], ?_⟩
        exact List.append_assoc _ _ _
  rw [hrest, parseMembers_memberText key] at hfound
  obtain ⟨⟨j, behind⟩, hvalue, hmore⟩ := Option.bind_eq_some_iff.mp hfound
  obtain ⟨more, rfl⟩ : ∃ more, found = (p.1, j) :: more := by
    unfold afterMember at hmore
    split at hmore
    · obtain ⟨⟨more, after'⟩, -, hpair⟩ := Option.bind_eq_some_iff.mp hmore
      exact ⟨more, (Prod.mk.inj (Option.some.inj hpair)).1.symm⟩
    · exact ⟨[], (Prod.mk.inj (Option.some.inj hmore)).1.symm⟩
    · cases hmore
  refine ⟨fuel, rest, j, behind, more, hvalue, ?_⟩
  split at h
  · exact (Json.obj.inj (Option.some.inj h)).symm
  · cases h

/-- The member of a key that stands once. -/
theorem lookup_of_mem {members : List (ByteString × Json)} {m : ByteString × Json}
    (once : (members.map Prod.fst).Nodup) (h : m ∈ members) :
    members.lookup m.1 = some m.2 := by
  induction members with
  | nil => cases h
  | cons n members ih =>
      rw [List.map_cons, List.nodup_cons] at once
      rcases List.mem_cons.mp h with rfl | hmem
      · exact List.lookup_cons_self
      · have hkey : (m.1 == n.1) = false := by
          rw [beq_eq_false_iff_ne]
          intro heq
          exact once.1 (heq ▸ List.mem_map_of_mem hmem)
        rw [List.lookup_cons, hkey]
        exact ih once.2 hmem

end CwDb.Foundation.Json
