/-
  Cpp/Quoted.lean --- searching a text with quoted, escaped strings in it for a name
  between quotes.

  A search of the bytes knows no strings.  It finds the name where a string ends in it
  behind a quote: the opening one, or one of its own, since the backslash before that one
  is no part of what is searched for.
-/
import CwDb.Cpp.Strings

set_option autoImplicit false

namespace CwDb.Cpp

/-! ## What follows an occurrence -/

/-- The text behind the first occurrence. -/
def afterFind (haystack needle : ByteString) : Option ByteString :=
  (find haystack needle).map fun pos => haystack.drop (pos + needle.length)

theorem isSome_afterFind {haystack needle : ByteString} :
    (afterFind haystack needle).isSome = (find haystack needle).isSome := by
  unfold afterFind
  rw [Option.isSome_map]

theorem afterFind_of_isPrefix {haystack needle : ByteString} (h : needle <+: haystack) :
    afterFind haystack needle = some (haystack.drop needle.length) := by
  unfold afterFind
  rw [find_of_isPrefix h, Option.map_some, Nat.zero_add]

theorem afterFind_cons {c : UInt8} {rest needle : ByteString} (h : ¬ needle <+: c :: rest) :
    afterFind (c :: rest) needle = afterFind rest needle := by
  unfold afterFind
  rw [find_cons_of_not_isPrefix h, Option.map_map]
  congr 1
  funext pos
  change List.drop (pos + 1 + needle.length) (c :: rest) = _
  rw [Nat.add_right_comm, List.drop_succ_cons]

theorem afterFind_cons_of_ne {c first : UInt8} {rest needle : ByteString} (h : c ≠ first) :
    afterFind (c :: rest) (first :: needle) = afterFind rest (first :: needle) := by
  apply afterFind_cons
  rw [List.cons_prefix_cons]
  exact fun hpre => h hpre.1.symm

/-- Bytes that do not start the needle are stepped over. -/
theorem afterFind_append {first : UInt8} {s rest needle : ByteString} (h : first ∉ s) :
    afterFind (s ++ rest) (first :: needle) = afterFind rest (first :: needle) := by
  induction s with
  | nil => rfl
  | cons c s ih =>
      have hc : c ≠ first := fun heq => h (heq ▸ List.mem_cons_self)
      rw [List.cons_append, afterFind_cons_of_ne hc]
      exact ih fun hmem => h (List.mem_cons_of_mem c hmem)

/-! ## Escapes -/

/-- A byte is written as it is, or behind a backslash; quotes stand behind a backslash. -/
structure Escapes (esc : UInt8 → ByteString) : Prop where
  quote : esc 0x22 = [0x5c, 0x22]
  other : ∀ c, c ≠ 0x22 →
    (esc c = [c] ∧ c ≠ 0x5c) ∨ ∃ code, esc c = 0x5c :: code ∧ 0x22 ∉ code

/-- The name is written as it is. -/
def Plain (esc : UInt8 → ByteString) (name : ByteString) : Prop :=
  ∀ c ∈ name, esc c = [c] ∧ c ≠ 0x22 ∧ c ≠ 0x5c

/-- The string ends in the name behind a quote. -/
def EndsIn (name s : ByteString) : Prop := s = name ∨ 0x22 :: name <:+ s

instance (name s : ByteString) : Decidable (EndsIn name s) :=
  inferInstanceAs (Decidable (_ ∨ _))

variable {esc : UInt8 → ByteString} {name rest tail : ByteString}

/-- Inside a string the name up to a quote is the whole rest of the string. -/
theorem name_quote_isPrefix (escapes : Escapes esc) (plain : Plain esc name) {s : ByteString} :
    name ++ 0x22 :: tail <+: s.flatMap esc ++ 0x22 :: rest ↔ s = name ∧ tail <+: rest := by
  induction name generalizing s with
  | nil =>
      cases s with
      | nil => simp [List.cons_prefix_cons]
      | cons d s =>
          have hhead : ¬ (0x22 :: tail <+: esc d ++ s.flatMap esc ++ 0x22 :: rest) := by
            by_cases hd : d = 0x22
            · rw [hd, escapes.quote]
              simp [List.cons_prefix_cons]
            · rcases escapes.other d hd with ⟨h, -⟩ | ⟨code, h, -⟩
              · rw [h]
                simpa [List.cons_prefix_cons] using fun heq => absurd heq.symm hd
              · rw [h]
                simp [List.cons_prefix_cons]
          rw [List.flatMap_cons, List.nil_append]
          exact ⟨fun h => absurd h hhead, fun h => absurd h.1 (by simp)⟩
  | cons c name ih =>
      obtain ⟨hc, hquote, hslash⟩ := plain c List.mem_cons_self
      have hplain : Plain esc name := fun d hd => plain d (List.mem_cons_of_mem c hd)
      cases s with
      | nil =>
          simp only [List.flatMap_nil, List.nil_append, List.cons_append, List.cons_prefix_cons]
          exact ⟨fun h => absurd h.1 hquote, fun h => absurd h.1 (by simp)⟩
      | cons d s =>
          rw [List.flatMap_cons, List.cons_append]
          by_cases hdc : d = c
          · rw [hdc, hc, List.append_assoc, List.singleton_append, List.cons_prefix_cons,
              ih hplain, List.cons.injEq]
            simp
          · have hhead : ¬ (c :: (name ++ 0x22 :: tail) <+:
                esc d ++ s.flatMap esc ++ 0x22 :: rest) := by
              by_cases hd : d = 0x22
              · rw [hd, escapes.quote]
                simpa [List.cons_prefix_cons] using fun heq => absurd heq hslash
              · rcases escapes.other d hd with ⟨h, -⟩ | ⟨code, h, -⟩
                · rw [h]
                  simpa [List.cons_prefix_cons] using fun heq => absurd heq.symm hdc
                · rw [h]
                  simpa [List.cons_prefix_cons] using fun heq => absurd heq hslash
            constructor
            · intro h
              exact absurd h hhead
            · rintro ⟨h, -⟩
              exact absurd (List.cons.inj h).1 hdc

/-- The name at a quote inside a string, or at the one that opens it. -/
theorem afterFind_quote (escapes : Escapes esc) (plain : Plain esc name) (s : ByteString) :
    afterFind (0x22 :: (s.flatMap esc ++ 0x22 :: rest)) (0x22 :: (name ++ 0x22 :: tail)) =
      if s = name ∧ tail <+: rest then some (rest.drop tail.length)
      else afterFind (s.flatMap esc ++ 0x22 :: rest) (0x22 :: (name ++ 0x22 :: tail)) := by
  have hpre : 0x22 :: (name ++ 0x22 :: tail) <+: 0x22 :: (s.flatMap esc ++ 0x22 :: rest) ↔
      s = name ∧ tail <+: rest := by
    rw [List.cons_prefix_cons, name_quote_isPrefix escapes plain]
    simp
  split
  · next h =>
      have hname : name.flatMap esc = name := by
        clear h hpre
        induction name with
        | nil => rfl
        | cons c name ih =>
            rw [List.flatMap_cons, (plain c List.mem_cons_self).1,
              ih fun d hd => plain d (List.mem_cons_of_mem c hd)]
            rfl
      rw [afterFind_of_isPrefix (hpre.mpr h), h.1, hname]
      congr 1
      have hlength : (0x22 :: (name ++ 0x22 :: tail)).length =
          (0x22 :: name ++ [0x22]).length + tail.length := by
        simp only [List.length_cons, List.length_append, List.length_nil]
        omega
      have htext : 0x22 :: (name ++ 0x22 :: rest) = (0x22 :: name ++ [0x22]) ++ rest := by
        simp
      rw [hlength, htext, ← List.drop_drop, List.drop_left]
  · next h => exact afterFind_cons fun hlong => h (hpre.mp hlong)

/-- The rest of a string, and what follows it. -/
theorem afterFind_chars (escapes : Escapes esc) (plain : Plain esc name)
    (apart : ¬ name ++ 0x22 :: tail <+: rest) (s : ByteString) :
    afterFind (s.flatMap esc ++ 0x22 :: rest) (0x22 :: (name ++ 0x22 :: tail)) =
      if 0x22 :: name <:+ s ∧ tail <+: rest then some (rest.drop tail.length)
      else afterFind rest (0x22 :: (name ++ 0x22 :: tail)) := by
  induction s with
  | nil =>
      rw [if_neg (by simp), List.flatMap_nil, List.nil_append]
      apply afterFind_cons
      rw [List.cons_prefix_cons]
      exact fun h => apart h.2
  | cons d s ih =>
      rw [List.flatMap_cons, List.append_assoc]
      by_cases hd : d = 0x22
      · rw [hd, escapes.quote]
        change afterFind (0x5c :: 0x22 :: (s.flatMap esc ++ 0x22 :: rest)) _ = _
        rw [afterFind_cons_of_ne (by decide), afterFind_quote escapes plain, ih]
        have hsuffix : 0x22 :: name <:+ 0x22 :: s ↔ s = name ∨ 0x22 :: name <:+ s := by
          rw [List.suffix_cons_iff, List.cons.injEq]
          simp [eq_comm]
        simp only [hsuffix]
        by_cases hname : s = name
        · simp only [hname, true_and, true_or]
          split
          · rfl
          · next h => rw [if_neg fun hboth => h hboth.2]
        · simp only [hname, false_and, if_false, false_or]
      · have hsuffix : 0x22 :: name <:+ d :: s ↔ 0x22 :: name <:+ s := by
          rw [List.suffix_cons_iff, List.cons.injEq]
          exact ⟨fun h => h.resolve_left fun heq => hd heq.1.symm, .inr⟩
        simp only [hsuffix]
        rw [← ih]
        apply afterFind_append
        rcases escapes.other d hd with ⟨h, -⟩ | ⟨code, h, hcode⟩
        · rw [h]
          simpa using fun heq : (0x22 : UInt8) = d => hd heq.symm
        · rw [h]
          simpa using hcode

/-- A string between its quotes, and what follows it. -/
theorem afterFind_string (escapes : Escapes esc) (plain : Plain esc name)
    (apart : ¬ name ++ 0x22 :: tail <+: rest) (s : ByteString) :
    afterFind (0x22 :: (s.flatMap esc ++ 0x22 :: rest)) (0x22 :: (name ++ 0x22 :: tail)) =
      if EndsIn name s ∧ tail <+: rest then some (rest.drop tail.length)
      else afterFind rest (0x22 :: (name ++ 0x22 :: tail)) := by
  rw [afterFind_quote escapes plain, afterFind_chars escapes plain apart]
  by_cases hname : s = name
  · have hends : EndsIn name s := .inl hname
    simp only [hname, true_and]
    split
    · next h => rw [if_pos ⟨hname ▸ hends, h⟩]
    · next h => rw [if_neg fun hboth => h hboth.2, if_neg fun hboth => h hboth.2]
  · have hends : EndsIn name s ↔ 0x22 :: name <:+ s := or_iff_right hname
    simp only [hname, false_and, if_false, hends]

end CwDb.Cpp
