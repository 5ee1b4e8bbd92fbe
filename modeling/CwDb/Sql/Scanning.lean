/-
  Sql/Scanning.lean --- the scanner as an automaton, and what it does to a character that
  starts no token.

  `Mode` is what the scanner remembers between two bytes.  `tokenize_eq_run` says that
  `Lexer::tokenize` is the automaton; a text then acts on the rest of the input by the
  mode it ends in, and two texts that end in one mode are read on alike.
-/
import CwDb.Sql.Lexer
import Mathlib.Data.List.TakeWhile

set_option autoImplicit false

namespace CwDb.Sql

open CwDb.Cpp

/-- The type and the value of a token. -/
abbrev Lexeme : Type := TokenType × ByteString

/-- What the scanner remembers between two bytes. -/
inductive Mode where
  | between
  | word (w : ByteString)
  | number (n : ByteString)
  | string (quote : UInt8) (str : ByteString)
  | escape (quote : UInt8) (str : ByteString)
  /-- After `=`, `<` or `>`, which a `=` may follow. -/
  | operator (c : UInt8)
  | bang
  /-- After a byte that starts no token. -/
  | skipping
  deriving DecidableEq, Repr, Inhabited

/-- The token of a byte that is a token by itself. -/
def singleToken (c : UInt8) : Option TokenType :=
  if c == 0x2c then some .comma
  else if c == 0x3b then some .semicolon
  else if c == 0x28 then some .lparen
  else if c == 0x29 then some .rparen
  else if c == 0x2a then some .star
  else if c == 0x2e then some .dot
  else if c == 0x60 then some .backtick
  else none

/-- The token of `=`, `<` or `>`. -/
def shortOperator (c : UInt8) : TokenType :=
  if c == 0x3d then .opAssign else if c == 0x3c then .opLt else .opGt

/-- The token of `=`, `<` or `>` with a `=` after it. -/
def longOperator (c : UInt8) : TokenType :=
  if c == 0x3d then .opEq else if c == 0x3c then .opLte else .opGte

def isComparison (c : UInt8) : Bool := c == 0x3d || c == 0x3c || c == 0x3e

def isQuote (c : UInt8) : Bool := c == 0x27 || c == 0x22

namespace Mode

/-- A byte between two tokens. -/
def start (c : UInt8) : List Lexeme × Mode :=
  if isSpace c then ([], between)
  else if isAlpha c || c == 0x5f then ([], word [c])
  else if isDigit c then ([], number [c])
  else if isQuote c then ([], string c [])
  else if isComparison c then ([], operator c)
  else if c == 0x21 then ([], bang)
  else
    match singleToken c with
    | some type => ([(type, [c])], between)
    | none => ([], skipping)

/-- The tokens that a byte completes, and the mode after it. -/
def next : Mode → UInt8 → List Lexeme × Mode
  | between, c => start c
  | word w, c =>
      if isWordByte c then ([], word (w ++ [c]))
      else ((toKeyword w, w) :: (start c).1, (start c).2)
  | number n, c =>
      if isDigit c then ([], number (n ++ [c]))
      else ((.intLiteral, n) :: (start c).1, (start c).2)
  | string quote str, c =>
      if c == quote then ([(.strLiteral, str)], between)
      else if c == 0x5c then ([], escape quote str)
      else ([], string quote (str ++ [c]))
  | escape quote str, c => ([], string quote (str ++ unescape c))
  | operator o, c =>
      if c == 0x3d then ([(longOperator o, [o, c])], between)
      else ((shortOperator o, [o]) :: (start c).1, (start c).2)
  | bang, c => if c == 0x3d then ([(.opNeq, [0x21, c])], between) else ([], between)
  | skipping, _ => ([], between)

/-- The tokens that the end of the input completes; none inside a string literal. -/
def finish : Mode → Option (List Lexeme)
  | word w => some [(toKeyword w, w), (.end_, [])]
  | number n => some [(.intLiteral, n), (.end_, [])]
  | string _ _ => none
  | escape _ _ => none
  | operator o => some [(shortOperator o, [o]), (.end_, [])]
  | between => some [(.end_, [])]
  | bang => some [(.end_, [])]
  | skipping => some [(.end_, [])]

/-- The tokens of the rest of the input. -/
def run : Mode → ByteString → Option (List Lexeme)
  | m, [] => m.finish
  | m, c :: input => (run (m.next c).2 input).map ((m.next c).1 ++ ·)

/-- The tokens completed on the way through a text. -/
def output : Mode → ByteString → List Lexeme
  | _, [] => []
  | m, c :: input => (m.next c).1 ++ output (m.next c).2 input

/-- The mode at the end of a text. -/
def after (m : Mode) (input : ByteString) : Mode := input.foldl (fun m c => (m.next c).2) m

/-- The scanner is inside a string literal. -/
def inString : Mode → Bool
  | string _ _ => true
  | escape _ _ => true
  | _ => false

/-- The scanner passes over the next byte, whatever it is, unless it completes `!=`. -/
def passesOver : Mode → Bool
  | bang => true
  | skipping => true
  | _ => false

@[simp] theorem run_nil (m : Mode) : m.run [] = m.finish := rfl

@[simp] theorem run_cons (m : Mode) (c : UInt8) (input : ByteString) :
    m.run (c :: input) = ((m.next c).2.run input).map ((m.next c).1 ++ ·) := rfl

/-- A text acts on what follows it by its output and the mode it ends in. -/
theorem run_append (m : Mode) (u w : ByteString) :
    m.run (u ++ w) = ((m.after u).run w).map (m.output u ++ ·) := by
  induction u generalizing m with
  | nil => simp [after, output]
  | cons c u ih =>
      rw [List.cons_append, run_cons, ih, Option.map_map]
      simp only [after, List.foldl_cons, output]
      congr 1
      funext lexemes
      simp

/-- The input is read to its end unless it ends inside a string literal. -/
theorem run_isSome (m : Mode) (input : ByteString) :
    (m.run input).isSome = !(m.after input).inString := by
  induction input generalizing m with
  | nil => cases m <;> rfl
  | cons c input ih =>
      rw [run_cons, Option.isSome_map, ih]
      rfl

/-! ## Runs of one class -/

theorem run_between_space {spaces : ByteString} (h : ∀ c ∈ spaces, isSpace c = true)
    (input : ByteString) : between.run (spaces ++ input) = between.run input := by
  induction spaces with
  | nil => rfl
  | cons c spaces ih =>
      have hc := h c List.mem_cons_self
      rw [List.cons_append, run_cons, next, start, if_pos hc,
        ih fun d hd => h d (List.mem_cons_of_mem c hd)]
      simp

theorem run_word (w input : ByteString) : (word w).run input =
    (between.run (input.dropWhile isWordByte)).map
      ((toKeyword (w ++ input.takeWhile isWordByte), w ++ input.takeWhile isWordByte) :: ·) := by
  induction input generalizing w with
  | nil => simp [finish]
  | cons c input ih =>
      rw [run_cons, next]
      by_cases hc : isWordByte c = true
      · rw [if_pos hc, ih, List.dropWhile_cons_of_pos hc, List.takeWhile_cons_of_pos hc,
          Option.map_map]
        simp [Function.comp_def]
      · rw [if_neg hc, List.dropWhile_cons_of_neg hc, List.takeWhile_cons_of_neg hc, run_cons,
          Option.map_map]
        simp [Function.comp_def, next]

theorem run_number (n input : ByteString) : (number n).run input =
    (between.run (input.dropWhile isDigit)).map
      ((.intLiteral, n ++ input.takeWhile isDigit) :: ·) := by
  induction input generalizing n with
  | nil => simp [finish]
  | cons c input ih =>
      rw [run_cons, next]
      by_cases hc : isDigit c = true
      · rw [if_pos hc, ih, List.dropWhile_cons_of_pos hc, List.takeWhile_cons_of_pos hc,
          Option.map_map]
        simp [Function.comp_def]
      · rw [if_neg hc, List.dropWhile_cons_of_neg hc, List.takeWhile_cons_of_neg hc, run_cons,
          Option.map_map]
        simp [Function.comp_def, next]

end Mode

/-! ## The scanner is the automaton -/

def Token.lexeme (t : Token) : Lexeme := (t.type, t.value)

/-- Types and values of the tokens, when there are any. -/
def lexemes : Except Fault (List Token) → Option (List Lexeme)
  | .ok tokens => some (tokens.map Token.lexeme)
  | .error _ => none

theorem rest_skip (n : Nat) (s : LexerState) : (s.skip n).rest = s.rest.drop n := by
  induction n generalizing s with
  | zero => rfl
  | succ n ih =>
      rw [LexerState.skip, ih]
      unfold LexerState.advance
      cases hrest : s.rest <;> simp [hrest]

theorem rest_skip_takeWhile (p : UInt8 → Bool) (s : LexerState) :
    (s.skip (s.rest.takeWhile p).length).rest = s.rest.dropWhile p := by
  rw [rest_skip]
  induction s.rest with
  | nil => rfl
  | cons c input ih =>
      by_cases hc : p c = true
      · simpa [hc] using ih
      · simp [hc]

/-- The contents of a string literal. -/
theorem run_string {quote : UInt8} : ∀ {fuel : Nat} {s closing : LexerState}
    {str contents : ByteString}, s.rest.length ≤ fuel →
      readStringLoop quote fuel s str = (contents, closing) →
      (Mode.string quote str).run s.rest =
        if closing.isEnd then none
        else (Mode.between.run closing.advance.2.rest).map ((.strLiteral, contents) :: ·) := by
  intro fuel
  induction fuel with
  | zero =>
      intro s closing str contents hfuel hloop
      have hrest : s.rest = [] := List.length_eq_zero_iff.mp (Nat.le_zero.mp hfuel)
      obtain ⟨rfl, rfl⟩ := Prod.mk.inj hloop
      simp [LexerState.isEnd, hrest, Mode.finish]
  | succ fuel ih =>
      intro s closing str contents hfuel hloop
      cases hrest : s.rest with
      | nil =>
          have hend : s.isEnd = true := by simp [LexerState.isEnd, hrest]
          rw [readStringLoop, hend, Bool.true_or, if_pos rfl] at hloop
          obtain ⟨rfl, rfl⟩ := Prod.mk.inj hloop
          simp [hend, Mode.finish]
      | cons c input =>
          rw [hrest, List.length_cons] at hfuel
          have hadvance : s.advance = (c, ⟨input, if c == 0x0a then s.line + 1 else s.line⟩) := by
            simp [LexerState.advance, hrest]
          have hpeek : s.peek = c := by simp [LexerState.peek, hrest]
          have hend : s.isEnd = false := by simp [LexerState.isEnd, hrest]
          rw [readStringLoop] at hloop
          simp only [hend, Bool.false_or, hpeek, hadvance] at hloop
          rw [Mode.run_cons, Mode.next]
          by_cases hquote : (c == quote) = true
          · rw [if_pos hquote] at hloop ⊢
            obtain ⟨rfl, rfl⟩ := Prod.mk.inj hloop
            simp [hend, hadvance]
          · rw [if_neg hquote] at hloop ⊢
            by_cases hslash : (c == 0x5c) = true
            · rw [if_pos hslash] at hloop ⊢
              cases input with
              | nil =>
                  -- A backslash ends the input: the loop stops there, inside the literal.
                  rw [if_pos (by rfl)] at hloop
                  have hclosing : closing.isEnd = true := by
                    cases fuel <;> obtain ⟨-, rfl⟩ := Prod.mk.inj hloop <;> rfl
                  simp [hclosing, Mode.finish]
              | cons d input =>
                  rw [if_neg (by simp [LexerState.isEnd])] at hloop
                  have hrec := ih (by
                    simp only [LexerState.advance, List.length_cons] at hfuel ⊢
                    omega) hloop
                  simp only [LexerState.advance] at hrec
                  simp only [Mode.run_cons, Mode.next, List.nil_append, Option.map_id']
                  exact hrec
            · rw [if_neg hslash] at hloop ⊢
              have hrec := ih (by simpa using hfuel) hloop
              simp only [List.nil_append, Option.map_id']
              exact hrec

theorem run_operator (o : UInt8) (input : ByteString) : (Mode.operator o).run input =
    if input.head? = some 0x3d then
      (Mode.between.run input.tail).map ((longOperator o, [o, 0x3d]) :: ·)
    else (Mode.between.run input).map ((shortOperator o, [o]) :: ·) := by
  cases input with
  | nil => rfl
  | cons c input =>
      rw [Mode.run_cons, Mode.next]
      by_cases hc : c = 0x3d
      · subst hc
        simp
      · simp [hc, Mode.next, Function.comp_def]

theorem run_bang (input : ByteString) : Mode.bang.run input =
    if input.head? = some 0x3d then
      (Mode.between.run input.tail).map ((.opNeq, [0x21, 0x3d]) :: ·)
    else Mode.between.run input.tail := by
  cases input with
  | nil => rfl
  | cons c input =>
      rw [Mode.run_cons, Mode.next]
      by_cases hc : c = 0x3d
      · subst hc
        simp
      · simp [hc]

theorem run_skipping (input : ByteString) :
    Mode.skipping.run input = Mode.between.run input.tail := by
  cases input <;> simp [Mode.next, Mode.finish]

theorem singleToken_ne_end {c : UInt8} {type : TokenType} (h : singleToken c = some type) :
    type ≠ .end_ := by
  rintro rfl
  unfold singleToken at h
  split_ifs at h <;> cases h

/-- The end of `readOperator`. -/
theorem readOperator_single (c : UInt8) (line : Nat) (after : LexerState) :
    (if c == 0x2c then ((⟨.comma, [c], line⟩ : Token), after)
      else if c == 0x3b then (⟨.semicolon, [c], line⟩, after)
      else if c == 0x28 then (⟨.lparen, [c], line⟩, after)
      else if c == 0x29 then (⟨.rparen, [c], line⟩, after)
      else if c == 0x2a then (⟨.star, [c], line⟩, after)
      else if c == 0x2e then (⟨.dot, [c], line⟩, after)
      else if c == 0x60 then (⟨.backtick, [c], line⟩, after)
      else (⟨.end_, [], line⟩, after)) =
      match singleToken c with
      | some type => (⟨type, [c], line⟩, after)
      | none => (⟨.end_, [], line⟩, after) := by
  unfold singleToken
  split_ifs <;> rfl

/-- `readOperator` on a byte that begins nothing else. -/
theorem run_readOperator {s : LexerState} {c : UInt8} {input : ByteString}
    (hrest : s.rest = c :: input) (hspace : isSpace c = false)
    (hword : (isAlpha c || c == 0x5f) = false) (hdigit : isDigit c = false)
    (hquote : isQuote c = false) : Mode.between.run (c :: input) =
      if (readOperator s).1.type ≠ .end_ then
        (Mode.between.run (readOperator s).2.rest).map ((readOperator s).1.lexeme :: ·)
      else Mode.between.run (readOperator s).2.advance.2.rest := by
  have hadvance : s.advance = (c, ⟨input, if c == 0x0a then s.line + 1 else s.line⟩) := by
    simp [LexerState.advance, hrest]
  have htail : ∀ (rest : ByteString) (line : Nat),
      (LexerState.mk rest line).advance.2.rest = rest.tail := by
    intro rest line
    cases rest <;> rfl
  have hfollowed : ∀ (rest : ByteString) (line : Nat), (!(LexerState.mk rest line).isEnd &&
      (LexerState.mk rest line).peek == 0x3d) = decide (rest.head? = some 0x3d) := by
    intro rest line
    cases rest <;> simp [LexerState.isEnd, LexerState.peek, Bool.beq_eq_decide_eq]
  have hstart : Mode.start c = if isComparison c then ([], .operator c)
      else if c == 0x21 then ([], .bang)
      else match singleToken c with
        | some type => ([(type, [c])], .between)
        | none => ([], .skipping) := by
    rw [Mode.start, hspace, hword, hdigit, hquote]
    rfl
  rw [Mode.run_cons, Mode.next, hstart]
  unfold readOperator
  simp only [hadvance, hfollowed]
  by_cases hcmp : isComparison c = true
  · rw [if_pos hcmp]
    simp only [List.nil_append, Option.map_id']
    rw [run_operator]
    simp only [isComparison, Bool.or_eq_true, beq_iff_eq] at hcmp
    by_cases heq : input.head? = some 0x3d
    · rcases hcmp with (rfl | rfl) | rfl <;>
        simp [heq, htail, Token.lexeme, longOperator]
    · rcases hcmp with (rfl | rfl) | rfl <;>
        simp [heq, Token.lexeme, shortOperator]
  · rw [if_neg hcmp]
    simp only [isComparison, Bool.or_eq_true, beq_iff_eq, not_or] at hcmp
    obtain ⟨⟨h1, h2⟩, h3⟩ := hcmp
    by_cases hbang : c = 0x21
    · subst hbang
      simp only [beq_self_eq_true, if_true, List.nil_append, Option.map_id']
      rw [run_bang]
      by_cases heq : input.head? = some 0x3d <;> simp [heq, htail, Token.lexeme]
    · simp only [beq_iff_eq, h1, h2, h3, hbang, if_false]
      have hsingle := readOperator_single c s.line ⟨input, if c = 0x0a then s.line + 1 else s.line⟩
      simp only [beq_iff_eq] at hsingle
      rw [hsingle]
      cases htype : singleToken c with
      | none => simp [run_skipping, htail]
      | some type => simp [singleToken_ne_end htype, Token.lexeme]

theorem rest_advance_le (s : LexerState) : s.advance.2.rest.length ≤ s.rest.length := by
  unfold LexerState.advance
  cases hrest : s.rest <;> simp [hrest]

theorem rest_readOperator_lt (s : LexerState) (h : s.rest ≠ []) :
    (readOperator s).2.rest.length < s.rest.length := by
  have hadvance : s.advance.2.rest.length < s.rest.length := by
    unfold LexerState.advance
    cases hrest : s.rest with
    | nil => exact absurd hrest h
    | cons c input => simp
  have hagain := lt_of_le_of_lt (rest_advance_le s.advance.2) hadvance
  have hite : ∀ {p : Prop} [Decidable p] {a b : Token × LexerState},
      a.2.rest.length < s.rest.length → b.2.rest.length < s.rest.length →
        (if p then a else b).2.rest.length < s.rest.length := by
    intro p _ a b ha hb
    split
    · exact ha
    · exact hb
  unfold readOperator
  dsimp only
  repeat' first | exact hadvance | exact hagain | apply hite

theorem rest_readStringLoop {quote : UInt8} : ∀ {fuel : Nat} {s closing : LexerState}
    {str contents : ByteString}, readStringLoop quote fuel s str = (contents, closing) →
      closing.rest.length ≤ s.rest.length := by
  intro fuel
  induction fuel with
  | zero =>
      intro s closing str contents hloop
      obtain ⟨-, rfl⟩ := Prod.mk.inj hloop
      exact le_refl _
  | succ fuel ih =>
      intro s closing str contents hloop
      have honce := rest_advance_le s
      have htwice := rest_advance_le s.advance.2
      rw [readStringLoop] at hloop
      dsimp only at hloop
      split_ifs at hloop
      · obtain ⟨-, rfl⟩ := Prod.mk.inj hloop
        exact le_refl _
      · exact (ih hloop).trans honce
      · exact (ih hloop).trans (htwice.trans honce)
      · exact (ih hloop).trans honce

/-- The loop of `tokenize` is the automaton. -/
theorem tokenizeLoop_eq_run : ∀ {fuel : Nat} {s : LexerState} {tokens : List Token},
    s.rest.length < fuel → lexemes (tokenizeLoop fuel s tokens) =
      (Mode.between.run s.rest).map (tokens.map Token.lexeme ++ ·) := by
  intro fuel
  induction fuel with
  | zero => intro s tokens hfuel; omega
  | succ fuel ih =>
    intro s tokens hfuel
    have hspaces : Mode.between.run (skipWhitespace s).rest = Mode.between.run s.rest := by
      have hall : ∀ c ∈ s.rest.takeWhile isSpace, isSpace c = true :=
        fun c hc => List.mem_takeWhile_imp hc
      have := Mode.run_between_space hall (s.rest.dropWhile isSpace)
      rw [List.takeWhile_append_dropWhile] at this
      rw [this, skipWhitespace, rest_skip_takeWhile]
    have hshorter : (skipWhitespace s).rest.length ≤ s.rest.length := by
      rw [skipWhitespace, rest_skip, List.length_drop]
      omega
    rw [tokenizeLoop]
    by_cases hend : s.isEnd = true
    · have hnil : s.rest = [] := List.isEmpty_iff.mp hend
      simp [hend, hnil, lexemes, Token.lexeme, Mode.finish]
    · rw [if_neg hend, ← hspaces]
      have hfirst : ∀ c, (skipWhitespace s).rest.head? = some c → isSpace c = false := by
        intro c hc
        rw [skipWhitespace, rest_skip_takeWhile] at hc
        have := List.head?_dropWhile_not isSpace s.rest
        rw [hc] at this
        simpa using this
      generalize skipWhitespace s = t at hshorter hfirst ⊢
      cases hrest : t.rest with
      | nil =>
          have : t.isEnd = true := by simp [LexerState.isEnd, hrest]
          simp [this, lexemes, Token.lexeme, Mode.finish]
      | cons c input =>
          have hspace := hfirst c (by simp [hrest])
          have hpeek : t.peek = c := by simp [LexerState.peek, hrest]
          have hnonempty : t.isEnd = false := by simp [LexerState.isEnd, hrest]
          rw [hrest, List.length_cons] at hshorter
          simp only [hnonempty, hpeek, Bool.false_eq_true, if_false]
          by_cases hword : (isAlpha c || c == 0x5f) = true
          · have hbyte : isWordByte c = true := by
              simp only [isWordByte, isAlnum, Bool.or_eq_true] at hword ⊢
              tauto
            have hlexer : t.rest.takeWhile isWordByte = c :: input.takeWhile isWordByte := by
              rw [hrest, List.takeWhile_cons_of_pos hbyte]
            have hafter : (readWord t).2.rest = input.dropWhile isWordByte := by
              rw [readWord, rest_skip_takeWhile, hrest, List.dropWhile_cons_of_pos hbyte]
            have hless := List.length_dropWhile_le isWordByte input
            rw [if_pos hword, ih (by rw [hafter]; omega), hafter, Mode.run_cons, Mode.next,
              Mode.start, if_neg (by simp [hspace]), if_pos hword, Mode.run_word]
            simp [readWord, hlexer, Token.lexeme, Function.comp_def]
          · rw [if_neg hword]
            by_cases hdigit : isDigit c = true
            · have hlexer : t.rest.takeWhile isDigit = c :: input.takeWhile isDigit := by
                rw [hrest, List.takeWhile_cons_of_pos hdigit]
              have hafter : (readNumber t).2.rest = input.dropWhile isDigit := by
                rw [readNumber, rest_skip_takeWhile, hrest, List.dropWhile_cons_of_pos hdigit]
              have hless := List.length_dropWhile_le isDigit input
              rw [if_pos hdigit, ih (by rw [hafter]; omega), hafter, Mode.run_cons, Mode.next,
                Mode.start, if_neg (by simp [hspace]), if_neg hword, if_pos hdigit,
                Mode.run_number]
              simp [readNumber, hlexer, Token.lexeme, Function.comp_def]
            · rw [if_neg hdigit]
              by_cases hquote : isQuote c = true
              · have hquotes : (c == 0x27 || c == 0x22) = true := hquote
                have hadvance : t.advance =
                    (c, ⟨input, if c == 0x0a then t.line + 1 else t.line⟩) := by
                  simp [LexerState.advance, hrest]
                rw [if_pos hquotes, Mode.run_cons, Mode.next, Mode.start,
                  if_neg (by simp [hspace]), if_neg hword, if_neg hdigit, if_pos hquote, readString]
                simp only [hadvance, List.nil_append, Option.map_id']
                obtain ⟨⟨contents, closing⟩, hloop⟩ : ∃ r, readStringLoop c input.length
                    ⟨input, if c == 0x0a then t.line + 1 else t.line⟩ [] = r := ⟨_, rfl⟩
                rw [hloop]
                have hstring := run_string (s := ⟨input, _⟩) (le_refl input.length) hloop
                have hclosing := rest_readStringLoop hloop
                dsimp only at hstring hclosing ⊢
                rw [hstring]
                by_cases hunclosed : closing.isEnd = true
                · simp [hunclosed, raise, lexemes]
                · simp only [hunclosed, Bool.false_eq_true, if_false]
                  have hrec := @ih closing.advance.2
                    (tokens ++ [⟨.strLiteral, contents, t.line⟩])
                    (lt_of_le_of_lt (le_trans (rest_advance_le closing) hclosing) (by omega))
                  rw [hrec]
                  simp [Token.lexeme, Function.comp_def]
              · have hquotes : ¬(c == 0x27 || c == 0x22) = true := hquote
                rw [if_neg hquotes, run_readOperator hrest hspace (by simpa using hword)
                  (by simpa using hdigit) (by simpa using hquote)]
                have hless := rest_readOperator_lt t (by simp [hrest])
                rw [hrest, List.length_cons] at hless
                by_cases htoken : (readOperator t).1.type ≠ .end_
                · rw [if_pos htoken, if_pos htoken, ih (by omega)]
                  simp [Function.comp_def]
                · have hless' := rest_advance_le (readOperator t).2
                  rw [if_neg htoken, if_neg htoken, ih (by omega)]

/-- `Lexer::tokenize` is the automaton. -/
theorem tokenize_eq_run (input : ByteString) :
    lexemes (tokenize input) = Mode.between.run input := by
  rw [tokenize, tokenizeLoop_eq_run (Nat.lt_succ_self input.length)]
  simp

end CwDb.Sql
