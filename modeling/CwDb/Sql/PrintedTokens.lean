/-
  Sql/PrintedTokens.lean --- what the scanner makes of a list of tokens printed one behind
  another with a space between them.

  Every reader stops at the space: no word, number or operator goes on into one, and a string
  ends at its quote, since a quote inside it stands behind a backslash.
-/
import CwDb.Sql.Lexer
import Mathlib.Data.List.Forall2

set_option autoImplicit false

namespace CwDb.Sql

open CwDb.Cpp

/-! ## The type of a word -/

/-- The words of the dialect that have a type of their own, written in capitals. -/
def spellings : TokenType → List ByteString
  | .kwSelect => [text "SELECT"]
  | .kwFrom => [text "FROM"]
  | .kwWhere => [text "WHERE"]
  | .kwAs => [text "AS"]
  | .kwInsert => [text "INSERT"]
  | .kwInto => [text "INTO"]
  | .kwValue => [text "VALUE", text "VALUES"]
  | .kwUpdate => [text "UPDATE"]
  | .kwSet => [text "SET"]
  | .kwDelete => [text "DELETE"]
  | .kwCreate => [text "CREATE"]
  | .kwDrop => [text "DROP"]
  | .kwUse => [text "USE"]
  | .kwDatabase => [text "DATABASE"]
  | .kwTable => [text "TABLE"]
  | .kwNotNull => [text "NOT_NULL"]
  | .kwIndexed => [text "INDEXED"]
  | .kwDefault => [text "DEFAULT"]
  | .kwBetween => [text "BETWEEN"]
  | .kwAnd => [text "AND"]
  | .kwLike => [text "LIKE"]
  | .kwOr => [text "OR"]
  | .kwNull => [text "NULL"]
  | .kwSum => [text "SUM"]
  | .kwCount => [text "COUNT"]
  | .kwAvg => [text "AVG"]
  | _ => []

/-- The same byte, or the same letter in the other case. -/
def SameLetter (c d : UInt8) : Prop :=
  c = d ∨ (0x41 ≤ c ∧ c ≤ 0x5a ∧ d = c + 0x20) ∨ (0x41 ≤ d ∧ d ≤ 0x5a ∧ c = d + 0x20)

/-- Two words that differ in case only. -/
def EqualIgnoringCase (u w : ByteString) : Prop := List.Forall₂ SameLetter u w

/-- A word has the type of the keyword that it equals but for its case, or is an identifier. -/
def HasType (w : ByteString) (type : TokenType) : Prop :=
  (∃ s ∈ spellings type, EqualIgnoringCase s w) ∨
    type = .identifier ∧ ∀ keyword, ∀ s ∈ spellings keyword, ¬ EqualIgnoringCase s w

theorem sameLetter_iff {c d : UInt8} : SameLetter c d ↔ toUpper c = toUpper d := by
  unfold SameLetter toUpper
  grind

theorem equalIgnoringCase_iff {u w : ByteString} :
    EqualIgnoringCase u w ↔ u.map toUpper = w.map toUpper := by
  induction u generalizing w with
  | nil =>
      cases w with
      | nil => exact iff_of_true .nil rfl
      | cons d w => exact iff_of_false (fun h => by cases h) (fun h => by cases h)
  | cons c u ih =>
      cases w with
      | nil => exact iff_of_false (fun h => by cases h) (fun h => by cases h)
      | cons d w =>
          rw [List.map_cons, List.map_cons, List.cons.injEq, ← sameLetter_iff, ← ih]
          exact List.forall₂_cons

/-- The table of the scanner lists every spelling with its type. -/
theorem lookup_of_mem_spellings {type : TokenType} {s : ByteString} (h : s ∈ spellings type) :
    s.map toUpper = s ∧ keywords.lookup s = some type := by
  have hall : ∀ s ∈ spellings type, s.map toUpper = s ∧ keywords.lookup s = some type := by
    cases type <;> decide
  exact hall s h

/-- And nothing else. -/
theorem mem_spellings_of_mem_keywords :
    ∀ p ∈ keywords, p.1.map toUpper = p.1 ∧ p.1 ∈ spellings p.2 := by decide

theorem toKeyword_of_spelling {type : TokenType} {s w : ByteString} (h : s ∈ spellings type)
    (equal : EqualIgnoringCase s w) : toKeyword w = type := by
  obtain ⟨hupper, hlookup⟩ := lookup_of_mem_spellings h
  unfold toKeyword
  rw [← equalIgnoringCase_iff.mp equal, hupper, hlookup]
  rfl

theorem toKeyword_of_other {w : ByteString}
    (h : ∀ keyword, ∀ s ∈ spellings keyword, ¬ EqualIgnoringCase s w) :
    toKeyword w = .identifier := by
  have hnone : keywords.lookup (w.map toUpper) = none := by
    rw [List.lookup_eq_none_iff]
    intro p hp
    obtain ⟨hupper, hmem⟩ := mem_spellings_of_mem_keywords p hp
    rw [bne_iff_ne]
    intro heq
    exact h p.2 p.1 hmem (equalIgnoringCase_iff.mpr (hupper.trans heq.symm))
  unfold toKeyword
  rw [hnone]
  rfl

/-- `toKeyword` gives every word its type. -/
theorem hasType_iff {w : ByteString} {type : TokenType} :
    HasType w type ↔ toKeyword w = type := by
  constructor
  · rintro (⟨s, hs, hequal⟩ | ⟨rfl, hother⟩)
    · exact toKeyword_of_spelling hs hequal
    · exact toKeyword_of_other hother
  · rintro rfl
    by_cases h : ∃ keyword, ∃ s ∈ spellings keyword, EqualIgnoringCase s w
    · obtain ⟨keyword, s, hs, hequal⟩ := h
      rw [toKeyword_of_spelling hs hequal]
      exact .inl ⟨s, hs, hequal⟩
    · have hother : ∀ keyword, ∀ s ∈ spellings keyword, ¬ EqualIgnoringCase s w :=
        fun keyword s hs hequal => h ⟨keyword, s, hs, hequal⟩
      exact .inr ⟨toKeyword_of_other hother, hother⟩

/-! ## Printing -/

/-- The operators and the punctuation of `TokenType`, as they are written. -/
def symbols : List (TokenType × ByteString) :=
  [(.opEq, text "=="), (.opNeq, text "!="), (.opLt, text "<"), (.opGt, text ">"),
    (.opLte, text "<="), (.opGte, text ">="), (.opAssign, text "="), (.comma, text ","),
    (.semicolon, text ";"), (.lparen, text "("), (.rparen, text ")"), (.star, text "*"),
    (.dot, text "."), (.backtick, [0x60])]

/-- A token that can be printed. -/
inductive Printable where
  /-- `[A-Za-z_][A-Za-z0-9_]*`, with its type. -/
  | word (type : TokenType) (c : UInt8) (rest : ByteString)
      (first : (isAlpha c || c == 0x5f) = true)
      (more : ∀ d ∈ rest, (isAlnum d || d == 0x5f) = true) (typed : HasType (c :: rest) type)
  | number (c : UInt8) (rest : ByteString) (digits : ∀ d ∈ c :: rest, isDigit d = true)
  | string (quote : UInt8) (contents : ByteString) (either : quote = 0x27 ∨ quote = 0x22)
  | symbol (type : TokenType) (spelling : ByteString) (listed : (type, spelling) ∈ symbols)

/-- A byte of a string literal. -/
def quoteByte (quote c : UInt8) : ByteString :=
  if c = 0x5c ∨ c = quote then [0x5c, c] else [c]

namespace Printable

def print : Printable → ByteString
  | word _ c rest _ _ _ => c :: rest
  | number c rest _ => c :: rest
  | string quote contents _ => quote :: (contents.flatMap (quoteByte quote) ++ [quote])
  | symbol _ spelling _ => spelling

def type : Printable → TokenType
  | word type _ _ _ _ _ => type
  | number _ _ _ => .intLiteral
  | string _ _ _ => .strLiteral
  | symbol type _ _ => type

def value : Printable → ByteString
  | word _ c rest _ _ _ => c :: rest
  | number c rest _ => c :: rest
  | string _ contents _ => contents
  | symbol _ spelling _ => spelling

/-- The line ends inside a string literal. -/
def lineEnds (t : Printable) : Nat := t.value.count 0x0a

end Printable

/-- The tokens with a space between them. -/
def printAll : List Printable → ByteString
  | [] => []
  | [t] => t.print
  | t :: ts => t.print ++ 0x20 :: printAll ts

/-- The tokens as the scanner is to return them, the first one on `line`. -/
def tokensFrom : (line : Nat) → List Printable → List Token
  | line, [] => [⟨.end_, [], line⟩]
  | line, t :: ts => ⟨t.type, t.value, line⟩ :: tokensFrom (line + t.lineEnds) ts

/-! ## Moving on -/

theorem skip_append (u r : ByteString) (line : Nat) :
    LexerState.skip u.length ⟨u ++ r, line⟩ = ⟨r, line + u.count 0x0a⟩ := by
  induction u generalizing line with
  | nil => rfl
  | cons c u ih =>
      change LexerState.skip u.length ⟨u ++ r, if c == 0x0a then line + 1 else line⟩ = _
      rw [ih, List.count_cons]
      split
      · rw [Nat.add_assoc, Nat.add_comm 1]
      · rfl

/-- What follows a token. -/
def Apart (r : ByteString) : Prop := r = [] ∨ ∃ more, r = 0x20 :: more

theorem takeWhile_apart {p : UInt8 → Bool} {u r : ByteString} (all : ∀ c ∈ u, p c = true)
    (space : p 0x20 = false) (apart : Apart r) : (u ++ r).takeWhile p = u := by
  rw [List.takeWhile_append_of_pos all]
  rcases apart with rfl | ⟨more, rfl⟩
  · rw [List.takeWhile_nil, List.append_nil]
  · rw [List.takeWhile_cons_of_neg (by simp [space]), List.append_nil]

/-- The blank in front of a token. -/
def IsBlank (blank : ByteString) : Prop := blank = [] ∨ blank = [0x20]

theorem skipWhitespace_blank {blank rest : ByteString} {c : UInt8} {line : Nat}
    (hblank : IsBlank blank) (hc : isSpace c = false) :
    skipWhitespace ⟨blank ++ c :: rest, line⟩ = ⟨c :: rest, line⟩ := by
  have hstop : (c :: rest).takeWhile isSpace = [] :=
    List.takeWhile_cons_of_neg (by simp [hc])
  rcases hblank with rfl | rfl
  · unfold skipWhitespace
    dsimp only [List.nil_append]
    rw [hstop]
    rfl
  · have htake : ([0x20] ++ c :: rest).takeWhile isSpace = [0x20] := by
      change 0x20 :: (c :: rest).takeWhile isSpace = _
      rw [hstop]
    unfold skipWhitespace
    dsimp only
    rw [htake]
    rfl

/-! ## One token -/

theorem readStringLoop_plain {quote c : UInt8} (hquote : c ≠ quote) (hslash : c ≠ 0x5c)
    (fuel line : Nat) (rest str : ByteString) :
    readStringLoop quote (fuel + 1) ⟨c :: rest, line⟩ str =
      readStringLoop quote fuel ⟨rest, if c == 0x0a then line + 1 else line⟩ (str ++ [c]) := by
  have hopen : ((⟨c :: rest, line⟩ : LexerState).isEnd || c == quote) = false := by
    simp [LexerState.isEnd, hquote]
  conv => lhs; unfold readStringLoop
  change (if ((⟨c :: rest, line⟩ : LexerState).isEnd || c == quote) = true then _ else
    if (c == 0x5c) = true then _ else _) = _
  rw [hopen, if_neg Bool.false_ne_true, if_neg (by simpa using hslash)]
  rfl

theorem readStringLoop_escape {quote : UInt8} (hquote : (0x5c : UInt8) ≠ quote) (c : UInt8)
    (fuel line : Nat) (rest str : ByteString) :
    readStringLoop quote (fuel + 1) ⟨0x5c :: c :: rest, line⟩ str =
      readStringLoop quote fuel ⟨rest, if c == 0x0a then line + 1 else line⟩
        (str ++ unescape c) := by
  have hopen : ((⟨0x5c :: c :: rest, line⟩ : LexerState).isEnd || 0x5c == quote) = false := by
    simp [LexerState.isEnd, hquote]
  conv => lhs; unfold readStringLoop
  change (if ((⟨0x5c :: c :: rest, line⟩ : LexerState).isEnd || 0x5c == quote) = true then _ else
    readStringLoop quote fuel ⟨rest, if c == 0x0a then line + 1 else line⟩
      (str ++ unescape c)) = _
  rw [hopen, if_neg Bool.false_ne_true]

/-- The loop of `readString` on a printed string. -/
theorem readStringLoop_printed {quote : UInt8} (either : quote = 0x27 ∨ quote = 0x22)
    (contents r : ByteString) {fuel : Nat} (enough : contents.length ≤ fuel) (line : Nat)
    (str : ByteString) :
    readStringLoop quote fuel ⟨contents.flatMap (quoteByte quote) ++ quote :: r, line⟩ str =
      (str ++ contents, ⟨quote :: r, line + contents.count 0x0a⟩) := by
  induction contents generalizing fuel line str with
  | nil =>
      rw [List.append_nil, List.flatMap_nil, List.nil_append, List.count_nil, Nat.add_zero]
      cases fuel with
      | zero => rfl
      | succ fuel =>
          unfold readStringLoop
          rw [if_pos]
          simp [LexerState.peek]
  | cons c contents ih =>
      rw [List.length_cons] at enough
      obtain ⟨fuel, rfl⟩ : ∃ less, fuel = less + 1 := ⟨fuel - 1, by omega⟩
      have hslash : (0x5c : UInt8) ≠ quote := by rcases either with rfl | rfl <;> decide
      have hcount : line + (c :: contents).count 0x0a =
          (if c == 0x0a then line + 1 else line) + contents.count 0x0a := by
        rw [List.count_cons]
        split <;> omega
      have hstr : str ++ c :: contents = str ++ [c] ++ contents := by simp
      rw [List.flatMap_cons, List.append_assoc, hcount, hstr]
      unfold quoteByte
      by_cases hc : c = 0x5c ∨ c = quote
      · have hvalue : unescape c = [c] := by
          rcases hc with rfl | rfl
          · rfl
          · rcases either with rfl | rfl <;> rfl
        rw [if_pos hc]
        change readStringLoop quote (fuel + 1)
          ⟨0x5c :: c :: (contents.flatMap (quoteByte quote) ++ quote :: r), line⟩ str = _
        rw [readStringLoop_escape hslash, hvalue]
        exact ih (by omega) _ _
      · rw [if_neg hc]
        change readStringLoop quote (fuel + 1)
          ⟨c :: (contents.flatMap (quoteByte quote) ++ quote :: r), line⟩ str = _
        rw [readStringLoop_plain (fun h => hc (.inr h)) (fun h => hc (.inl h))]
        exact ih (by omega) _ _

theorem readString_printed {quote : UInt8} (either : quote = 0x27 ∨ quote = 0x22)
    (contents r : ByteString) (line : Nat) :
    readString ⟨quote :: (contents.flatMap (quoteByte quote) ++ quote :: r), line⟩ =
      .ok (⟨.strLiteral, contents, line⟩, ⟨r, line + contents.count 0x0a⟩) := by
  have hadvance : ∀ rest line, (⟨quote :: rest, line⟩ : LexerState).advance =
      (quote, ⟨rest, line⟩) := by
    intro rest line
    rcases either with rfl | rfl <;> rfl
  have henough : contents.length ≤
      (contents.flatMap (quoteByte quote) ++ quote :: r).length := by
    have hlength : contents.length ≤ (contents.flatMap (quoteByte quote)).length := by
      clear hadvance
      induction contents with
      | nil => exact Nat.le_refl 0
      | cons c contents ih =>
          rw [List.flatMap_cons, List.length_append, List.length_cons]
          unfold quoteByte at ih ⊢
          split <;> simp only [List.length_cons, List.length_nil] <;> omega
    rw [List.length_append]
    omega
  unfold readString
  rw [hadvance]
  dsimp only
  rw [readStringLoop_printed either contents r henough]
  dsimp only
  rw [hadvance, List.nil_append]
  rfl

theorem readOperator_printed {type : TokenType} {spelling : ByteString}
    (listed : (type, spelling) ∈ symbols) {r : ByteString} (apart : Apart r) (line : Nat) :
    readOperator ⟨spelling ++ r, line⟩ = (⟨type, spelling, line⟩, ⟨r, line⟩) := by
  unfold symbols at listed
  simp only [List.mem_cons, Prod.mk.injEq, List.not_mem_nil, or_false] at listed
  rcases apart with rfl | ⟨more, rfl⟩ <;>
    rcases listed with ⟨rfl, rfl⟩ | ⟨rfl, rfl⟩ | ⟨rfl, rfl⟩ | ⟨rfl, rfl⟩ | ⟨rfl, rfl⟩ |
      ⟨rfl, rfl⟩ | ⟨rfl, rfl⟩ | ⟨rfl, rfl⟩ | ⟨rfl, rfl⟩ | ⟨rfl, rfl⟩ | ⟨rfl, rfl⟩ |
      ⟨rfl, rfl⟩ | ⟨rfl, rfl⟩ | ⟨rfl, rfl⟩ <;> rfl

/-- A symbol starts with a byte that starts nothing else. -/
theorem exists_cons_of_symbol {type : TokenType} {spelling : ByteString}
    (listed : (type, spelling) ∈ symbols) :
    ∃ c rest, spelling = c :: rest ∧ isSpace c = false ∧ (isAlpha c || c == 0x5f) = false ∧
      isDigit c = false ∧ (c == 0x27 || c == 0x22) = false ∧ type ≠ .end_ ∧
      spelling.count 0x0a = 0 := by
  have hall : ∀ p ∈ symbols, ∃ c rest, p.2 = c :: rest ∧ isSpace c = false ∧
      (isAlpha c || c == 0x5f) = false ∧ isDigit c = false ∧ (c == 0x27 || c == 0x22) = false ∧
      p.1 ≠ .end_ ∧ p.2.count 0x0a = 0 := by
    unfold symbols
    simp only [List.forall_mem_cons, List.not_mem_nil, false_implies, implies_true, and_true]
    refine ⟨?_, ?_, ?_, ?_, ?_, ?_, ?_, ?_, ?_, ?_, ?_, ?_, ?_, ?_⟩ <;>
      exact ⟨_, _, rfl, by decide⟩
  exact hall (type, spelling) listed

/-- One round of the loop, at the first byte of a token. -/
theorem tokenizeLoop_round {blank : ByteString} {c : UInt8} (rest : ByteString)
    (hblank : IsBlank blank) (hc : isSpace c = false) (fuel line : Nat) (tokens : List Token) :
    tokenizeLoop (fuel + 1) ⟨blank ++ c :: rest, line⟩ tokens =
      if isAlpha c || c == 0x5f then
        tokenizeLoop fuel (readWord ⟨c :: rest, line⟩).2
          (tokens ++ [(readWord ⟨c :: rest, line⟩).1])
      else if isDigit c then
        tokenizeLoop fuel (readNumber ⟨c :: rest, line⟩).2
          (tokens ++ [(readNumber ⟨c :: rest, line⟩).1])
      else if c == 0x27 || c == 0x22 then
        match readString ⟨c :: rest, line⟩ with
        | .error fault => .error fault
        | .ok (token, s) => tokenizeLoop fuel s (tokens ++ [token])
      else if (readOperator ⟨c :: rest, line⟩).1.type ≠ .end_ then
        tokenizeLoop fuel (readOperator ⟨c :: rest, line⟩).2
          (tokens ++ [(readOperator ⟨c :: rest, line⟩).1])
      else tokenizeLoop fuel (readOperator ⟨c :: rest, line⟩).2.advance.2 tokens := by
  have hfilled : (⟨blank ++ c :: rest, line⟩ : LexerState).isEnd = false := by
    simp [LexerState.isEnd]
  conv => lhs; unfold tokenizeLoop
  rw [hfilled, skipWhitespace_blank hblank hc, if_neg Bool.false_ne_true]
  rfl

theorem readWord_printed {type : TokenType} {c : UInt8} {rest r : ByteString}
    (first : (isAlpha c || c == 0x5f) = true)
    (more : ∀ d ∈ rest, (isAlnum d || d == 0x5f) = true) (typed : HasType (c :: rest) type)
    (apart : Apart r) (line : Nat) :
    readWord ⟨c :: (rest ++ r), line⟩ =
      (⟨type, c :: rest, line⟩, ⟨r, line + (c :: rest).count 0x0a⟩) := by
  have hall : ∀ d ∈ c :: rest, isWordByte d = true := by
    intro d hd
    rcases List.mem_cons.mp hd with rfl | hd
    · unfold isWordByte isAlnum
      grind
    · exact more d hd
  have htake : (c :: (rest ++ r)).takeWhile isWordByte = c :: rest :=
    takeWhile_apart (u := c :: rest) hall rfl apart
  unfold readWord
  dsimp only
  rw [htake, hasType_iff.mp typed, ← skip_append (c :: rest) r line]
  rfl

theorem readNumber_printed {c : UInt8} {rest r : ByteString}
    (digits : ∀ d ∈ c :: rest, isDigit d = true) (apart : Apart r) (line : Nat) :
    readNumber ⟨c :: (rest ++ r), line⟩ =
      (⟨.intLiteral, c :: rest, line⟩, ⟨r, line + (c :: rest).count 0x0a⟩) := by
  have htake : (c :: (rest ++ r)).takeWhile isDigit = c :: rest :=
    takeWhile_apart (u := c :: rest) digits rfl apart
  unfold readNumber
  dsimp only
  rw [htake, ← skip_append (c :: rest) r line]
  rfl

/-- One round of the loop reads one printed token. -/
theorem tokenizeLoop_printed (t : Printable) {blank r : ByteString} (hblank : IsBlank blank)
    (apart : Apart r) (fuel line : Nat) (tokens : List Token) :
    tokenizeLoop (fuel + 1) ⟨blank ++ (t.print ++ r), line⟩ tokens =
      tokenizeLoop fuel ⟨r, line + t.lineEnds⟩ (tokens ++ [⟨t.type, t.value, line⟩]) := by
  cases t with
  | word type c rest first more typed =>
      have hspace : isSpace c = false := by
        unfold isAlpha at first
        unfold isSpace
        grind
      change tokenizeLoop (fuel + 1) ⟨blank ++ c :: (rest ++ r), line⟩ tokens = _
      rw [tokenizeLoop_round _ hblank hspace, if_pos first, readWord_printed first more typed apart]
      rfl
  | number c rest digits =>
      have hdigit := digits c List.mem_cons_self
      have hspace : isSpace c = false := by
        unfold isDigit at hdigit
        unfold isSpace
        grind
      have hword : (isAlpha c || c == 0x5f) = false := by
        unfold isDigit at hdigit
        unfold isAlpha
        grind
      change tokenizeLoop (fuel + 1) ⟨blank ++ c :: (rest ++ r), line⟩ tokens = _
      rw [tokenizeLoop_round _ hblank hspace, hword, if_neg Bool.false_ne_true, if_pos hdigit,
        readNumber_printed digits apart]
      rfl
  | string quote contents either =>
      have hround := tokenizeLoop_round (c := quote)
        (contents.flatMap (quoteByte quote) ++ quote :: r) hblank
        (by rcases either with rfl | rfl <;> rfl) fuel line tokens
      have hword : (isAlpha quote || quote == 0x5f) = false := by
        rcases either with rfl | rfl <;> rfl
      have hdigit : isDigit quote = false := by rcases either with rfl | rfl <;> rfl
      have hquote : (quote == 0x27 || quote == 0x22) = true := by
        rcases either with rfl | rfl <;> rfl
      rw [hword, hdigit, hquote, if_neg Bool.false_ne_true, if_neg Bool.false_ne_true, if_pos rfl,
        readString_printed either] at hround
      have hprint : (Printable.string quote contents either).print ++ r =
          quote :: (contents.flatMap (quoteByte quote) ++ quote :: r) := by
        change quote :: (contents.flatMap (quoteByte quote) ++ [quote]) ++ r = _
        rw [List.cons_append, List.append_assoc]
        rfl
      rw [hprint, hround]
      rfl
  | symbol type spelling listed =>
      have hlines : (Printable.symbol type spelling listed).lineEnds = 0 := by
        obtain ⟨-, -, -, -, -, -, -, -, hcount⟩ := exists_cons_of_symbol listed
        exact hcount
      have hread := readOperator_printed listed apart line
      change tokenizeLoop (fuel + 1) ⟨blank ++ (spelling ++ r), line⟩ tokens = _
      obtain ⟨c, rest, rfl, hspace, hword, hdigit, hquote, htype, -⟩ :=
        exists_cons_of_symbol listed
      rw [List.cons_append] at hread ⊢
      rw [tokenizeLoop_round _ hblank hspace, hword, hdigit, hquote, if_neg Bool.false_ne_true,
        if_neg Bool.false_ne_true, if_neg Bool.false_ne_true, hread, if_pos htype, hlines]
      rfl

/-! ## All tokens -/

theorem apart_printAll (ts : List Printable) :
    ∃ r, Apart r ∧ (∀ t : Printable, printAll (t :: ts) = t.print ++ r) ∧
      (r = [] ∧ ts = [] ∨ r = 0x20 :: printAll ts ∧ ts ≠ []) := by
  cases ts with
  | nil => exact ⟨[], .inl rfl, fun t => (List.append_nil _).symm, .inl ⟨rfl, rfl⟩⟩
  | cons u ts =>
      exact ⟨0x20 :: printAll (u :: ts), .inr ⟨_, rfl⟩, fun t => rfl,
        .inr ⟨rfl, List.cons_ne_nil u ts⟩⟩

/-- The loop reads the printed tokens and the end behind them. -/
theorem tokenizeLoop_printAll (ts : List Printable) (blank : ByteString)
    (hblank : IsBlank blank) {fuel : Nat} (enough : ts.length < fuel) (line : Nat)
    (tokens : List Token) (more : ts ≠ [] ∨ blank = []) :
    tokenizeLoop fuel ⟨blank ++ printAll ts, line⟩ tokens =
      .ok (tokens ++ tokensFrom line ts) := by
  induction ts generalizing blank fuel line tokens with
  | nil =>
      obtain ⟨fuel, rfl⟩ : ∃ less, fuel = less + 1 := ⟨fuel - 1, by omega⟩
      obtain rfl := more.resolve_left (absurd rfl)
      rfl
  | cons t ts ih =>
      rw [List.length_cons] at enough
      obtain ⟨fuel, rfl⟩ : ∃ less, fuel = less + 1 := ⟨fuel - 1, by omega⟩
      obtain ⟨r, hapart, hprint, hrest⟩ := apart_printAll ts
      rw [hprint, tokenizeLoop_printed t hblank hapart]
      have hsplit : tokens ++ tokensFrom line (t :: ts) =
          tokens ++ [⟨t.type, t.value, line⟩] ++ tokensFrom (line + t.lineEnds) ts := by
        rw [List.append_assoc]
        rfl
      rw [hsplit]
      rcases hrest with ⟨rfl, rfl⟩ | ⟨rfl, hmore⟩
      · exact ih [] (.inl rfl) (by omega) _ _ (.inr rfl)
      · exact ih [0x20] (.inr rfl) (by omega) _ _ (.inl hmore)

theorem length_le_printAll (ts : List Printable) : ts.length ≤ (printAll ts).length := by
  induction ts with
  | nil => exact Nat.le_refl 0
  | cons t ts ih =>
      have hprint : 1 ≤ t.print.length := by
        cases t with
        | word type c rest first more typed => exact Nat.le_add_left 1 _
        | number c rest digits => exact Nat.le_add_left 1 _
        | string quote contents either => exact Nat.le_add_left 1 _
        | symbol type spelling listed =>
            obtain ⟨c, rest, rfl, -⟩ := exists_cons_of_symbol listed
            exact Nat.le_add_left 1 _
      cases ts with
      | nil => exact hprint
      | cons u ts =>
          change (u :: ts).length + 1 ≤ (t.print ++ 0x20 :: printAll (u :: ts)).length
          simp only [List.length_append, List.length_cons] at hprint ih ⊢
          omega

/-- The scanner gives back the tokens that were printed, and the end; every word has one type,
the keyword that it equals but for its case or an identifier. -/
theorem tokenize_printAll :
    (∀ ts : List Printable, tokenize (printAll ts) = .ok (tokensFrom 1 ts)) ∧
    ∀ w : ByteString, ∃! type, HasType w type := by
  constructor
  · intro ts
    have henough := length_le_printAll ts
    exact tokenizeLoop_printAll ts [] (.inl rfl) (by omega) 1 [] (.inr rfl)
  · intro w
    exact ⟨toKeyword w, hasType_iff.mpr rfl, fun type h => (hasType_iff.mp h).symm⟩

/-- A keyword in mixed case, an identifier that it begins, a string with both quotes. -/
def mixedTokens : List Printable :=
  [.word .kwValue 0x76 (text "ALues") (by decide) (by decide +kernel)
      (.inl ⟨text "VALUES", by decide, equalIgnoringCase_iff.mpr (by decide)⟩),
    .word .identifier 0x76 (text "alues_") (by decide) (by decide +kernel)
      (hasType_iff.mpr (by decide)),
    .number 0x30 (text "07") (by decide +kernel), .string 0x27 (text "it's \"") (.inl rfl),
    .symbol .opGte (text ">=") (by decide)]

theorem tokenize_printAll_of_mixedTokens :
    tokenize (text "vALues values_ 007 'it\\'s \"' >=") =
      .ok [⟨.kwValue, text "vALues", 1⟩, ⟨.identifier, text "values_", 1⟩,
        ⟨.intLiteral, text "007", 1⟩, ⟨.strLiteral, text "it's \"", 1⟩, ⟨.opGte, text ">=", 1⟩,
        ⟨.end_, [], 1⟩] := by
  have hprint : text "vALues values_ 007 'it\\'s \"' >=" = printAll mixedTokens := by decide
  have htokens : tokensFrom 1 mixedTokens =
      [⟨.kwValue, text "vALues", 1⟩, ⟨.identifier, text "values_", 1⟩,
        ⟨.intLiteral, text "007", 1⟩, ⟨.strLiteral, text "it's \"", 1⟩, ⟨.opGte, text ">=", 1⟩,
        ⟨.end_, [], 1⟩] := by decide
  rw [hprint, tokenize_printAll.1, htokens]

end CwDb.Sql
