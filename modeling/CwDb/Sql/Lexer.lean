/-
  Sql/Lexer.lean --- tokens and the scanner of `server/parser/src/lexer.cpp`.

  The scanner's position is the list of bytes it has not read yet; `line_` is
  carried beside it.
-/
import CwDb.Cpp.Text

set_option autoImplicit false

namespace CwDb.Sql

open CwDb.Cpp

/-! ## Tokens -/

/-- `enum class TokenType`, in the order of the declaration: `Parser::isKeyword`
compares the enumerators as numbers. -/
inductive TokenType where
  | kwSelect | kwFrom | kwWhere | kwAs
  | kwInsert | kwInto | kwValue
  | kwUpdate | kwSet
  | kwDelete
  | kwCreate | kwDrop | kwUse
  | kwDatabase | kwTable
  | kwNotNull | kwIndexed | kwDefault
  | kwBetween | kwAnd | kwLike | kwOr
  | kwNull
  | kwSum | kwCount | kwAvg
  | intLiteral
  | strLiteral
  | identifier
  | opEq | opNeq | opLt | opGt | opLte | opGte | opAssign
  | comma | semicolon | lparen | rparen | star | dot | backtick
  | end_
  deriving DecidableEq, Repr, Inhabited

/-- `struct Token`. -/
structure Token where
  type : TokenType
  value : ByteString
  /-- The line, for error messages. -/
  line : Nat
  deriving DecidableEq, Repr, Inhabited

/-! ## The scanner -/

/-- The unread input and `line_`. -/
structure LexerState where
  rest : ByteString
  line : Nat
  deriving DecidableEq, Repr, Inhabited

namespace LexerState

/-- `Lexer::isEnd`. -/
def isEnd (s : LexerState) : Bool := s.rest.isEmpty

/-- `Lexer::peek`. -/
def peek (s : LexerState) : UInt8 := s.rest.headD 0

/-- `Lexer::advance`: the byte read and the state after it. -/
def advance (s : LexerState) : UInt8 × LexerState :=
  match s.rest with
  | [] => (0, s)
  | c :: rest => (c, { rest := rest, line := if c == 0x0a then s.line + 1 else s.line })

/-- The state after `n` calls of `advance`. -/
def skip (n : Nat) (s : LexerState) : LexerState :=
  match n with
  | 0 => s
  | n + 1 => skip n s.advance.2

end LexerState

/-- `Lexer::skipWhitespace`. -/
def skipWhitespace (s : LexerState) : LexerState :=
  s.skip (s.rest.takeWhile isSpace).length

/-- The table of `Lexer::toKeyword`. -/
def keywords : List (ByteString × TokenType) :=
  [(text "SELECT", .kwSelect), (text "FROM", .kwFrom), (text "WHERE", .kwWhere),
    (text "AS", .kwAs), (text "INSERT", .kwInsert), (text "INTO", .kwInto),
    (text "VALUE", .kwValue), (text "VALUES", .kwValue), (text "UPDATE", .kwUpdate),
    (text "SET", .kwSet), (text "DELETE", .kwDelete), (text "CREATE", .kwCreate),
    (text "DROP", .kwDrop), (text "USE", .kwUse), (text "DATABASE", .kwDatabase),
    (text "TABLE", .kwTable), (text "NOT_NULL", .kwNotNull), (text "NULL", .kwNull),
    (text "INDEXED", .kwIndexed), (text "DEFAULT", .kwDefault),
    (text "BETWEEN", .kwBetween), (text "AND", .kwAnd), (text "OR", .kwOr),
    (text "LIKE", .kwLike), (text "SUM", .kwSum), (text "COUNT", .kwCount),
    (text "AVG", .kwAvg)]

/-- `Lexer::toKeyword`. -/
def toKeyword (word : ByteString) : TokenType :=
  (keywords.lookup (word.map toUpper)).getD .identifier

/-- The bytes `Lexer::readWord` takes. -/
def isWordByte (c : UInt8) : Bool := isAlnum c || c == 0x5f

/-- `Lexer::readWord`. -/
def readWord (s : LexerState) : Token × LexerState :=
  let word := s.rest.takeWhile isWordByte
  ({ type := toKeyword word, value := word, line := s.line }, s.skip word.length)

/-- `Lexer::readNumber`. -/
def readNumber (s : LexerState) : Token × LexerState :=
  let number := s.rest.takeWhile isDigit
  ({ type := .intLiteral, value := number, line := s.line }, s.skip number.length)

/-- What `readString` appends for the byte after a backslash. -/
def unescape (escaped : UInt8) : ByteString :=
  if escaped == 0x6e then [0x0a]
  else if escaped == 0x74 then [0x09]
  else if escaped == 0x5c then [0x5c]
  else if escaped == 0x27 then [0x27]
  else if escaped == 0x22 then [0x22]
  else [0x5c, escaped]

/-- The loop of `Lexer::readString` after the opening quote: the contents, and
the state at the closing quote or at the end of the input. -/
def readStringLoop (quote : UInt8) : Nat → LexerState → ByteString → ByteString × LexerState
  | 0, s, str => (str, s)
  | fuel + 1, s, str =>
      if s.isEnd || s.peek == quote then (str, s)
      else if s.peek == 0x5c then
        let afterSlash := s.advance.2
        if afterSlash.isEnd then readStringLoop quote fuel afterSlash str
        else
          readStringLoop quote fuel afterSlash.advance.2 (str ++ unescape afterSlash.advance.1)
      else readStringLoop quote fuel s.advance.2 (str ++ [s.advance.1])

/-- `Lexer::readString`.  Every round of the loop reads a byte, so the unread
input bounds the rounds. -/
def readString (s : LexerState) : Except Fault (Token × LexerState) :=
  let (quote, opened) := s.advance
  let (str, closing) := readStringLoop quote opened.rest.length opened []
  if closing.isEnd then
    raise .parseError (text "Unclosed string at line " ++ decimal s.line)
  else .ok ({ type := .strLiteral, value := str, line := s.line }, closing.advance.2)

/-- `Lexer::readOperator`; a token of type `end_` stands for "no operator". -/
def readOperator (s : LexerState) : Token × LexerState :=
  let (c, after) := s.advance
  let one (type : TokenType) : Token × LexerState := (⟨type, [c], s.line⟩, after)
  let two (type : TokenType) : Token × LexerState := (⟨type, [c, 0x3d], s.line⟩, after.advance.2)
  let followedByEq := !after.isEnd && after.peek == 0x3d
  if c == 0x3d then if followedByEq then two .opEq else one .opAssign
  else if c == 0x21 then if followedByEq then two .opNeq else (⟨.end_, [], s.line⟩, after)
  else if c == 0x3c then if followedByEq then two .opLte else one .opLt
  else if c == 0x3e then if followedByEq then two .opGte else one .opGt
  else if c == 0x2c then one .comma
  else if c == 0x3b then one .semicolon
  else if c == 0x28 then one .lparen
  else if c == 0x29 then one .rparen
  else if c == 0x2a then one .star
  else if c == 0x2e then one .dot
  else if c == 0x60 then one .backtick
  else (⟨.end_, [], s.line⟩, after)

/-- The loop of `Lexer::tokenize`. -/
def tokenizeLoop : Nat → LexerState → List Token → Except Fault (List Token)
  | 0, _, _ => .error .diverges
  | fuel + 1, s, tokens =>
      if s.isEnd then .ok (tokens ++ [⟨.end_, [], s.line⟩])
      else
        let s := skipWhitespace s
        if s.isEnd then .ok (tokens ++ [⟨.end_, [], s.line⟩])
        else if isAlpha s.peek || s.peek == 0x5f then
          let (token, s) := readWord s
          tokenizeLoop fuel s (tokens ++ [token])
        else if isDigit s.peek then
          let (token, s) := readNumber s
          tokenizeLoop fuel s (tokens ++ [token])
        else if s.peek == 0x27 || s.peek == 0x22 then
          match readString s with
          | .error fault => .error fault
          | .ok (token, s) => tokenizeLoop fuel s (tokens ++ [token])
        else
          let (token, s) := readOperator s
          if token.type ≠ .end_ then tokenizeLoop fuel s (tokens ++ [token])
          else
            -- `readOperator` has consumed the unknown byte already; one more goes here.
            tokenizeLoop fuel s.advance.2 tokens

/-- `Lexer::tokenize`: every round of the loop reads a byte. -/
def tokenize (input : ByteString) : Except Fault (List Token) :=
  tokenizeLoop (input.length + 1) { rest := input, line := 1 } []

end CwDb.Sql
