/-
  Sql/StatementGrammar.lean --- the statements of the language, as a relation on
  token lists.

  A production derives a token list, a value, and the token types that would continue
  the list (`stops`): the parser reads on when one of these is ahead.  `Sound` and
  `Complete` compare a parsing function with a production.
-/
import CwDb.Sql.WhereGrammar

set_option autoImplicit false

namespace CwDb.Sql

open CwDb.Cpp
open CwDb.Foundation

/-! ## Productions -/

/-- The tokens of a phrase, its value, and the tokens that cannot follow it. -/
abbrev Production (α : Type) : Type := List Token → α → List TokenType → Prop

/-- No token of the types is ahead. -/
def NoneAhead (stops : List TokenType) (rest : List Token) : Prop :=
  ∀ type ∈ stops, NotAhead type rest

/-- A token that `expect(IDENTIFIER)` takes: keywords may be names. -/
def NameToken (t : Token) : Prop := t.type = .identifier ∨ Parser.isKeyword t.type = true

/-- A literal. -/
inductive ValueToken : Token → ParserValue → Prop
  | null {t : Token} : t.type = .kwNull → ValueToken t .null
  | int {t : Token} {n : Int32} : t.type = .intLiteral → stoi t.value = .ok n →
      ValueToken t (.int n)
  | str {t : Token} : t.type = .strLiteral → ValueToken t (.str t.value)

/-- A table name, with or without its database. -/
inductive TableRef : Production (ByteString × ByteString)
  | plain {t : Token} : NameToken t → TableRef [t] ([], t.value) [.dot]
  | qualified {d dot t : Token} : NameToken d → dot.type = .dot → NameToken t →
      TableRef [d, dot, t] (d.value, t.value) []

/-- Phrases separated by commas. -/
inductive CommaList {α : Type} (Item : List Token → α → Prop) : List Token → List α → Prop
  | one {ts : List Token} {x : α} : Item ts x → CommaList Item ts [x]
  | cons {ts us : List Token} {comma : Token} {x : α} {xs : List α} :
      Item ts x → comma.type = .comma → CommaList Item us xs →
      CommaList Item (ts ++ comma :: us) (x :: xs)

/-- Column modifiers, read with `m` seen before them. -/
inductive ModifierTokens : List Token → Parser.ColumnModifiers → Parser.ColumnModifiers → Prop
  | done {m : Parser.ColumnModifiers} : ModifierTokens [] m m
  | notNull {t : Token} {ts : List Token} {m m' : Parser.ColumnModifiers} :
      t.type = .kwNotNull → ModifierTokens ts { m with hasNotNull := true } m' →
      ModifierTokens (t :: ts) m m'
  | indexed {t : Token} {ts : List Token} {m m' : Parser.ColumnModifiers} :
      t.type = .kwIndexed → ModifierTokens ts { m with hasIndexed := true } m' →
      ModifierTokens (t :: ts) m m'
  | default {t v : Token} {value : ParserValue} {ts : List Token}
      {m m' : Parser.ColumnModifiers} :
      t.type = .kwDefault → ValueToken v value →
      ModifierTokens ts { m with defaultValue := some value } m' →
      ModifierTokens (t :: v :: ts) m m'
  | null {t : Token} {ts : List Token} {m m' : Parser.ColumnModifiers} :
      t.type = .kwNull → ModifierTokens ts m m' → ModifierTokens (t :: ts) m m'

/-- One column of CREATE TABLE. -/
inductive ColumnTokens : List Token → ParserColumnDef → Prop
  | column {n t : Token} {ts : List Token} {type : ColumnType} {m : Parser.ColumnModifiers} :
      NameToken n → NameToken t → Parser.columnType? (t.value.map toUpper) = some type →
      ModifierTokens ts {} m →
      ColumnTokens (n :: t :: ts)
        { name := n.value, type, modifier := m.modifier, defaultValue := m.defaultValue }

/-- A name in a list of columns. -/
inductive NameTokens : List Token → ByteString → Prop
  | name {t : Token} : NameToken t → NameTokens [t] t.value

/-- One value of a row, or none. -/
inductive RowValueTokens : List Token → Option ParserValue → Prop
  | missing : RowValueTokens [] none
  | value {t : Token} {v : ParserValue} : ValueToken t v → RowValueTokens [t] (some v)

/-- A list in parentheses. -/
inductive InParens {α : Type} (Inner : List Token → α → Prop) : List Token → α → Prop
  | parens {lp rp : Token} {ts : List Token} {x : α} :
      lp.type = .lparen → Inner ts x → rp.type = .rparen →
      InParens Inner (lp :: (ts ++ [rp])) x

/-- The column list of an INSERT, or none. -/
inductive InsertColumnsTokens : List Token → List ByteString → Prop
  | absent : InsertColumnsTokens [] []
  | present {ts : List Token} {columns : List ByteString} :
      InParens (CommaList NameTokens) ts columns → InsertColumnsTokens ts columns

/-- One assignment of an UPDATE. -/
inductive AssignmentTokens : List Token → Assignment → Prop
  | assign {n e v : Token} {value : ParserValue} :
      NameToken n → e.type = .opAssign → ValueToken v value →
      AssignmentTokens [n, e, v] { column := n.value, value }

/-- `AS alias`, or nothing. -/
inductive AliasTokens : List Token → ByteString → Prop
  | absent : AliasTokens [] []
  | present {a t : Token} : a.type = .kwAs → NameToken t → AliasTokens [a, t] t.value

/-- The argument of an aggregate. -/
inductive AggregateArgument : AggregateFunc → Token → ByteString → Prop
  | star {t : Token} : t.type = .star → AggregateArgument .count t (text "*")
  | column {func : AggregateFunc} {t : Token} : NameToken t → AggregateArgument func t t.value

/-- One column of a select list. -/
inductive SelectColumnTokens : List Token → SelectColumn → Prop
  | aggregate {f lp a rp : Token} {func : AggregateFunc} {name alias_ : ByteString}
      {ts : List Token} :
      Parser.aggregate? f.type = some func → lp.type = .lparen → AggregateArgument func a name →
      rp.type = .rparen → AliasTokens ts alias_ →
      SelectColumnTokens (f :: lp :: a :: rp :: ts) { name, alias_, aggregateFunc := func }
  | quoted {b t c : Token} {alias_ : ByteString} {ts : List Token} :
      b.type = .backtick → t.type ≠ .end_ → c.type = .backtick → AliasTokens ts alias_ →
      SelectColumnTokens (b :: t :: c :: ts)
        { name := t.value, alias_, aggregateFunc := .none }
  | plain {t : Token} {alias_ : ByteString} {ts : List Token} :
      NameToken t → Parser.aggregate? t.type = none → AliasTokens ts alias_ →
      SelectColumnTokens (t :: ts) { name := t.value, alias_, aggregateFunc := .none }

/-- The select list: `*`, or columns. -/
inductive SelectListTokens : List Token → Bool → List SelectColumn → Prop
  | star {t : Token} : t.type = .star → SelectListTokens [t] true []
  | columns {ts : List Token} {columns : List SelectColumn} :
      CommaList SelectColumnTokens ts columns → SelectListTokens ts false columns

/-- The WHERE tail of a statement whose other parts end with `stops`. -/
inductive WhereTokens (stops : List TokenType) : Production (Option Condition)
  | absent : WhereTokens stops [] none (.kwWhere :: stops)
  | present {w : Token} {ts : List Token} {e : Expr} :
      w.type = .kwWhere → Derives .disjunction ts e →
      WhereTokens stops (w :: ts) (some e.treeOf) [.kwAnd, .kwOr]

/-- The nine statements. -/
inductive Statement : Production Command
  | createDatabase {c d n : Token} : c.type = .kwCreate → d.type = .kwDatabase → NameToken n →
      Statement [c, d, n] (.createDatabase n.value) []
  | createTable {c t : Token} {refTokens cols : List Token} {ref : ByteString × ByteString}
      {stops : List TokenType} {columns : List ParserColumnDef} :
      c.type = .kwCreate → t.type = .kwTable → TableRef refTokens ref stops →
      InParens (CommaList ColumnTokens) cols columns →
      Statement (c :: t :: (refTokens ++ cols))
        (.createTable { dbName := ref.1, tableName := ref.2, columns }) []
  | dropDatabase {d t n : Token} : d.type = .kwDrop → t.type = .kwDatabase → NameToken n →
      Statement [d, t, n] (.dropDatabase n.value) []
  | dropTable {d t : Token} {refTokens : List Token} {ref : ByteString × ByteString}
      {stops : List TokenType} :
      d.type = .kwDrop → t.type = .kwTable → TableRef refTokens ref stops →
      Statement (d :: t :: refTokens) (.dropTable { dbName := ref.1, tableName := ref.2 }) stops
  | useDatabase {u n : Token} : u.type = .kwUse → NameToken n →
      Statement [u, n] (.useDatabase n.value) []
  | insert {i into v : Token} {refTokens cols vals : List Token} {ref : ByteString × ByteString}
      {stops : List TokenType} {columns : List ByteString}
      {rows : List (List (Option ParserValue))} :
      i.type = .kwInsert → into.type = .kwInto → TableRef refTokens ref stops →
      InsertColumnsTokens cols columns → v.type = .kwValue →
      CommaList (InParens (CommaList RowValueTokens)) vals rows →
      Statement (i :: into :: (refTokens ++ (cols ++ v :: vals)))
        (.insert { dbName := ref.1, tableName := ref.2, columns, rows }) [.comma]
  | update {u s : Token} {refTokens sets ws : List Token} {ref : ByteString × ByteString}
      {stops wstops : List TokenType} {assignments : List Assignment}
      {where_ : Option Condition} :
      u.type = .kwUpdate → TableRef refTokens ref stops → s.type = .kwSet →
      CommaList AssignmentTokens sets assignments → WhereTokens [.comma] ws where_ wstops →
      Statement (u :: (refTokens ++ s :: (sets ++ ws)))
        (.update { dbName := ref.1, tableName := ref.2, assignments, where_ }) wstops
  | delete {d f : Token} {refTokens ws : List Token} {ref : ByteString × ByteString}
      {stops wstops : List TokenType} {where_ : Option Condition} :
      d.type = .kwDelete → f.type = .kwFrom → TableRef refTokens ref stops →
      WhereTokens stops ws where_ wstops →
      Statement (d :: f :: (refTokens ++ ws))
        (.delete { dbName := ref.1, tableName := ref.2, where_ }) wstops
  | select {s f : Token} {list refTokens ws : List Token} {ref : ByteString × ByteString}
      {stops wstops : List TokenType} {star : Bool} {columns : List SelectColumn}
      {where_ : Option Condition} :
      s.type = .kwSelect → SelectListTokens list star columns → f.type = .kwFrom →
      TableRef refTokens ref stops → WhereTokens stops ws where_ wstops →
      Statement (s :: (list ++ f :: (refTokens ++ ws)))
        (.select { dbName := ref.1, tableName := ref.2, star, columns, where_ }) wstops

/-! ## Parsing functions and productions -/

/-- `p` reads only what the production derives, and stops where it may. -/
def Sound {α : Type} (G : Production α) (p : Parser α) : Prop :=
  ∀ ts a rest, p ts = .ok a rest →
    ∃ us stops, ts = us ++ rest ∧ G us a stops ∧ NoneAhead stops rest

/-- `p` reads everything the production derives. -/
def Complete {α : Type} (G : Production α) (p : Parser α) : Prop :=
  ∀ us a stops rest, G us a stops → NoneAhead stops rest → p (us ++ rest) = .ok a rest

/-- A relation without follow restrictions, as a production. -/
def free {α : Type} (G : List Token → α → Prop) : Production α :=
  fun us a stops => G us a ∧ stops = []

@[simp] theorem noneAhead_nil (rest : List Token) : NoneAhead [] rest := by simp [NoneAhead]

theorem noneAhead_cons {type : TokenType} {stops : List TokenType} {rest : List Token} :
    NoneAhead (type :: stops) rest ↔ NotAhead type rest ∧ NoneAhead stops rest := by
  simp [NoneAhead]

/-- The first token decides what is ahead. -/
theorem notAhead_cons {type : TokenType} {t : Token} {rest : List Token} :
    NotAhead type (t :: rest) ↔ t.type ≠ type := by
  simp [NotAhead]

end CwDb.Sql
