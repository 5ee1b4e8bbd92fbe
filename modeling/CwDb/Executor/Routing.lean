/-
  Executor/Routing.lean --- where `classifyExecutionMode` sends what the parser accepts.

  The classifier looks at the first letters of the text, the parser at the first token.  They
  are the same when the text starts with its first token; a byte that starts no token is passed
  over by the scanner only.
-/
import CwDb.Executor.Service
import CwDb.Sql.Scanning
import CwDb.Sql.WholeInput

set_option autoImplicit false

namespace CwDb.Executor

open CwDb.Cpp
open CwDb.Foundation
open CwDb.Sql

/-- CREATE, DROP, INSERT, UPDATE or DELETE. -/
def changesData : Command → Bool
  | .useDatabase _ => false
  | .select _ => false
  | _ => true

/-- The lexer and the parser accept the text as the command. -/
def Accepted (query : ByteString) (cmd : Command) : Prop :=
  ∃ tokens rest, tokenize query = .ok tokens ∧ Parser.parse tokens = .ok cmd rest

/-- Behind the white space stands a letter. -/
def StartsWithLetter (query : ByteString) : Prop :=
  (query.dropWhile isSpace).head?.any isAlpha = true

instance (query : ByteString) : Decidable (StartsWithLetter query) :=
  inferInstanceAs (Decidable (_ = true))

/-! ## The classifier -/

/-- The letters in front, behind the white space. -/
def leadingLetters (query : ByteString) : ByteString :=
  (query.dropWhile isSpace).takeWhile isAlpha

/-- The words that are classified as `Async`. -/
def asyncWords : List ByteString :=
  [text "CREATE", text "DROP", text "INSERT", text "UPDATE", text "DELETE"]

theorem isAlpha_toUpper (c : UInt8) : isAlpha (toUpper c) = isAlpha c := by
  unfold toUpper isAlpha
  grind

/-- Nothing behind a byte that ends the run is looked at. -/
theorem takeWhile_concat {p : UInt8 → Bool} {c : UInt8} (hc : p c = false) (s : ByteString) :
    (s ++ [c]).takeWhile p = s.takeWhile p := by
  induction s with
  | nil => exact List.takeWhile_cons_of_neg (by simp [hc])
  | cons d s ih =>
      rw [List.cons_append, List.takeWhile_cons, List.takeWhile_cons, ih]

theorem isAlpha_of_isSpace {c : UInt8} (h : isSpace c = true) : isAlpha c = false := by
  unfold isSpace at h
  unfold isAlpha
  grind

theorem takeWhile_rdropWhile_isSpace (s : ByteString) :
    (s.rdropWhile isSpace).takeWhile isAlpha = s.takeWhile isAlpha := by
  induction s using List.reverseRecOn with
  | nil => rfl
  | append_singleton s c ih =>
      by_cases hc : isSpace c = true
      · rw [List.rdropWhile_concat_pos _ _ _ hc, ih, takeWhile_concat (isAlpha_of_isSpace hc)]
      · rw [List.rdropWhile_concat_neg _ _ _ hc]

theorem classifyExecutionMode_eq (query : ByteString) :
    classifyExecutionMode query = .async ↔ (leadingLetters query).map toUpper ∈ asyncWords := by
  have hkeyword : firstToken (toUpperAscii (trim query)) = (leadingLetters query).map toUpper := by
    unfold firstToken toUpperAscii trim leadingLetters
    rw [List.takeWhile_map, ← takeWhile_rdropWhile_isSpace (query.dropWhile isSpace)]
    congr 1
    congr 1
    funext c
    exact isAlpha_toUpper c
  unfold classifyExecutionMode
  dsimp only
  split
  · next hempty =>
      rw [← hkeyword, List.isEmpty_iff.mp hempty]
      decide
  · rw [hkeyword]
    unfold asyncWords
    split <;> simp_all

/-- A semicolon at the end changes nothing. -/
theorem leadingLetters_semicolon (query : ByteString) :
    leadingLetters (query ++ text ";") = leadingLetters query := by
  unfold leadingLetters
  rw [List.dropWhile_append]
  split
  · next hempty =>
      rw [List.isEmpty_iff.mp hempty]
      rfl
  · exact takeWhile_concat (c := 0x3b) rfl _

theorem startsWithLetter_iff (query : ByteString) :
    StartsWithLetter query ↔ leadingLetters query ≠ [] := by
  unfold StartsWithLetter leadingLetters
  cases query.dropWhile isSpace with
  | nil => simp
  | cons c rest =>
      by_cases hc : isAlpha c = true
      · simp [hc]
      · simp [hc]

/-! ## The first token -/

theorem isWordByte_of_isAlpha {c : UInt8} (h : isAlpha c = true) : isWordByte c = true := by
  unfold isWordByte isAlnum
  simp [h]

/-- A text that starts with a letter starts with a word. -/
theorem head_lexemes {query : ByteString} {tokens : List Token}
    (tokenized : tokenize query = .ok tokens) (letter : StartsWithLetter query) :
    ∃ t more, tokens = t :: more ∧
      t.type = toKeyword ((query.dropWhile isSpace).takeWhile isWordByte) := by
  have hrun := tokenize_eq_run query
  rw [tokenized] at hrun
  unfold StartsWithLetter at letter
  cases hrest : query.dropWhile isSpace with
  | nil =>
      rw [hrest] at letter
      cases letter
  | cons c rest =>
      have hc : isAlpha c = true := by
        rw [hrest] at letter
        exact letter
      have hstart : Mode.start c = ([], .word [c]) := by
        have hspace : isSpace c = false := by
          by_contra h
          have := isAlpha_of_isSpace (Bool.not_eq_false _ ▸ h)
          rw [hc] at this
          cases this
        unfold Mode.start
        simp [hspace, hc]
      have hword : Mode.between.run query = (Mode.between.run (rest.dropWhile isWordByte)).map
          ((toKeyword (c :: rest.takeWhile isWordByte), c :: rest.takeWhile isWordByte) :: ·) := by
        have hspaces : ∀ d ∈ query.takeWhile isSpace, isSpace d = true :=
          fun d hd => List.mem_takeWhile_imp hd
        rw [← List.takeWhile_append_dropWhile (p := isSpace) (l := query), hrest,
          Mode.run_between_space hspaces]
        change ((Mode.start c).2.run rest).map ((Mode.start c).1 ++ ·) = _
        rw [hstart]
        dsimp only
        rw [Mode.run_word, Option.map_map]
        rfl
      rw [hword] at hrun
      obtain ⟨ls, -, hls⟩ := Option.map_eq_some_iff.mp hrun.symm
      cases tokens with
      | nil => cases hls
      | cons t more =>
          refine ⟨t, more, rfl, ?_⟩
          rw [List.takeWhile_cons_of_pos (isWordByte_of_isAlpha hc)]
          exact (Prod.mk.inj (List.cons.inj hls).1).1.symm

/-! ## The statement -/

/-- The keywords of the statements that change data. -/
def changingKeywords : List TokenType := [.kwCreate, .kwDrop, .kwInsert, .kwUpdate, .kwDelete]

/-- A statement starts with its keyword. -/
theorem exists_of_statement {us : List Token} {cmd : Command} {stops : List TokenType}
    (h : Statement us cmd stops) :
    ∃ t more, us = t :: more ∧ t.type ∈ .kwSelect :: .kwUse :: changingKeywords ∧
      (changesData cmd = true ↔ t.type ∈ changingKeywords) := by
  have found : ∀ {t : Token} {more : List Token} {type : TokenType}, t.type = type →
      type ∈ .kwSelect :: .kwUse :: changingKeywords →
      (changesData cmd = true ↔ type ∈ changingKeywords) →
      ∃ u rest, t :: more = u :: rest ∧ u.type ∈ .kwSelect :: .kwUse :: changingKeywords ∧
        (changesData cmd = true ↔ u.type ∈ changingKeywords) := by
    intro t more type htype hmem hiff
    exact ⟨t, more, rfl, htype ▸ hmem, htype ▸ hiff⟩
  cases h with
  | createDatabase hc => exact found hc (by decide) (by simp [changesData, changingKeywords])
  | createTable hc => exact found hc (by decide) (by simp [changesData, changingKeywords])
  | dropDatabase hd => exact found hd (by decide) (by simp [changesData, changingKeywords])
  | dropTable hd => exact found hd (by decide) (by simp [changesData, changingKeywords])
  | useDatabase hu => exact found hu (by decide) (by simp [changesData, changingKeywords])
  | insert hi => exact found hi (by decide) (by simp [changesData, changingKeywords])
  | update hu => exact found hu (by decide) (by simp [changesData, changingKeywords])
  | delete hd => exact found hd (by decide) (by simp [changesData, changingKeywords])
  | select hs => exact found hs (by decide) (by simp [changesData, changingKeywords])

theorem mem_of_toKeyword {w : ByteString} (h : toKeyword w ≠ .identifier) :
    (w.map toUpper, toKeyword w) ∈ keywords := by
  unfold toKeyword at h ⊢
  cases hlookup : keywords.lookup (w.map toUpper) with
  | none =>
      rw [hlookup] at h
      exact absurd rfl h
  | some type =>
      obtain ⟨before, after, hsplit, -⟩ := List.lookup_eq_some_iff.mp hlookup
      rw [hsplit]
      exact List.mem_append_right _ List.mem_cons_self

/-- The keywords of statements are letters only, and the classifier knows those that change data. -/
theorem keywords_of_statements : ∀ p ∈ keywords, p.2 ∈ .kwSelect :: .kwUse :: changingKeywords →
    p.1.all isAlpha = true ∧ (p.2 ∈ changingKeywords ↔ p.1 ∈ asyncWords) := by decide

/-- A word that is the keyword of a statement is all letters. -/
theorem takeWhile_isAlpha_word {s : ByteString}
    (h : toKeyword (s.takeWhile isWordByte) ∈ .kwSelect :: .kwUse :: changingKeywords) :
    s.takeWhile isAlpha = s.takeWhile isWordByte ∧
      (toKeyword (s.takeWhile isWordByte) ∈ changingKeywords ↔
        (s.takeWhile isWordByte).map toUpper ∈ asyncWords) := by
  have hne : toKeyword (s.takeWhile isWordByte) ≠ .identifier := by
    intro heq
    rw [heq] at h
    revert h
    decide
  obtain ⟨hletters, hiff⟩ := keywords_of_statements _ (mem_of_toKeyword hne) h
  refine ⟨?_, hiff⟩
  have hall : ∀ c ∈ s.takeWhile isWordByte, isAlpha c = true := by
    intro c hc
    rw [← isAlpha_toUpper]
    exact List.all_eq_true.mp hletters _ (List.mem_map_of_mem hc)
  calc s.takeWhile isAlpha
      = (s.takeWhile isWordByte).takeWhile isAlpha := by
        rw [List.takeWhile_takeWhile]
        congr 1
        funext c
        by_cases hc : isAlpha c = true
        · simp [hc, isWordByte_of_isAlpha hc]
        · simp [hc]
    _ = s.takeWhile isWordByte := List.takeWhile_eq_self_iff.mpr hall

/-- The route of what the parser makes of a text with the same letters in front. -/
theorem classify_iff {query text : ByteString} {tokens rest : List Token} {cmd : Command}
    (same : leadingLetters text = leadingLetters query)
    (tokenized : tokenize text = .ok tokens) (parsed : Parser.parse tokens = .ok cmd rest) :
    (classifyExecutionMode query = .async ↔ changesData cmd = true) ↔
      (changesData cmd = true → StartsWithLetter query) := by
  have hletter : StartsWithLetter query ↔ StartsWithLetter text := by
    rw [startsWithLetter_iff, startsWithLetter_iff, same]
  rw [classifyExecutionMode_eq, ← same, hletter]
  by_cases letter : StartsWithLetter text
  · obtain ⟨us, stops, hus, hstatement, -⟩ := Parser.parse_sound _ _ _ parsed
    obtain ⟨t, more, rfl, hkeyword, hchanges⟩ := exists_of_statement hstatement
    obtain ⟨t', more', hcons, htype⟩ := head_lexemes tokenized letter
    obtain ⟨rfl, -⟩ := List.cons.inj (hcons.symm.trans (hus.trans (List.cons_append ..)))
    rw [htype] at hkeyword hchanges
    obtain ⟨hword, hiff⟩ := takeWhile_isAlpha_word hkeyword
    have hroute : (leadingLetters text).map toUpper ∈ asyncWords ↔ changesData cmd = true := by
      unfold leadingLetters
      rw [hword, hchanges, hiff]
    exact ⟨fun _ _ => letter, fun _ => hroute⟩
  · have hempty : leadingLetters text = [] := by
      by_contra hne
      exact letter ((startsWithLetter_iff text).mpr hne)
    have hsync : ([] : ByteString).map toUpper ∉ asyncWords := by decide
    rw [hempty]
    simp only [hsync, letter, false_iff, imp_false, Bool.not_eq_true]

/-- Of a text that the lexer and the parser accept, with or without the semicolon that the engine
adds, the classifier agrees with the parser just when the command changes no data or a letter is
the first byte behind the white space. -/
theorem classifyExecutionMode_iff (query : ByteString) (cmd : Command)
    (accepted : Accepted query cmd ∨ parseQuery query = .ok cmd) :
    (classifyExecutionMode query = .async ↔ changesData cmd = true) ↔
      (changesData cmd = true → StartsWithLetter query) := by
  rcases accepted with ⟨tokens, rest, tokenized, parsed⟩ | parsed
  · exact classify_iff rfl tokenized parsed
  · have hsame : leadingLetters (withSemicolonIfMissing query) = leadingLetters query := by
      unfold withSemicolonIfMissing
      split
      · rfl
      · exact leadingLetters_semicolon query
    obtain ⟨tokens, rest, tokenized, parsed⟩ := parseQuery_eq_ok_iff.mp parsed
    exact classify_iff hsame tokenized parsed

/-- A command in lower case behind two blanks. -/
theorem classifyExecutionMode_drop :
    Accepted (text "  drop table t;") (.dropTable { dbName := [], tableName := text "t" }) ∧
    (classifyExecutionMode (text "  drop table t;") = .async ↔
      changesData (.dropTable { dbName := [], tableName := text "t" }) = true) := by
  have haccepted : Accepted (text "  drop table t;")
      (.dropTable { dbName := [], tableName := text "t" }) :=
    ⟨[⟨.kwDrop, text "drop", 1⟩, ⟨.kwTable, text "table", 1⟩, ⟨.identifier, text "t", 1⟩,
      ⟨.semicolon, text ";", 1⟩, ⟨.end_, [], 1⟩],
      [⟨.semicolon, text ";", 1⟩, ⟨.end_, [], 1⟩], by decide +kernel, rfl⟩
  exact ⟨haccepted, (classifyExecutionMode_iff _ _ (.inl haccepted)).mpr fun _ => by decide⟩

/-- Two bytes that start no token in front: the parser does not see them. -/
theorem classifyExecutionMode_skipped :
    Accepted (text "@@drop table t;") (.dropTable { dbName := [], tableName := text "t" }) ∧
    changesData (.dropTable { dbName := [], tableName := text "t" }) = true ∧
    classifyExecutionMode (text "@@drop table t;") = .sync :=
  ⟨⟨[⟨.kwDrop, text "drop", 1⟩, ⟨.kwTable, text "table", 1⟩, ⟨.identifier, text "t", 1⟩,
    ⟨.semicolon, text ";", 1⟩, ⟨.end_, [], 1⟩],
    [⟨.semicolon, text ";", 1⟩, ⟨.end_, [], 1⟩], by decide +kernel, rfl⟩, rfl, by decide⟩

end CwDb.Executor
