/-
  Client/ScriptMode.lean --- how the client divides a script, and how the lexer does.

  The client reads up to the next `;`, whatever it stands in; for the lexer a `;` inside a
  string literal is a byte like any other.
-/
import CwDb.Sql.SkippedBytes
import Mathlib.Data.List.DropRight
import Mathlib.Data.List.Forall2

set_option autoImplicit false

namespace CwDb.Client

open CwDb.Cpp
open CwDb.Sql

/-! ## The client -/

/-- The bytes `trimQuery` takes off the end. -/
def isTrimmed (c : UInt8) : Bool := c == 0x0d || c == 0x0a || c == 0x20 || c == 0x09

/-- `trimQuery`. -/
def trimQuery (query : ByteString) : ByteString := query.rdropWhile isTrimmed

/-- `isIgnorableQuery`. -/
def isIgnorableQuery (query : ByteString) : Bool := query.all fun c => isSpace c || c == 0x3b

/-- `readQueryFromFile`: what it returns, and what is left of the file. -/
def readQueryFromFile : ByteString → ByteString × ByteString
  | [] => ([], [])
  | c :: file =>
      if c = 0x3b then ([c], file)
      else
        let (result, rest) := readQueryFromFile file
        (c :: result, rest)

/-- The loop of the script mode of `main`: the commands that `sendAndWait` is called with.
Every round but the last reads a byte. -/
def scriptLoop : Nat → ByteString → Except Fault (List ByteString)
  | 0, _ => .error .diverges
  | fuel + 1, file =>
      let (query, rest) := readQueryFromFile file
      let cmd := trimQuery query
      if cmd.isEmpty then .ok []
      else if isIgnorableQuery cmd then scriptLoop fuel rest
      else do
        let cmds ← scriptLoop fuel rest
        pure (cmd :: cmds)

/-- The commands of a script. -/
def scriptCommands (file : ByteString) : Except Fault (List ByteString) :=
  scriptLoop (file.length + 1) file

/-! ## Reading -/

section Reading

variable {body file rest : ByteString}

theorem readQueryFromFile_cons {c : UInt8} (hc : c ≠ 0x3b) : readQueryFromFile (c :: file) =
    (c :: (readQueryFromFile file).1, (readQueryFromFile file).2) := by
  conv => lhs; unfold readQueryFromFile
  exact if_neg hc

theorem readQueryFromFile_of_semicolon (plain : 0x3b ∉ body) :
    readQueryFromFile (body ++ 0x3b :: rest) = (body ++ [0x3b], rest) := by
  induction body with
  | nil => rfl
  | cons c body ih =>
      have hc : c ≠ 0x3b := fun heq => plain (heq ▸ List.mem_cons_self)
      rw [List.cons_append, readQueryFromFile_cons hc,
        ih fun hmem => plain (List.mem_cons_of_mem c hmem)]
      rfl

/-- What is read holds no semicolon but at its end. -/
theorem not_mem_dropLast_readQueryFromFile (file : ByteString) :
    0x3b ∉ (readQueryFromFile file).1.dropLast ∧
      ((readQueryFromFile file).1.getLast? = some 0x3b ∨ 0x3b ∉ (readQueryFromFile file).1) := by
  induction file with
  | nil => simp [readQueryFromFile]
  | cons c file ih =>
      by_cases hc : c = 0x3b
      · rw [hc]
        exact ⟨by simp [readQueryFromFile], .inl rfl⟩
      · rw [readQueryFromFile_cons hc]
        have hne : (0x3b : UInt8) ≠ c := fun heq => hc heq.symm
        obtain ⟨hfront, hlast⟩ := ih
        dsimp only
        generalize (readQueryFromFile file).1 = result at hfront hlast
        cases result with
        | nil => exact ⟨by simp, .inr (by simpa using hne)⟩
        | cons d result =>
            rw [List.dropLast_cons_cons, List.getLast?_cons_cons]
            refine ⟨fun hmem => hfront ((List.mem_cons.mp hmem).resolve_left hne), ?_⟩
            exact hlast.imp_right fun h hmem => h ((List.mem_cons.mp hmem).resolve_left hne)

theorem trimQuery_of_semicolon (body : ByteString) : trimQuery (body ++ [0x3b]) = body ++ [0x3b] :=
  List.rdropWhile_concat_neg _ _ _ (by decide)

/-- Nor does what is left when its end is trimmed. -/
theorem not_mem_dropLast_trimQuery (file : ByteString) :
    0x3b ∉ (trimQuery (readQueryFromFile file).1).dropLast := by
  obtain ⟨hfront, hlast⟩ := not_mem_dropLast_readQueryFromFile file
  intro hmem
  have hbegin : trimQuery (readQueryFromFile file).1 <+: (readQueryFromFile file).1 :=
    List.rdropWhile_prefix _ _
  rcases hlast with hlast | hnone
  · obtain ⟨front, heq⟩ := List.getLast?_eq_some_iff.mp hlast
    rw [heq, trimQuery_of_semicolon] at hmem
    exact hfront (heq ▸ hmem)
  · exact hnone (hbegin.subset (List.dropLast_subset _ hmem))

/-- Every command is worth sending and holds no semicolon but at its end. -/
theorem scriptLoop_sound {fuel : Nat} {cmds : List ByteString}
    (h : scriptLoop fuel file = .ok cmds) :
    ∀ cmd ∈ cmds, isIgnorableQuery cmd = false ∧ 0x3b ∉ cmd.dropLast := by
  induction fuel generalizing file cmds with
  | zero => cases h
  | succ fuel ih =>
      unfold scriptLoop at h
      dsimp only at h
      split at h
      · obtain rfl := Except.ok.inj h
        simp
      split at h
      · exact ih h
      next hworth =>
      cases hmore : scriptLoop fuel (readQueryFromFile file).2 with
      | error fault =>
          rw [hmore] at h
          cases h
      | ok more =>
          rw [hmore] at h
          obtain rfl := Except.ok.inj h
          intro cmd hcmd
          rcases List.mem_cons.mp hcmd with rfl | hcmd
          · exact ⟨by simpa using hworth, not_mem_dropLast_trimQuery file⟩
          · exact ih hmore cmd hcmd

/-- A statement without another semicolon is a command, unless it is blank. -/
theorem scriptLoop_statement {fuel : Nat} (plain : 0x3b ∉ body)
    (worth : isIgnorableQuery (body ++ [0x3b]) = false) :
    scriptLoop (fuel + 1) (body ++ 0x3b :: rest) = (do
      let cmds ← scriptLoop fuel rest
      pure ((body ++ [0x3b]) :: cmds)) := by
  conv => lhs; unfold scriptLoop
  rw [readQueryFromFile_of_semicolon plain]
  dsimp only
  rw [trimQuery_of_semicolon, if_neg (by simp), if_neg (by simp [worth])]

theorem readQueryFromFile_of_plain (plain : 0x3b ∉ file) : readQueryFromFile file = (file, []) := by
  induction file with
  | nil => rfl
  | cons c file ih =>
      have hc : c ≠ 0x3b := fun heq => plain (heq ▸ List.mem_cons_self)
      rw [readQueryFromFile_cons hc, ih fun hmem => plain (List.mem_cons_of_mem c hmem)]

/-- White space at the end is not sent. -/
theorem scriptLoop_blanks {fuel : Nat} {blanks : ByteString}
    (blank : ∀ c ∈ blanks, isSpace c = true) (enough : blanks.length + 1 ≤ fuel) :
    scriptLoop fuel blanks = .ok [] := by
  obtain ⟨fuel, rfl⟩ := Nat.exists_eq_add_of_le' enough
  have plain : 0x3b ∉ blanks := fun hmem => absurd (blank _ hmem) (by decide)
  have hignorable : isIgnorableQuery (trimQuery blanks) = true := by
    unfold isIgnorableQuery
    rw [List.all_eq_true]
    intro c hc
    have := blank c ((List.rdropWhile_prefix _ _).subset hc)
    simp [this]
  conv => lhs; unfold scriptLoop
  rw [readQueryFromFile_of_plain plain]
  dsimp only
  cases blanks with
  | nil => rfl
  | cons c blanks =>
      rw [if_pos hignorable]
      -- the next round finds the file at its end
      split
      · rfl
      · rfl

end Reading

/-! ## Statements -/

/-- A text, not all white space, with a semicolon at its end outside string literals, where
every other semicolon stands inside one. -/
def IsStatement (s : ByteString) : Prop :=
  ∃ body, s = body ++ [0x3b] ∧ (∃ c ∈ body, isSpace c = false) ∧ ¬ EndsInString body ∧
    ∀ i < body.length, body[i]? = some 0x3b → EndsInString (body.take i)

/-- The semicolon that ends a statement leaves the lexer between two tokens. -/
theorem IsStatement.after_eq {s : ByteString} (h : IsStatement s) :
    Mode.between.after s = .between := by
  obtain ⟨body, rfl, -, outside, -⟩ := h
  have hnext : ∀ m : Mode, m.inString = false → (m.next 0x3b).2 = .between := by
    intro m hm
    cases m with
    | string quote str => cases hm
    | escape quote str => cases hm
    | between | word w | number n | operator o | bang | skipping => rfl
  have hafter : Mode.between.after (body ++ [0x3b]) = ((modeAfter body).next 0x3b).2 := by
    unfold Mode.after modeAfter
    rw [List.foldl_append]
    rfl
  rw [hafter]
  exact hnext _ (by simpa [EndsInString] using outside)

/-- The tokens of a sequence of statements are those of the statements. -/
theorem run_statements {statements : List ByteString} (wf : ∀ s ∈ statements, IsStatement s)
    (rest : ByteString) : Mode.between.run (statements.flatten ++ rest) =
      (Mode.between.run rest).map ((statements.map Mode.between.output).flatten ++ ·) := by
  induction statements with
  | nil => simp
  | cons s statements ih =>
      rw [List.flatten_cons, List.append_assoc, Mode.run_append,
        (wf s List.mem_cons_self).after_eq, ih fun t ht => wf t (List.mem_cons_of_mem s ht),
        Option.map_map]
      congr 1
      funext lexemes
      simp

/-! ## The law -/

/-- The commands lexed one by one have the tokens of the script, but for the `END` of each. -/
def SameTokens (script : ByteString) (cmds : List ByteString) : Prop :=
  ∃ parts : List (List Lexeme),
    List.Forall₂ (fun cmd part => lexemes (tokenize cmd) = some (part ++ [(.end_, [])])) cmds parts ∧
    lexemes (tokenize script) = some (parts.flatten ++ [(.end_, [])])

/-- Script mode sends the statements, each with its tokens. -/
def SendsStatements (script : ByteString) (statements : List ByteString) : Prop :=
  scriptCommands script = .ok statements ∧ SameTokens script statements

theorem sameTokens_statements {statements : List ByteString} {blanks : ByteString}
    (wf : ∀ s ∈ statements, IsStatement s) (blank : ∀ c ∈ blanks, isSpace c = true) :
    SameTokens (statements.flatten ++ blanks) statements := by
  have hblanks : Mode.between.run blanks = some [(.end_, [])] := by
    have := Mode.run_between_space blank []
    rw [List.append_nil] at this
    exact this
  refine ⟨statements.map Mode.between.output, ?_, ?_⟩
  · rw [List.forall₂_map_right_iff, List.forall₂_same]
    intro s hs
    have hrun := Mode.run_append Mode.between s []
    rw [List.append_nil, (wf s hs).after_eq] at hrun
    rw [tokenize_eq_run, hrun]
    rfl
  · rw [tokenize_eq_run, run_statements wf, hblanks]
    rfl

theorem scriptLoop_statements {statements : List ByteString} {blanks : ByteString}
    (whole : ∀ s ∈ statements, isIgnorableQuery s = false ∧ ∃ body, s = body ++ [0x3b] ∧
      0x3b ∉ body) (blank : ∀ c ∈ blanks, isSpace c = true) {fuel : Nat}
    (enough : (statements.flatten ++ blanks).length + 1 ≤ fuel) :
    scriptLoop fuel (statements.flatten ++ blanks) = .ok statements := by
  induction statements generalizing fuel with
  | nil => exact scriptLoop_blanks blank enough
  | cons s statements ih =>
      obtain ⟨worth, body, rfl, plain⟩ := whole s List.mem_cons_self
      obtain ⟨fuel, rfl⟩ := Nat.exists_eq_add_of_le' (Nat.le_trans (by simp) enough : 1 ≤ fuel)
      have henough : (statements.flatten ++ blanks).length + 1 ≤ fuel := by
        rw [List.flatten_cons, List.append_assoc, List.length_append, List.length_append] at enough
        simp only [List.length_singleton] at enough
        omega
      rw [List.flatten_cons, List.append_assoc, List.append_assoc, List.singleton_append,
        scriptLoop_statement plain worth,
        ih (fun t ht => whole t (List.mem_cons_of_mem _ ht)) henough]
      rfl

/-- Script mode sends a sequence of statements as the lexer divides it exactly when no string
literal holds a semicolon. -/
theorem script_mode_sends_statements_iff {statements : List ByteString} {blanks : ByteString}
    (wf : ∀ s ∈ statements, IsStatement s) (blank : ∀ c ∈ blanks, isSpace c = true) :
    SendsStatements (statements.flatten ++ blanks) statements ↔
      ∀ s ∈ statements, 0x3b ∉ s.dropLast := by
  constructor
  · rintro ⟨hsent, -⟩ s hs
    exact (scriptLoop_sound hsent s hs).2
  · intro whole
    refine ⟨scriptLoop_statements (fun s hs => ?_) blank (Nat.le_refl _),
      sameTokens_statements wf blank⟩
    obtain ⟨body, rfl, ⟨c, hc, hspace⟩, -⟩ := wf s hs
    have plain := whole _ hs
    rw [List.dropLast_concat] at plain
    have hworth : isIgnorableQuery (body ++ [0x3b]) = false := by
      unfold isIgnorableQuery
      rw [List.all_eq_false]
      refine ⟨c, List.mem_append_left _ hc, ?_⟩
      have hne : c ≠ 0x3b := fun heq => plain (heq ▸ hc)
      simp [hspace, hne]
    exact ⟨hworth, body, rfl, plain⟩

/-- Two statements, the first with a string literal, and a line end. -/
theorem script_mode_sends_statements_of_two :
    SendsStatements (text "INSERT INTO t VALUE (\"a\");\nSELECT * FROM t;\n")
      [text "INSERT INTO t VALUE (\"a\");", text "\nSELECT * FROM t;"] := by
  have first : IsStatement (text "INSERT INTO t VALUE (\"a\");") :=
    ⟨text "INSERT INTO t VALUE (\"a\")", by decide +kernel, by decide +kernel, by decide +kernel,
      by decide +kernel⟩
  have second : IsStatement (text "\nSELECT * FROM t;") :=
    ⟨text "\nSELECT * FROM t", by decide +kernel, by decide +kernel, by decide +kernel,
      by decide +kernel⟩
  have wf : ∀ s ∈ [text "INSERT INTO t VALUE (\"a\");", text "\nSELECT * FROM t;"],
      IsStatement s := by
    simp only [List.mem_cons, List.not_mem_nil, or_false, forall_eq_or_imp, forall_eq]
    exact ⟨first, second⟩
  have blank : ∀ c ∈ text "\n", isSpace c = true := by decide +kernel
  exact (script_mode_sends_statements_iff wf blank).mpr (by decide +kernel)

/-- The string literal is cut, and two commands are sent for one statement. -/
theorem semicolon_in_literal_cuts_statement :
    IsStatement (text "INSERT INTO t VALUE (\"a;b\");") ∧
      scriptCommands (text "INSERT INTO t VALUE (\"a;b\");") =
        .ok [text "INSERT INTO t VALUE (\"a;", text "b\");"] ∧
      ¬ SendsStatements (text "INSERT INTO t VALUE (\"a;b\");")
        [text "INSERT INTO t VALUE (\"a;b\");"] := by
  have sent : scriptCommands (text "INSERT INTO t VALUE (\"a;b\");") =
      .ok [text "INSERT INTO t VALUE (\"a;", text "b\");"] := by decide +kernel
  refine ⟨⟨text "INSERT INTO t VALUE (\"a;b\")", by decide +kernel, by decide +kernel,
    by decide +kernel, by decide +kernel⟩, sent, ?_⟩
  rintro ⟨hsent, -⟩
  rw [sent] at hsent
  revert hsent
  decide +kernel

end CwDb.Client
