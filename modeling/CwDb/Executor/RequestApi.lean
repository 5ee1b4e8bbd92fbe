/-
  Executor/RequestApi.lean --- the service commands of the client protocol.
-/
import CwDb.Executor.RequestTypes

set_option autoImplicit false

namespace CwDb.Executor

open CwDb.Cpp

/-- `trim`. -/
def trim (s : ByteString) : ByteString := (s.dropWhile isSpace).rdropWhile isSpace

/-- `toUpperAscii`. -/
def toUpperAscii (s : ByteString) : ByteString := s.map toUpper

/-- `removeOptionalSemicolon`. -/
def removeOptionalSemicolon (s : ByteString) : ByteString :=
  trim (if s.getLast? = some 0x3b then s.dropLast else s)

/-- The loop of `splitBySpace`. -/
def splitBySpaceLoop : ByteString → (current : ByteString) → (parts : List ByteString) →
    List ByteString
  | [], current, parts => if current.isEmpty then parts else parts ++ [current]
  | c :: rest, current, parts =>
      if isSpace c then
        if current.isEmpty then splitBySpaceLoop rest current parts
        else splitBySpaceLoop rest [] (parts ++ [current])
      else splitBySpaceLoop rest (current ++ [c]) parts

/-- `splitBySpace`. -/
def splitBySpace (s : ByteString) : List ByteString := splitBySpaceLoop s [] []

/-- `enum class ApiCommandKind`. -/
inductive ApiCommandKind where
  | submitQuery
  | getStatus
  | getResult
  deriving DecidableEq, Repr, Inhabited

/-- `struct ApiCommand`. -/
structure ApiCommand where
  kind : ApiCommandKind := .submitQuery
  payload : ByteString
  deriving DecidableEq, Repr, Inhabited

/-- `parseApiCommand`. -/
def parseApiCommand (rawCommand : ByteString) : ApiCommand :=
  match splitBySpace (removeOptionalSemicolon (trim rawCommand)) with
  | [verb, operation, payload] =>
      if toUpperAscii verb = text "GET" then
        if toUpperAscii operation = text "STATUS" then ⟨.getStatus, payload⟩
        else if toUpperAscii operation = text "RESULT" then ⟨.getResult, payload⟩
        else ⟨.submitQuery, rawCommand⟩
      else ⟨.submitQuery, rawCommand⟩
  | _ => ⟨.submitQuery, rawCommand⟩

/-! ## Words -/

/-- A text that neither starts nor ends with a space. -/
theorem trim_eq_self {c d : UInt8} {s : ByteString} (first : s.head? = some c)
    (last : s.getLast? = some d) (hc : isSpace c = false) (hd : isSpace d = false) :
    trim s = s := by
  obtain ⟨rest, rfl⟩ := List.head?_eq_some_iff.mp first
  obtain ⟨front, hfront⟩ := List.getLast?_eq_some_iff.mp last
  unfold trim
  rw [List.dropWhile_cons_of_neg (by simp [hc]), hfront,
    List.rdropWhile_concat_neg _ _ _ (by simp [hd])]

/-- A word is collected to its end. -/
theorem splitBySpaceLoop_word {word : ByteString} (plain : ∀ c ∈ word, isSpace c = false)
    (rest current : ByteString) (parts : List ByteString) :
    splitBySpaceLoop (word ++ rest) current parts =
      splitBySpaceLoop rest (current ++ word) parts := by
  induction word generalizing current with
  | nil => simp
  | cons c word ih =>
      have hc := plain c List.mem_cons_self
      rw [List.cons_append, splitBySpaceLoop, if_neg (by simp [hc]),
        ih fun d hd => plain d (List.mem_cons_of_mem c hd)]
      simp

/-- `GET RESULT <id>;` asks for the result of the id. -/
theorem parseApiCommand_getResult {id : RequestId} (valid : isValidRequestId id = true) :
    parseApiCommand (text "GET RESULT " ++ id ++ text ";") = ⟨.getResult, id⟩ := by
  have plain : ∀ c ∈ id, isSpace c = false := by
    intro c hc
    have := isIdByte_of_mem valid c hc
    unfold isIdByte isHexLower isDigit at this
    unfold isSpace
    grind
  obtain ⟨c, rest, hid, -⟩ := exists_head valid
  obtain ⟨front, d, hlast⟩ : ∃ front d, id = front ++ [d] :=
    ⟨_, _, (List.dropLast_append_getLast (by simp [hid])).symm⟩
  have hd : isSpace d = false := plain d (by simp [hlast])
  have outer : trim (text "GET RESULT " ++ id ++ text ";") = text "GET RESULT " ++ id ++ text ";" :=
    trim_eq_self (c := 0x47) (d := 0x3b) rfl List.getLast?_concat (by decide) (by decide)
  have inner : trim (text "GET RESULT " ++ id) = text "GET RESULT " ++ id := by
    refine trim_eq_self (c := 0x47) (d := d) rfl ?_ (by decide) hd
    rw [hlast, ← List.append_assoc, List.getLast?_concat]
  have normalized : removeOptionalSemicolon (text "GET RESULT " ++ id ++ text ";") =
      text "GET RESULT " ++ id := by
    unfold removeOptionalSemicolon
    have hsemicolon : (text "GET RESULT " ++ id ++ text ";").getLast? = some 0x3b :=
      List.getLast?_concat
    rw [if_pos hsemicolon]
    exact (congrArg trim List.dropLast_concat).trans inner
  have parts : splitBySpace (text "GET RESULT " ++ id) = [text "GET", text "RESULT", id] := by
    unfold splitBySpace
    change splitBySpaceLoop id [] [text "GET", text "RESULT"] = _
    have := splitBySpaceLoop_word plain [] [] [text "GET", text "RESULT"]
    rw [List.append_nil] at this
    rw [this, splitBySpaceLoop, if_neg (by simp [hid])]
    rfl
  unfold parseApiCommand
  rw [outer, normalized, parts]
  rfl

end CwDb.Executor
