/-
  Executor/SelectOutput.lean --- the JSON text of a SELECT.

  The engine has an `escape_json` of its own, which leaves most control bytes as they are.
-/
import CwDb.Executor.Statements
import CwDb.Foundation.Json

set_option autoImplicit false

namespace CwDb.Executor

open CwDb.Cpp
open CwDb.Foundation
open CwDb.Sql
open CwDb.Storage

variable {ι ω : Type}

/-- One byte of `DbmsQueryEngine::escape_json`. -/
def escapeByte (c : UInt8) : ByteString :=
  if c = 0x22 then text "\\\""
  else if c = 0x5c then text "\\\\"
  else if c = 0x0a then text "\\n"
  else if c = 0x0d then text "\\r"
  else if c = 0x09 then text "\\t"
  else [c]

/-- `DbmsQueryEngine::escape_json`. -/
def escapeJson (s : ByteString) : ByteString := s.flatMap escapeByte

/-- `DbmsQueryEngine::value_to_json`. -/
def valueToJson : Value ByteString → ByteString
  | .null => text "null"
  | .int n => decimalInt n.toInt
  | .str s => text "\"" ++ escapeJson s ++ text "\""

/-- The loops that put a comma before every piece but the first. -/
def commaLoop : (first : Bool) → List ByteString → ByteString
  | _, [] => []
  | first, piece :: rest => (if first then [] else text ",") ++ piece ++ commaLoop false rest

/-- The key and the value of each printed column; `row[i]` is inside the row. -/
def rowPairs (schema : TableSchema ByteString) (cmd : SelectCmd) (row : Row ByteString) :
    Except Fault (List (ByteString × Value ByteString)) :=
  if cmd.star then
    schema.columns.zipIdx.mapM fun (col, i) => do
      let value ← vectorAt row i
      pure (col.name, value)
  else
    cmd.columns.mapM fun col => do
      let idx ← schema.indexOf col.name
      let key := if col.alias_.isEmpty then col.name else col.alias_
      let value ← vectorAt row idx
      pure (key, value)

/-- One member of `row_to_json_object`. -/
def memberToJson (pair : ByteString × Value ByteString) : ByteString :=
  text "\"" ++ escapeJson pair.1 ++ text "\":" ++ valueToJson pair.2

/-- `DbmsQueryEngine::row_to_json_object`. -/
def rowToJsonObject (schema : TableSchema ByteString) (cmd : SelectCmd) (row : Row ByteString) :
    Except Fault ByteString := do
  let pairs ← rowPairs schema cmd row
  pure (text "\x7b" ++ commaLoop true (pairs.map memberToJson) ++ text "\x7d")

/-- The objects that the loop of `execute_select` prints. -/
def selectObjects (regexMatch : RegexMatch) (table : Table ByteString ι) (cmd : SelectCmd) :
    (candidates : List RowId) → Except Fault (List ByteString)
  | [] => .ok []
  | id :: rest =>
      match table.rows.find? id with
      | none => selectObjects regexMatch table cmd rest
      | some row => do
          let kept ← passes regexMatch table row cmd.where_
          if kept then
            let object ← rowToJsonObject table.schema cmd row
            let more ← selectObjects regexMatch table cmd rest
            pure (object :: more)
          else selectObjects regexMatch table cmd rest

/-- `DbmsQueryEngine::execute_select` on its table: the text, and `usedIndex`. -/
def executeSelect [IIndex ι ω] (regexMatch : RegexMatch) (table : Table ByteString ι) (w : ω)
    (cmd : SelectCmd) : Except Fault (ByteString × Bool) := do
  let (candidates, usedIndex) ← collectCandidateRows table w cmd.where_
  let objects ← selectObjects regexMatch table cmd candidates
  pure (text "[" ++ commaLoop true objects ++ text "]", usedIndex)

/-! ## Strings -/

/-- A byte that `escape_json` writes as JSON wants it. -/
def isEscaped (c : UInt8) : Bool := 0x20 ≤ c || c == 0x0a || c == 0x0d || c == 0x09

/-- A string is read back when no control byte is left raw in it. -/
theorem parsePieces_escapeJson (s rest : ByteString) :
    Json.parsePieces (escapeJson s ++ 0x22 :: rest) =
      if s.all isEscaped then some (s.map .byte, rest) else none := by
  induction s with
  | nil => exact Json.parsePieces_quote rest
  | cons c s ih =>
      have hcons : escapeJson (c :: s) ++ 0x22 :: rest =
          escapeByte c ++ (escapeJson s ++ 0x22 :: rest) := by
        unfold escapeJson
        rw [List.flatMap_cons, List.append_assoc]
      have escaped : ∀ {e : UInt8}, escapeByte c = [0x5c, e] → Json.simpleEscape e = some c →
          isEscaped c = true → Json.parsePieces (escapeByte c ++ (escapeJson s ++ 0x22 :: rest)) =
            if (c :: s).all isEscaped then some ((c :: s).map .byte, rest) else none := by
        intro e hbyte hsimple hescaped
        rw [hbyte]
        change Json.parsePieces (0x5c :: e :: (escapeJson s ++ 0x22 :: rest)) = _
        rw [Json.parsePieces_escape hsimple, ih, List.all_cons, hescaped]
        by_cases h : s.all isEscaped <;> simp [h]
      rw [hcons]
      by_cases hquote : c = 0x22
      · exact escaped (e := 0x22) (by rw [hquote]; rfl) (by rw [hquote]; rfl) (by rw [hquote]; rfl)
      by_cases hslash : c = 0x5c
      · exact escaped (e := 0x5c) (by rw [hslash]; rfl) (by rw [hslash]; rfl) (by rw [hslash]; rfl)
      by_cases hn : c = 0x0a
      · exact escaped (e := 0x6e) (by rw [hn]; rfl) (by rw [hn]; rfl) (by rw [hn]; rfl)
      by_cases hr : c = 0x0d
      · exact escaped (e := 0x72) (by rw [hr]; rfl) (by rw [hr]; rfl) (by rw [hr]; rfl)
      by_cases ht : c = 0x09
      · exact escaped (e := 0x74) (by rw [ht]; rfl) (by rw [ht]; rfl) (by rw [ht]; rfl)
      have hraw : escapeByte c = [c] := by
        unfold escapeByte
        rw [if_neg hquote, if_neg hslash, if_neg hn, if_neg hr, if_neg ht]
      rw [hraw]
      change Json.parsePieces (c :: (escapeJson s ++ 0x22 :: rest)) = _
      by_cases hcontrol : c < 0x20
      · have hbad : isEscaped c = false := by
          unfold isEscaped
          grind
        rw [Json.parsePieces_control hcontrol, List.all_cons, hbad]
        rfl
      · have hgood : isEscaped c = true := by
          unfold isEscaped
          grind
        rw [Json.parsePieces_plain hquote hslash hcontrol, ih, List.all_cons, hgood]
        by_cases h : s.all isEscaped <;> simp [h]

theorem bytesOf_map_byte (s : ByteString) : Json.bytesOf none (s.map .byte) = s := by
  induction s with
  | nil => rfl
  | cons c s ih => rw [List.map_cons, Json.bytesOf_byte, ih]

theorem parseChars_escapeJson (s rest : ByteString) :
    Json.parseChars (escapeJson s ++ 0x22 :: rest) =
      if s.all isEscaped then some (s, rest) else none := by
  unfold Json.parseChars
  rw [parsePieces_escapeJson]
  by_cases h : s.all isEscaped <;> simp [h, bytesOf_map_byte]

/-! ## Values and rows -/

/-- The JSON value of a stored value. -/
def valueJson : Value ByteString → Json
  | .null => .null
  | .int n => .number n.toInt 0
  | .str s => .str s

/-- The JSON member of a printed column. -/
def pairJson (pair : ByteString × Value ByteString) : ByteString × Json :=
  (pair.1, valueJson pair.2)

/-- The JSON object of a row. -/
def rowJson (pairs : List (ByteString × Value ByteString)) : Json := .obj (pairs.map pairJson)

/-- The object that `row_to_json_object` prints. -/
def rowText (pairs : List (ByteString × Value ByteString)) : ByteString :=
  text "\x7b" ++ commaLoop true (pairs.map memberToJson) ++ text "\x7d"

/-- No string of the value holds a raw control byte. -/
def valueEscaped : Value ByteString → Bool
  | .str s => s.all isEscaped
  | .null | .int _ => true

/-- Neither does the key. -/
def pairEscaped (pair : ByteString × Value ByteString) : Bool :=
  pair.1.all isEscaped && valueEscaped pair.2

variable {rest : ByteString} {fuel : Nat}

theorem commaLoop_false_cons (piece : ByteString) (pieces : List ByteString) :
    commaLoop false (piece :: pieces) = 0x2c :: commaLoop true (piece :: pieces) := rfl

theorem commaLoop_true_cons (piece : ByteString) (pieces : List ByteString) :
    commaLoop true (piece :: pieces) = piece ++ commaLoop false pieces := rfl

/-- The pieces behind the first one start with a comma, or nothing is left but the end. -/
theorem closes_commaLoop {last : UInt8} (pieces : List ByteString)
    (h : last = 0x5d ∨ last = 0x7d) : Json.Closes (commaLoop false pieces ++ last :: rest) := by
  cases pieces with
  | nil => exact ⟨last, rest, rfl, .inr h⟩
  | cons piece pieces => exact ⟨0x2c, _, rfl, .inl rfl⟩

theorem parseValue_valueToJson (v : Value ByteString) (closes : Json.Closes rest) :
    Json.parseValue (fuel + 1) (valueToJson v ++ rest) =
      if valueEscaped v then some (valueJson v, rest) else none := by
  cases v with
  | null => rfl
  | int n => exact Json.parseValue_decimalInt n.toInt closes
  | str s =>
      have hquote : valueToJson (.str s) ++ rest = 0x22 :: (escapeJson s ++ 0x22 :: rest) := by
        change (text "\"" ++ escapeJson s ++ text "\"") ++ rest = _
        rw [List.append_assoc, List.append_assoc]
        rfl
      rw [hquote]
      change (Json.parseChars (escapeJson s ++ 0x22 :: rest)).map _ = _
      rw [parseChars_escapeJson]
      by_cases h : s.all isEscaped <;> simp [h, valueEscaped, valueJson]

/-- One member of an object. -/
theorem parseMembers_memberToJson (pair : ByteString × Value ByteString)
    (closes : Json.Closes rest) :
    Json.parseMembers (fuel + 2) (memberToJson pair ++ rest) =
      if pairEscaped pair then
        match Json.skipSpace rest with
        | 0x2c :: rest => do
            let (members, after) ← Json.parseMembers (fuel + 1) rest
            pure (pairJson pair :: members, after)
        | 0x7d :: after => pure ([pairJson pair], after)
        | _ => none
      else none := by
  obtain ⟨key, v⟩ := pair
  have hmember : memberToJson (key, v) ++ rest =
      0x22 :: (escapeJson key ++ 0x22 :: 0x3a :: (valueToJson v ++ rest)) := by
    unfold memberToJson
    rw [List.append_assoc, List.append_assoc, List.append_assoc]
    rfl
  rw [hmember]
  unfold Json.parseMembers
  change (Json.parseChars (escapeJson key ++ 0x22 :: 0x3a :: (valueToJson v ++ rest))).bind _ = _
  rw [parseChars_escapeJson]
  by_cases hkey : key.all isEscaped
  · rw [if_pos hkey]
    change (Json.parseValue (fuel + 1) (valueToJson v ++ rest)).bind _ = _
    rw [parseValue_valueToJson v closes]
    by_cases hv : valueEscaped v
    · rw [if_pos hv, if_pos (by simp [pairEscaped, hkey, hv])]
      rfl
    · rw [if_neg hv, if_neg (by simp [pairEscaped, hv])]
      rfl
  · rw [if_neg hkey, if_neg (by simp [pairEscaped, hkey])]
    rfl

/-- The members of a row. -/
theorem parseMembers_pairs : ∀ {pairs : List (ByteString × Value ByteString)} {fuel : Nat},
    pairs ≠ [] → pairs.length + 1 ≤ fuel →
      Json.parseMembers fuel (commaLoop true (pairs.map memberToJson) ++ 0x7d :: rest) =
        if pairs.all pairEscaped then some (pairs.map pairJson, rest) else none := by
  intro pairs
  induction pairs with
  | nil => exact fun h => absurd rfl h
  | cons pair pairs ih =>
      intro fuel _ enough
      obtain ⟨fuel, rfl⟩ := Nat.exists_eq_add_of_le' enough
      have hlength : (pair :: pairs).length = pairs.length + 1 := rfl
      have hfuel : fuel + ((pair :: pairs).length + 1) = fuel + pairs.length + 2 := by omega
      rw [hfuel, List.map_cons, commaLoop_true_cons, List.append_assoc,
        parseMembers_memberToJson pair (closes_commaLoop _ (.inr rfl)), List.all_cons]
      by_cases hpair : pairEscaped pair
      · rw [if_pos hpair, hpair, Bool.true_and]
        cases pairs with
        | nil => rfl
        | cons next pairs =>
            rw [List.map_cons, commaLoop_false_cons, ← List.map_cons, List.cons_append]
            change (Json.parseMembers (fuel + (next :: pairs).length + 1) (commaLoop true
              ((next :: pairs).map memberToJson) ++ 0x7d :: rest)).bind _ = _
            rw [ih (by simp) (by omega)]
            by_cases h : (next :: pairs).all pairEscaped
            · rw [if_pos h, if_pos h]
              rfl
            · rw [if_neg h, if_neg h]
              rfl
      · rw [if_neg hpair, if_neg (by simp [hpair])]

theorem length_le_commaLoop (pairs : List (ByteString × Value ByteString)) (first : Bool) :
    pairs.length ≤ (commaLoop first (pairs.map memberToJson)).length := by
  induction pairs generalizing first with
  | nil => exact Nat.zero_le _
  | cons pair pairs ih =>
      have hmember : 0 < (memberToJson pair).length := Nat.succ_pos _
      have := ih false
      rw [List.map_cons]
      unfold commaLoop
      rw [List.length_append, List.length_append, List.length_cons]
      omega

theorem length_rowText (pairs : List (ByteString × Value ByteString)) :
    pairs.length + 2 ≤ (rowText pairs).length := by
  have := length_le_commaLoop pairs true
  have hopen : (text "\x7b").length = 1 := rfl
  have hclose : (text "\x7d").length = 1 := rfl
  unfold rowText
  rw [List.length_append, List.length_append]
  omega

/-- One row. -/
theorem parseValue_rowText {pairs : List (ByteString × Value ByteString)}
    (enough : pairs.length + 2 ≤ fuel) :
    Json.parseValue fuel (rowText pairs ++ rest) =
      if pairs.all pairEscaped then some (rowJson pairs, rest) else none := by
  obtain ⟨fuel, rfl⟩ := Nat.exists_eq_add_of_le' enough
  cases pairs with
  | nil => rfl
  | cons pair pairs =>
      have hrow : rowText (pair :: pairs) ++ rest =
          0x7b :: (commaLoop true ((pair :: pairs).map memberToJson) ++ 0x7d :: rest) := by
        unfold rowText
        rw [List.append_assoc, List.append_assoc]
        rfl
      rw [hrow]
      change (Json.parseMembers (fuel + (pair :: pairs).length + 1) _).map _ = _
      rw [parseMembers_pairs (by simp) (by omega)]
      by_cases h : (pair :: pairs).all pairEscaped
      · rw [if_pos h, if_pos h]
        rfl
      · rw [if_neg h, if_neg h]
        rfl

/-- The rows of the array. -/
theorem parseElements_rows : ∀ {rows : List (List (ByteString × Value ByteString))} {fuel : Nat},
    rows ≠ [] → (commaLoop true (rows.map rowText)).length + 1 ≤ fuel →
      Json.parseElements fuel (commaLoop true (rows.map rowText) ++ 0x5d :: rest) =
        if rows.all (·.all pairEscaped) then some (rows.map rowJson, rest) else none := by
  intro rows
  induction rows with
  | nil => exact fun h => absurd rfl h
  | cons row rows ih =>
      intro fuel _ enough
      have hrow := length_rowText row
      rw [List.map_cons, commaLoop_true_cons, List.length_append] at enough
      obtain ⟨fuel, rfl⟩ := Nat.exists_eq_add_of_le' (Nat.le_trans (by omega) enough : 1 ≤ fuel)
      rw [List.map_cons, commaLoop_true_cons, List.append_assoc, List.all_cons]
      unfold Json.parseElements
      change (Json.parseValue fuel _).bind _ = _
      rw [parseValue_rowText (by omega)]
      by_cases hescaped : row.all pairEscaped
      · rw [if_pos hescaped, hescaped, Bool.true_and]
        cases rows with
        | nil => rfl
        | cons next rows =>
            rw [List.map_cons, commaLoop_false_cons, List.length_cons] at enough
            rw [List.map_cons, commaLoop_false_cons, ← List.map_cons, List.cons_append]
            change (Json.parseElements fuel (commaLoop true ((next :: rows).map rowText) ++
              0x5d :: rest)).bind _ = _
            rw [ih (by simp) (by rw [List.map_cons]; omega)]
            by_cases h : (next :: rows).all (·.all pairEscaped)
            · rw [if_pos h, if_pos h]
              rfl
            · rw [if_neg h, if_neg h]
              rfl
      · rw [if_neg hescaped, if_neg (by simp [hescaped])]
        rfl

/-- The whole text. -/
theorem decode_rows (rows : List (List (ByteString × Value ByteString))) :
    Json.decode (text "[" ++ commaLoop true (rows.map rowText) ++ text "]") =
      if rows.all (·.all pairEscaped) then some (.arr (rows.map rowJson)) else none := by
  cases rows with
  | nil => rfl
  | cons row rows =>
      have htext : text "[" ++ commaLoop true ((row :: rows).map rowText) ++ text "]" =
          0x5b :: (commaLoop true ((row :: rows).map rowText) ++ 0x5d :: []) := by
        rw [List.append_assoc]
        rfl
      have harray : Json.parseValue
          (2 * (0x5b :: (commaLoop true ((row :: rows).map rowText) ++ 0x5d :: [])).length + 2)
          (0x5b :: (commaLoop true ((row :: rows).map rowText) ++ 0x5d :: [])) =
            (Json.parseElements
              (2 * (0x5b :: (commaLoop true ((row :: rows).map rowText) ++ 0x5d :: [])).length + 1)
              (commaLoop true ((row :: rows).map rowText) ++ 0x5d :: [])).map
                fun r => (.arr r.1, r.2) := rfl
      rw [htext]
      unfold Json.decode
      rw [harray, parseElements_rows (by simp)
        (by simp only [List.length_cons, List.length_append]; omega)]
      by_cases h : (row :: rows).all (·.all pairEscaped)
      · rw [if_pos h, if_pos h]
        rfl
      · rw [if_neg h, if_neg h]
        rfl

/-! ## The law -/

section Pairs

variable {schema : TableSchema ByteString} {cmd : SelectCmd} {row : Row ByteString}
  {pairs : List (ByteString × Value ByteString)}

/-- `SELECT *` prints the names of the columns with the values of the row. -/
theorem rowPairs_star (star : cmd.star = true) (arity : row.length = schema.columnCount) :
    rowPairs schema cmd row = .ok ((schema.columns.map ColumnDef.name).zip row) := by
  have hall : ∀ (columns : List (ColumnDef ByteString)) (before after : Row ByteString),
      after.length = columns.length →
      ((columns.zipIdx before.length).mapM fun (col, i) => do
        let value ← vectorAt (before ++ after) i
        pure (col.name, value) : Except Fault (List (ByteString × Value ByteString))) =
        .ok ((columns.map ColumnDef.name).zip after) := by
    intro columns
    induction columns with
    | nil => exact fun _ _ _ => rfl
    | cons col columns ih =>
        intro before after hlength
        cases after with
        | nil => cases hlength
        | cons value after =>
            have hvalue : vectorAt (before ++ value :: after) before.length = .ok value := by
              rw [vectorAt, List.getElem?_append_right (le_refl _), Nat.sub_self]
              rfl
            have hrest := ih (before ++ [value]) after (Nat.succ.inj hlength)
            rw [List.length_append, List.length_singleton, List.append_assoc,
              List.singleton_append] at hrest
            rw [List.zipIdx_cons, List.mapM_cons]
            dsimp only
            rw [hvalue, hrest]
            rfl
  rw [rowPairs, if_pos star]
  exact hall schema.columns [] row arity

/-- One printed column. -/
theorem printedColumn_eq_ok_iff (arity : row.length = schema.columnCount) {col : SelectColumn}
    {pair : ByteString × Value ByteString} :
    (do
      let idx ← schema.indexOf col.name
      let key := if col.alias_.isEmpty then col.name else col.alias_
      let value ← vectorAt row idx
      pure (key, value) : Except Fault (ByteString × Value ByteString)) = .ok pair ↔
      pair.1 = (if col.alias_ = [] then col.name else col.alias_) ∧
        (col.name, pair.2) ∈ (schema.columns.map ColumnDef.name).zip row := by
  have hzip : ∀ v, (col.name, v) ∈ (schema.columns.map ColumnDef.name).zip row ↔
      ∃ i, schema.findIndex col.name = some i ∧ row[i]? = some v := by
    intro v
    rw [List.mem_iff_getElem?]
    refine exists_congr fun i => ?_
    rw [List.getElem?_zip_eq_some, List.getElem?_map, Option.map_eq_some_iff,
      TableSchema.findIndex_eq_some_iff]
  rw [hzip]
  unfold TableSchema.indexOf
  cases hindex : schema.findIndex col.name with
  | none => simp [raise, bind, Except.bind]
  | some i =>
      have hlt : i < row.length := arity ▸ TableSchema.findIndex_lt hindex
      have hvalue : vectorAt row i = .ok row[i] :=
        vectorAt_eq_ok.mpr (List.getElem?_eq_getElem hlt)
      obtain ⟨key, value⟩ := pair
      simp only [bind, Except.bind, hvalue, pure, Except.pure, Except.ok.injEq, Prod.mk.injEq,
        List.isEmpty_iff, Option.some.injEq, exists_eq_left', List.getElem?_eq_getElem hlt]
      exact and_congr eq_comm Iff.rfl

/-- Otherwise every column of the list is printed under its alias, or its name if it has none,
with the value that stands under its name in the row. -/
theorem rowPairs_eq_ok_iff (star : cmd.star = false) (arity : row.length = schema.columnCount) :
    rowPairs schema cmd row = .ok pairs ↔
      List.Forall₂ (fun col pair => pair.1 = (if col.alias_ = [] then col.name else col.alias_) ∧
        (col.name, pair.2) ∈ (schema.columns.map ColumnDef.name).zip row) cmd.columns pairs := by
  rw [rowPairs, if_neg (by rw [star]; exact Bool.false_ne_true), mapM_eq_ok_iff]
  exact ⟨.imp fun _ _ => (printedColumn_eq_ok_iff arity).mp,
    .imp fun _ _ => (printedColumn_eq_ok_iff arity).mpr⟩

end Pairs

/-- The printed columns of the row of an id. -/
def Prints (table : Table ByteString ι) (cmd : SelectCmd) (id : RowId)
    (pairs : List (ByteString × Value ByteString)) : Prop :=
  ∃ row, table.rows.find? id = some row ∧ rowPairs table.schema cmd row = .ok pairs

/-- The loop of `execute_select` prints the rows that pass the filter, in order. -/
theorem selectObjects_eq_ok {regexMatch : RegexMatch} {table : Table ByteString ι}
    {cmd : SelectCmd} : ∀ {candidates : List RowId} {objects : List ByteString},
      selectObjects regexMatch table cmd candidates = .ok objects →
        ∃ ids rows, filterRows regexMatch table cmd.where_ candidates = .ok ids ∧
          List.Forall₂ (Prints table cmd) ids rows ∧ objects = rows.map rowText
  | [], objects, h => by
      obtain rfl := Except.ok.inj h
      exact ⟨[], [], rfl, .nil, rfl⟩
  | id :: candidates, objects, h => by
      unfold selectObjects at h
      unfold filterRows
      cases hrow : table.rows.find? id with
      | none =>
          rw [hrow] at h
          exact selectObjects_eq_ok h
      | some row =>
          rw [hrow] at h
          dsimp only at h ⊢
          cases hpass : passes regexMatch table row cmd.where_ with
          | error e =>
              rw [hpass] at h
              cases h
          | ok kept =>
              rw [hpass] at h
              cases kept with
              | false =>
                  obtain ⟨ids, rows, hids, hrows, hobjects⟩ := selectObjects_eq_ok h
                  rw [hids]
                  exact ⟨ids, rows, rfl, hrows, hobjects⟩
              | true =>
                  change (rowToJsonObject table.schema cmd row).bind _ = _ at h
                  unfold rowToJsonObject at h
                  cases hpairs : rowPairs table.schema cmd row with
                  | error e =>
                      rw [hpairs] at h
                      cases h
                  | ok pairs =>
                      rw [hpairs] at h
                      cases hmore : selectObjects regexMatch table cmd candidates with
                      | error e =>
                          change (selectObjects regexMatch table cmd candidates).bind _ = _ at h
                          rw [hmore] at h
                          cases h
                      | ok more =>
                          change (selectObjects regexMatch table cmd candidates).bind _ = _ at h
                          rw [hmore] at h
                          obtain rfl := Except.ok.inj h
                          obtain ⟨ids, rows, hids, hrows, rfl⟩ := selectObjects_eq_ok hmore
                          rw [hids]
                          exact ⟨id :: ids, pairs :: rows, rfl, .cons ⟨row, hrow, hpairs⟩ hrows, rfl⟩

/-- The text of a SELECT is a JSON array of the printed columns of the selected rows, exactly
when no printed name, alias or string holds a control byte other than newline, return
and tab. -/
theorem select_output_decodes_iff [IIndex ι ω] {regexMatch : RegexMatch}
    {table : Table ByteString ι} {w : ω} {cmd : SelectCmd} {out : ByteString} {usedIndex : Bool}
    (returned : executeSelect regexMatch table w cmd = .ok (out, usedIndex)) :
    ∃ candidates ids rows, collectCandidateRows table w cmd.where_ = .ok (candidates, usedIndex) ∧
      filterRows regexMatch table cmd.where_ candidates = .ok ids ∧
      List.Forall₂ (Prints table cmd) ids rows ∧
      (Json.decode out = some (.arr (rows.map rowJson)) ↔
        ∀ pairs ∈ rows, ∀ pair ∈ pairs, pairEscaped pair = true) := by
  unfold executeSelect at returned
  cases hcandidates : collectCandidateRows table w cmd.where_ with
  | error e =>
      rw [hcandidates] at returned
      cases returned
  | ok found =>
      obtain ⟨candidates, used⟩ := found
      rw [hcandidates] at returned
      change (selectObjects regexMatch table cmd candidates).bind _ = _ at returned
      cases hobjects : selectObjects regexMatch table cmd candidates with
      | error e =>
          rw [hobjects] at returned
          cases returned
      | ok objects =>
          rw [hobjects] at returned
          obtain ⟨rfl, rfl⟩ := Prod.mk.inj (Except.ok.inj returned)
          obtain ⟨ids, rows, hids, hrows, rfl⟩ := selectObjects_eq_ok hobjects
          refine ⟨candidates, ids, rows, rfl, hids, hrows, ?_⟩
          rw [decode_rows]
          by_cases h : rows.all (·.all pairEscaped)
          · rw [if_pos h]
            simpa using h
          · rw [if_neg h]
            simpa using h

section Instances

/-- A table of an INT and a STRING column. -/
private def people : TableState Nat MapStore :=
  ⟨Table.ofSchema (text "t")
    ⟨[{ name := text "id" }, { name := text "name", type := .str }], by decide, by decide⟩, []⟩

private def selectAll : SelectCmd :=
  { dbName := [], tableName := text "t", star := true, columns := [], where_ := none }

/-- `INSERT INTO t VALUE (5, "a\"b")`. -/
private def quoted : TableState Nat MapStore :=
  match insertRows [] [[some (.int 5), some (.str (text "a\"b"))]] people with
  | .ok _ s | .error _ s => s

/-- A quote is escaped. -/
theorem select_output_decodes_of_quote : ∃ out,
    executeSelect (fun _ _ => .ok false) quoted.table quoted.world selectAll = .ok (out, false) ∧
    Json.decode out =
      some (.arr [.obj [(text "id", .number 5 0), (text "name", .str (text "a\"b"))]]) := by
  have returned : executeSelect (fun _ _ => .ok false) quoted.table quoted.world selectAll =
      .ok (text "[\x7b\"id\":5,\"name\":\"a\\\"b\"\x7d]", false) := by decide +kernel
  refine ⟨_, returned, ?_⟩
  obtain ⟨candidates, ids, rows, hcandidates, hids, hrows, hiff⟩ :=
    select_output_decodes_iff returned
  obtain rfl : [1] = candidates := congrArg Prod.fst (Except.ok.inj hcandidates)
  obtain rfl : [1] = ids := Except.ok.inj hids
  have hstored : quoted.table.rows.find? 1 = some [.int 5, .str (text "a\"b")] := by decide +kernel
  cases hrows with
  | cons hfirst hrest =>
      cases hrest
      obtain ⟨row, hrow, hpairs⟩ := hfirst
      obtain rfl := Option.some.inj (hstored.symm.trans hrow)
      obtain rfl := Except.ok.inj hpairs
      exact hiff.mpr (by decide +kernel)

/-- `INSERT INTO t VALUE (5, "\x01")`. -/
private def controlled : TableState Nat MapStore :=
  match insertRows [] [[some (.int 5), some (.str [0x01])]] people with
  | .ok _ s | .error _ s => s

/-- The byte 1 stands raw in the output, which is no JSON text. -/
theorem control_byte_left_raw : ∃ out,
    insertRows [] [[some (.int 5), some (.str [0x01])]] people = .ok ⟨⟩ controlled ∧
    executeSelect (fun _ _ => .ok false) controlled.table controlled.world selectAll =
      .ok (out, false) ∧ (Json.decode out).isNone = true :=
  ⟨text "[\x7b\"id\":5,\"name\":\"" ++ [0x01] ++ text "\"\x7d]", rfl, by decide +kernel,
    by decide +kernel⟩

end Instances
end CwDb.Executor
