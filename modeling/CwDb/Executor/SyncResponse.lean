/-
  Executor/SyncResponse.lean --- what a client is answered at once.
-/
import CwDb.Cpp.Quoted
import CwDb.Executor.AsyncExecutor
import CwDb.Executor.JsonResponse
import CwDb.Executor.RequestApi
import CwDb.Executor.SelectOutput

set_option autoImplicit false

namespace CwDb.Executor

open CwDb.Cpp
open CwDb.Foundation
open CwDb.Sql
open CwDb.Storage

/-- `ExecutorService::executeSync`, on what the handler does: the body of the `try` and the
answer. -/
def executeSync (outcome : Outcome) : ByteString :=
  match outcome with
  | .error what => buildSyncResponse (text "ERROR: " ++ what) ReturnCode.error.toInt
  | .ok responseBody =>
      let trimmed := trim responseBody
      if trimmed.head? = some 0x5b then trimmed
      else buildSyncResponse responseBody ReturnCode.ok.toInt

/-! ## The two escapes -/

theorem escapes_escapeByte : Escapes escapeByte where
  quote := rfl
  other := by
    intro c hquote
    unfold escapeByte
    rw [if_neg hquote]
    by_cases hslash : c = 0x5c
    · exact .inr ⟨[0x5c], if_pos hslash, by decide⟩
    rw [if_neg hslash]
    by_cases hn : c = 0x0a
    · exact .inr ⟨[0x6e], if_pos hn, by decide⟩
    rw [if_neg hn]
    by_cases hr : c = 0x0d
    · exact .inr ⟨[0x72], if_pos hr, by decide⟩
    rw [if_neg hr]
    by_cases ht : c = 0x09
    · exact .inr ⟨[0x74], if_pos ht, by decide⟩
    exact .inl ⟨if_neg ht, hslash⟩

theorem escapes_escapeJsonByte : Escapes escapeJsonByte where
  quote := rfl
  other := by
    intro c hquote
    unfold escapeJsonByte
    rw [if_neg hquote]
    by_cases hslash : c = 0x5c
    · exact .inr ⟨[0x5c], if_pos hslash, by decide⟩
    rw [if_neg hslash]
    by_cases hb : c = 0x08
    · exact .inr ⟨[0x62], if_pos hb, by decide⟩
    rw [if_neg hb]
    by_cases hf : c = 0x0c
    · exact .inr ⟨[0x66], if_pos hf, by decide⟩
    rw [if_neg hf]
    by_cases hn : c = 0x0a
    · exact .inr ⟨[0x6e], if_pos hn, by decide⟩
    rw [if_neg hn]
    by_cases hr : c = 0x0d
    · exact .inr ⟨[0x72], if_pos hr, by decide⟩
    rw [if_neg hr]
    by_cases ht : c = 0x09
    · exact .inr ⟨[0x74], if_pos ht, by decide⟩
    rw [if_neg ht]
    by_cases hcontrol : c < 0x20
    · refine .inr ⟨0x75 :: formatHex 4 c.toNat, if_pos hcontrol, ?_⟩
      intro hmem
      rcases List.mem_cons.mp hmem with h | h
      · revert h
        decide
      · have := isHexLower_of_mem_formatHex _ h
        revert this
        decide
    · exact .inl ⟨if_neg hcontrol, hslash⟩

/-! ## The text of a SELECT -/

/-- The text that `execute_select` makes of the printed columns of the selected rows. -/
def rowsText (rows : List (List (ByteString × Value ByteString))) : ByteString :=
  text "[" ++ commaLoop true (rows.map rowText) ++ text "]"

/-- The rows that pass the filter are printed. -/
theorem selectObjects_of_prints {ι : Type} {regexMatch : RegexMatch} {table : Table ByteString ι}
    {cmd : SelectCmd} {candidates ids : List RowId}
    {rows : List (List (ByteString × Value ByteString))}
    (filtered : filterRows regexMatch table cmd.where_ candidates = .ok ids)
    (prints : List.Forall₂ (Prints table cmd) ids rows) :
    selectObjects regexMatch table cmd candidates = .ok (rows.map rowText) := by
  induction candidates generalizing ids rows with
  | nil =>
      obtain rfl : [] = ids := Except.ok.inj filtered
      cases prints
      rfl
  | cons id candidates ih =>
      unfold filterRows at filtered
      unfold selectObjects
      cases hrow : table.rows.find? id with
      | none =>
          rw [hrow] at filtered
          exact ih filtered prints
      | some row =>
          rw [hrow] at filtered
          dsimp only at filtered ⊢
          cases hpass : passes regexMatch table row cmd.where_ with
          | error fault =>
              rw [hpass] at filtered
              cases filtered
          | ok kept =>
              rw [hpass] at filtered
              change (filterRows regexMatch table cmd.where_ candidates >>= _) = _ at filtered
              cases hmore : filterRows regexMatch table cmd.where_ candidates with
              | error fault =>
                  rw [hmore] at filtered
                  cases filtered
              | ok more =>
                  rw [hmore] at filtered
                  obtain rfl : (if kept then id :: more else more) = ids := Except.ok.inj filtered
                  cases kept with
                  | false => exact ih hmore prints
                  | true =>
                      rw [if_pos rfl] at prints
                      cases prints with
                      | cons first rest =>
                          obtain ⟨row', hrow', hpairs⟩ := first
                          obtain rfl := Option.some.inj (hrow.symm.trans hrow')
                          change (rowToJsonObject table.schema cmd row >>= fun object =>
                            selectObjects regexMatch table cmd candidates >>= fun more =>
                              pure (object :: more)) = _
                          unfold rowToJsonObject
                          rw [hpairs, ih hmore rest]
                          rfl

/-- The array is the answer. -/
theorem executeSync_rowsText (rows : List (List (ByteString × Value ByteString))) :
    executeSync (.ok (rowsText rows)) = rowsText rows := by
  have hhead : (rowsText rows).head? = some 0x5b := rfl
  have hlast : (rowsText rows).getLast? = some 0x5d := List.getLast?_concat
  have htrim : trim (rowsText rows) = rowsText rows :=
    trim_eq_self hhead hlast (by decide) (by decide)
  unfold executeSync
  dsimp only
  rw [htrim, if_pos hhead]

/-! ## Searching the text of a SELECT -/

/-- The bytes before, between and behind the members hold no quote. -/
theorem quote_not_mem_valueToJson {v : Value ByteString} (h : ∀ s, v ≠ .str s) :
    0x22 ∉ valueToJson v := by
  cases v with
  | null => decide
  | str s => exact absurd rfl (h s)
  | int n =>
      intro hmem
      change 0x22 ∈ decimalInt n.toInt at hmem
      unfold decimalInt at hmem
      have hdigits : 0x22 ∉ decimal n.toInt.natAbs := by
        intro hdigit
        have := isDigit_of_mem_decimal _ hdigit
        revert this
        decide
      split at hmem
      · rcases List.mem_append.mp hmem with hsign | hdigit
        · revert hsign
          decide
        · exact hdigits hdigit
      · exact hdigits hmem

section Scan

variable {β : Type} {f : ByteString → β} {step : ByteString × Value ByteString → β → β}

/-- A reading of texts that passes over what holds no quote. -/
structure Scans (f : ByteString → β) (step : ByteString × Value ByteString → β → β) : Prop where
  skip : ∀ s rest, 0x22 ∉ s → f (s ++ rest) = f rest
  member : ∀ pair rest, Json.Closes rest → f (memberToJson pair ++ rest) = step pair (f rest)

theorem Scans.cons (scans : Scans f step) {c : UInt8} (hc : (0x22 : UInt8) ≠ c)
    (rest : ByteString) : f (c :: rest) = f rest :=
  scans.skip [c] rest (by simpa using hc)

theorem Scans.members (scans : Scans f step) (pairs : List (ByteString × Value ByteString))
    (first : Bool) (rest : ByteString) :
    f (commaLoop first (pairs.map memberToJson) ++ 0x7d :: rest) = pairs.foldr step (f rest) := by
  induction pairs generalizing first with
  | nil => exact scans.cons (by decide) rest
  | cons pair pairs ih =>
      have htrue : f (commaLoop true ((pair :: pairs).map memberToJson) ++ 0x7d :: rest) =
          (pair :: pairs).foldr step (f rest) := by
        rw [List.map_cons, commaLoop_true_cons, List.append_assoc,
          scans.member pair _ (closes_commaLoop _ (.inr rfl)), ih false]
        rfl
      cases first with
      | true => exact htrue
      | false =>
          rw [List.map_cons, commaLoop_false_cons, ← List.map_cons, List.cons_append,
            scans.cons (by decide)]
          exact htrue

theorem Scans.row (scans : Scans f step) (pairs : List (ByteString × Value ByteString))
    (rest : ByteString) : f (rowText pairs ++ rest) = pairs.foldr step (f rest) := by
  have hrow : rowText pairs ++ rest =
      0x7b :: (commaLoop true (pairs.map memberToJson) ++ 0x7d :: rest) := by
    unfold rowText
    rw [List.append_assoc, List.append_assoc]
    rfl
  rw [hrow, scans.cons (by decide), scans.members]

theorem Scans.rows (scans : Scans f step)
    (rows : List (List (ByteString × Value ByteString))) (first : Bool) (rest : ByteString) :
    f (commaLoop first (rows.map rowText) ++ rest) = rows.flatten.foldr step (f rest) := by
  induction rows generalizing first with
  | nil => rfl
  | cons row rows ih =>
      have htrue : f (commaLoop true ((row :: rows).map rowText) ++ rest) =
          (row :: rows).flatten.foldr step (f rest) := by
        rw [List.map_cons, commaLoop_true_cons, List.append_assoc, scans.row, ih false,
          List.flatten_cons, List.foldr_append]
      cases first with
      | true => exact htrue
      | false =>
          rw [List.map_cons, commaLoop_false_cons, ← List.map_cons, List.cons_append,
            scans.cons (by decide)]
          exact htrue

/-- A reading of the whole text goes through the members in order. -/
theorem Scans.rowsText (scans : Scans f step)
    (rows : List (List (ByteString × Value ByteString))) :
    f (rowsText rows) = rows.flatten.foldr step (f []) := by
  have hclose : f (text "]") = f [] := scans.cons (by decide) []
  unfold CwDb.Executor.rowsText
  rw [List.append_assoc, ← hclose, ← scans.rows rows true]
  exact scans.cons (by decide) _

end Scan
end CwDb.Executor
