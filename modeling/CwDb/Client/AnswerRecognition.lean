/-
  Client/AnswerRecognition.lean --- which answers of a SELECT the client takes for the
  acceptance of a request.

  The markers of an acceptance are a name between quotes and what follows it.  In the
  text of a SELECT they can only come from a member: its key ends in the name, and its
  value follows.
-/
import CwDb.Client.Protocol
import CwDb.Executor.Service
import CwDb.Executor.SyncResponse

set_option autoImplicit false

namespace CwDb.Client

open CwDb.Cpp
open CwDb.Executor
open CwDb.Foundation
open CwDb.Sql
open CwDb.Storage

/-! ## The client -/

/-- What a server answers to the last of the commands it has been sent. -/
abbrev Server : Type := List ByteString → ByteString

/-- `Client::send`; the state is the commands sent so far. -/
def send (server : Server) (query : ByteString) : StateM (List ByteString) ByteString := do
  modify fun sent => sent ++ [query]
  let sent ← get
  pure (server sent)

/-- The loop of `sendAndWait`. -/
def pollLoop (server : Server) (response requestId : ByteString) :
    (attempts : Nat) → StateM (List ByteString) ByteString
  | 0 => pure response
  | attempts + 1 => do
      let resultJson ← send server (text "GET RESULT " ++ requestId ++ text ";")
      if isResultReady resultJson then pure resultJson
      else pollLoop server response requestId attempts

/-- `sendAndWait`, but for the time it sleeps. -/
def sendAndWait (server : Server) (command : ByteString) (maxPolls : Int := 50) :
    StateM (List ByteString) ByteString := do
  let response ← send server command
  if isAsyncAccepted response then
    match extractRequestId response with
    | none => pure response
    | some requestId => pollLoop server response requestId maxPolls.toNat
  else pure response

variable {server : Server} {command response requestId : ByteString} {sent : List ByteString}
  {maxPolls : Int}

/-- Polling only adds to the commands. -/
theorem length_le_pollLoop (attempts : Nat) :
    sent.length ≤ ((pollLoop server response requestId attempts).run sent).2.length := by
  induction attempts generalizing sent with
  | zero => exact Nat.le_refl _
  | succ attempts ih =>
      have hsent : sent.length ≤
          (sent ++ [text "GET RESULT " ++ requestId ++ text ";"]).length := by simp
      change sent.length ≤ (((if isResultReady _ then pure _ else
        pollLoop server response requestId attempts) :
          StateM (List ByteString) ByteString).run _).2.length
      split
      · exact hsent
      · exact Nat.le_trans hsent ih

/-- An answer is returned as it is, and nothing more is sent, unless it is taken for an
acceptance with an id. -/
theorem sendAndWait_eq_iff : (sendAndWait server command maxPolls).run sent =
      (server (sent ++ [command]), sent ++ [command]) ↔
    ¬ (0 < maxPolls ∧ isAsyncAccepted (server (sent ++ [command])) = true ∧
      (extractRequestId (server (sent ++ [command]))).isSome = true) := by
  generalize hresponse : server (sent ++ [command]) = response
  have hrun : (sendAndWait server command maxPolls).run sent =
      ((if isAsyncAccepted response then
        match extractRequestId response with
        | none => pure response
        | some requestId => pollLoop server response requestId maxPolls.toNat
      else pure response) : StateM (List ByteString) ByteString).run (sent ++ [command]) := by
    rw [← hresponse]
    rfl
  rw [hrun]
  cases haccepted : isAsyncAccepted response with
  | false => exact ⟨fun _ h => Bool.false_ne_true h.2.1, fun _ => rfl⟩
  | true =>
      cases hid : extractRequestId response with
      | none => exact ⟨fun _ h => Bool.false_ne_true h.2.2, fun _ => rfl⟩
      | some requestId =>
          change (pollLoop server response requestId maxPolls.toNat).run _ = _ ↔ _
          cases hpolls : maxPolls.toNat with
          | zero =>
              have hnone : ¬ 0 < maxPolls := by omega
              exact ⟨fun _ h => hnone h.1, fun _ => rfl⟩
          | succ attempts =>
              have hsome : 0 < maxPolls := by omega
              refine ⟨fun h => ?_, fun h => absurd ⟨hsome, rfl, rfl⟩ h⟩
              -- one poll has been sent, and commands stay sent
              have hlength := congrArg (fun result => result.2.length) h
              have hpoll : (sent ++ [command]).length <
                  ((pollLoop server response requestId (attempts + 1)).run
                    (sent ++ [command])).2.length := by
                have hsent : (sent ++ [command]).length < (sent ++ [command] ++
                    [text "GET RESULT " ++ requestId ++ text ";"]).length := by simp
                change _ < (((if isResultReady _ then pure _ else
                  pollLoop server response requestId attempts) :
                    StateM (List ByteString) ByteString).run _).2.length
                split
                · exact hsent
                · exact Nat.lt_of_lt_of_le hsent (length_le_pollLoop attempts)
              exact absurd hlength (Nat.ne_of_gt hpoll)

/-! ## Members -/

section Member

variable {name tail rest : ByteString} {v : Value ByteString}

/-- The name neither looks like an escape nor starts like what follows a string. -/
structure Marker (name : ByteString) : Prop where
  plain : Plain escapeByte name
  starts : ∃ c s, name = c :: s ∧ c ≠ 0x3a ∧ c ≠ 0x2c ∧ c ≠ 0x5d ∧ c ≠ 0x7d

/-- What follows a string does not start with the name. -/
theorem Marker.apart (marker : Marker name) {c : UInt8} {s : ByteString}
    (h : c = 0x3a ∨ c = 0x2c ∨ c = 0x5d ∨ c = 0x7d) : ¬ name ++ 0x22 :: tail <+: c :: s := by
  obtain ⟨d, t, rfl, hcolon, hcomma, hbracket, hbrace⟩ := marker.starts
  rw [List.cons_append, List.cons_prefix_cons]
  rintro ⟨rfl, -⟩
  rcases h with h | h | h | h
  · exact hcolon h
  · exact hcomma h
  · exact hbracket h
  · exact hbrace h

theorem valueToJson_str_append (s rest : ByteString) :
    valueToJson (.str s) ++ rest = 0x22 :: (escapeJson s ++ 0x22 :: rest) := by
  change (text "\"" ++ escapeJson s ++ text "\"") ++ rest = _
  rw [List.append_assoc, List.append_assoc]
  rfl

/-- A value is passed over. -/
theorem afterFind_value (marker : Marker name) (closes : Json.Closes rest) :
    afterFind (valueToJson v ++ rest) (0x22 :: (name ++ 0x22 :: 0x3a :: tail)) =
      afterFind rest (0x22 :: (name ++ 0x22 :: 0x3a :: tail)) := by
  cases v with
  | null => exact afterFind_append (quote_not_mem_valueToJson nofun)
  | int n => exact afterFind_append (quote_not_mem_valueToJson nofun)
  | str s =>
      have hvalue : valueToJson (.str s) ++ rest = 0x22 :: (s.flatMap escapeByte ++ 0x22 :: rest) :=
        valueToJson_str_append s rest
      obtain ⟨c, after, rfl, hc⟩ := closes
      have hcolon : ¬ 0x3a :: tail <+: c :: after := by
        rw [List.cons_prefix_cons]
        rintro ⟨rfl, -⟩
        revert hc
        decide
      rw [hvalue, afterFind_string escapes_escapeByte marker.plain (marker.apart (.inr hc)),
        if_neg fun h => hcolon h.2]

/-- A member holds the marker when its key ends in the name and its value goes on with it. -/
theorem afterFind_member (marker : Marker name) (closes : Json.Closes rest) (key : ByteString) :
    afterFind (memberToJson (key, v) ++ rest) (0x22 :: (name ++ 0x22 :: 0x3a :: tail)) =
      if EndsIn name key ∧ tail <+: valueToJson v ++ rest then
        some ((valueToJson v ++ rest).drop tail.length)
      else afterFind rest (0x22 :: (name ++ 0x22 :: 0x3a :: tail)) := by
  have hmember : memberToJson (key, v) ++ rest =
      0x22 :: (key.flatMap escapeByte ++ 0x22 :: 0x3a :: (valueToJson v ++ rest)) := by
    change (text "\"" ++ escapeJson key ++ text "\":" ++ valueToJson v) ++ rest = _
    rw [List.append_assoc, List.append_assoc, List.append_assoc]
    rfl
  rw [hmember, afterFind_string escapes_escapeByte marker.plain (marker.apart (.inl rfl))]
  simp only [List.cons_prefix_cons, true_and, List.length_cons, List.drop_succ_cons]
  rw [afterFind_cons_of_ne (by decide), afterFind_value marker closes]

end Member

/-! ## The two markers -/

theorem marker_mode : Marker (text "mode") :=
  ⟨by unfold Plain; decide +kernel, _, _, rfl, by decide, by decide, by decide, by decide⟩

theorem marker_request_id : Marker (text "request_id") :=
  ⟨by unfold Plain; decide +kernel, _, _, rfl, by decide, by decide, by decide, by decide⟩

/-- A printed column that reads like the mode of an acceptance. -/
def IsModeAsync (pair : ByteString × Value ByteString) : Prop :=
  EndsIn (text "mode") pair.1 ∧ pair.2 = .str (text "async")

instance (pair : ByteString × Value ByteString) : Decidable (IsModeAsync pair) :=
  inferInstanceAs (Decidable (_ ∧ _))

/-- The id in a printed column that reads like that of an acceptance. -/
def requestIdText (pair : ByteString × Value ByteString) : Option ByteString :=
  if EndsIn (text "request_id") pair.1 then
    match pair.2 with
    | .str s => some s
    | .null | .int _ => none
  else none

/-- Only a string starts with a quote. -/
theorem not_isPrefix_value {t rest : ByteString} {v : Value ByteString} (h : ∀ s, v ≠ .str s) :
    ¬ 0x22 :: t <+: valueToJson v ++ rest := by
  have hquote := quote_not_mem_valueToJson h
  have hcons : valueToJson v ≠ [] := by
    cases v with
    | null => decide
    | str s => exact absurd rfl (h s)
    | int n =>
        obtain ⟨c, digits, hdecimal, -⟩ := exists_decimal_cons (n := n.toInt.natAbs)
        change decimalInt n.toInt ≠ []
        unfold decimalInt
        rw [hdecimal]
        split <;> simp
  obtain ⟨c, s, hvalue⟩ := List.exists_cons_of_ne_nil hcons
  rw [hvalue] at hquote ⊢
  rw [List.cons_append, List.cons_prefix_cons]
  rintro ⟨rfl, -⟩
  exact hquote List.mem_cons_self

/-- A value that starts with a plain text between quotes is that text. -/
theorem quoted_isPrefix_value {name rest : ByteString} {v : Value ByteString}
    (plain : Plain escapeByte name) :
    0x22 :: (name ++ [0x22]) <+: valueToJson v ++ rest ↔ v = .str name := by
  cases v with
  | null => exact ⟨fun h => absurd h (not_isPrefix_value nofun), nofun⟩
  | int n => exact ⟨fun h => absurd h (not_isPrefix_value nofun), nofun⟩
  | str s =>
      rw [valueToJson_str_append, List.cons_prefix_cons]
      unfold escapeJson
      rw [name_quote_isPrefix escapes_escapeByte plain]
      simp

/-- The answer is taken for an acceptance when some member reads like the mode of one. -/
theorem scans_isAsyncAccepted :
    Scans isAsyncAccepted fun pair accepted => decide (IsModeAsync pair) || accepted := by
  have hneedle : text "\"mode\":\"async\"" =
      0x22 :: (text "mode" ++ 0x22 :: 0x3a :: 0x22 :: (text "async" ++ [0x22])) := by
    decide +kernel
  have hafter : ∀ s, isAsyncAccepted s = (afterFind s
      (0x22 :: (text "mode" ++ 0x22 :: 0x3a :: 0x22 :: (text "async" ++ [0x22])))).isSome := by
    intro s
    unfold isAsyncAccepted contains
    rw [isSome_afterFind, hneedle]
  constructor
  · intro s rest hquote
    rw [hafter, hafter, afterFind_append hquote]
  · rintro ⟨key, v⟩ rest closes
    have plain : Plain escapeByte (text "async") := by
      unfold Plain
      decide +kernel
    rw [hafter, hafter, afterFind_member marker_mode closes]
    simp only [quoted_isPrefix_value plain]
    change (if IsModeAsync (key, v) then _ else _ : Option ByteString).isSome = _
    by_cases h : IsModeAsync (key, v) <;> simp [h]

/-- Whether there is an id up to the next quote. -/
def readsIdFrom (s : ByteString) : Bool :=
  match find s [0x22] with
  | some stop => 0 < stop
  | none => false

/-- An id is read behind the first marker. -/
theorem isSome_extractRequestId (json : ByteString) : (extractRequestId json).isSome =
    (afterFind json (text "\"request_id\":\"")).elim false readsIdFrom := by
  unfold extractRequestId afterFind readsIdFrom
  dsimp only
  cases find json (text "\"request_id\":\"") with
  | none => rfl
  | some pos =>
      dsimp only [Option.map_some, Option.elim_some]
      generalize pos + (text "\"request_id\":\"").length = start
      have hfrom : findFrom json (text "\"") start =
          (find (json.drop start) [0x22]).map (· + start) := by
        unfold findFrom
        split
        · rfl
        · next hstart =>
            rw [List.drop_of_length_le (Nat.le_of_not_le hstart)]
            rfl
      rw [hfrom]
      cases find (json.drop start) [0x22] with
      | none => rfl
      | some stop =>
          cases stop with
          | zero => simp
          | succ stop => simp

/-- The text of a string is an id, unless it is empty. -/
theorem readsIdFrom_string (s rest : ByteString) :
    readsIdFrom (escapeJson s ++ 0x22 :: rest) = decide (s ≠ []) := by
  unfold readsIdFrom
  cases s with
  | nil =>
      change (match find (0x22 :: rest) [0x22] with
        | some stop => decide (0 < stop)
        | none => false) = _
      rw [find_of_isPrefix (by simp)]
      rfl
  | cons c s =>
      obtain ⟨d, t, hescape, hd⟩ : ∃ d t, escapeByte c = d :: t ∧ d ≠ 0x22 := by
        by_cases hquote : c = 0x22
        · exact ⟨0x5c, [0x22], by rw [hquote]; rfl, by decide⟩
        · rcases escapes_escapeByte.other c hquote with ⟨h, -⟩ | ⟨code, h, -⟩
          · exact ⟨c, [], h, hquote⟩
          · exact ⟨0x5c, code, h, by decide⟩
      have htext : escapeJson (c :: s) ++ 0x22 :: rest =
          d :: ((t ++ escapeJson s) ++ 0x22 :: rest) := by
        unfold escapeJson
        rw [List.flatMap_cons, hescape]
        simp
      have hsome : (find ((t ++ escapeJson s) ++ 0x22 :: rest) [0x22]).isSome = true := by
        apply isSome_find_append
        rw [find_of_isPrefix (by simp)]
        rfl
      obtain ⟨stop, hstop⟩ := Option.isSome_iff_exists.mp hsome
      have hhead : ¬ [0x22] <+: d :: ((t ++ escapeJson s) ++ 0x22 :: rest) := by
        rw [List.cons_prefix_cons]
        exact fun h => hd h.1.symm
      rw [htext, find_cons_of_not_isPrefix hhead, hstop]
      simp

/-- An id is read from the first member that reads like the id of an acceptance. -/
theorem scans_extractRequestId : Scans (fun s => (extractRequestId s).isSome)
    fun pair found => (requestIdText pair).elim found fun s => decide (s ≠ []) := by
  have hneedle : text "\"request_id\":\"" =
      0x22 :: (text "request_id" ++ 0x22 :: 0x3a :: [0x22]) := by decide +kernel
  constructor
  · intro s rest hquote
    rw [isSome_extractRequestId, isSome_extractRequestId, hneedle, afterFind_append hquote]
  · rintro ⟨key, v⟩ rest closes
    rw [isSome_extractRequestId, isSome_extractRequestId, hneedle,
      afterFind_member marker_request_id closes]
    unfold requestIdText
    by_cases hkey : EndsIn (text "request_id") key
    · cases v with
      | null =>
          have hquote : ¬ [0x22] <+: valueToJson .null ++ rest := not_isPrefix_value nofun
          rw [if_neg fun h => hquote h.2]
          simp
      | int n =>
          have hquote : ¬ [0x22] <+: valueToJson (.int n) ++ rest := not_isPrefix_value nofun
          rw [if_neg fun h => hquote h.2]
          simp
      | str s =>
          have hquote : [0x22] <+: valueToJson (.str s) ++ rest := by
            rw [valueToJson_str_append]
            simp
          rw [if_pos ⟨hkey, hquote⟩, if_pos hkey, valueToJson_str_append]
          exact readsIdFrom_string s rest
    · rw [if_neg fun h => hkey h.1, if_neg hkey]
      rfl

/-! ## The law -/

/-- Some printed column reads like the mode of an acceptance, and the first that reads like
its id holds a text that is not empty. -/
def ReadsLikeAcceptance (rows : List (List (ByteString × Value ByteString))) : Prop :=
  (∃ pair ∈ rows.flatten, IsModeAsync pair) ∧
    ∃ s, rows.flatten.findSome? requestIdText = some s ∧ s ≠ []

theorem isAsyncAccepted_rowsText (rows : List (List (ByteString × Value ByteString))) :
    isAsyncAccepted (rowsText rows) = true ↔ ∃ pair ∈ rows.flatten, IsModeAsync pair := by
  rw [scans_isAsyncAccepted.rowsText]
  induction rows.flatten with
  | nil => exact ⟨fun h => absurd h (by decide +kernel), fun ⟨_, h, _⟩ => nomatch h⟩
  | cons pair pairs ih => simp [ih]

theorem extractRequestId_rowsText (rows : List (List (ByteString × Value ByteString))) :
    (extractRequestId (rowsText rows)).isSome = true ↔
      ∃ s, rows.flatten.findSome? requestIdText = some s ∧ s ≠ [] := by
  rw [scans_extractRequestId.rowsText rows]
  induction rows.flatten with
  | nil => exact ⟨fun h => absurd h (by decide +kernel), fun ⟨_, h, _⟩ => nomatch h⟩
  | cons pair pairs ih =>
      rw [List.foldr_cons, List.findSome?_cons]
      cases hid : requestIdText pair with
      | none => exact ih
      | some s => simp

/-- An error is never taken for an acceptance. -/
theorem isAsyncAccepted_error (what : ByteString) :
    isAsyncAccepted (executeSync (.error what)) = false := by
  have hneedle : text "\"mode\":\"async\"" =
      0x22 :: (text "mode" ++ 0x22 :: text ":\"async\"") := by decide +kernel
  have plain : Plain escapeJsonByte (text "mode") := by
    unfold Plain
    decide +kernel
  have hresponse : executeSync (.error what) =
      text "\x7b\"mode\":\"sync\",\"status_code\":1,\"result\":" ++
        0x22 :: ((text "ERROR: " ++ what).flatMap escapeJsonByte ++ 0x22 :: text "\x7d") := by
    have hbegin : text "\x7b\"mode\":\"sync\",\"status_code\":1,\"result\":" =
        text "\x7b\"mode\":\"sync\",\"status_code\":" ++ decimalInt ReturnCode.error.toInt ++
          text ",\"result\":" := by decide +kernel
    have hfield : jsonOrStringField (text "ERROR: " ++ what) =
        0x22 :: ((text "ERROR: " ++ what).flatMap escapeJsonByte ++ [0x22]) := rfl
    rw [hbegin]
    unfold executeSync buildSyncResponse
    dsimp only
    rw [hfield, List.append_assoc _ _ (text "\x7d"), List.cons_append, List.append_assoc _ [0x22]]
    rfl
  have apart : ∀ u ∈ (text "\x7b\"mode\":\"sync\",\"status_code\":1,\"result\":").tails,
      u ≠ [] → ¬ u <+: text "\"mode\":\"async\"" ∧ ¬ text "\"mode\":\"async\"" <+: u := by
    decide +kernel
  unfold isAsyncAccepted contains
  rw [hresponse, find_append_of_apart apart, Option.isSome_map, ← isSome_afterFind, hneedle,
    afterFind_string escapes_escapeJsonByte plain (by decide +kernel),
    if_neg fun h => absurd h.2 (by decide +kernel)]
  decide +kernel

section Select

variable {ι ω : Type} [IIndex ι ω] {regexMatch : RegexMatch} {cmd : SelectCmd}
  {e e' : EngineState ι ω} {outcome : Outcome}

/-- The printed columns of the rows that a SELECT selects. -/
def Selects (regexMatch : RegexMatch) (cmd : SelectCmd) (e : EngineState ι ω)
    (rows : List (List (ByteString × Value ByteString))) : Prop :=
  ∃ dbName table candidates usedIndex ids,
    Engine.resolveTable e.dbms cmd.dbName cmd.tableName = .ok (dbName, table) ∧
    collectCandidateRows table e.world cmd.where_ = .ok (candidates, usedIndex) ∧
    filterRows regexMatch table cmd.where_ candidates = .ok ids ∧
    List.Forall₂ (Prints table cmd) ids rows

omit [IIndex ι ω] in
theorem exists_what {fault : Fault} {e₁ : EngineState ι ω}
    (answered : ExecutorService.answer (.error fault e₁) = some (outcome, e')) :
    ∃ what, outcome = .error what := by
  cases fault with
  | throws cls what =>
      obtain ⟨rfl, -⟩ := Prod.mk.inj (Option.some.inj answered)
      exact ⟨what, rfl⟩
  | diverges => cases answered
  | outOfBounds => cases answered

/-- A SELECT returns the text of what it selects, or throws and selects nothing. -/
theorem executeSelect_cases (answered : ExecutorService.answer
      (Engine.executeSelect regexMatch cmd e) = some (outcome, e')) :
    (∃ rows, Selects regexMatch cmd e rows ∧ outcome = .ok (rowsText rows)) ∨
      (∃ what, outcome = .error what) ∧ ∀ rows, ¬ Selects regexMatch cmd e rows := by
  unfold Engine.executeSelect at answered
  cases htable : Engine.resolveTable e.dbms cmd.dbName cmd.tableName with
  | error fault =>
      rw [bind_ok get_run, htable] at answered
      refine .inr ⟨exists_what answered, ?_⟩
      rintro rows ⟨dbName, table, candidates, used, ids, hresolve, -⟩
      cases htable.symm.trans hresolve
  | ok found =>
      obtain ⟨dbName, table⟩ := found
      rw [bind_ok get_run, htable] at answered
      cases hcandidates : collectCandidateRows table e.world cmd.where_ with
      | error fault =>
          change ExecutorService.answer ((fromExcept (collectCandidateRows table e.world _) >>=
            _) e) = _ at answered
          rw [hcandidates] at answered
          refine .inr ⟨exists_what answered, ?_⟩
          rintro rows ⟨dbName', table', candidates, used, ids, hresolve, hcollect, -⟩
          obtain ⟨rfl, rfl⟩ := Prod.mk.inj (Except.ok.inj (htable.symm.trans hresolve))
          cases hcandidates.symm.trans hcollect
      | ok found =>
          obtain ⟨candidates, used⟩ := found
          change ExecutorService.answer ((fromExcept (collectCandidateRows table e.world _) >>=
            _) e) = _ at answered
          rw [hcandidates] at answered
          cases hobjects : selectObjects regexMatch table cmd candidates with
          | error fault =>
              change ExecutorService.answer ((fromExcept (selectObjects regexMatch table cmd
                candidates) >>= _) _) = _ at answered
              rw [hobjects] at answered
              refine .inr ⟨exists_what answered, ?_⟩
              rintro rows ⟨dbName', table', candidates', used', ids, hresolve, hcollect, hids,
                hprints⟩
              obtain ⟨rfl, rfl⟩ := Prod.mk.inj (Except.ok.inj (htable.symm.trans hresolve))
              obtain ⟨rfl, rfl⟩ := Prod.mk.inj (Except.ok.inj (hcandidates.symm.trans hcollect))
              cases hobjects.symm.trans (selectObjects_of_prints hids hprints)
          | ok objects =>
              change ExecutorService.answer ((fromExcept (selectObjects regexMatch table cmd
                candidates) >>= _) _) = _ at answered
              rw [hobjects] at answered
              obtain ⟨rfl, -⟩ := Prod.mk.inj (Option.some.inj answered)
              obtain ⟨ids, rows, hids, hprints, rfl⟩ := selectObjects_eq_ok hobjects
              exact .inl ⟨rows, ⟨dbName, table, candidates, used, ids, htable, hcandidates, hids,
                hprints⟩, rfl⟩

/-- What a SELECT selects is one list of rows. -/
theorem Selects.text_unique {rows rows' : List (List (ByteString × Value ByteString))}
    (h : Selects regexMatch cmd e rows) (h' : Selects regexMatch cmd e rows') :
    rowsText rows = rowsText rows' := by
  obtain ⟨dbName, table, candidates, used, ids, hresolve, hcollect, hids, hprints⟩ := h
  obtain ⟨dbName', table', candidates', used', ids', hresolve', hcollect', hids', hprints'⟩ := h'
  obtain ⟨rfl, rfl⟩ := Prod.mk.inj (Except.ok.inj (hresolve.symm.trans hresolve'))
  obtain ⟨rfl, rfl⟩ := Prod.mk.inj (Except.ok.inj (hcollect.symm.trans hcollect'))
  have hobjects := (selectObjects_of_prints hids hprints).symm.trans
    (selectObjects_of_prints hids' hprints')
  unfold rowsText
  rw [Except.ok.inj hobjects]

variable [DataRoot ι ω]

/-- A SELECT is handled by `execute_select`. -/
theorem handler_select (parsed : parseQuery command = .ok (.select cmd)) :
    ExecutorService.handler regexMatch command e =
      ExecutorService.answer (Engine.executeSelect regexMatch cmd e) := by
  unfold ExecutorService.handler Engine.execute
  rw [parsed]
  rfl

/-- The client returns the answer of a SELECT and sends nothing more, unless it polls and what
is selected reads like an acceptance. -/
theorem select_answer_returned_iff (parsed : parseQuery command = .ok (.select cmd))
    (handled : ExecutorService.handler regexMatch command e = some (outcome, e'))
    (answered : server (sent ++ [command]) = executeSync outcome) :
    (sendAndWait server command maxPolls).run sent =
        (executeSync outcome, sent ++ [command]) ↔
      ¬ (0 < maxPolls ∧ ∃ rows, Selects regexMatch cmd e rows ∧ ReadsLikeAcceptance rows) := by
  rw [← answered, sendAndWait_eq_iff, answered, not_iff_not, and_congr_right_iff]
  intro _
  rw [handler_select parsed] at handled
  rcases executeSelect_cases handled with ⟨rows, hselects, rfl⟩ | ⟨⟨what, rfl⟩, hnone⟩
  · rw [executeSync_rowsText, isAsyncAccepted_rowsText, extractRequestId_rowsText]
    constructor
    · intro h
      exact ⟨rows, hselects, h⟩
    · rintro ⟨rows', hselects', haccepted, hid⟩
      rw [← isAsyncAccepted_rowsText, ← hselects.text_unique hselects',
        isAsyncAccepted_rowsText] at haccepted
      rw [← extractRequestId_rowsText, ← hselects.text_unique hselects',
        extractRequestId_rowsText] at hid
      exact ⟨haccepted, hid⟩
  · rw [isAsyncAccepted_error]
    constructor
    · intro h
      exact absurd h.1 Bool.false_ne_true
    · rintro ⟨rows, hselects, -⟩
      exact absurd hselects (hnone rows)

end Select

section Instances

/-- No pattern is matched. -/
private def nothingMatches : RegexMatch := fun _ _ => .ok false

/-- The engine after the queries. -/
private def engineAfter (queries : List ByteString) : EngineState Nat MapStore :=
  queries.foldl (fun e query =>
    match Engine.execute nothingMatches query e with
    | .ok _ e' | .error _ e' => e') { dbms := {}, world := [] }

/-- A table of requests and how they are run. -/
private def requestLog : EngineState Nat MapStore :=
  engineAfter [text "CREATE DATABASE d", text "USE d",
    text "CREATE TABLE log (mode STRING, request_id STRING)",
    text "INSERT INTO log (mode, request_id) VALUES (\"async\", \"x\")"]

private def selectKinds : ByteString := text "SELECT mode AS kind, request_id FROM log;"

private def kindsTokens : List Token :=
  [⟨.kwSelect, text "SELECT", 1⟩, ⟨.identifier, text "mode", 1⟩, ⟨.kwAs, text "AS", 1⟩,
    ⟨.identifier, text "kind", 1⟩, ⟨.comma, text ",", 1⟩, ⟨.identifier, text "request_id", 1⟩,
    ⟨.kwFrom, text "FROM", 1⟩, ⟨.identifier, text "log", 1⟩, ⟨.semicolon, text ";", 1⟩,
    ⟨.end_, [], 1⟩]

private def kindsText : ByteString :=
  text "[\x7b\"kind\":\"async\",\"request_id\":\"x\"\x7d]"

/-- Under another name the mode is no marker. -/
theorem select_answer_returned_of_alias :
    (sendAndWait (fun _ => kindsText) selectKinds).run [] = (kindsText, [selectKinds]) := by
  have parsed : parseQuery selectKinds = .ok (.select ⟨[], text "log", false,
      [⟨text "mode", text "kind", .none⟩, ⟨text "request_id", [], .none⟩], none⟩) :=
    parseQuery_ok (l := kindsTokens) (by decide +kernel) rfl
  have handled : (ExecutorService.handler nothingMatches selectKinds requestLog).map Prod.fst =
      some (.ok kindsText) := by decide +kernel
  obtain ⟨⟨outcome, e'⟩, handled, rfl⟩ := Option.map_eq_some_iff.mp handled
  have answered : kindsText = executeSync (.ok kindsText) := by decide +kernel
  have returned : (sendAndWait (fun _ => kindsText) selectKinds).run [] =
      (executeSync (.ok kindsText), [] ++ [selectKinds]) :=
    (select_answer_returned_iff parsed handled answered).mpr ?_
  · rw [← answered] at returned
    exact returned
  · rintro ⟨-, rows, hselects, haccepted, -⟩
    rw [← isAsyncAccepted_rowsText] at haccepted
    rw [handler_select parsed] at handled
    rcases executeSelect_cases handled with ⟨rows', hselects', htext⟩ | ⟨⟨what, herror⟩, -⟩
    · rw [hselects.text_unique hselects', ← Except.ok.inj htext] at haccepted
      revert haccepted
      decide +kernel
    · cases herror

private def selectLog : ByteString := text "SELECT * FROM log;"

private def logText : ByteString :=
  text "[\x7b\"mode\":\"async\",\"request_id\":\"x\"\x7d]"

/-- The server answers the SELECT, and refuses the id x. -/
private def logServer : Server := fun sent =>
  if sent.length = 1 then logText
  else text "\x7b\"error\":\"Invalid request_id format\",\"code\":1\x7d"

/-- The stored row is taken for an acceptance, and fifty polls follow. -/
theorem stored_row_taken_for_acceptance : ∃ e',
    ExecutorService.handler nothingMatches selectLog requestLog = some (.ok logText, e') ∧
      logServer [selectLog] = executeSync (.ok logText) ∧
      (sendAndWait logServer selectLog).run [] =
        (logText, selectLog :: List.replicate 50 (text "GET RESULT x;")) ∧
      (sendAndWait logServer selectLog).run [] ≠ (logText, [selectLog]) := by
  have handled : (ExecutorService.handler nothingMatches selectLog requestLog).map Prod.fst =
      some (.ok logText) := by decide +kernel
  obtain ⟨⟨outcome, e'⟩, handled, rfl⟩ := Option.map_eq_some_iff.mp handled
  have run : (sendAndWait logServer selectLog).run [] =
      (logText, selectLog :: List.replicate 50 (text "GET RESULT x;")) :=
    Prod.ext (by decide +kernel) (by decide +kernel)
  refine ⟨e', handled, by decide +kernel, run, fun returned => ?_⟩
  have hlength := congrArg (fun result => result.2.length) (run.symm.trans returned)
  simp at hlength

end Instances
end CwDb.Client
