/-
  Client/Protocol.lean --- how the client reads the answers of the executor.

  The client searches the whole answer for a marker; what an answer carries of the user
  must neither hide a marker nor make one up.
-/
import CwDb.Executor.JsonResponse
import CwDb.Executor.RequestApi

set_option autoImplicit false

namespace CwDb.Client

open CwDb.Cpp
open CwDb.Executor

/-- `contains`. -/
def contains (haystack needle : ByteString) : Bool := (find haystack needle).isSome

/-- `extractRequestId`. -/
def extractRequestId (json : ByteString) : Option ByteString :=
  let key := text "\"request_id\":\""
  match find json key with
  | none => none
  | some pos =>
      let start := pos + key.length
      match findFrom json (text "\"") start with
      | none => none
      | some stop =>
          if stop ≤ start then none else some ((json.drop start).take (stop - start))

/-- `isAsyncAccepted`. -/
def isAsyncAccepted (response : ByteString) : Bool := contains response (text "\"mode\":\"async\"")

/-- `isResultReady`. -/
def isResultReady (response : ByteString) : Bool := contains response (text "\"ready\":true")

/-- An id holds no quote. -/
theorem quote_not_mem {id : RequestId} (valid : isValidRequestId id = true) : 0x22 ∉ id := by
  intro hmem
  have := isIdByte_of_mem valid _ hmem
  revert this
  decide

/-- The client takes the acceptance of a request for one. -/
theorem isAsyncAccepted_response (id : RequestId) :
    isAsyncAccepted (buildAsyncAcceptedResponse id) = true := by
  have marked : find (text "\x7b\"mode\":\"async\",\"request_id\":\"") (text "\"mode\":\"async\"") =
      some 1 := by decide +kernel
  unfold isAsyncAccepted contains buildAsyncAcceptedResponse
  rw [List.append_assoc, find_append_of_eq_some _ marked]
  rfl

/-- The client reads the id it was given. -/
theorem extractRequestId_response {id : RequestId} (valid : isValidRequestId id = true) :
    extractRequestId (buildAsyncAcceptedResponse id) = some id := by
  obtain ⟨c, rest, hid, -⟩ := exists_head valid
  have keyed : find (text "\x7b\"mode\":\"async\",\"request_id\":\"") (text "\"request_id\":\"") =
      some 16 := by decide +kernel
  have found : find (buildAsyncAcceptedResponse id) (text "\"request_id\":\"") = some 16 := by
    unfold buildAsyncAcceptedResponse
    rw [List.append_assoc, find_append_of_eq_some _ keyed]
  have after : (buildAsyncAcceptedResponse id).drop 30 = id ++ text "\"\x7d" := by
    unfold buildAsyncAcceptedResponse
    rw [escapeJsonString_id valid]
    rfl
  have long : 30 ≤ (buildAsyncAcceptedResponse id).length := by
    have := congrArg List.length after
    rw [List.length_drop, List.length_append] at this
    have : 0 < id.length := by simp [hid]
    omega
  have closed : findFrom (buildAsyncAcceptedResponse id) (text "\"") 30 = some (id.length + 30) := by
    unfold findFrom
    rw [if_pos long, after]
    have : find (id ++ text "\"\x7d") [0x22] = _ := find_append_of_not_mem (quote_not_mem valid)
    have hquote : find (text "\"\x7d") [0x22] = some 0 := by decide +kernel
    rw [hquote] at this
    change (find (id ++ text "\"\x7d") [0x22]).map _ = _
    rw [this]
    simp
  unfold extractRequestId
  dsimp only
  rw [found]
  dsimp only
  change (match findFrom (buildAsyncAcceptedResponse id) (text "\"") 30 with
    | none => none
    | some stop =>
        if stop ≤ 30 then none
        else some (((buildAsyncAcceptedResponse id).drop 30).take (stop - 30))) = some id
  rw [closed]
  dsimp only
  rw [if_neg (by simp [hid]), after, Nat.add_sub_cancel, List.take_left]

/-- The marker of a finished request stands behind the id. -/
theorem isResultReady_response {info : RequestResultInfo}
    (valid : isValidRequestId info.id = true) :
    isResultReady (buildResultResponse info) = true ↔ info.ready = true := by
  obtain ⟨ready, id, status, result, error⟩ := info
  have hescape := escapeJsonString_id valid
  cases ready with
  | true =>
      have hmark : text "\",\"ready\":" ++ text "true" = text "\"," ++ text "\"ready\":true" := by
        decide +kernel
      have hfound : ∀ s t : ByteString,
          contains (s ++ (text "\",\"ready\":" ++ text "true") ++ t) (text "\"ready\":true") =
            true := by
        intro s t
        unfold contains
        rw [hmark, ← List.append_assoc, List.append_assoc]
        refine isSome_find_append _ ?_
        rw [find_of_isPrefix (List.prefix_append _ t)]
        rfl
      simp only [iff_true]
      unfold isResultReady buildResultResponse
      have := hfound (text "\x7b\"request_id\":\"" ++ escapeJsonString id)
      simp only [List.append_assoc] at this ⊢
      exact this _
  | false =>
      -- The needle starts with a quote; one quote stands before the id, where no r follows.
      obtain ⟨c, rest, rfl, hc⟩ := exists_head valid
      have hquote := quote_not_mem valid
      have hr : ¬ text "\"ready\":true" <+: 0x22 :: ((c :: rest) ++
          (text "\",\"ready\":false,\"status\":\"" ++ status.toText ++ text "\"\x7d")) := by
        rintro ⟨t, ht⟩
        have : (0x72 : UInt8) = c := by
          change (0x22 : UInt8) :: 0x72 :: _ = 0x22 :: c :: _ at ht
          exact (List.cons.inj (List.cons.inj ht).2).1
        subst this
        revert hc
        decide
      have apart : ∀ u ∈ (text "\x7b\"request_id\":").tails, u ≠ [] →
          ¬ u <+: text "\"ready\":true" ∧ ¬ text "\"ready\":true" <+: u := by decide +kernel
      have rest_free : find (text "\",\"ready\":false,\"status\":\"" ++ status.toText ++ text "\"\x7d")
          (text "\"ready\":true") = none := by
        cases status <;> decide +kernel
      have hresponse : buildResultResponse ⟨false, c :: rest, status, result, error⟩ =
          text "\x7b\"request_id\":" ++ (0x22 :: ((c :: rest) ++
            (text "\",\"ready\":false,\"status\":\"" ++ status.toText ++ text "\"\x7d"))) := by
        have hopen : text "\x7b\"request_id\":\"" = text "\x7b\"request_id\":" ++ [0x22] := by
          decide +kernel
        have hmark : text "\",\"ready\":" ++ text "false" ++ text ",\"status\":\"" =
            text "\",\"ready\":false,\"status\":\"" := by decide +kernel
        have hclose : text "\"" ++ text "\x7d" = text "\"\x7d" := by decide +kernel
        unfold buildResultResponse
        rw [hescape, hopen, ← hmark, ← hclose]
        simp
      have hfree : find (buildResultResponse ⟨false, c :: rest, status, result, error⟩)
          (text "\"ready\":true") = none := by
        have hneedle : text "\"ready\":true" = 0x22 :: text "ready\":true" := by decide +kernel
        rw [hresponse, find_append_of_apart apart, find_cons_of_not_isPrefix hr, hneedle,
          find_append_of_not_mem hquote, ← hneedle, rest_free]
        rfl
      unfold isResultReady contains
      rw [hfree]
      simp

/-- The client and the executor agree on the ids, the acceptance, the poll command and the
readiness of a result. -/
theorem async_protocol_agrees :
    (∀ draw₁ draw₂ draw₃ draw₄ draw₅ draw₆ : UInt32,
      isValidRequestId (generateRequestId draw₁ draw₂ draw₃ draw₄ draw₅ draw₆) = true) ∧
    ∀ id : RequestId, isValidRequestId id = true →
      isAsyncAccepted (buildAsyncAcceptedResponse id) = true ∧
      extractRequestId (buildAsyncAcceptedResponse id) = some id ∧
      parseApiCommand (text "GET RESULT " ++ id ++ text ";") = ⟨.getResult, id⟩ ∧
      ∀ info : RequestResultInfo, info.id = id →
        (isResultReady (buildResultResponse info) = true ↔ info.ready = true) := by
  refine ⟨isValidRequestId_generateRequestId, fun id valid => ⟨isAsyncAccepted_response id,
    extractRequestId_response valid, parseApiCommand_getResult valid, ?_⟩⟩
  rintro info rfl
  exact isResultReady_response valid

/-- The id of all-zero draws, and an unfinished request whose error text is the marker. -/
theorem async_protocol_agrees_of_zero_draws :
    let id := generateRequestId 0 0 0 0 0 0
    id = text "00000000-0000-4000-8000-000000000000" ∧
      extractRequestId (buildAsyncAcceptedResponse id) = some id ∧
      isResultReady (buildResultResponse
        ⟨false, id, .running, none, some (text "\"ready\":true")⟩) = false := by
  intro id
  obtain ⟨valid, agree⟩ := async_protocol_agrees
  obtain ⟨-, hextract, -, hready⟩ := agree id (valid 0 0 0 0 0 0)
  refine ⟨by decide +kernel, hextract, Bool.eq_false_iff.mpr fun h => ?_⟩
  cases (hready ⟨false, id, .running, none, some (text "\"ready\":true")⟩ rfl).mp h

end CwDb.Client
