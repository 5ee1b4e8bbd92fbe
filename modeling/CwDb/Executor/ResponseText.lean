/-
  Executor/ResponseText.lean --- the answers of the service as JSON objects.

  A string of the answer is either escaped or, when it starts as an array or an object, left
  as it is.  The answer carries such a string just when the guess from its first byte is
  right.
-/
import CwDb.Executor.EscapedText
import CwDb.Foundation.JsonText

set_option autoImplicit false

namespace CwDb.Executor

open CwDb.Cpp
open CwDb.Foundation

/-! ## What an answer is to carry -/

/-- The string itself, or the array or object that it is the whole text of. -/
def Carried (value : ByteString) (j : Json) : Prop :=
  j = .str value ∨
    (Json.decode value = some j ∧
      ((∃ elements, j = .arr elements) ∨ ∃ members, j = .obj members))

/-- The member `name` of the object that the response is the text of. -/
def Carries (response name value : ByteString) : Prop :=
  ∃ members j, Json.decode response = some (.obj members) ∧ members.lookup name = some j ∧
    Carried value j

/-- What starts as an array or an object is the whole text of one. -/
def Embeddable (value : ByteString) : Prop :=
  looksLikeJsonValue value = true → (Json.decode value).isSome = true

instance (value : ByteString) : Decidable (Embeddable value) :=
  inferInstanceAs (Decidable (_ → _))

/-! ## One field -/

/-- A string between its quotes. -/
def quotedText (value : ByteString) : ByteString :=
  text "\"" ++ escapeJsonString value ++ text "\""

theorem reads_quotedText (value : ByteString) : Json.Reads (quotedText value) (.str value) := by
  apply Json.reads_of_parseValue
  intro rest fuel closes
  have hquote : Json.skipSpace (quotedText value ++ rest) =
      0x22 :: (escapeJsonString value ++ 0x22 :: rest) := by
    unfold quotedText
    rw [List.append_assoc, List.append_assoc]
    exact Json.skipSpace_cons rfl
  rw [Json.parseValue_string hquote, parseChars_escapeJsonString]
  rfl

theorem reads_decimalInt (n : Int) : Json.Reads (decimalInt n) (.number n 0) :=
  Json.reads_of_parseValue fun _ _ closes => Json.parseValue_decimalInt n closes

theorem exists_of_looksLikeJsonValue {value : ByteString}
    (h : looksLikeJsonValue value = true) :
    ∃ c rest, value = c :: rest ∧ (c = 0x5b ∨ c = 0x7b) := by
  unfold looksLikeJsonValue at h
  cases value with
  | nil => cases h
  | cons c rest => exact ⟨c, rest, rfl, by simpa using h⟩

/-- A field that may be embedded is read as what it is to carry. -/
theorem reads_jsonOrStringField {value : ByteString} (h : Embeddable value) :
    ∃ j, Json.Reads (jsonOrStringField value) j ∧ Carried value j := by
  unfold jsonOrStringField
  split
  · next hlooks =>
      obtain ⟨j, hj⟩ := Option.isSome_iff_exists.mp (h hlooks)
      refine ⟨j, Json.reads_of_decode hj, .inr ⟨hj, ?_⟩⟩
      obtain ⟨c, rest, rfl, hc⟩ := exists_of_looksLikeJsonValue hlooks
      unfold Json.decode at hj
      split at hj
      · next v after hvalue =>
          split at hj
          · obtain rfl := Option.some.inj hj
            exact Json.arr_or_obj_of_parseValue hc hvalue
          · cases hj
      · cases hj
  · exact ⟨.str value, reads_quotedText value, .inl rfl⟩

/-- What is read where the field stands carries nothing else. -/
theorem embeddable_of_carried {value rest after : ByteString} {fuel : Nat} {j : Json}
    (read : Json.parseValue fuel (jsonOrStringField value ++ rest) = some (j, after))
    (h : Carried value j) : Embeddable value := by
  intro hlooks
  rcases h with rfl | ⟨hdecode, -⟩
  · obtain ⟨c, tail, rfl, hc⟩ := exists_of_looksLikeJsonValue hlooks
    unfold jsonOrStringField at read
    rw [if_pos hlooks] at read
    rcases Json.arr_or_obj_of_parseValue hc read with ⟨_, heq⟩ | ⟨_, heq⟩ <;> cases heq
  · rw [hdecode]
    rfl

/-! ## A field behind others -/

/-- The keys of the answers hold nothing to escape. -/
theorem plainKey {key : ByteString} (h : escapeJsonString key = key) : Json.PlainKey key := by
  intro rest
  conv => lhs; rw [← h]
  exact parseChars_escapeJsonString key rest

variable {pairs : List (ByteString × ByteString)} {ms : List (ByteString × Json)}
  {name value : ByteString}

/-- A field as the answers print it. -/
def fieldPair (f : ByteString × ByteString) : ByteString × ByteString :=
  (f.1, jsonOrStringField f.2)

/-- The object says what the fields are to carry. -/
def Tells (members : List (ByteString × Json)) (fields : List (ByteString × ByteString)) : Prop :=
  ∀ f ∈ fields, ∃ j, members.lookup f.1 = some j ∧ Carried f.2 j

/-- Fields that may be embedded are written as what they are to carry. -/
theorem exists_written {fields : List (ByteString × ByteString)}
    (keys : ∀ f ∈ fields, escapeJsonString f.1 = f.1) (h : ∀ f ∈ fields, Embeddable f.2) :
    ∃ js, List.Forall₂ Json.Written (fields.map fieldPair) js ∧
      js.map Prod.fst = fields.map Prod.fst ∧
      ∀ f ∈ fields, ∃ m ∈ js, m.1 = f.1 ∧ Carried f.2 m.2 := by
  induction fields with
  | nil => exact ⟨[], .nil, rfl, fun f hf => absurd hf List.not_mem_nil⟩
  | cons f fields ih =>
      obtain ⟨js, hwritten, hkeys, hcarried⟩ :=
        ih (fun g hg => keys g (List.mem_cons_of_mem f hg))
          (fun g hg => h g (List.mem_cons_of_mem f hg))
      obtain ⟨j, hreads, hj⟩ := reads_jsonOrStringField (h f List.mem_cons_self)
      refine ⟨(f.1, j) :: js, .cons ⟨rfl, plainKey (keys f List.mem_cons_self), hreads⟩ hwritten,
        congrArg (f.1 :: ·) hkeys, fun g hg => ?_⟩
      rcases List.mem_cons.mp hg with rfl | hmem
      · exact ⟨(g.1, j), List.mem_cons_self, rfl, hj⟩
      · obtain ⟨m, hm, hrest⟩ := hcarried g hmem
        exact ⟨m, List.mem_cons_of_mem _ hm, hrest⟩

/-- Of an object that says what the fields are to carry, every field may be embedded: up to the
first one that may not, the object is read as it is written. -/
theorem embeddable_of_tells {fields : List (ByteString × ByteString)}
    {members : List (ByteString × Json)} (written : List.Forall₂ Json.Written pairs ms)
    (keys : ∀ f ∈ fields, escapeJsonString f.1 = f.1)
    (once : (ms.map Prod.fst ++ fields.map Prod.fst).Nodup)
    (decodes : Json.decode (Json.objectText (pairs ++ fields.map fieldPair)) = some (.obj members))
    (told : Tells members fields) : ∀ f ∈ fields, Embeddable f.2 := by
  induction fields generalizing pairs ms with
  | nil => exact fun f hf => absurd hf List.not_mem_nil
  | cons f fields ih =>
      have hplain := plainKey (keys f List.mem_cons_self)
      rw [List.map_cons] at decodes
      have hfirst : Embeddable f.2 := by
        obtain ⟨fuel, rest, j, after, more, hread, rfl⟩ :=
          Json.exists_of_decode_objectText (p := fieldPair f) written hplain decodes
        obtain ⟨j', hlookup, hcarried⟩ := told f List.mem_cons_self
        have happend : (ms ++ [(f.1, j)]).map Prod.fst ++ fields.map Prod.fst =
            ms.map Prod.fst ++ (f :: fields).map Prod.fst := by simp
        have hfront : ((ms ++ [(f.1, j)]).map Prod.fst).Nodup :=
          (List.nodup_append.mp (happend ▸ once)).1
        have hmem : (f.1, j) ∈ ms ++ [(f.1, j)] := List.mem_append_right ms List.mem_cons_self
        have hsplit : ms ++ (f.1, j) :: more = ms ++ [(f.1, j)] ++ more := by simp
        change (ms ++ (f.1, j) :: more).lookup f.1 = some j' at hlookup
        rw [hsplit, List.lookup_append, Json.lookup_of_mem hfront hmem, Option.some_or] at hlookup
        obtain rfl := Option.some.inj hlookup
        exact embeddable_of_carried hread hcarried
      obtain ⟨j, hreads, -⟩ := reads_jsonOrStringField hfirst
      have hmore : ∀ g ∈ fields, Embeddable g.2 := by
        have hwritten : List.Forall₂ Json.Written (pairs ++ [fieldPair f]) (ms ++ [(f.1, j)]) :=
          List.rel_append written (.cons ⟨rfl, hplain, hreads⟩ .nil)
        apply ih hwritten
        · exact fun g hg => keys g (List.mem_cons_of_mem f hg)
        · simpa using once
        · simpa using decodes
        · exact fun g hg => told g (List.mem_cons_of_mem f hg)
      intro g hg
      rcases List.mem_cons.mp hg with rfl | hmem
      · exact hfirst
      · exact hmore g hmem

/-- An answer whose last fields are written by `appendJsonOrStringField`. -/
theorem tells_iff (fields : List (ByteString × ByteString))
    (written : List.Forall₂ Json.Written pairs ms) (filled : pairs ≠ [])
    (keys : ∀ f ∈ fields, escapeJsonString f.1 = f.1)
    (once : (ms.map Prod.fst ++ fields.map Prod.fst).Nodup) :
    (∃ members, Json.decode (Json.objectText (pairs ++ fields.map fieldPair)) =
        some (.obj members) ∧ Tells members fields) ↔
      ∀ f ∈ fields, Embeddable f.2 := by
  constructor
  · rintro ⟨members, decodes, told⟩
    exact embeddable_of_tells written keys once decodes told
  · intro h
    obtain ⟨js, hwritten, hkeys, hcarried⟩ := exists_written keys h
    refine ⟨ms ++ js, Json.decode_objectText_complete (List.rel_append written hwritten)
      (by simp [filled]), fun f hf => ?_⟩
    obtain ⟨m, hm, hname, hj⟩ := hcarried f hf
    have honce : ((ms ++ js).map Prod.fst).Nodup := by
      rw [List.map_append, hkeys]
      exact once
    exact ⟨m.2, hname ▸ Json.lookup_of_mem honce (List.mem_append_right ms hm), hj⟩

/-! ## The answers -/

/-- The members of a synchronous answer in front of its result. -/
def syncPairs (statusCode : Int) : List (ByteString × ByteString) :=
  [(text "mode", quotedText (text "sync")), (text "status_code", decimalInt statusCode)]

def syncMembers (statusCode : Int) : List (ByteString × Json) :=
  [(text "mode", .str (text "sync")), (text "status_code", .number statusCode 0)]

theorem buildSyncResponse_eq (result : ByteString) (statusCode : Int) :
    buildSyncResponse result statusCode =
      Json.objectText (syncPairs statusCode ++ [(text "result", result)].map fieldPair) := by
  unfold buildSyncResponse Json.objectText
  change _ = 0x7b :: ((Json.memberText (text "mode", quotedText (text "sync")) ++
    0x2c :: (Json.memberText (text "status_code", decimalInt statusCode) ++
      0x2c :: Json.memberText (text "result", jsonOrStringField result))) ++ [0x7d])
  unfold Json.memberText
  simp only [List.append_assoc, List.cons_append]
  rfl

theorem written_syncPairs (statusCode : Int) :
    List.Forall₂ Json.Written (syncPairs statusCode) (syncMembers statusCode) :=
  .cons ⟨rfl, plainKey rfl, reads_quotedText _⟩
    (.cons ⟨rfl, plainKey rfl, reads_decimalInt statusCode⟩ .nil)

/-- The members of a result answer in front of the result and the error. -/
def resultPairs (info : RequestResultInfo) : List (ByteString × ByteString) :=
  [(text "request_id", quotedText info.id),
    (text "ready", if info.ready then text "true" else text "false"),
    (text "status", quotedText info.status.toText)]

def resultMembers (info : RequestResultInfo) : List (ByteString × Json) :=
  [(text "request_id", .str info.id), (text "ready", .bool info.ready),
    (text "status", .str info.status.toText)]

/-- The result and the error, when there is one and the request is ready. -/
def resultFields (info : RequestResultInfo) : List (ByteString × ByteString) :=
  if info.ready then
    (info.result.map fun result => (text "result", result)).toList ++
      (info.error.map fun error => (text "error", error)).toList
  else []

theorem buildResultResponse_eq (info : RequestResultInfo) :
    buildResultResponse info =
      Json.objectText (resultPairs info ++ (resultFields info).map fieldPair) := by
  have hstatus : escapeJsonString info.status.toText = info.status.toText := by
    cases info.status <;> rfl
  have hfields : ∀ fields, Json.objectText (resultPairs info ++ fields) =
      text "\x7b\"request_id\":" ++ quotedText info.id ++ text ",\"ready\":" ++
        (if info.ready then text "true" else text "false") ++ text ",\"status\":" ++
        quotedText info.status.toText ++
        (fields.flatMap fun q => 0x2c :: Json.memberText q) ++ text "\x7d" := by
    intro fields
    unfold Json.objectText resultPairs
    rw [List.cons_append, Json.membersText_cons]
    simp only [List.cons_append, List.nil_append, List.flatMap_cons, List.append_assoc]
    rfl
  have htold : ∀ name value, 0x2c :: Json.memberText (fieldPair (name, value)) =
      0x2c :: 0x22 :: (name ++ 0x22 :: 0x3a :: jsonOrStringField value) := fun _ _ => rfl
  rw [hfields]
  unfold buildResultResponse quotedText resultFields
  rw [hstatus]
  cases info.ready <;> cases info.result <;> cases info.error <;>
    simp [htold, text]

theorem written_resultPairs (info : RequestResultInfo) :
    List.Forall₂ Json.Written (resultPairs info) (resultMembers info) := by
  refine .cons ⟨rfl, plainKey rfl, reads_quotedText _⟩ (.cons ⟨rfl, plainKey rfl, ?_⟩
    (.cons ⟨rfl, plainKey rfl, reads_quotedText _⟩ .nil))
  apply Json.reads_of_parseValue
  intro rest fuel closes
  cases info.ready <;> rfl

theorem forall_mem_resultFields {info : RequestResultInfo}
    {P : ByteString × ByteString → Prop} :
    (∀ f ∈ resultFields info, P f) ↔
      (info.ready = true →
        (∀ result, info.result = some result → P (text "result", result)) ∧
        (∀ error, info.error = some error → P (text "error", error))) := by
  unfold resultFields
  cases info.ready <;> cases info.result <;> cases info.error <;> simp

theorem keys_resultFields {info : RequestResultInfo} :
    ∀ f ∈ resultFields info, escapeJsonString f.1 = f.1 :=
  forall_mem_resultFields.mpr fun _ => ⟨fun _ _ => rfl, fun _ _ => rfl⟩

theorem once_resultFields (info : RequestResultInfo) :
    ((resultMembers info).map Prod.fst ++ (resultFields info).map Prod.fst).Nodup := by
  have hfields : ((resultFields info).map Prod.fst).Sublist [text "result", text "error"] := by
    unfold resultFields
    cases info.ready <;> cases info.result <;> cases info.error <;> simp
  have hall : [text "request_id", text "ready", text "status", text "result",
      text "error"].Nodup := by decide
  exact List.Nodup.sublist (List.Sublist.append_left hfields _) hall

theorem once_syncMembers (statusCode : Int) :
    ((syncMembers statusCode).map Prod.fst ++ [text "result"]).Nodup := by
  change [text "mode", text "status_code", text "result"].Nodup
  decide

theorem buildErrorResponse_eq (message : ByteString) (code : Int) :
    buildErrorResponse message code =
      Json.objectText [(text "error", quotedText message), (text "code", decimalInt code)] := by
  unfold buildErrorResponse Json.objectText
  rw [Json.membersText_cons]
  unfold Json.memberText quotedText
  simp only [List.flatMap_cons, List.flatMap_nil, List.append_assoc, List.cons_append]
  rfl

/-- The answers are JSON objects that carry what they are to carry just when no string that
they embed starts as an array or an object without being the text of one. -/
theorem responses_carry_iff (result message : ByteString) (statusCode code : Int)
    (info : RequestResultInfo) :
    (Carries (buildSyncResponse result statusCode) (text "result") result ↔ Embeddable result) ∧
    ((∃ members, Json.decode (buildResultResponse info) = some (.obj members) ∧
      (info.ready = true →
        (∀ result, info.result = some result →
          ∃ j, members.lookup (text "result") = some j ∧ Carried result j) ∧
        (∀ error, info.error = some error →
          ∃ j, members.lookup (text "error") = some j ∧ Carried error j))) ↔
      (info.ready = true →
        (∀ result, info.result = some result → Embeddable result) ∧
        (∀ error, info.error = some error → Embeddable error))) ∧
    Carries (buildErrorResponse message code) (text "error") message := by
  refine ⟨?_, ?_, ?_⟩
  · have hiff := tells_iff [(text "result", result)] (written_syncPairs statusCode)
      (List.cons_ne_nil _ _) (fun f hf => by rw [List.mem_singleton.mp hf]; rfl)
      (once_syncMembers statusCode)
    rw [← buildSyncResponse_eq, List.forall_mem_singleton] at hiff
    rw [← hiff]
    unfold Carries Tells
    constructor
    · rintro ⟨members, j, hdecode, hj⟩
      exact ⟨members, hdecode, List.forall_mem_singleton.mpr ⟨j, hj⟩⟩
    · rintro ⟨members, hdecode, htold⟩
      obtain ⟨j, hj⟩ := List.forall_mem_singleton.mp htold
      exact ⟨members, j, hdecode, hj⟩
  · have hiff := tells_iff _ (written_resultPairs info) (List.cons_ne_nil _ _) keys_resultFields
      (once_resultFields info)
    rw [← buildResultResponse_eq] at hiff
    unfold Tells at hiff
    simp only [forall_mem_resultFields] at hiff
    exact hiff
  · have hwritten : List.Forall₂ Json.Written
        [(text "error", quotedText message), (text "code", decimalInt code)]
        [(text "error", .str message), (text "code", .number code 0)] :=
      .cons ⟨rfl, plainKey rfl, reads_quotedText message⟩
        (.cons ⟨rfl, plainKey rfl, reads_decimalInt code⟩ .nil)
    have hdecode := Json.decode_objectText_complete hwritten (List.cons_ne_nil _ _)
    rw [← buildErrorResponse_eq] at hdecode
    exact ⟨_, .str message, hdecode, rfl, .inl rfl⟩

/-- A brace that opens no object makes the whole answer unreadable. -/
theorem executeSync_brace :
    ¬ Carries (executeSync (.ok (text "\x7boops"))) (text "result") (text "\x7boops") := by
  rintro ⟨members, j, hdecode, -⟩
  have hnone : (Json.decode (executeSync (.ok (text "\x7boops")))).isNone = true := by
    decide +kernel
  rw [hdecode] at hnone
  cases hnone

end CwDb.Executor
