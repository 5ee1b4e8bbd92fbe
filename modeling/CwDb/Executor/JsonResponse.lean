/-
  Executor/JsonResponse.lean --- the answers of the executor as JSON text.
-/
import CwDb.Executor.RequestTypes

set_option autoImplicit false

namespace CwDb.Executor

open CwDb.Cpp

/-- One byte of `escapeJsonStringImpl`. -/
def escapeJsonByte (c : UInt8) : ByteString :=
  if c = 0x22 then text "\\\""
  else if c = 0x5c then text "\\\\"
  else if c = 0x08 then text "\\b"
  else if c = 0x0c then text "\\f"
  else if c = 0x0a then text "\\n"
  else if c = 0x0d then text "\\r"
  else if c = 0x09 then text "\\t"
  else if c < 0x20 then text "\\u" ++ formatHex 4 c.toNat
  else [c]

/-- `escapeJsonString`. -/
def escapeJsonString (value : ByteString) : ByteString := value.flatMap escapeJsonByte

/-- `looksLikeJsonValue`. -/
def looksLikeJsonValue (value : ByteString) : Bool :=
  value.head? == some 0x5b || value.head? == some 0x7b

/-- `appendJsonOrStringField`: what it appends. -/
def jsonOrStringField (value : ByteString) : ByteString :=
  if looksLikeJsonValue value then value else text "\"" ++ escapeJsonString value ++ text "\""

/-- `enum class ReturnCode`. -/
inductive ReturnCode where
  | ok | error | notFound | notReady
  deriving DecidableEq, Repr, Inhabited

/-- `static_cast<int>`. -/
def ReturnCode.toInt : ReturnCode → Int
  | ok => 0
  | error => 1
  | notFound => 404
  | notReady => 202

/-- `buildSyncResponse`. -/
def buildSyncResponse (result : ByteString) (statusCode : Int) : ByteString :=
  text "\x7b\"mode\":\"sync\",\"status_code\":" ++ decimalInt statusCode ++
    text ",\"result\":" ++ jsonOrStringField result ++ text "\x7d"

/-- `buildAsyncAcceptedResponse`. -/
def buildAsyncAcceptedResponse (requestId : RequestId) : ByteString :=
  text "\x7b\"mode\":\"async\",\"request_id\":\"" ++ escapeJsonString requestId ++ text "\"\x7d"

/-- `buildResultResponse`. -/
def buildResultResponse (info : RequestResultInfo) : ByteString :=
  text "\x7b\"request_id\":\"" ++ escapeJsonString info.id ++
    text "\",\"ready\":" ++ (if info.ready then text "true" else text "false") ++
    text ",\"status\":\"" ++ info.status.toText ++ text "\"" ++
    (match info.ready, info.result with
      | true, some result => text ",\"result\":" ++ jsonOrStringField result
      | _, _ => []) ++
    (match info.ready, info.error with
      | true, some error => text ",\"error\":" ++ jsonOrStringField error
      | _, _ => []) ++
    text "\x7d"

/-- `buildErrorResponse`. -/
def buildErrorResponse (message : ByteString) (code : Int) : ByteString :=
  text "\x7b\"error\":\"" ++ escapeJsonString message ++ text "\",\"code\":" ++
    decimalInt code ++ text "\x7d"

/-- An id is written as it is. -/
theorem escapeJsonString_id {id : RequestId} (valid : isValidRequestId id = true) :
    escapeJsonString id = id := by
  have hbyte : ∀ c, isIdByte c = true → escapeJsonByte c = [c] := by
    intro c hc
    unfold isIdByte isHexLower isDigit at hc
    unfold escapeJsonByte
    grind
  have hbytes := isIdByte_of_mem valid
  unfold escapeJsonString
  clear valid
  induction id with
  | nil => rfl
  | cons c rest ih =>
      rw [List.flatMap_cons, hbyte c (hbytes c List.mem_cons_self),
        ih fun d hd => hbytes d (List.mem_cons_of_mem c hd)]
      rfl

end CwDb.Executor
