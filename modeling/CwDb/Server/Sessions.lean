/-
  Server/Sessions.lean --- the connections of a server: `Session`, `Server` and
  `Client::send`.

  The handlers of all sessions run on the thread of `io_context::run`, one at a time; the
  bytes of a connection travel at their own pace, and either end may break it off.
-/
import CwDb.Executor.AsyncExecutor
import CwDb.Executor.JsonResponse
import CwDb.Foundation.Frames

set_option autoImplicit false

namespace CwDb.Server

open CwDb.Cpp
open CwDb.Executor
open CwDb.Foundation
open CwDb.Foundation.Framing

/-! ## One connection -/

/-- `kMaxRequestBodySize`. -/
def kMaxRequestBodySize : UInt32 := 4 * 1024 * 1024

/-- What a `Session` waits for in `readRequest`, `readBody` and `sendResponse`. -/
inductive SessionState where
  | readRequest
  | readBody (bodySize : UInt32)
  | sendResponse
  | disconnected
  deriving DecidableEq

/-- Where `Client::send` is; `failed` once it has thrown. -/
inductive ClientState where
  | idle
  | readSize
  | readResponse (respSize : UInt32)
  | failed
  deriving DecidableEq

/-- The two ends of a connection and the bytes between them. -/
structure Connection where
  clientId : ByteString
  client : ClientState := .idle
  session : SessionState := .readRequest
  requests : Pipe := {}
  responses : Pipe := {}
  deriving DecidableEq

/-- The response to what the handler does, in `Session::readBody`. -/
def responseTo : Outcome → ByteString
  | .ok response => response
  | .error what => buildErrorResponse what 1

/-- `Session::readRequest`, once the size is there. -/
def afterSize (bodySize : UInt32) : SessionState :=
  if bodySize = 0 ∨ kMaxRequestBodySize < bodySize then .disconnected else .readBody bodySize

/-- What a step of a connection did. -/
inductive ConnectionEvent where
  /-- `Client::send` has been called. -/
  | sent (query : ByteString)
  /-- The session has called the handler. -/
  | handled (query : ByteString) (outcome : Outcome)
  /-- `Client::send` has returned. -/
  | returned (response : ByteString)
  | quiet

/-- One step of a connection. -/
inductive ConnectionStep : Connection → ConnectionEvent → Connection → Prop where
  | send {c : Connection} (query : ByteString) (idle : c.client = .idle) :
      ConnectionStep c (.sent query)
        { c with client := .readSize, requests := c.requests.write (frame query) }
  | readSize {c : Connection} {bytes : ByteString} {rest : Pipe} (waiting : c.client = .readSize)
      (read : c.responses.read 4 = some (bytes, rest)) :
      ConnectionStep c .quiet
        { c with client := .readResponse (Scalar.decode bytes), responses := rest }
  | readResponse {c : Connection} {respSize : UInt32} {response : ByteString} {rest : Pipe}
      (waiting : c.client = .readResponse respSize)
      (read : c.responses.read respSize.toNat = some (response, rest)) :
      ConnectionStep c (.returned response) { c with client := .idle, responses := rest }
  /-- `boost::asio::write` or `boost::asio::read` throws. -/
  | fail {c : Connection} (n : Nat) :
      ConnectionStep c .quiet { c with client := .failed, requests := c.requests.cut n }
  | readRequest {c : Connection} {bytes : ByteString} {rest : Pipe}
      (waiting : c.session = .readRequest) (read : c.requests.read 4 = some (bytes, rest)) :
      ConnectionStep c .quiet
        { c with session := afterSize (Scalar.decode bytes), requests := rest }
  | readBody {c : Connection} {bodySize : UInt32} {body : ByteString} {rest : Pipe}
      (outcome : Outcome) (waiting : c.session = .readBody bodySize)
      (read : c.requests.read bodySize.toNat = some (body, rest)) :
      ConnectionStep c (.handled body outcome)
        { c with
          session := .sendResponse
          requests := rest
          responses := c.responses.write (frame (responseTo outcome)) }
  | sendResponse {c : Connection} (written : c.session = .sendResponse) :
      ConnectionStep c .quiet { c with session := .readRequest }
  /-- An operation of the session ends with an error code. -/
  | disconnect {c : Connection} (n : Nat) :
      ConnectionStep c .quiet { c with session := .disconnected, responses := c.responses.cut n }
  | deliverRequest {c : Connection} (n : Nat) :
      ConnectionStep c .quiet { c with requests := c.requests.deliver n }
  | deliverResponse {c : Connection} (n : Nat) :
      ConnectionStep c .quiet { c with responses := c.responses.deliver n }

/-! ## The server -/

/-- `class Server`, the connections it has accepted, and what the handler works on. -/
structure State (σ : Type) where
  nextClientId : UInt32 := 1
  connections : List Connection := []
  shared : σ

/-- What a step of the server did. -/
inductive Event where
  | accepted
  | on (number : Nat) (event : ConnectionEvent)
  | background

section Server

variable {σ : Type}

/-- One step of a client, of a session or of the server; the handler does what `handles`
allows, and what it works on changes by itself as `background` allows. -/
inductive Step (handles : (query clientId : ByteString) → σ → Outcome → σ → Prop)
    (background : σ → σ → Prop) : State σ → Event → State σ → Prop where
  | accept {s : State σ} :
      Step handles background s .accepted
        { s with
          nextClientId := s.nextClientId + 1
          connections := s.connections ++
            [{ clientId := text "client_" ++ decimal s.nextClientId.toNat }] }
  | exchange {s : State σ} {c c' : Connection} {event : ConnectionEvent} (number : Nat)
      (here : s.connections[number]? = some c) (step : ConnectionStep c event c')
      (other : ∀ query outcome, event ≠ .handled query outcome) :
      Step handles background s (.on number event)
        { s with connections := s.connections.set number c' }
  | handle {s : State σ} {c c' : Connection} {query : ByteString} {outcome : Outcome} {shared : σ}
      (number : Nat) (here : s.connections[number]? = some c)
      (step : ConnectionStep c (.handled query outcome) c')
      (run : handles query c.clientId s.shared outcome shared) :
      Step handles background s (.on number (.handled query outcome))
        { s with connections := s.connections.set number c', shared }
  | background {s : State σ} {shared : σ} (run : background s.shared shared) :
      Step handles background s .background { s with shared }

/-- A run of the server from its start. -/
inductive Run (handles : (query clientId : ByteString) → σ → Outcome → σ → Prop)
    (background : σ → σ → Prop) : List Event → State σ → Prop where
  | start (shared : σ) : Run handles background [] { shared }
  | step {events : List Event} {s s' : State σ} {event : Event}
      (run : Run handles background events s) (step : Step handles background s event s') :
      Run handles background (events ++ [event]) s'

end Server

/-! ## Histories -/

/-- What happened on one connection. -/
def eventsOn (number : Nat) (events : List Event) : List ConnectionEvent :=
  events.filterMap fun
    | .on n event => if n = number then some event else none
    | _ => none

/-- The queries that `Client::send` was called with. -/
def sent (events : List ConnectionEvent) : List ByteString :=
  events.filterMap fun
    | .sent query => some query
    | _ => none

/-- The queries that the handler was called with, and what it did. -/
def handled (events : List ConnectionEvent) : List (ByteString × Outcome) :=
  events.filterMap fun
    | .handled query outcome => some (query, outcome)
    | _ => none

/-- What `Client::send` returned. -/
def returned (events : List ConnectionEvent) : List ByteString :=
  events.filterMap fun
    | .returned response => some response
    | _ => none

end CwDb.Server
