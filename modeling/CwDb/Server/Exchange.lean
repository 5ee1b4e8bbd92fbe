/-
  Server/Exchange.lean --- every query is handled once and its response returned, in order.

  The two directions of a connection are streams of frames.  As the client waits for each
  response before it sends the next query, the streams keep step.
-/
import CwDb.Server.Sessions

set_option autoImplicit false

namespace CwDb.Server

open CwDb.Cpp
open CwDb.Executor
open CwDb.Foundation.Framing

/-! ## One connection -/

/-- What the session awaits of the requests. -/
def SessionState.awaited : SessionState → Awaited
  | .readBody bodySize => .message bodySize
  | _ => .size

/-- What the client awaits of the responses. -/
def ClientState.awaited : ClientState → Awaited
  | .readResponse respSize => .message respSize
  | _ => .size

/-- How many responses the client waits for. -/
def ClientState.waiting : ClientState → Nat
  | .readSize | .readResponse _ => 1
  | .idle | .failed => 0

/-- The responses to what the handler has done. -/
def responses (done : List (ByteString × Outcome)) : List ByteString :=
  done.map fun p => responseTo p.2

/-- A query that a session hands on. -/
def WellSized (query : ByteString) : Prop :=
  query ≠ [] ∧ query.length ≤ kMaxRequestBodySize.toNat

/-- What holds of a connection on which `queries` were sent, the handler has `done` something,
and `answers` were returned. -/
structure Exchange (queries : List ByteString) (done : List (ByteString × Outcome))
    (answers : List ByteString) (c : Connection) : Prop where
  requests : c.session ≠ .disconnected →
    Carries c.session.awaited c.requests queries (done.map Prod.fst) (c.client ≠ .failed)
  responses : c.client ≠ .failed →
    Carries c.client.awaited c.responses (responses done) answers (c.session ≠ .disconnected)
  executed : done.map Prod.fst <+: queries
  answered : answers <+: Server.responses done
  waiting : c.client ≠ .failed → queries.length = answers.length + c.client.waiting
  bounded : ∀ bodySize, c.session = .readBody bodySize →
    bodySize ≠ 0 ∧ bodySize ≤ kMaxRequestBodySize
  sizes : ∀ p ∈ done, WellSized p.1

/-- A message is short enough for its size to be written. -/
def Short (message : ByteString) : Prop := message.length < 2 ^ 32

theorem Exchange.start (clientId : ByteString) : Exchange [] [] [] { clientId } :=
  ⟨fun _ => .start, fun _ => .start, List.prefix_rfl, List.prefix_rfl, fun _ => rfl, nofun, nofun⟩

/-- The size of a body that is read. -/
theorem afterSize_eq {bodySize n : UInt32} (h : afterSize bodySize = .readBody n) :
    n = bodySize ∧ bodySize ≠ 0 ∧ bodySize ≤ kMaxRequestBodySize := by
  unfold afterSize at h
  split at h
  · cases h
  · next hfits =>
      rw [not_or, UInt32.not_lt] at hfits
      cases h
      exact ⟨rfl, hfits⟩

theorem afterSize_awaited {bodySize : UInt32} (h : afterSize bodySize ≠ .disconnected) :
    (afterSize bodySize).awaited = .message bodySize := by
  unfold afterSize at h ⊢
  split
  · next hlarge => exact absurd (if_pos hlarge) h
  · rfl

section Steps

variable {queries answers : List ByteString} {done : List (ByteString × Outcome)}
  {c c' : Connection}

/-- `Client::send` is called. -/
theorem Exchange.send (x : Exchange queries done answers c) {query : ByteString}
    (step : ConnectionStep c (.sent query) c') :
    Exchange (queries ++ [query]) done answers c' := by
  cases step with
  | send _ idle =>
      have hfine : c.client ≠ .failed := by rw [idle]; nofun
      have hresponses := x.responses hfine
      have hwaiting := x.waiting hfine
      rw [idle] at hresponses hwaiting
      refine ⟨fun h => ?_, fun _ => hresponses, x.executed.trans (List.prefix_append _ _),
        x.answered, fun _ => ?_, x.bounded, x.sizes⟩
      · exact ((x.requests h).write hfine query).mono fun _ => hfine
      · rw [List.length_append, List.length_singleton, hwaiting]
        rfl

/-- `Client::send` returns. -/
theorem Exchange.return (x : Exchange queries done answers c) {response : ByteString}
    (short : ∀ p ∈ done, Short (responseTo p.2)) (step : ConnectionStep c (.returned response) c') :
    Exchange queries done (answers ++ [response]) c' := by
  cases step with
  | readResponse waiting read =>
      have hfine : c.client ≠ .failed := by rw [waiting]; nofun
      have hresponses := x.responses hfine
      have hwaiting := x.waiting hfine
      rw [waiting] at hresponses hwaiting
      have hshort : ∀ m ∈ Server.responses done, m.length < 2 ^ 32 := by
        intro m hm
        obtain ⟨p, hp, rfl⟩ := List.mem_map.mp hm
        exact short p hp
      have hread := hresponses.read_message hshort read
      refine ⟨fun h => (x.requests h).mono fun _ => hfine, fun _ => hread, x.executed,
        hread.isPrefix, fun _ => ?_, x.bounded, x.sizes⟩
      rw [List.length_append, List.length_singleton, hwaiting]
      rfl

/-- The handler is called. -/
theorem Exchange.handle (x : Exchange queries done answers c) {query : ByteString}
    {outcome : Outcome} (short : ∀ q ∈ queries, Short q)
    (step : ConnectionStep c (.handled query outcome) c') :
    Exchange queries (done ++ [(query, outcome)]) answers c' := by
  cases step with
  | readBody _ waiting read =>
      have hconnected : c.session ≠ .disconnected := by rw [waiting]; nofun
      have hrequests := x.requests hconnected
      obtain ⟨hzero, hmost⟩ := x.bounded _ waiting
      rw [waiting] at hrequests
      have hread := hrequests.read_message short read
      have hlength := (Pipe.read_eq_some read).2
      have hresponses : Server.responses (done ++ [(query, outcome)]) =
          Server.responses done ++ [responseTo outcome] := List.map_append
      have hqueries : (done ++ [(query, outcome)]).map Prod.fst = done.map Prod.fst ++ [query] :=
        List.map_append
      refine ⟨fun _ => ?_, fun h => ?_, ?_, ?_, x.waiting, nofun, fun p hp => ?_⟩
      · rw [hqueries]
        exact hread
      · rw [hresponses]
        exact ((x.responses h).write hconnected _).mono fun _ => hconnected
      · rw [hqueries]
        exact hread.isPrefix
      · rw [hresponses]
        exact x.answered.trans (List.prefix_append _ _)
      · rcases List.mem_append.mp hp with hp | hp
        · exact x.sizes p hp
        · obtain rfl := List.mem_singleton.mp hp
          refine ⟨?_, hlength.trans_le (UInt32.le_iff_toNat_le.mp hmost)⟩
          rintro rfl
          exact hzero (UInt32.toNat_inj.mp hlength.symm)

/-- The other steps. -/
theorem Exchange.quiet (x : Exchange queries done answers c)
    (step : ConnectionStep c .quiet c') : Exchange queries done answers c' := by
  cases step with
  | readSize waiting read =>
      have hfine : c.client ≠ .failed := by rw [waiting]; nofun
      have hresponses := x.responses hfine
      have hwaiting := x.waiting hfine
      rw [waiting] at hresponses hwaiting
      exact ⟨fun h => (x.requests h).mono fun _ => hfine, fun _ => hresponses.read_size read,
        x.executed, x.answered, fun _ => hwaiting, x.bounded, x.sizes⟩
  | fail n =>
      exact ⟨fun h => (x.requests h).cut n fun h' => h' rfl, fun h => absurd rfl h, x.executed,
        x.answered, fun h => absurd rfl h, x.bounded, x.sizes⟩
  | readRequest waiting read =>
      have hconnected : c.session ≠ .disconnected := by rw [waiting]; nofun
      have hrequests := x.requests hconnected
      rw [waiting] at hrequests
      refine ⟨fun h => ?_, fun h => (x.responses h).mono fun _ => hconnected, x.executed,
        x.answered, x.waiting, fun n h => ?_, x.sizes⟩
      · rw [afterSize_awaited h]
        exact hrequests.read_size read
      · obtain ⟨rfl, hbounds⟩ := afterSize_eq h
        exact hbounds
  | sendResponse written =>
      have hconnected : c.session ≠ .disconnected := by rw [written]; nofun
      have hrequests := x.requests hconnected
      rw [written] at hrequests
      exact ⟨fun _ => hrequests, fun h => (x.responses h).mono fun _ => hconnected, x.executed,
        x.answered, x.waiting, nofun, x.sizes⟩
  | disconnect n =>
      exact ⟨fun h => absurd rfl h, fun h => (x.responses h).cut n fun h' => h' rfl, x.executed,
        x.answered, x.waiting, nofun, x.sizes⟩
  | deliverRequest n =>
      exact ⟨fun h => (x.requests h).deliver n, x.responses, x.executed, x.answered, x.waiting,
        x.bounded, x.sizes⟩
  | deliverResponse n =>
      exact ⟨x.requests, fun h => (x.responses h).deliver n, x.executed, x.answered, x.waiting,
        x.bounded, x.sizes⟩

/-- A client that waits for nothing has all its answers. -/
theorem Exchange.settled (x : Exchange queries done answers c) (idle : c.client = .idle) :
    done.map Prod.fst = queries ∧ answers = Server.responses done := by
  have hwaiting := x.waiting (by rw [idle]; nofun)
  rw [idle] at hwaiting
  have hexecuted := x.executed.length_le
  have hanswered := x.answered.length_le
  have hlengths : (Server.responses done).length = (done.map Prod.fst).length := by
    rw [Server.responses, List.length_map, List.length_map]
  have hzero : ClientState.waiting .idle = 0 := rfl
  refine ⟨x.executed.eq_of_length ?_, x.answered.eq_of_length ?_⟩ <;> omega

end Steps

/-! ## The server -/

section Histories

variable {es : List ConnectionEvent} {events events' : List Event} {number : Nat}

theorem mem_sent {query : ByteString} : query ∈ sent es ↔ .sent query ∈ es := by
  unfold sent
  rw [List.mem_filterMap]
  constructor
  · rintro ⟨e, he, h⟩
    cases e <;> cases h
    exact he
  · exact fun h => ⟨_, h, rfl⟩

theorem mem_handled {query : ByteString} {outcome : Outcome} :
    (query, outcome) ∈ handled es ↔ .handled query outcome ∈ es := by
  unfold handled
  rw [List.mem_filterMap]
  constructor
  · rintro ⟨e, he, h⟩
    cases e <;> cases h
    exact he
  · exact fun h => ⟨_, h, rfl⟩

theorem mem_eventsOn {event : ConnectionEvent} :
    event ∈ eventsOn number events ↔ .on number event ∈ events := by
  unfold eventsOn
  rw [List.mem_filterMap]
  constructor
  · rintro ⟨e, he, h⟩
    cases e with
    | accepted => cases h
    | background => cases h
    | on n event' =>
        simp only at h
        split at h
        · next heq =>
            cases h
            exact heq ▸ he
        · cases h
  · exact fun h => ⟨_, h, if_pos rfl⟩

theorem eventsOn_append : eventsOn number (events ++ events') =
    eventsOn number events ++ eventsOn number events' :=
  List.filterMap_append

theorem eventsOn_on (other : Nat) (event : ConnectionEvent) :
    eventsOn number [.on other event] = if other = number then [event] else [] := by
  unfold eventsOn
  rw [List.filterMap_cons]
  split <;> simp_all

end Histories

/-- The messages of a run are short enough for their sizes to be written. -/
structure ShortMessages (events : List Event) : Prop where
  queries : ∀ number query, .on number (.sent query) ∈ events → Short query
  responses : ∀ number query outcome, .on number (.handled query outcome) ∈ events →
    Short (responseTo outcome)

/-- A step of a connection keeps step. -/
theorem Exchange.step {es : List ConnectionEvent} {c c' : Connection} {event : ConnectionEvent}
    (x : Exchange (sent es) (handled es) (returned es) c) (step : ConnectionStep c event c')
    (queries : ∀ query ∈ sent es, Short query)
    (responses : ∀ p ∈ handled es, Short (responseTo p.2)) :
    Exchange (sent (es ++ [event])) (handled (es ++ [event])) (returned (es ++ [event])) c' := by
  have hsent : sent (es ++ [event]) = sent es ++ sent [event] := List.filterMap_append
  have hhandled : handled (es ++ [event]) = handled es ++ handled [event] :=
    List.filterMap_append
  have hreturned : returned (es ++ [event]) = returned es ++ returned [event] :=
    List.filterMap_append
  rw [hsent, hhandled, hreturned]
  cases event with
  | sent query =>
      have hx := x.send step
      rwa [← List.append_nil (handled es), ← List.append_nil (returned es)] at hx
  | handled query outcome =>
      have hx := x.handle queries step
      rwa [← List.append_nil (sent es), ← List.append_nil (returned es)] at hx
  | returned response =>
      have hx := x.return responses step
      rwa [← List.append_nil (sent es), ← List.append_nil (handled es)] at hx
  | quiet =>
      have hx := x.quiet step
      rwa [← List.append_nil (sent es), ← List.append_nil (handled es),
        ← List.append_nil (returned es)] at hx

section Server

variable {σ : Type} {handles : (query clientId : ByteString) → σ → Outcome → σ → Prop}
  {background : σ → σ → Prop} {events : List Event} {s : State σ}

/-- What holds of all connections. -/
structure Exchanges (events : List Event) (connections : List Connection) : Prop where
  here : ∀ number c, connections[number]? = some c →
    Exchange (sent (eventsOn number events)) (handled (eventsOn number events))
      (returned (eventsOn number events)) c
  later : ∀ number, connections.length ≤ number → eventsOn number events = []

theorem Exchanges.accept {connections : List Connection} (x : Exchanges events connections)
    (clientId : ByteString) :
    Exchanges (events ++ [.accepted]) (connections ++ [Connection.mk clientId .idle .readRequest {} {}]) := by
  have hsame : ∀ number, eventsOn number (events ++ [.accepted]) = eventsOn number events :=
    fun number => eventsOn_append.trans (List.append_nil _)
  refine ⟨fun number c hc => ?_, fun number hlength => ?_⟩
  · rw [hsame]
    rcases Nat.lt_or_ge number connections.length with hlt | hge
    · rw [List.getElem?_append_left hlt] at hc
      exact x.here number c hc
    · rw [List.getElem?_append_right hge, List.getElem?_singleton] at hc
      rw [x.later number hge]
      split at hc
      · cases hc
        exact .start clientId
      · cases hc
  · rw [hsame]
    rw [List.length_append] at hlength
    exact x.later number (Nat.le_of_add_right_le hlength)

theorem Exchanges.on {connections : List Connection} (x : Exchanges events connections)
    (short : ShortMessages events) {number : Nat} {c c' : Connection} {event : ConnectionEvent}
    (here : connections[number]? = some c) (step : ConnectionStep c event c') :
    Exchanges (events ++ [.on number event]) (connections.set number c') := by
  obtain ⟨hlt, -⟩ := List.getElem?_eq_some_iff.mp here
  refine ⟨fun other d hd => ?_, fun other hlength => ?_⟩
  · rw [eventsOn_append, eventsOn_on]
    by_cases hother : number = other
    · subst hother
      rw [List.getElem?_set_self hlt] at hd
      cases hd
      rw [if_pos rfl]
      refine (x.here number c here).step step (fun query hq => ?_) fun p hp => ?_
      · exact short.queries number query (mem_eventsOn.mp (mem_sent.mp hq))
      · exact short.responses number p.1 p.2 (mem_eventsOn.mp (mem_handled.mp hp))
    · rw [List.getElem?_set_ne hother] at hd
      rw [if_neg hother, List.append_nil]
      exact x.here other d hd
  · rw [List.length_set] at hlength
    rw [eventsOn_append, eventsOn_on, x.later other hlength,
      if_neg (Nat.ne_of_lt (hlt.trans_le hlength))]
    rfl

theorem Run.exchanges (run : Run handles background events s) (short : ShortMessages events) :
    Exchanges events s.connections := by
  induction run with
  | start shared => exact ⟨nofun, fun _ _ => rfl⟩
  | @step events s s' event run step ih =>
      have hshort : ShortMessages events :=
        ⟨fun n q h => short.queries n q (List.mem_append_left _ h),
          fun n q o h => short.responses n q o (List.mem_append_left _ h)⟩
      have hx := ih hshort
      cases step with
      | accept => exact hx.accept _
      | exchange number here step other => exact hx.on hshort here step
      | handle number here step run => exact hx.on hshort here step
      | background run =>
          have hsame : ∀ number, eventsOn number (events ++ [.background]) =
              eventsOn number events := fun number => eventsOn_append.trans (List.append_nil _)
          refine ⟨fun number c hc => ?_, fun number hlength => ?_⟩
          · rw [hsame]
            exact hx.here number c hc
          · rw [hsame]
            exact hx.later number hlength

/-- However the steps of any number of connections interleave, and however their bytes are cut
up and lost: on each connection the handler is called with the queries that were sent, in order
and each once, none of them empty or too large, and `Client::send` returns the responses to
them in order; a client that waits for nothing has had all its queries handled and answered. -/
theorem queries_handled_once (run : Run handles background events s)
    (short : ShortMessages events) {number : Nat} {c : Connection}
    (here : s.connections[number]? = some c) :
    (handled (eventsOn number events)).map Prod.fst <+: sent (eventsOn number events) ∧
      returned (eventsOn number events) <+: responses (handled (eventsOn number events)) ∧
      (∀ p ∈ handled (eventsOn number events), WellSized p.1) ∧
      (c.client = .idle →
        (handled (eventsOn number events)).map Prod.fst = sent (eventsOn number events) ∧
        returned (eventsOn number events) = responses (handled (eventsOn number events))) :=
  have x := (run.exchanges short).here number c here
  ⟨x.executed, x.answered, x.sizes, x.settled⟩

end Server

section Instances

/-- A handler that returns what it is called with. -/
private def echoes (query _clientId : ByteString) (_ : Unit) (outcome : Outcome) (_ : Unit) :
    Prop := outcome = .ok query

private def greeting : ByteString := text "USE d"

private def greeted : List Event :=
  [.accepted, .on 0 (.sent greeting), .on 0 .quiet, .on 0 .quiet,
    .on 0 (.handled greeting (.ok greeting)), .on 0 .quiet, .on 0 .quiet, .on 0 .quiet,
    .on 0 (.returned greeting)]

private theorem run_greeted : ∃ s c, Run echoes (fun _ _ => False) greeted s ∧
    s.connections[0]? = some c ∧ c.client = .idle := by
  have accepted : Run echoes (fun _ _ => False) _ _ := (Run.start ()).step .accept
  have sent := accepted.step (.exchange 0 rfl (.send greeting rfl) nofun)
  have arrived := sent.step (.exchange 0 rfl (.deliverRequest 9) nofun)
  have sized := arrived.step (.exchange 0 rfl (.readRequest rfl rfl) nofun)
  have handled := sized.step (.handle 0 rfl (.readBody (.ok greeting) rfl rfl)
    (show echoes greeting (text "client_1") () (.ok greeting) () from rfl))
  have written := handled.step (.exchange 0 rfl (.sendResponse rfl) nofun)
  have answered := written.step (.exchange 0 rfl (.deliverResponse 9) nofun)
  have measured := answered.step (.exchange 0 rfl (.readSize rfl rfl) nofun)
  exact ⟨_, _, measured.step (.exchange 0 rfl (.readResponse rfl rfl) nofun), rfl, rfl⟩

/-- One query and its response. -/
theorem queries_handled_once_of_greeting :
    (handled (eventsOn 0 greeted)).map Prod.fst = [greeting] ∧
      returned (eventsOn 0 greeted) = [greeting] := by
  obtain ⟨s, c, run, here, idle⟩ := run_greeted
  have hlength : greeting.length < 2 ^ 32 := by decide
  have hshort : Short greeting := hlength
  have short : ShortMessages greeted := by
    constructor
    · intro number query h
      simp only [greeted, List.mem_cons, List.not_mem_nil, Event.on.injEq, or_false] at h
      simp only [reduceCtorEq, and_false, false_or, or_false, ConnectionEvent.sent.injEq] at h
      exact h.2 ▸ hshort
    · intro number query outcome h
      simp only [greeted, List.mem_cons, List.not_mem_nil, Event.on.injEq, or_false] at h
      simp only [reduceCtorEq, and_false, false_or, or_false, ConnectionEvent.handled.injEq] at h
      rw [h.2.2]
      exact hshort
  obtain ⟨hqueries, hresponses⟩ := (queries_handled_once run short here).2.2.2 idle
  exact ⟨hqueries.trans rfl, hresponses.trans rfl⟩

end Instances

end CwDb.Server
