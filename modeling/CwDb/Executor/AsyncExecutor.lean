/-
  Executor/AsyncExecutor.lean --- the asynchronous executor as a step relation.

  Each step is one critical section of `mutex_`, or the call of the handler, which holds
  no lock.  An event says what the step did; a clock reading, the iteration order of
  `snapshots_` and what the handler returns are free.
-/
import CwDb.Executor.RequestTypes
import CwDb.Foundation.UnorderedMap

set_option autoImplicit false

namespace CwDb.Executor

open CwDb.Cpp
open CwDb.Foundation

/-- `struct Job`. -/
structure Job where
  id : RequestId
  clientId : ByteString
  query : ByteString
  deriving DecidableEq, Repr, Inhabited

/-- What the handler does with a query: it returns a text, or throws an exception of
this `what()`. -/
abbrev Outcome : Type := Except ByteString ByteString

/-- Where `workerLoop` and `processJob` are. -/
inductive WorkerState where
  | waiting
  | popped (job : Job)
  | marked (job : Job)
  | handled (job : Job) (outcome : Outcome)
  | returned
  deriving DecidableEq, Repr, Inhabited

/-- `class AsyncExecutor`. -/
structure AsyncExecutor where
  maxStoredRequests : Nat
  queue : List Job := []
  snapshots : UnorderedMap RequestId RequestSnapshot := .empty
  stop : Bool := false
  worker : WorkerState := .waiting

/-! ## Snapshots -/

/-- A finished status. -/
def RequestStatus.isFinished : RequestStatus → Bool
  | completed | failed => true
  | pending | running => false

/-- `toStatusInfo`. -/
def toStatusInfo (snapshot : RequestSnapshot) : RequestStatusInfo where
  id := snapshot.id
  status := snapshot.status
  submittedAt := snapshot.submittedAt
  startedAt := snapshot.startedAt
  finishedAt := snapshot.finishedAt

/-- `toResultInfo`. -/
def toResultInfo (snapshot : RequestSnapshot) : RequestResultInfo :=
  match snapshot.status with
  | .completed =>
      { id := snapshot.id, status := snapshot.status, ready := true, result := snapshot.result }
  | .failed =>
      { id := snapshot.id, status := snapshot.status, ready := true, error := snapshot.error }
  | .pending | .running => { id := snapshot.id, status := snapshot.status, ready := false }

/-- One round of the loop of `pruneOldSnapshotsLocked`. -/
def olderFinished (oldest : Option (RequestId × RequestSnapshot))
    (entry : RequestId × RequestSnapshot) : Option (RequestId × RequestSnapshot) :=
  if entry.2.status.isFinished then
    match oldest with
    | none => some entry
    | some best =>
        match entry.2.finishedAt, best.2.finishedAt with
        | some time, some bestTime => if time < bestTime then some entry else some best
        | _, _ => some best
  else oldest

/-- `pruneOldSnapshotsLocked`, which walks the snapshots in the order `order`. -/
def pruneOldSnapshotsLocked (maxStoredRequests : Nat) (order : List (RequestId × RequestSnapshot))
    (snapshots : UnorderedMap RequestId RequestSnapshot) : UnorderedMap RequestId RequestSnapshot :=
  if snapshots.size < maxStoredRequests then snapshots
  else
    match order.foldl olderFinished none with
    | none => snapshots
    | some oldest => snapshots.erase oldest.1

/-- `updateSnapshot` at the time `now`; `snapshots_[id]` makes an entry that is missing. -/
def updateSnapshot (now : Int) (id : RequestId) (status : RequestStatus)
    (result error : Option ByteString) (setStarted setFinished : Bool)
    (snapshots : UnorderedMap RequestId RequestSnapshot) : UnorderedMap RequestId RequestSnapshot :=
  let snapshot := (snapshots.find? id).getD {}
  snapshots.assign id { snapshot with
    id, status, result, error
    startedAt := if setStarted then some now else snapshot.startedAt
    finishedAt := if setFinished then some now else snapshot.finishedAt }

/-- What `processJob` records of an outcome. -/
def recordOutcome (now : Int) (id : RequestId) (outcome : Outcome) :
    UnorderedMap RequestId RequestSnapshot → UnorderedMap RequestId RequestSnapshot :=
  match outcome with
  | .ok result => updateSnapshot now id .completed (some result) none false true
  | .error what => updateSnapshot now id .failed none (some what) false true

namespace AsyncExecutor

/-! ## Reads -/

/-- `getQueuePositionLocked`. -/
def getQueuePositionLocked (s : AsyncExecutor) (id : RequestId) : Option Nat :=
  s.queue.findIdx? fun job => job.id = id

/-- `getSnapshot`. -/
def getSnapshot (s : AsyncExecutor) (id : RequestId) : Option RequestSnapshot :=
  s.snapshots.find? id

/-- `getStatus`. -/
def getStatus (s : AsyncExecutor) (id : RequestId) : Option RequestStatusInfo :=
  (s.snapshots.find? id).map fun snapshot =>
    let info := toStatusInfo snapshot
    if info.status = .pending then { info with queuePosition := s.getQueuePositionLocked id }
    else info

/-- `getResult`. -/
def getResult (s : AsyncExecutor) (id : RequestId) : Option RequestResultInfo :=
  (s.getSnapshot id).map toResultInfo

/-! ## Steps -/

/-- What a step did. -/
inductive Event where
  | submit (job : Job)
  | pop (job : Job)
  | markRunning (job : Job)
  | runHandler (job : Job) (outcome : Outcome)
  | record (job : Job) (outcome : Outcome)
  | readStatus (id : RequestId) (answer : Option RequestStatusInfo)
  | readResult (id : RequestId) (answer : Option RequestResultInfo)
  | stop
  | workerReturn
  deriving DecidableEq, Repr

/-- One step of a client, of the worker or of the destructor. -/
inductive Step : AsyncExecutor → Event → AsyncExecutor → Prop where
  | submit {s : AsyncExecutor} (job : Job) (submittedAt : Int)
      (order : List (RequestId × RequestSnapshot)) (listed : order.Perm s.snapshots.entries) :
      Step s (.submit job)
        { s with
          snapshots := (pruneOldSnapshotsLocked s.maxStoredRequests order s.snapshots).assign job.id
            { id := job.id, status := .pending, submittedAt }
          queue := s.queue ++ [job] }
  | pop {s : AsyncExecutor} {job : Job} {rest : List Job} (idle : s.worker = .waiting)
      (front : s.queue = job :: rest) :
      Step s (.pop job) { s with queue := rest, worker := .popped job }
  | markRunning {s : AsyncExecutor} {job : Job} (now : Int) (held : s.worker = .popped job) :
      Step s (.markRunning job)
        { s with
          snapshots := updateSnapshot now job.id .running none none true false s.snapshots
          worker := .marked job }
  | runHandler {s : AsyncExecutor} {job : Job} (outcome : Outcome) (held : s.worker = .marked job) :
      Step s (.runHandler job outcome) { s with worker := .handled job outcome }
  | record {s : AsyncExecutor} {job : Job} {outcome : Outcome} (now : Int)
      (held : s.worker = .handled job outcome) :
      Step s (.record job outcome)
        { s with snapshots := recordOutcome now job.id outcome s.snapshots, worker := .waiting }
  | readStatus {s : AsyncExecutor} (id : RequestId) : Step s (.readStatus id (s.getStatus id)) s
  | readResult {s : AsyncExecutor} (id : RequestId) : Step s (.readResult id (s.getResult id)) s
  | stop {s : AsyncExecutor} : Step s .stop { s with stop := true }
  | workerReturn {s : AsyncExecutor} (idle : s.worker = .waiting) (stopped : s.stop = true)
      (drained : s.queue = []) : Step s .workerReturn { s with worker := .returned }

/-- The submitted jobs, in order. -/
def submitted (events : List Event) : List Job :=
  events.filterMap fun
    | .submit job => some job
    | _ => none

/-- The finished jobs with what the handler did, in order. -/
def finished (events : List Event) : List (Job × Outcome) :=
  events.filterMap fun
    | .record job outcome => some (job, outcome)
    | _ => none

/-- A submit takes an id that no earlier one has. -/
def Fresh (events : List Event) : Event → Prop
  | .submit job => job.id ∉ (submitted events).map Job.id
  | _ => True

/-- A run of an executor that keeps `maxStoredRequests` snapshots. -/
inductive Run (maxStoredRequests : Nat) : List Event → AsyncExecutor → Prop where
  | start : Run maxStoredRequests [] { maxStoredRequests }
  | step {events : List Event} {s s' : AsyncExecutor} {e : Event}
      (run : Run maxStoredRequests events s) (step : Step s e s') (fresh : Fresh events e) :
      Run maxStoredRequests (events ++ [e]) s'

end AsyncExecutor
end CwDb.Executor
