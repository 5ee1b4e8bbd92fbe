/-
  Executor/RequestLifeCycle.lean --- the life of a request, over every interleaving.

  One invariant ties the queue, the job the worker holds and the snapshots to what has
  been submitted and finished so far; each step keeps it.
-/
import CwDb.Executor.AsyncExecutor

set_option autoImplicit false

namespace CwDb.Executor

open CwDb.Cpp
open CwDb.Foundation

/-! ## Snapshots -/

/-- The snapshot of a finished request holds what the handler did. -/
def RequestSnapshot.Records (snapshot : RequestSnapshot) (outcome : Outcome) : Prop :=
  match outcome with
  | .ok result =>
      snapshot.status = .completed ∧ snapshot.result = some result ∧ snapshot.error = none
  | .error what =>
      snapshot.status = .failed ∧ snapshot.result = none ∧ snapshot.error = some what

theorem RequestSnapshot.Records.isFinished {snapshot : RequestSnapshot} {outcome : Outcome}
    (h : snapshot.Records outcome) : snapshot.status.isFinished = true := by
  unfold RequestSnapshot.Records at h
  cases outcome with
  | ok result => rw [h.1]; rfl
  | error what => rw [h.1]; rfl

theorem toResultInfo_ready (snapshot : RequestSnapshot) :
    (toResultInfo snapshot).ready = snapshot.status.isFinished := by
  unfold toResultInfo
  cases snapshot.status <;> rfl

variable {snapshots : UnorderedMap RequestId RequestSnapshot} {id other : RequestId} {now : Int}

theorem olderFinished_eq_some {oldest : Option (RequestId × RequestSnapshot)}
    {entry e : RequestId × RequestSnapshot} (h : olderFinished oldest entry = some e) :
    oldest = some e ∨ e = entry ∧ entry.2.status.isFinished = true := by
  unfold olderFinished at h
  split at h
  · next hfinished =>
      split at h
      · exact .inr ⟨(Option.some.inj h).symm, hfinished⟩
      · split at h
        · split at h
          · exact .inr ⟨(Option.some.inj h).symm, hfinished⟩
          · exact .inl h
        · exact .inl h
  · exact .inl h

/-- The loop picks a finished snapshot. -/
theorem foldl_olderFinished {order : List (RequestId × RequestSnapshot)}
    {e : RequestId × RequestSnapshot} : ∀ {oldest : Option (RequestId × RequestSnapshot)},
      order.foldl olderFinished oldest = some e →
        oldest = some e ∨ e ∈ order ∧ e.2.status.isFinished = true := by
  induction order with
  | nil => exact fun h => .inl h
  | cons entry order ih =>
      intro oldest h
      rcases ih h with h | ⟨hmem, hfinished⟩
      · rcases olderFinished_eq_some h with h | ⟨rfl, hfinished⟩
        · exact .inl h
        · exact .inr ⟨List.mem_cons_self, hfinished⟩
      · exact .inr ⟨List.mem_cons_of_mem entry hmem, hfinished⟩

/-- Pruning drops finished snapshots only. -/
theorem find?_prune {maxStored : Nat} {order : List (RequestId × RequestSnapshot)}
    (listed : order.Perm snapshots.entries) (id : RequestId) :
    (pruneOldSnapshotsLocked maxStored order snapshots).find? id = snapshots.find? id ∨
      (pruneOldSnapshotsLocked maxStored order snapshots).find? id = none ∧
        ∃ snapshot, snapshots.find? id = some snapshot ∧ snapshot.status.isFinished = true := by
  unfold pruneOldSnapshotsLocked
  split
  · exact .inl rfl
  split
  · exact .inl rfl
  · next oldest holdest =>
      rw [UnorderedMap.find?_erase]
      split
      · next heq =>
          rcases foldl_olderFinished holdest with h | ⟨hmem, hfinished⟩
          · cases h
          · refine .inr ⟨rfl, oldest.2, ?_, hfinished⟩
            rw [heq, UnorderedMap.find?_eq_some_iff]
            exact listed.mem_iff.mp hmem
      · exact .inl rfl

theorem find?_updateSnapshot {status : RequestStatus} {result error : Option ByteString}
    {setStarted setFinished : Bool} :
    (updateSnapshot now id status result error setStarted setFinished snapshots).find? other =
      if other = id then
        some { (snapshots.find? id).getD {} with
          id, status, result, error
          startedAt := if setStarted then some now else ((snapshots.find? id).getD {}).startedAt
          finishedAt := if setFinished then some now else ((snapshots.find? id).getD {}).finishedAt }
      else snapshots.find? other :=
  UnorderedMap.find?_assign

theorem find?_recordOutcome_of_ne {outcome : Outcome} (h : other ≠ id) :
    (recordOutcome now id outcome snapshots).find? other = snapshots.find? other := by
  unfold recordOutcome
  cases outcome with
  | ok result => rw [find?_updateSnapshot, if_neg h]
  | error what => rw [find?_updateSnapshot, if_neg h]

theorem find?_recordOutcome_self {outcome : Outcome} :
    ∃ snapshot, (recordOutcome now id outcome snapshots).find? id = some snapshot ∧
      snapshot.Records outcome := by
  unfold recordOutcome
  cases outcome with
  | ok result =>
      rw [find?_updateSnapshot, if_pos rfl]
      exact ⟨_, rfl, rfl, rfl, rfl⟩
  | error what =>
      rw [find?_updateSnapshot, if_pos rfl]
      exact ⟨_, rfl, rfl, rfl, rfl⟩

namespace AsyncExecutor

/-! ## The worker -/

/-- The job that the worker has taken and not finished. -/
def heldJob : WorkerState → Option Job
  | .popped job | .marked job | .handled job _ => some job
  | .waiting | .returned => none

/-- The status that its request has. -/
def heldStatus : WorkerState → RequestStatus
  | .popped _ => .pending
  | _ => .running

/-- What the worker has done with it. -/
def soFar : WorkerState → List Event
  | .waiting | .returned => []
  | .popped job => [.pop job]
  | .marked job => [.pop job, .markRunning job]
  | .handled job outcome => [.pop job, .markRunning job, .runHandler job outcome]

/-- What the worker does with one job. -/
def handling (p : Job × Outcome) : List Event :=
  [.pop p.1, .markRunning p.1, .runHandler p.1 p.2, .record p.1 p.2]

/-- A step of the worker on a job. -/
def Event.isHandling : Event → Bool
  | .pop _ | .markRunning _ | .runHandler _ _ | .record _ _ => true
  | _ => false

@[simp] theorem submitted_append (events : List Event) (e : Event) :
    submitted (events ++ [e]) = submitted events ++ submitted [e] := List.filterMap_append

@[simp] theorem finished_append (events : List Event) (e : Event) :
    finished (events ++ [e]) = finished events ++ finished [e] := List.filterMap_append

/-! ## The invariant -/

/-- The request of an id has a snapshot with the status. -/
def HasStatus (s : AsyncExecutor) (id : RequestId) (status : RequestStatus) : Prop :=
  ∃ snapshot, s.snapshots.find? id = some snapshot ∧ snapshot.status = status

/-- What holds between the events so far and the state. -/
structure LifeCycle (events : List Event) (s : AsyncExecutor) : Prop where
  accounted : submitted events =
    (finished events).map Prod.fst ++ (heldJob s.worker).toList ++ s.queue
  distinct : ((submitted events).map Job.id).Nodup
  handled : events.filter Event.isHandling = (finished events).flatMap handling ++ soFar s.worker
  pending : ∀ job ∈ s.queue, HasStatus s job.id .pending
  held : ∀ job, heldJob s.worker = some job → HasStatus s job.id (heldStatus s.worker)
  recorded : ∀ p ∈ finished events, ∀ snapshot, s.snapshots.find? p.1.id = some snapshot →
    snapshot.Records p.2
  known : ∀ id ∈ s.snapshots.keys, id ∈ (submitted events).map Job.id

namespace LifeCycle

variable {events : List Event} {s s' : AsyncExecutor} {e : Event}

theorem start (maxStoredRequests : Nat) : LifeCycle [] { maxStoredRequests } where
  accounted := rfl
  distinct := List.nodup_nil
  handled := rfl
  pending := nofun
  held := nofun
  recorded := nofun
  known := nofun

/-- The ids of the finished, the held and the waiting jobs. -/
theorem ids (h : LifeCycle events s) :
    ((finished events).map (·.1.id) ++ (heldJob s.worker).toList.map Job.id ++
      s.queue.map Job.id).Nodup := by
  have := h.distinct
  rw [h.accounted] at this
  simpa [Function.comp_def] using this

/-- A waiting job has another id than the held one and the finished ones. -/
theorem ne_of_queue (h : LifeCycle events s) {job : Job} (mem : job ∈ s.queue) :
    (∀ p ∈ finished events, p.1.id ≠ job.id) ∧
      ∀ held, heldJob s.worker = some held → held.id ≠ job.id := by
  have hsplit := (List.nodup_append.mp h.ids).2.2
  refine ⟨fun p hp => ?_, fun held hheld => ?_⟩
  · exact hsplit p.1.id (List.mem_append_left _ (List.mem_map.mpr ⟨p, hp, rfl⟩)) job.id
      (List.mem_map_of_mem mem)
  · exact hsplit held.id (List.mem_append_right _ (by simp [hheld])) job.id
      (List.mem_map_of_mem mem)

/-- The held job has another id than the finished ones. -/
theorem ne_of_held (h : LifeCycle events s) {job : Job} (held : heldJob s.worker = some job) :
    ∀ p ∈ finished events, p.1.id ≠ job.id := by
  have hsplit := (List.nodup_append.mp (List.nodup_append.mp h.ids).1).2.2
  exact fun p hp => hsplit p.1.id (List.mem_map.mpr ⟨p, hp, rfl⟩) job.id (by simp [held])

/-- The id of a submit has no snapshot. -/
theorem find?_fresh (h : LifeCycle events s) {job : Job} (fresh : Fresh events (.submit job)) :
    s.snapshots.find? job.id = none :=
  UnorderedMap.find?_eq_none_iff.mpr fun hmem => fresh (h.known job.id hmem)

/-! ## One step -/

/-- A submit leaves the other snapshots, up to a finished one that is pruned. -/
theorem find?_submit {job : Job} {submittedAt : Int} {order : List (RequestId × RequestSnapshot)}
    (listed : order.Perm s.snapshots.entries) {id : RequestId} (other : id ≠ job.id) :
    let snapshots := (pruneOldSnapshotsLocked s.maxStoredRequests order s.snapshots).assign job.id
      { id := job.id, status := .pending, submittedAt }
    snapshots.find? id = s.snapshots.find? id ∨
      snapshots.find? id = none ∧
        ∃ snapshot, s.snapshots.find? id = some snapshot ∧ snapshot.status.isFinished = true := by
  dsimp only
  rw [UnorderedMap.find?_assign, if_neg other]
  exact find?_prune listed id

theorem submit (h : LifeCycle events s) (job : Job) (submittedAt : Int)
    (order : List (RequestId × RequestSnapshot)) (listed : order.Perm s.snapshots.entries)
    (fresh : Fresh events (.submit job)) :
    LifeCycle (events ++ [.submit job])
      { s with
        snapshots := (pruneOldSnapshotsLocked s.maxStoredRequests order s.snapshots).assign job.id
          { id := job.id, status := .pending, submittedAt }
        queue := s.queue ++ [job] } := by
  have unsubmitted : ∀ j ∈ submitted events, j.id ≠ job.id := fun j hj heq =>
    fresh (heq ▸ List.mem_map_of_mem hj)
  have unfinished : ∀ {id : RequestId} {status : RequestStatus}, id ≠ job.id →
      status.isFinished = false → HasStatus s id status → ∃ snapshot,
        ((pruneOldSnapshotsLocked s.maxStoredRequests order s.snapshots).assign job.id
          { id := job.id, status := .pending, submittedAt }).find? id = some snapshot ∧
            snapshot.status = status := by
    intro id status hne hstatus ⟨snapshot, hfind, hsame⟩
    rcases find?_submit listed hne with
      hkept | ⟨-, snapshot', hfind', hfinished⟩
    · exact ⟨snapshot, hkept.trans hfind, hsame⟩
    · obtain rfl := Option.some.inj (hfind.symm.trans hfind')
      rw [hsame, hstatus] at hfinished
      cases hfinished
  constructor
  case accounted =>
    rw [submitted_append, finished_append, h.accounted]
    simp [submitted, finished]
  case distinct =>
    rw [submitted_append, List.map_append, List.nodup_append]
    refine ⟨h.distinct, by simp [submitted], fun id hid id' hid' => ?_⟩
    obtain rfl : id' = job.id := by simpa [submitted] using hid'
    exact fun heq => fresh (heq ▸ hid)
  case handled => simpa [Event.isHandling, finished] using h.handled
  case pending =>
    intro j hj
    rcases List.mem_append.mp hj with hj | hj
    · refine unfinished (unsubmitted j ?_) rfl (h.pending j hj)
      rw [h.accounted]
      exact List.mem_append_right _ hj
    · obtain rfl := List.mem_singleton.mp hj
      exact ⟨_, by rw [UnorderedMap.find?_assign, if_pos rfl], rfl⟩
  case held =>
    intro j hj
    refine unfinished (unsubmitted j ?_) ?_ (h.held j hj)
    · rw [h.accounted]
      simp [show heldJob s.worker = some j from hj]
    · cases s.worker <;> rfl
  case recorded =>
    intro p hp snapshot hfind
    have hp' : p ∈ finished events := by simpa [finished] using hp
    have hne : p.1.id ≠ job.id := by
      refine unsubmitted p.1 ?_
      rw [h.accounted, List.append_assoc]
      exact List.mem_append_left _ (List.mem_map_of_mem hp')
    rcases find?_submit listed hne with
      hkept | ⟨hnone, -⟩
    · exact h.recorded p hp' snapshot (hkept.symm.trans hfind)
    · cases hnone.symm.trans hfind
  case known =>
    intro id hid
    rw [submitted_append, List.map_append, List.mem_append]
    obtain ⟨snapshot, hfind⟩ := UnorderedMap.mem_keys_iff.mp hid
    by_cases hne : id = job.id
    · exact .inr (by simp [submitted, hne])
    · refine .inl (h.known id (UnorderedMap.mem_keys_iff.mpr ?_))
      rcases find?_submit listed hne with
        hkept | ⟨hnone, -⟩
      · exact ⟨snapshot, hkept.symm.trans hfind⟩
      · cases hnone.symm.trans hfind

theorem pop (h : LifeCycle events s) {job : Job} {rest : List Job} (idle : s.worker = .waiting)
    (front : s.queue = job :: rest) :
    LifeCycle (events ++ [.pop job]) { s with queue := rest, worker := .popped job } := by
  constructor
  case accounted =>
    have := h.accounted
    rw [front, idle] at this
    simpa [submitted, finished, heldJob] using this
  case distinct => simpa [submitted] using h.distinct
  case handled =>
    have := h.handled
    rw [idle] at this
    rw [List.filter_append, this]
    simp [Event.isHandling, finished, soFar]
  case pending => exact fun j hj => h.pending j (by simp [front, hj])
  case held =>
    intro j hj
    obtain rfl := Option.some.inj hj
    exact h.pending job (by simp [front])
  case recorded => simpa [finished] using h.recorded
  case known => simpa [submitted] using h.known

/-- Setting the snapshot of the held job leaves the others. -/
theorem hasStatus_of_ne {snapshots : UnorderedMap RequestId RequestSnapshot} {id : RequestId}
    {status : RequestStatus} (same : snapshots.find? id = s.snapshots.find? id)
    (h : HasStatus s id status) : ∃ snapshot, snapshots.find? id = some snapshot ∧
      snapshot.status = status := by
  obtain ⟨snapshot, hfind, hstatus⟩ := h
  exact ⟨snapshot, same.trans hfind, hstatus⟩

theorem markRunning (h : LifeCycle events s) {job : Job} (now : Int)
    (held : s.worker = .popped job) :
    LifeCycle (events ++ [.markRunning job])
      { s with
        snapshots := updateSnapshot now job.id .running none none true false s.snapshots
        worker := .marked job } := by
  have hheld : heldJob s.worker = some job := by rw [held]; rfl
  constructor
  case accounted =>
    have := h.accounted
    rw [held] at this
    simpa [submitted, finished, heldJob] using this
  case distinct => simpa [submitted] using h.distinct
  case handled =>
    have := h.handled
    rw [held] at this
    simp [Event.isHandling, finished, soFar, this]
  case pending =>
    intro j hj
    have hne := (h.ne_of_queue hj).2 job hheld
    exact hasStatus_of_ne (by rw [find?_updateSnapshot, if_neg hne.symm]) (h.pending j hj)
  case held =>
    intro j hj
    obtain rfl := Option.some.inj hj
    exact ⟨_, by rw [find?_updateSnapshot, if_pos rfl], rfl⟩
  case recorded =>
    intro p hp snapshot hfind
    have hp' : p ∈ finished events := by simpa [finished] using hp
    rw [find?_updateSnapshot, if_neg (h.ne_of_held hheld p hp')] at hfind
    exact h.recorded p hp' snapshot hfind
  case known =>
    intro id hid
    obtain ⟨snapshot, hfind⟩ := UnorderedMap.mem_keys_iff.mp hid
    rw [find?_updateSnapshot] at hfind
    suffices id ∈ (submitted events).map Job.id by simpa [submitted] using this
    split at hfind
    · next heq =>
        rw [heq, h.accounted, hheld]
        simp
    · exact h.known id (UnorderedMap.mem_keys_iff.mpr ⟨snapshot, hfind⟩)

theorem runHandler (h : LifeCycle events s) {job : Job} (outcome : Outcome)
    (held : s.worker = .marked job) :
    LifeCycle (events ++ [.runHandler job outcome]) { s with worker := .handled job outcome } := by
  constructor
  case accounted =>
    have := h.accounted
    rw [held] at this
    simpa [submitted, finished, heldJob] using this
  case distinct => simpa [submitted] using h.distinct
  case handled =>
    have := h.handled
    rw [held] at this
    simp [Event.isHandling, finished, soFar, this]
  case pending => exact h.pending
  case held =>
    intro j hj
    have := h.held j (by rw [held]; exact hj)
    rwa [held] at this
  case recorded => simpa [finished] using h.recorded
  case known => simpa [submitted] using h.known

theorem record (h : LifeCycle events s) {job : Job} {outcome : Outcome} (now : Int)
    (held : s.worker = .handled job outcome) :
    LifeCycle (events ++ [.record job outcome])
      { s with snapshots := recordOutcome now job.id outcome s.snapshots, worker := .waiting } := by
  have hheld : heldJob s.worker = some job := by rw [held]; rfl
  constructor
  case accounted =>
    have := h.accounted
    rw [held] at this
    simpa [submitted, finished, heldJob] using this
  case distinct => simpa [submitted] using h.distinct
  case handled =>
    have := h.handled
    rw [held] at this
    simp [Event.isHandling, finished, soFar, handling, this]
  case pending =>
    intro j hj
    have hne := (h.ne_of_queue hj).2 job hheld
    exact hasStatus_of_ne (find?_recordOutcome_of_ne hne.symm) (h.pending j hj)
  case held => exact nofun
  case recorded =>
    intro p hp snapshot hfind
    rw [finished_append, List.mem_append] at hp
    rcases hp with hp | hp
    · rw [find?_recordOutcome_of_ne (h.ne_of_held hheld p hp)] at hfind
      exact h.recorded p hp snapshot hfind
    · obtain rfl : p = (job, outcome) := by simpa [finished] using hp
      obtain ⟨snapshot', hfind', hrecords⟩ := find?_recordOutcome_self
      obtain rfl := Option.some.inj (hfind.symm.trans hfind')
      exact hrecords
  case known =>
    intro id hid
    suffices id ∈ (submitted events).map Job.id by simpa [submitted] using this
    by_cases hne : id = job.id
    · rw [hne, h.accounted, hheld]
      simp
    · obtain ⟨snapshot, hfind⟩ := UnorderedMap.mem_keys_iff.mp hid
      rw [find?_recordOutcome_of_ne hne] at hfind
      exact h.known id (UnorderedMap.mem_keys_iff.mpr ⟨snapshot, hfind⟩)

/-- An event that is neither a submit nor a step on a job, and a state of the same jobs and
snapshots. -/
theorem unchanged (h : LifeCycle events s) (noSubmit : submitted [e] = [])
    (noFinish : finished [e] = []) (noHandling : e.isHandling = false)
    (queue : s'.queue = s.queue) (snapshots : s'.snapshots = s.snapshots)
    (job : heldJob s'.worker = heldJob s.worker) (status : heldStatus s'.worker = heldStatus s.worker)
    (done : soFar s'.worker = soFar s.worker) : LifeCycle (events ++ [e]) s' := by
  constructor
  case accounted =>
    rw [submitted_append, finished_append, noSubmit, noFinish, job, queue]
    simpa using h.accounted
  case distinct => simpa [noSubmit] using h.distinct
  case handled =>
    rw [List.filter_append, finished_append, noFinish, done, h.handled]
    simp [noHandling]
  case pending =>
    intro j hj
    exact hasStatus_of_ne (by rw [snapshots]) (h.pending j (queue ▸ hj))
  case held =>
    intro j hj
    rw [status]
    exact hasStatus_of_ne (by rw [snapshots]) (h.held j (job ▸ hj))
  case recorded =>
    rw [finished_append, noFinish, List.append_nil, snapshots]
    exact h.recorded
  case known =>
    rw [submitted_append, noSubmit, List.append_nil, snapshots]
    exact h.known

/-- Every step keeps the invariant. -/
theorem step (h : LifeCycle events s) (step : Step s e s') (fresh : Fresh events e) :
    LifeCycle (events ++ [e]) s' := by
  cases step with
  | submit job submittedAt order listed => exact h.submit job submittedAt order listed fresh
  | pop idle front => exact h.pop idle front
  | markRunning now held => exact h.markRunning now held
  | runHandler outcome held => exact h.runHandler outcome held
  | record now held => exact h.record now held
  | readStatus id => exact h.unchanged rfl rfl rfl rfl rfl rfl rfl rfl
  | readResult id => exact h.unchanged rfl rfl rfl rfl rfl rfl rfl rfl
  | stop => exact h.unchanged rfl rfl rfl rfl rfl rfl rfl rfl
  | workerReturn idle stopped drained =>
      refine h.unchanged rfl rfl rfl rfl rfl ?_ ?_ ?_ <;> rw [idle] <;> rfl

end LifeCycle

/-- Every run keeps the invariant. -/
theorem Run.lifeCycle {maxStoredRequests : Nat} {events : List Event} {s : AsyncExecutor}
    (run : Run maxStoredRequests events s) : LifeCycle events s := by
  induction run with
  | start => exact .start maxStoredRequests
  | step _ step fresh ih => exact ih.step step fresh

/-! ## What a run shows -/

/-- The jobs that the handler was called with, in order. -/
def handledJobs (events : List Event) : List Job :=
  events.filterMap fun
    | .runHandler job _ => some job
    | _ => none

/-- The recorded status of a request; `none` is a snapshot that is not there. -/
def recordedStatus (s : AsyncExecutor) (id : RequestId) : Option RequestStatus :=
  (s.snapshots.find? id).map (·.status)

/-- How one step may change the recorded status of a submitted request. -/
inductive StatusMove : Option RequestStatus → Option RequestStatus → Prop where
  | stay (status : Option RequestStatus) : StatusMove status status
  | start : StatusMove (some .pending) (some .running)
  | complete : StatusMove (some .running) (some .completed)
  | fail : StatusMove (some .running) (some .failed)
  | drop {status : RequestStatus} (finished : status.isFinished = true) :
      StatusMove (some status) none

variable {events : List Event} {s s' : AsyncExecutor} {e : Event}

theorem mem_submitted {job : Job} : job ∈ submitted events ↔ .submit job ∈ events := by
  unfold submitted
  rw [List.mem_filterMap]
  constructor
  · rintro ⟨e, he, hjob⟩
    cases e with
    | submit j =>
        obtain rfl := Option.some.inj hjob
        exact he
    | _ => cases hjob
  · exact fun h => ⟨_, h, rfl⟩

namespace LifeCycle

/-- The handler has been called with what is recorded. -/
theorem runHandler_mem (h : LifeCycle events s) {p : Job × Outcome} (mem : p ∈ finished events) :
    .runHandler p.1 p.2 ∈ events := by
  have : Event.runHandler p.1 p.2 ∈ events.filter Event.isHandling := by
    rw [h.handled, List.mem_append, List.mem_flatMap]
    exact .inl ⟨p, mem, by simp [handling]⟩
  exact List.mem_of_mem_filter this

/-- The handler is called in submission order. -/
theorem handledJobs_isPrefix (h : LifeCycle events s) : handledJobs events <+: submitted events := by
  have hfilter : handledJobs events = handledJobs (events.filter Event.isHandling) := by
    unfold handledJobs
    rw [List.filterMap_filter]
    refine List.filterMap_congr fun e _ => ?_
    cases e <;> rfl
  have hblocks : ∀ done : List (Job × Outcome),
      handledJobs (done.flatMap handling) = done.map Prod.fst := by
    intro done
    induction done with
    | nil => rfl
    | cons p done ih =>
        rw [List.flatMap_cons, List.map_cons, ← ih]
        rfl
  have hlast : handledJobs (soFar s.worker) <+: (heldJob s.worker).toList := by
    cases s.worker with
    | handled job outcome => exact List.prefix_rfl
    | _ => exact List.nil_prefix
  rw [hfilter, h.handled, h.accounted, List.append_assoc]
  unfold handledJobs at hblocks hlast ⊢
  rw [List.filterMap_append, hblocks, List.prefix_append_right_inj]
  exact hlast.trans (List.prefix_append _ s.queue)

/-- A submitted request is waiting, held or finished. -/
theorem cases_of_submitted (h : LifeCycle events s) {id : RequestId}
    (mem : id ∈ (submitted events).map Job.id) :
    (∃ p ∈ finished events, p.1.id = id) ∨ (∃ job, heldJob s.worker = some job ∧ job.id = id) ∨
      ∃ job ∈ s.queue, job.id = id := by
  obtain ⟨job, hjob, rfl⟩ := List.mem_map.mp mem
  rw [h.accounted, List.mem_append, List.mem_append] at hjob
  rcases hjob with (hjob | hjob) | hjob
  · obtain ⟨p, hp, rfl⟩ := List.mem_map.mp hjob
    exact .inl ⟨p, hp, rfl⟩
  · exact .inr (.inl ⟨job, Option.mem_toList.mp hjob, rfl⟩)
  · exact .inr (.inr ⟨job, hjob, rfl⟩)

/-- A snapshot is finished exactly when its request is. -/
theorem isFinished_iff (h : LifeCycle events s) {id : RequestId} {snapshot : RequestSnapshot}
    (hfind : s.snapshots.find? id = some snapshot) :
    snapshot.status.isFinished = true ↔ ∃ p ∈ finished events, p.1.id = id := by
  have unfinished : ∀ {status : RequestStatus}, status.isFinished = false →
      HasStatus s id status → snapshot.status.isFinished = false := by
    rintro status hstatus ⟨snapshot', hfind', hsame⟩
    obtain rfl := Option.some.inj (hfind.symm.trans hfind')
    rw [hsame, hstatus]
  constructor
  · intro hfinished
    rcases h.cases_of_submitted (h.known id (UnorderedMap.mem_keys_iff.mpr ⟨snapshot, hfind⟩)) with
      hdone | ⟨job, hjob, rfl⟩ | ⟨job, hjob, rfl⟩
    · exact hdone
    · rw [unfinished (by cases s.worker <;> rfl) (h.held job hjob)] at hfinished
      cases hfinished
    · rw [unfinished rfl (h.pending job hjob)] at hfinished
      cases hfinished
  · rintro ⟨p, hp, rfl⟩
    exact (h.recorded p hp snapshot hfind).isFinished

/-- A finished snapshot holds what the handler did with the query of its request. -/
theorem outcome_of_finished (h : LifeCycle events s) {id : RequestId} {snapshot : RequestSnapshot}
    (hfind : s.snapshots.find? id = some snapshot)
    (hfinished : snapshot.status.isFinished = true) :
    ∃ job outcome, .submit job ∈ events ∧ job.id = id ∧ .runHandler job outcome ∈ events ∧
      snapshot.Records outcome := by
  obtain ⟨p, hp, rfl⟩ := (h.isFinished_iff hfind).mp hfinished
  refine ⟨p.1, p.2, mem_submitted.mp ?_, rfl, h.runHandler_mem hp, h.recorded p hp snapshot hfind⟩
  rw [h.accounted, List.append_assoc]
  exact List.mem_append_left _ (List.mem_map_of_mem hp)

/-- The recorded status of a submitted request moves forward. -/
theorem statusMove (h : LifeCycle events s) (step : Step s e s') (fresh : Fresh events e)
    {id : RequestId} (mem : id ∈ (submitted events).map Job.id) :
    StatusMove (recordedStatus s id) (recordedStatus s' id) := by
  cases step with
  | submit job submittedAt order listed =>
      have hne : id ≠ job.id := fun heq => fresh (heq ▸ mem)
      rcases find?_submit listed hne with
        hkept | ⟨hnone, snapshot, hfind, hfinished⟩
      · unfold recordedStatus
        rw [hkept]
        exact .stay _
      · unfold recordedStatus
        rw [hnone, hfind]
        exact .drop hfinished
  | markRunning now held =>
      next job =>
      unfold recordedStatus
      rw [find?_updateSnapshot]
      split
      · next heq =>
          have hheld : heldJob s.worker = some job := by rw [held]; rfl
          obtain ⟨snapshot, hfind, hstatus⟩ := h.held job hheld
          rw [heq, hfind, Option.map_some, hstatus, held]
          exact .start
      · exact .stay _
  | record now held =>
      next job outcome =>
      unfold recordedStatus
      by_cases heq : id = job.id
      · have hheld : heldJob s.worker = some job := by rw [held]; rfl
        obtain ⟨snapshot, hfind, hstatus⟩ := h.held job hheld
        rw [heq, hfind, Option.map_some, hstatus, held]
        cases outcome with
        | ok result =>
            unfold recordOutcome
            rw [find?_updateSnapshot, if_pos rfl]
            exact .complete
        | error what =>
            unfold recordOutcome
            rw [find?_updateSnapshot, if_pos rfl]
            exact .fail
      · rw [find?_recordOutcome_of_ne heq]
        exact .stay _
  | pop | runHandler | readStatus | readResult | stop | workerReturn => exact .stay _

/-- A snapshot is made by the submit of its request alone. -/
theorem status_of_unsubmitted (h : LifeCycle events s) (step : Step s e s')
    (fresh : Fresh events e) {id : RequestId} (unknown : id ∉ (submitted events).map Job.id) :
    recordedStatus s id = none ∧
      (recordedStatus s' id = none ∨
        recordedStatus s' id = some .pending ∧ ∃ job, e = .submit job ∧ job.id = id) := by
  have hnone : s.snapshots.find? id = none :=
    UnorderedMap.find?_eq_none_iff.mpr fun hmem => unknown (h.known id hmem)
  have hs : recordedStatus s id = none := by rw [recordedStatus, hnone]; rfl
  have h' := h.step step fresh
  refine ⟨hs, ?_⟩
  cases step with
  | submit job submittedAt order listed =>
      by_cases heq : id = job.id
      · refine .inr ⟨?_, job, rfl, heq.symm⟩
        unfold recordedStatus
        rw [UnorderedMap.find?_assign, if_pos heq]
        rfl
      · left
        unfold recordedStatus
        rcases find?_submit listed heq with
          hkept | ⟨hgone, -⟩
        · rw [hkept, hnone]
          rfl
        · rw [hgone]
          rfl
  | markRunning now held =>
      left
      refine Option.map_eq_none_iff.mpr (UnorderedMap.find?_eq_none_iff.mpr fun hmem => unknown ?_)
      simpa [submitted] using h'.known id hmem
  | record now held =>
      left
      refine Option.map_eq_none_iff.mpr (UnorderedMap.find?_eq_none_iff.mpr fun hmem => unknown ?_)
      simpa [submitted] using h'.known id hmem
  | pop | runHandler | readStatus | readResult | stop | workerReturn => exact .inl hs

/-- `getResult` reports ready exactly the finished requests whose snapshot is kept. -/
theorem getResult_ready_iff (h : LifeCycle events s) {id : RequestId} :
    (∃ info, s.getResult id = some info ∧ info.ready = true) ↔
      (∃ p ∈ finished events, p.1.id = id) ∧ (s.getSnapshot id).isSome = true := by
  unfold getResult getSnapshot
  cases hfind : s.snapshots.find? id with
  | none => simp
  | some snapshot =>
      rw [← h.isFinished_iff hfind, ← toResultInfo_ready]
      simp

/-- The worker returns when everything submitted is finished. -/
theorem finished_of_workerReturn (h : LifeCycle events s) (step : Step s .workerReturn s') :
    s.stop = true ∧ (finished events).map Prod.fst = submitted events := by
  cases step with
  | workerReturn idle stopped drained =>
      refine ⟨stopped, ?_⟩
      rw [h.accounted, idle, drained]
      simp [heldJob]

end LifeCycle

/-- The life of the requests, in every run: jobs are handled one after another in submission
order; a recorded status moves forward, and a snapshot goes away when finished and does not come
back; a finished snapshot holds what the handler did; `getResult` reports ready the finished
requests whose snapshot is kept; and the worker returns when everything is finished. -/
theorem request_life_cycle {maxStoredRequests : Nat}
    (run : Run maxStoredRequests events s) :
    (events.filter Event.isHandling = (finished events).flatMap handling ++ soFar s.worker ∧
      submitted events = (finished events).map Prod.fst ++ (heldJob s.worker).toList ++ s.queue ∧
      handledJobs events <+: submitted events ∧ (handledJobs events).Nodup) ∧
    (∀ e s', Step s e s' → Fresh events e → ∀ id,
      (id ∈ (submitted events).map Job.id →
        StatusMove (recordedStatus s id) (recordedStatus s' id)) ∧
      (id ∉ (submitted events).map Job.id → recordedStatus s id = none ∧
        (recordedStatus s' id = none ∨
          recordedStatus s' id = some .pending ∧ ∃ job, e = .submit job ∧ job.id = id))) ∧
    (∀ id snapshot, s.getSnapshot id = some snapshot → snapshot.status.isFinished = true →
      ∃ job outcome, .submit job ∈ events ∧ job.id = id ∧ .runHandler job outcome ∈ events ∧
        snapshot.Records outcome) ∧
    (∀ id, (∃ info, s.getResult id = some info ∧ info.ready = true) ↔
      (∃ p ∈ finished events, p.1.id = id) ∧ (s.getSnapshot id).isSome = true) ∧
    (∀ s', Step s .workerReturn s' →
      s.stop = true ∧ (finished events).map Prod.fst = submitted events) := by
  have h := run.lifeCycle
  refine ⟨⟨h.handled, h.accounted, h.handledJobs_isPrefix, ?_⟩, ?_, ?_, ?_, ?_⟩
  · exact (List.Nodup.of_map Job.id h.distinct).sublist h.handledJobs_isPrefix.sublist
  · exact fun e s' step fresh id => ⟨h.statusMove step fresh, h.status_of_unsubmitted step fresh⟩
  · exact fun id snapshot => h.outcome_of_finished
  · exact fun id => h.getResult_ready_iff
  · exact fun s' => h.finished_of_workerReturn

section Instances

private def first : Job := ⟨text "a", text "client", text "UPDATE t SET x = 1;"⟩

private def second : Job := ⟨text "b", text "client", text "DELETE FROM t;"⟩

private def events₁ : List Event :=
  [.submit first, .pop first, .markRunning first, .runHandler first (.ok (text "OK")),
    .record first (.ok (text "OK"))]

private def snapshot₁ : RequestSnapshot where
  id := text "a"
  status := .completed
  result := some (text "OK")
  startedAt := some 1
  finishedAt := some 2

/-- One request is finished; the executor keeps one snapshot. -/
private theorem run₁ : ∃ s, Run 1 events₁ s ∧ s.maxStoredRequests = 1 ∧
    s.snapshots.entries = [(text "a", snapshot₁)] :=
  ⟨_, (((((Run.start.step (.submit first 0 [] (.refl _)) nofun).step
    (.pop rfl rfl) trivial).step (.markRunning 1 rfl) trivial).step
    (.runHandler (.ok (text "OK")) rfl) trivial).step (.record 2 rfl) trivial), rfl,
    by decide +kernel⟩

/-- The finished request is reported ready with what the handler returned. -/
theorem request_life_cycle_of_update : ∃ events s, Run 1 events s ∧
    handledJobs events = [first] ∧
    ∃ info, s.getResult (text "a") = some info ∧ info.ready = true := by
  obtain ⟨s, run, -, hentries⟩ := run₁
  obtain ⟨-, -, -, hready, -⟩ := request_life_cycle run
  have hkept : s.getSnapshot (text "a") = some snapshot₁ :=
    UnorderedMap.find?_eq_some_iff.mpr (by rw [hentries]; exact List.mem_singleton_self _)
  refine ⟨events₁, s, run, rfl, (hready (text "a")).mpr ⟨⟨(first, .ok (text "OK")), ?_, rfl⟩, ?_⟩⟩
  · decide +kernel
  · rw [hkept]
    rfl

/-- The next submit drops the snapshot, and `getResult` says nothing of the finished
request. -/
theorem pruned_request_not_ready : ∃ events s id, Run 1 events s ∧
    (∃ p ∈ finished events, p.1.id = id) ∧
    ¬ ∃ info, s.getResult id = some info ∧ info.ready = true := by
  obtain ⟨s, run, hmax, hentries⟩ := run₁
  have fresh : Fresh events₁ (.submit second) := by
    change second.id ∉ [first.id]
    decide
  refine ⟨_, _, text "a", run.step (.submit second 3 s.snapshots.entries (.refl _)) fresh,
    ⟨(first, .ok (text "OK")), by decide +kernel, rfl⟩, ?_⟩
  have hgone : (pruneOldSnapshotsLocked s.maxStoredRequests s.snapshots.entries s.snapshots).find?
      (text "a") = none := by
    unfold pruneOldSnapshotsLocked UnorderedMap.size
    rw [hmax, hentries, if_neg (by decide)]
    change (s.snapshots.erase (text "a")).find? (text "a") = none
    rw [UnorderedMap.find?_erase, if_pos rfl]
  rintro ⟨info, hinfo, -⟩
  unfold getResult getSnapshot at hinfo
  rw [UnorderedMap.find?_assign, if_neg (by decide), hgone] at hinfo
  cases hinfo

end Instances
end AsyncExecutor
end CwDb.Executor
