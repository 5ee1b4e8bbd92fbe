/-
  Executor/QueuePositions.lean --- the queue positions that `getStatus` reports.

  The worker takes a job in one critical section and marks it running in the next.  In
  between its request is pending and in no queue.
-/
import CwDb.Executor.RequestLifeCycle

set_option autoImplicit false

namespace CwDb.Executor
namespace AsyncExecutor

open CwDb.Cpp
open CwDb.Foundation

/-- The jobs that the worker has taken from the queue, in order. -/
def taken (events : List Event) : List Job :=
  events.filterMap fun
    | .pop job => some job
    | _ => none

/-- The requests submitted before `id` that the worker has not taken. -/
def waitingBefore (events : List Event) (id : RequestId) : List Job :=
  ((submitted events).takeWhile fun job => job.id ≠ id).filter fun job => job ∉ taken events

variable {events : List Event} {s : AsyncExecutor} {id : RequestId} {M : Nat}

namespace LifeCycle

/-- The taken jobs are the finished ones and the held one. -/
theorem taken_eq (h : LifeCycle events s) :
    taken events = (finished events).map Prod.fst ++ (heldJob s.worker).toList := by
  have hfilter : taken events = taken (events.filter Event.isHandling) := by
    unfold taken
    rw [List.filterMap_filter]
    refine List.filterMap_congr fun e _ => ?_
    cases e <;> rfl
  have hblocks : ∀ done : List (Job × Outcome),
      taken (done.flatMap handling) = done.map Prod.fst := by
    intro done
    induction done with
    | nil => rfl
    | cons p done ih =>
        rw [List.flatMap_cons, List.map_cons, ← ih]
        rfl
  have hlast : taken (soFar s.worker) = (heldJob s.worker).toList := by
    cases s.worker <;> rfl
  rw [hfilter, h.handled, ← hblocks, ← hlast]
  exact List.filterMap_append

theorem submitted_eq (h : LifeCycle events s) : submitted events = taken events ++ s.queue := by
  rw [h.taken_eq]
  exact h.accounted

/-- A pending request waits in the queue, or the worker has just taken it. -/
theorem cases_of_pending (h : LifeCycle events s) {snapshot : RequestSnapshot}
    (hfind : s.snapshots.find? id = some snapshot) (hpending : snapshot.status = .pending) :
    (∃ job ∈ s.queue, job.id = id) ∨ ∃ job, s.worker = .popped job ∧ job.id = id := by
  rcases h.cases_of_submitted (h.known id (UnorderedMap.mem_keys_iff.mpr ⟨snapshot, hfind⟩)) with
    hdone | ⟨job, hjob, rfl⟩ | hwaits
  · have hfinished := (h.isFinished_iff hfind).mpr hdone
    rw [hpending] at hfinished
    cases hfinished
  · obtain ⟨snapshot', hfind', hstatus⟩ := h.held job hjob
    obtain rfl := Option.some.inj (hfind.symm.trans hfind')
    rw [hpending] at hstatus
    refine .inr ⟨job, ?_, rfl⟩
    cases hworker : s.worker with
    | popped j =>
        rw [hworker] at hjob
        rw [Option.some.inj hjob]
    | _ =>
        rw [hworker] at hstatus
        cases hstatus
  · exact .inl hwaits

/-- A request in the queue is as far from its front as there are requests to take before. -/
theorem queuePosition_of_queue (h : LifeCycle events s) {job : Job} (mem : job ∈ s.queue) :
    s.getQueuePositionLocked job.id = some (waitingBefore events job.id).length := by
  obtain ⟨before, after, hqueue⟩ := List.append_of_mem mem
  have hdistinct := h.distinct
  rw [h.submitted_eq, hqueue, ← List.append_assoc, List.map_append, List.map_cons,
    List.nodup_middle, List.nodup_cons, ← List.map_append] at hdistinct
  have hearlier : ∀ j ∈ taken events ++ before, j.id ≠ job.id := by
    intro j hj heq
    refine hdistinct.1 (heq ▸ List.mem_map_of_mem (f := Job.id) ?_)
    exact List.mem_append_left _ hj
  have hwaits : waitingBefore events job.id = before := by
    have htaken : ∀ j ∈ before, j ∉ taken events := by
      intro j hj hmem
      have hnodup := (List.Nodup.of_map Job.id hdistinct.2).sublist
        (List.sublist_append_left (taken events ++ before) after)
      exact (List.nodup_append.mp hnodup).2.2 j hmem j hj rfl
    unfold waitingBefore
    rw [h.submitted_eq, hqueue, ← List.append_assoc, List.takeWhile_append_of_pos
      (by simpa using hearlier), List.takeWhile_cons_of_neg (by simp), List.append_nil,
      List.filter_append, List.filter_eq_nil_iff.mpr (by simp), List.nil_append,
      List.filter_eq_self.mpr (by simpa using htaken)]
  unfold getQueuePositionLocked
  rw [hwaits, hqueue, List.findIdx?_append, List.findIdx?_eq_none_iff.mpr (by
    intro j hj
    exact decide_eq_false (hearlier j (List.mem_append_right _ hj)))]
  simp [List.findIdx?_cons]

end LifeCycle

/-- What `getStatus` reports of a pending request. -/
theorem getStatus_pending {info : RequestStatusInfo} (found : s.getStatus id = some info)
    (pending : info.status = .pending) :
    ∃ snapshot, s.snapshots.find? id = some snapshot ∧ snapshot.status = .pending ∧
      info.queuePosition = s.getQueuePositionLocked id := by
  unfold getStatus at found
  obtain ⟨snapshot, hfind, hinfo⟩ := Option.map_eq_some_iff.mp found
  dsimp only at hinfo
  split at hinfo
  · next hstatus =>
      subst hinfo
      exact ⟨snapshot, hfind, hstatus, rfl⟩
  · next hstatus =>
      subst hinfo
      exact absurd pending hstatus

/-- When `getStatus` reports the position of a pending request. -/
theorem queuePosition_right_iff {info : RequestStatusInfo} (run : Run M events s)
    (found : s.getStatus id = some info) (pending : info.status = .pending) :
    info.queuePosition = some (waitingBefore events id).length ↔
      ∀ job, s.worker = .popped job → job.id ≠ id := by
  have hlife := run.lifeCycle
  obtain ⟨snapshot, hfind, hstatus, hposition⟩ := getStatus_pending found pending
  rw [hposition]
  constructor
  · intro hsome job hworker heq
    have hnone : s.getQueuePositionLocked id = none := by
      refine List.findIdx?_eq_none_iff.mpr fun j hj => decide_eq_false fun hid => ?_
      exact (hlife.ne_of_queue hj).2 job (by rw [hworker]; rfl) (heq.trans hid.symm)
    rw [hnone] at hsome
    cases hsome
  · intro hother
    rcases hlife.cases_of_pending hfind hstatus with ⟨job, hjob, rfl⟩ | ⟨job, hworker, heq⟩
    · exact hlife.queuePosition_of_queue hjob
    · exact absurd heq (hother job hworker)

section Instances

private def deletion (id : String) : Job := ⟨text id, text "c1", text "DELETE FROM t;"⟩

private def oneWaiting : AsyncExecutor where
  maxStoredRequests := 4096
  queue := [deletion "1"]
  snapshots := UnorderedMap.assign .empty (text "1")
    { id := text "1", status := .pending, submittedAt := 0 }

private theorem runOneWaiting : Run 4096 [.submit (deletion "1")] oneWaiting :=
  Run.start.step (.submit (deletion "1") 0 [] (.refl _)) nofun

/-- The second of two requests is one request away from the front. -/
theorem queuePosition_right_of_two : ∃ events s info, Run 4096 events s ∧
    s.getStatus (text "2") = some info ∧ info.queuePosition = some 1 := by
  have fresh : Fresh [.submit (deletion "1")] (.submit (deletion "2")) := by
    change (deletion "2").id ∉ [(deletion "1").id]
    decide
  have run := runOneWaiting.step (.submit (deletion "2") 1 _ (.refl _)) fresh
  have right := (@queuePosition_right_iff _ _ (text "2") _ _ run rfl (by decide +kernel)).mpr nofun
  exact ⟨_, _, _, run, rfl, right⟩

/-- A request that the worker has taken and not marked is pending at no position. -/
theorem taken_request_has_no_position : ∃ events s info, Run 4096 events s ∧
    s.getStatus (text "1") = some info ∧ info.status = .pending ∧
    info.queuePosition ≠ some (waitingBefore events (text "1")).length :=
  ⟨_, _, _, runOneWaiting.step (.pop rfl rfl) trivial, rfl, by decide +kernel, by decide +kernel⟩

end Instances
end AsyncExecutor
end CwDb.Executor
