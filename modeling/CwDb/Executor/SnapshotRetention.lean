/-
  Executor/SnapshotRetention.lean --- how many snapshots are kept.

  A submit prunes at most one snapshot before it adds its own.  So a store that has grown
  past its limit while nothing was finished never comes back under it.
-/
import CwDb.Executor.RequestLifeCycle

set_option autoImplicit false

namespace CwDb.Executor

open CwDb.Cpp
open CwDb.Foundation

/-! ## The loop of `pruneOldSnapshotsLocked` -/

/-- A finished snapshot carries the time of its end. -/
def Timed (entry : RequestId × RequestSnapshot) : Prop :=
  entry.2.status.isFinished = true → ∃ time, entry.2.finishedAt = some time

/-- `entry` is finished, and not later than any finished one of `order`. -/
structure EarliestFinished (order : List (RequestId × RequestSnapshot))
    (entry : RequestId × RequestSnapshot) : Prop where
  finished : entry.2.status.isFinished = true
  earliest : ∃ time, entry.2.finishedAt = some time ∧ ∀ other ∈ order,
    other.2.status.isFinished = true → ∃ time', other.2.finishedAt = some time' ∧ time ≤ time'

/-- One round keeps the earliest of the finished snapshots seen. -/
theorem olderFinished_earliest {seen : List (RequestId × RequestSnapshot)}
    {oldest : Option (RequestId × RequestSnapshot)} {entry : RequestId × RequestSnapshot}
    (timed : Timed entry)
    (none_ : oldest = none → ∀ e ∈ seen, e.2.status.isFinished = false)
    (some_ : ∀ e, oldest = some e → EarliestFinished seen e) :
    (olderFinished oldest entry = none →
      ∀ e ∈ seen ++ [entry], e.2.status.isFinished = false) ∧
    ∀ e, olderFinished oldest entry = some e → EarliestFinished (seen ++ [entry]) e := by
  unfold olderFinished
  cases hfinished : entry.2.status.isFinished with
  | false =>
      rw [if_neg Bool.false_ne_true]
      constructor
      · intro hnone e he
        rcases List.mem_append.mp he with he | he
        · exact none_ hnone e he
        · obtain rfl := List.mem_singleton.mp he
          exact hfinished
      · intro e he
        obtain ⟨hfin, time, htime, hleast⟩ := some_ e he
        refine ⟨hfin, time, htime, fun other hother hdone => ?_⟩
        rcases List.mem_append.mp hother with hother | hother
        · exact hleast other hother hdone
        · obtain rfl := List.mem_singleton.mp hother
          rw [hfinished] at hdone
          cases hdone
  | true =>
      rw [if_pos rfl]
      obtain ⟨time, htime⟩ := timed hfinished
      cases oldest with
      | none =>
          refine ⟨nofun, ?_⟩
          rintro e ⟨⟩
          refine ⟨hfinished, time, htime, fun other hother hdone => ?_⟩
          rcases List.mem_append.mp hother with hother | hother
          · rw [none_ rfl other hother] at hdone
            cases hdone
          · obtain rfl := List.mem_singleton.mp hother
            exact ⟨time, htime, le_refl time⟩
      | some best =>
          obtain ⟨hbest, bestTime, hbestTime, hleast⟩ := some_ best rfl
          simp only [htime, hbestTime]
          constructor
          · intro hnone
            split at hnone <;> cases hnone
          intro e he
          split at he
          · next hlt =>
              cases he
              refine ⟨hfinished, time, htime, fun other hother hdone => ?_⟩
              rcases List.mem_append.mp hother with hother | hother
              · obtain ⟨time', htime', hle⟩ := hleast other hother hdone
                exact ⟨time', htime', le_trans (le_of_lt hlt) hle⟩
              · obtain rfl := List.mem_singleton.mp hother
                exact ⟨time, htime, le_refl time⟩
          · next hge =>
              cases he
              refine ⟨hbest, bestTime, hbestTime, fun other hother hdone => ?_⟩
              rcases List.mem_append.mp hother with hother | hother
              · exact hleast other hother hdone
              · obtain rfl := List.mem_singleton.mp hother
                exact ⟨time, htime, not_lt.mp hge⟩

/-- The loop finds the earliest finished snapshot, if any is finished. -/
theorem foldl_olderFinished_earliest {order : List (RequestId × RequestSnapshot)}
    (timed : ∀ e ∈ order, Timed e) :
    (order.foldl olderFinished none = none → ∀ e ∈ order, e.2.status.isFinished = false) ∧
    ∀ e, order.foldl olderFinished none = some e → EarliestFinished order e := by
  have go : ∀ (rest seen : List (RequestId × RequestSnapshot))
      (oldest : Option (RequestId × RequestSnapshot)), (∀ e ∈ rest, Timed e) →
      (oldest = none → ∀ e ∈ seen, e.2.status.isFinished = false) →
      (∀ e, oldest = some e → EarliestFinished seen e) →
      (rest.foldl olderFinished oldest = none →
        ∀ e ∈ seen ++ rest, e.2.status.isFinished = false) ∧
      ∀ e, rest.foldl olderFinished oldest = some e → EarliestFinished (seen ++ rest) e := by
    intro rest
    induction rest with
    | nil =>
        intro seen oldest _ hnone hsome
        rw [List.append_nil]
        exact ⟨hnone, hsome⟩
    | cons entry rest ih =>
        intro seen oldest htimed hnone hsome
        have hround := olderFinished_earliest (htimed entry List.mem_cons_self) hnone hsome
        have hrest := ih (seen ++ [entry]) (olderFinished oldest entry)
          (fun e he => htimed e (List.mem_cons_of_mem entry he)) hround.1 hround.2
        simpa using hrest
  exact go order [] none timed (fun _ => nofun) nofun

/-- Pruning keeps every snapshot while there is room or nothing is finished, and drops an
earliest finished one otherwise. -/
theorem prune_cases {maxStored : Nat} {order : List (RequestId × RequestSnapshot)}
    {snapshots : UnorderedMap RequestId RequestSnapshot} (listed : order.Perm snapshots.entries)
    (timed : ∀ e ∈ snapshots.entries, Timed e) :
    (pruneOldSnapshotsLocked maxStored order snapshots = snapshots ∧
      (snapshots.size < maxStored ∨
        ∀ e ∈ snapshots.entries, e.2.status.isFinished = false)) ∨
    ∃ oldest ∈ snapshots.entries, EarliestFinished snapshots.entries oldest ∧
      maxStored ≤ snapshots.size ∧
      pruneOldSnapshotsLocked maxStored order snapshots = snapshots.erase oldest.1 := by
  obtain ⟨hnone, hsome⟩ :=
    foldl_olderFinished_earliest fun e he => timed e (listed.mem_iff.mp he)
  unfold pruneOldSnapshotsLocked
  split
  · next hroom => exact .inl ⟨rfl, .inl hroom⟩
  next hfull =>
  cases hloop : order.foldl olderFinished none with
  | none => exact .inl ⟨rfl, .inr fun e he => hnone hloop e (listed.mem_iff.mpr he)⟩
  | some oldest =>
      obtain ⟨hfinished, time, htime, hleast⟩ := hsome oldest hloop
      have hmem : oldest ∈ snapshots.entries := by
        rcases foldl_olderFinished hloop with h | ⟨h, -⟩
        · cases h
        · exact listed.mem_iff.mp h
      exact .inr ⟨oldest, hmem, ⟨hfinished, time, htime, fun other hother hdone =>
        hleast other (listed.mem_iff.mpr hother) hdone⟩, not_lt.mp hfull, rfl⟩

namespace AsyncExecutor

/-! ## Counting snapshots -/

/-- The snapshots of finished requests. -/
def finishedSnapshots (s : AsyncExecutor) : List (RequestId × RequestSnapshot) :=
  s.snapshots.entries.filter fun e => e.2.status.isFinished

/-- The submitted requests that have not finished. -/
def unfinished (events : List Event) : List Job :=
  (submitted events).filter fun job => ∀ e ∈ finished events, e.1.id ≠ job.id

variable {events : List Event} {s s' : AsyncExecutor} {M : Nat}

theorem Run.maxStoredRequests_eq (run : Run M events s) : s.maxStoredRequests = M := by
  induction run with
  | start => rfl
  | step _ step _ ih => cases step <;> exact ih

/-- Every finished snapshot carries the time of its end. -/
theorem Run.timed (run : Run M events s) : ∀ e ∈ s.snapshots.entries, Timed e := by
  have hfind : ∀ id snapshot, s.snapshots.find? id = some snapshot → Timed (id, snapshot) := by
    induction run with
    | start =>
        intro id snapshot hsnapshot
        cases hsnapshot
    | step _ step _ ih =>
        intro id snapshot hsnapshot
        cases step with
        | submit job submittedAt order listed =>
            rw [UnorderedMap.find?_assign] at hsnapshot
            split at hsnapshot
            · cases hsnapshot
              intro hfinished
              cases hfinished
            · rcases find?_prune listed id with hkept | ⟨hnone, -⟩
              · exact ih id snapshot (hkept.symm.trans hsnapshot)
              · rw [hnone] at hsnapshot
                cases hsnapshot
        | markRunning now held =>
            rw [find?_updateSnapshot] at hsnapshot
            split at hsnapshot
            · cases hsnapshot
              intro hfinished
              cases hfinished
            · exact ih id snapshot hsnapshot
        | record now held =>
            next job outcome _ =>
            by_cases hid : id = job.id
            · subst hid
              unfold recordOutcome at hsnapshot
              cases outcome <;>
                (rw [find?_updateSnapshot, if_pos rfl] at hsnapshot
                 cases hsnapshot
                 exact fun _ => ⟨now, rfl⟩)
            · rw [find?_recordOutcome_of_ne hid] at hsnapshot
              exact ih id snapshot hsnapshot
        | pop | runHandler | readStatus | readResult | stop | workerReturn =>
            exact ih id snapshot hsnapshot
  intro e he
  exact hfind e.1 e.2 (UnorderedMap.find?_eq_some_iff.mpr he)

/-- The unfinished requests are the ones that have a snapshot of another status. -/
theorem LifeCycle.length_unfinished (h : LifeCycle events s) :
    s.snapshots.size = s.finishedSnapshots.length + (unfinished events).length := by
  have hperm : ((s.snapshots.entries.filter fun e => !e.2.status.isFinished).map Prod.fst).Perm
      ((unfinished events).map Job.id) := by
    refine (List.perm_ext_iff_of_nodup
      (s.snapshots.nodup.sublist (List.filter_sublist.map Prod.fst))
      (h.distinct.sublist (List.filter_sublist.map Job.id))).mpr fun id => ?_
    constructor
    · intro hid
      obtain ⟨e, he, rfl⟩ := List.mem_map.mp hid
      obtain ⟨hmem, hstatus⟩ := List.mem_filter.mp he
      have hfind := UnorderedMap.find?_eq_some_iff.mpr (show (e.1, e.2) ∈ _ from hmem)
      obtain ⟨job, hjob, hjobId⟩ :=
        List.mem_map.mp (h.known e.1 (UnorderedMap.mem_keys_iff.mpr ⟨_, hfind⟩))
      refine List.mem_map.mpr ⟨job, List.mem_filter.mpr ⟨hjob, ?_⟩, hjobId⟩
      rw [hjobId]
      refine decide_eq_true fun p hp hpId => ?_
      have := (h.isFinished_iff hfind).mpr ⟨p, hp, hpId⟩
      rw [this] at hstatus
      cases hstatus
    · intro hid
      obtain ⟨job, hjob, rfl⟩ := List.mem_map.mp hid
      obtain ⟨hmem, hopen⟩ := List.mem_filter.mp hjob
      have hnot : ∀ e ∈ finished events, e.1.id ≠ job.id := of_decide_eq_true hopen
      have hstatus : ∃ status, HasStatus s job.id status ∧ status.isFinished = false := by
        rw [h.accounted, List.append_assoc] at hmem
        rcases List.mem_append.mp hmem with hdone | hmem
        · obtain ⟨p, hp, rfl⟩ := List.mem_map.mp hdone
          exact absurd rfl (hnot p hp)
        rcases List.mem_append.mp hmem with hheld | hwaits
        · refine ⟨_, h.held job (by simpa using hheld), ?_⟩
          cases s.worker <;> rfl
        · exact ⟨.pending, h.pending job hwaits, rfl⟩
      obtain ⟨status, ⟨snapshot, hfind, hsame⟩, hopen⟩ := hstatus
      refine List.mem_map.mpr ⟨(job.id, snapshot), List.mem_filter.mpr
        ⟨UnorderedMap.find?_eq_some_iff.mp hfind, ?_⟩, rfl⟩
      rw [hsame, hopen]
      rfl
  have hcount := hperm.length_eq
  rw [List.length_map, List.length_map] at hcount
  rw [← hcount]
  exact List.length_eq_length_filter_add _

/-- A submit adds one unfinished request. -/
theorem LifeCycle.length_unfinished_submit {job : Job} (h : LifeCycle events s)
    (fresh : Fresh events (.submit job)) :
    (unfinished (events ++ [.submit job])).length = (unfinished events).length + 1 := by
  have hfinished : finished (events ++ [.submit job]) = finished events := by
    rw [finished_append]
    exact List.append_nil _
  have hsubmitted : submitted (events ++ [.submit job]) = submitted events ++ [job] :=
    submitted_append events _
  have hnot : ∀ e ∈ finished events, e.1.id ≠ job.id := by
    intro p hp hpId
    refine fresh (hpId ▸ List.mem_map_of_mem (f := Job.id) ?_)
    rw [h.accounted, List.append_assoc]
    exact List.mem_append_left _ (List.mem_map_of_mem hp)
  unfold unfinished
  rw [hfinished, hsubmitted, List.filter_append, List.length_append,
    List.filter_singleton, decide_eq_true hnot]
  rfl

/-- When a submit keeps the store within the bound, and what it evicts. -/
theorem retention_within_bound_iff {job : Job} (run : Run M events s)
    (step : Step s (.submit job) s') (fresh : Fresh events (.submit job)) :
    (s'.snapshots.size ≤ max M (unfinished (events ++ [.submit job])).length ↔
      s.snapshots.size ≤ M ∨ s.finishedSnapshots.length ≤ 1) ∧
    ∀ id snapshot, s.snapshots.find? id = some snapshot → s'.snapshots.find? id = none →
      EarliestFinished s.snapshots.entries (id, snapshot) := by
  have hlife := run.lifeCycle
  have hcount := hlife.length_unfinished
  cases step with
  | submit job submittedAt order listed =>
      rw [hlife.length_unfinished_submit fresh]
      have hnew : job.id ∉
          (pruneOldSnapshotsLocked s.maxStoredRequests order s.snapshots).keys := by
        rw [← UnorderedMap.find?_eq_none_iff]
        rcases find?_prune listed job.id with hkept | ⟨hgone, -⟩
        · exact hkept.trans (hlife.find?_fresh fresh)
        · exact hgone
      dsimp only
      rw [UnorderedMap.size_assign hnew]
      constructor
      · rw [run.maxStoredRequests_eq]
        rcases prune_cases listed run.timed with
          ⟨hsame, hroom | hnone⟩ | ⟨oldest, hmem, holdest, hfull, herase⟩
        · rw [hsame]
          omega
        · have hzero : s.finishedSnapshots.length = 0 := by
            rw [List.length_eq_zero_iff, finishedSnapshots, List.filter_eq_nil_iff]
            intro e he
            simp [hnone e he]
          rw [hsame]
          omega
        · have hsize := UnorderedMap.size_erase
            (show oldest.1 ∈ s.snapshots.keys from List.mem_map_of_mem hmem)
          have hpositive : 0 < s.finishedSnapshots.length :=
            List.length_pos_of_mem (List.mem_filter.mpr ⟨hmem, holdest.finished⟩)
          rw [herase]
          omega
      · intro id snapshot hfind hnone
        rw [UnorderedMap.find?_assign] at hnone
        split at hnone
        · cases hnone
        rcases prune_cases listed run.timed with ⟨hsame, -⟩ | ⟨oldest, hmem, holdest, -, herase⟩
        · rw [hsame, hfind] at hnone
          cases hnone
        rw [herase, UnorderedMap.find?_erase] at hnone
        split at hnone
        · next hid =>
            have hold := UnorderedMap.find?_eq_some_iff.mpr
              (show (oldest.1, oldest.2) ∈ s.snapshots.entries from hmem)
            rw [← hid, hfind] at hold
            have hsame : oldest = (id, snapshot) := by rw [Option.some.inj hold, hid]
            exact hsame ▸ holdest
        · rw [hfind] at hnone
          cases hnone

section Instances

private def requestNamed (id : String) : Job := ⟨text id, text "client", text "SELECT * FROM t;"⟩

private def handledEvents (job : Job) : List Event := handling (job, .ok (text "[]"))

private theorem Run.handleNext {events : List Event} {s : AsyncExecutor} {job : Job}
    {rest : List Job} (run : Run M events s) (idle : s.worker = .waiting)
    (front : s.queue = job :: rest) (start stop : Int) :
    Run M (events ++ handledEvents job)
      { s with
        queue := rest
        snapshots := recordOutcome stop job.id (.ok (text "[]"))
          (updateSnapshot start job.id .running none none true false s.snapshots)
        worker := .waiting } := by
  have done := (((run.step (.pop idle front) trivial).step (.markRunning start rfl) trivial).step
    (.runHandler (.ok (text "[]")) rfl) trivial).step (.record stop rfl) trivial
  simpa [handledEvents, handling] using done

private theorem runFirst : Run 1 [.submit (requestNamed "a")]
    { maxStoredRequests := 1
      queue := [requestNamed "a"]
      snapshots := UnorderedMap.assign .empty (text "a")
        { id := text "a", status := .pending, submittedAt := 0 } } :=
  Run.start.step (.submit (requestNamed "a") 0 [] (.refl _)) nofun

/-- A finished request makes room for the next one. -/
theorem retention_within_bound_iff_of_turns : ∃ events s s', Run 1 events s ∧
    Step s (.submit (requestNamed "b")) s' ∧ s.snapshots.size = 1 ∧
    s'.snapshots.size ≤ max 1 (unfinished (events ++ [.submit (requestNamed "b")])).length := by
  have run := runFirst.handleNext rfl rfl 1 2
  have fresh : Fresh ([.submit (requestNamed "a")] ++ handledEvents (requestNamed "a"))
      (.submit (requestNamed "b")) := by
    change (requestNamed "b").id ∉ [(requestNamed "a").id]
    decide
  have bound := retention_within_bound_iff run (.submit _ 3 _ (.refl _)) fresh
  exact ⟨_, _, _, run, .submit _ 3 _ (.refl _), by decide +kernel,
    bound.1.mpr (.inl (by decide +kernel))⟩

/-- Two requests wait at once, and one submit after both are finished two snapshots are
stored, where one may be. -/
theorem burst_outgrows_limit : ∃ events s s' job, Run 1 events s ∧ Step s (.submit job) s' ∧
    Fresh events (.submit job) ∧
    max 1 (unfinished (events ++ [.submit job])).length < s'.snapshots.size := by
  have fresh : Fresh [.submit (requestNamed "a")] (.submit (requestNamed "b")) := by
    change (requestNamed "b").id ∉ [(requestNamed "a").id]
    decide
  have burst := runFirst.step (.submit (requestNamed "b") 1 _ (.refl _)) fresh
  have done := (burst.handleNext rfl rfl 2 3).handleNext rfl rfl 4 5
  refine ⟨_, _, _, requestNamed "c", done, .submit (requestNamed "c") 6 _ (.refl _), ?_, ?_⟩
  · change (requestNamed "c").id ∉ [(requestNamed "a").id, (requestNamed "b").id]
    decide
  · decide +kernel

end Instances
end AsyncExecutor
end CwDb.Executor
