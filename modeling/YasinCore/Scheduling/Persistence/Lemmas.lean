import YasinCore.Scheduling.Persistence
import YasinCore.Scheduling.Scheduler.Lemmas

namespace YasinCore.Scheduling

open YasinCore.Library YasinCore.Execution

variable {host : Host} {py : Interpreter} {s t : Scheduler} {now ran : Time} {id other : JobId}
  {arguments job : ScheduledJob}

-- A job that comes with a due time is taken as it is.
theorem init_of_due {due : Time} (hdue : arguments.nextRunTime = some due) :
    ∃ job, arguments.init host now = some job ∧ job.id = arguments.id ∧ job.active := by
  have hinit : ∃ job, arguments.init host now = some job ∧ job.cancelled = false ∧
      job.nextRunTime = some due := by
    unfold ScheduledJob.init
    rw [hdue]
    exact ⟨_, rfl, rfl, rfl⟩
  obtain ⟨job, hjob, hcancelled, hnext⟩ := hinit
  refine ⟨job, hjob, init_id hjob, ?_⟩
  rw [ScheduledJob.active, hcancelled, hnext]
  rfl

-- Saving a job and building it again changes nothing about it but what an import makes of its
-- target.
theorem init_arguments_toDict {data : StoredJob} (h : job.toDict py = some data)
    (hactive : job.active) (hname : job.name ≠ "") (py' : Interpreter) :
    (data.arguments py').init host now =
      some { job with target := deserializeTarget py' data.target } := by
  obtain ⟨target, -, rfl⟩ := Option.map_eq_some_iff.mp h
  obtain ⟨hcancelled, hnext⟩ := Bool.and_eq_true_iff.mp hactive
  obtain ⟨due, hdue⟩ := Option.isSome_iff_exists.mp hnext
  have hkept : job.cancelled = false := by simpa using hcancelled
  unfold ScheduledJob.init StoredJob.arguments
  simp only [hdue, if_neg hname, hkept]

-- Every key of the dictionary leads to the job with that id.
def Scheduler.Keyed (s : Scheduler) : Prop :=
  ∀ id ref, s.jobs.get? id = some ref → ∃ job, s.objects[ref]? = some job ∧ job.id = id

-- The job under an id, if it still has runs to come.
def Scheduler.live? (s : Scheduler) (id : JobId) : Option ScheduledJob :=
  (s.job? id).filter ScheduledJob.active

theorem job?_eq_some (h : s.live? id = some job) : s.job? id = some job :=
  (Option.filter_eq_some_iff.mp h).1

theorem job?_eq_none (h : id ∉ s.jobs) : s.job? id = none := by
  rw [Scheduler.job?, (Dict.get?_eq_none_iff _ _).mpr h]
  rfl

theorem live?_eq_none (h : id ∉ s.jobs) : s.live? id = none := by
  rw [Scheduler.live?, job?_eq_none h]
  rfl

-- What is saved are the live jobs that can be serialized.
theorem get?_saved (py : Interpreter) (s : Scheduler) (id : JobId) :
    (s.saved py).get? id = (s.live? id).bind (ScheduledJob.toDict py) := by
  rw [Scheduler.saved, Dict.get?_filterMap, Scheduler.live?, Scheduler.job?]
  cases s.jobs.get? id with
  | none => rfl
  | some ref =>
      show (s.objects[ref]?.bind _) = (s.objects[ref]?.filter _).bind _
      cases s.objects[ref]? with
      | none => rfl
      | some job =>
          by_cases hactive : job.active
          · simp [Option.filter_some, hactive]
          · simp [Option.filter_some, hactive]

-- A schedule as processes leave it: each job is under its own id and has a time for its next run.
structure WellStored (schedule : Dict JobId StoredJob) : Prop where
  keyed : ∀ id data, schedule.get? id = some data → data.id = id
  due : ∀ id data, schedule.get? id = some data → data.nextRunTime.isSome

theorem saved_wellStored (hs : s.Keyed) (py : Interpreter) : WellStored (s.saved py) := by
  have hfound : ∀ id data, (s.saved py).get? id = some data →
      data.id = id ∧ data.nextRunTime.isSome := by
    intro id data hdata
    rw [get?_saved, Option.bind_eq_some_iff] at hdata
    obtain ⟨job, hlive, hdict⟩ := hdata
    obtain ⟨hjob, hactive⟩ := Option.filter_eq_some_iff.mp hlive
    obtain ⟨ref, href, hobject⟩ := Option.bind_eq_some_iff.mp hjob
    obtain ⟨found, hfound, hid⟩ := hs id ref href
    obtain rfl := Option.some.inj (hobject.symm.trans hfound)
    obtain ⟨target, -, rfl⟩ := Option.map_eq_some_iff.mp hdict
    exact ⟨hid, (Bool.and_eq_true_iff.mp hactive).2⟩
  exact ⟨fun id data h => (hfound id data h).1, fun id data h => (hfound id data h).2⟩

section Operations

theorem blank_keyed (engine : Bool) (clock : Time) : (Scheduler.blank engine clock).Keyed :=
  fun _ _ h => nomatch h

theorem Scheduler.Keyed.lt (hs : s.Keyed) {ref : Nat} (h : s.jobs.get? id = some ref) :
    ref < s.objects.length := by
  obtain ⟨job, hjob, -⟩ := hs id ref h
  exact (List.getElem?_eq_some_iff.mp hjob).1

theorem scheduleJob_keyed (hs : s.Keyed) (h : s.scheduleJob host now arguments = some t) :
    t.Keyed := by
  obtain ⟨job, -, rfl⟩ := Option.map_eq_some_iff.mp h
  intro id ref href
  rw [Dict.get?_set] at href
  split at href
  · rename_i hid
    obtain rfl := Option.some.inj href
    exact ⟨job, by simp, hid.symm⟩
  · obtain ⟨found, hfound, hid⟩ := hs id ref href
    exact ⟨found, by rwa [List.getElem?_append_left (hs.lt href)], hid⟩

theorem scheduleJob_mem (h : s.scheduleJob host now arguments = some t) (hne : id ≠ arguments.id)
    (hm : id ∈ t.jobs) : id ∈ s.jobs := by
  obtain ⟨job, hjob, rfl⟩ := Option.map_eq_some_iff.mp h
  rw [Dict.mem_set, init_id hjob] at hm
  exact hm.resolve_left hne

theorem scheduleJob_job? (hs : s.Keyed) (h : s.scheduleJob host now arguments = some t)
    (hne : id ≠ arguments.id) : t.job? id = s.job? id := by
  obtain ⟨job, hjob, rfl⟩ := Option.map_eq_some_iff.mp h
  unfold Scheduler.job?
  rw [Dict.get?_set_of_ne _ _ (init_id hjob ▸ hne)]
  cases href : s.jobs.get? id with
  | none => rfl
  | some ref => exact List.getElem?_append_left (hs.lt href)

theorem scheduleJob_self (h : s.scheduleJob host now arguments = some t) :
    t.job? arguments.id = arguments.init host now := by
  obtain ⟨job, hjob, rfl⟩ := Option.map_eq_some_iff.mp h
  unfold Scheduler.job?
  rw [hjob, ← init_id hjob, Dict.get?_set_self]
  simp

-- The objects of different ids are different ones.
theorem Scheduler.Keyed.ref_ne (hs : s.Keyed) {ref ref' : Nat} (hne : id ≠ other)
    (h : s.jobs.get? id = some ref) (h' : s.jobs.get? other = some ref') : ref' ≠ ref := by
  rintro rfl
  obtain ⟨job, hjob, hid⟩ := hs id ref' h
  obtain ⟨job', hjob', hid'⟩ := hs other ref' h'
  obtain rfl := Option.some.inj (hjob.symm.trans hjob')
  exact hne (hid.symm.trans hid')

theorem unscheduleJob_mem (hm : id ∈ (s.unscheduleJob other).jobs) : id ∈ s.jobs := by
  unfold Scheduler.unscheduleJob at hm
  split at hm
  · exact hm
  · obtain ⟨ref, href⟩ := (Dict.mem_iff _ _).mp hm
    rw [Dict.get?_erase] at href
    split at href
    · cases href
    · exact (Dict.mem_iff _ _).mpr ⟨ref, href⟩

theorem unscheduleJob_job? (hs : s.Keyed) (hne : id ≠ other) :
    (s.unscheduleJob other).job? id = s.job? id := by
  unfold Scheduler.unscheduleJob
  split
  · rfl
  · rename_i ref' href'
    unfold Scheduler.job?
    rw [Dict.get?_erase_of_ne _ hne]
    cases href : s.jobs.get? id with
    | none => rfl
    | some ref => exact List.getElem?_modify_ne _ _ (hs.ref_ne hne href href')

theorem unscheduleJob_keyed (hs : s.Keyed) : (s.unscheduleJob other).Keyed := by
  unfold Scheduler.unscheduleJob
  split
  · exact hs
  · rename_i ref' href'
    intro id ref href
    rw [Dict.get?_erase] at href
    split at href
    · cases href
    · rename_i hne
      obtain ⟨job, hjob, hid⟩ := hs id ref href
      exact ⟨job, (List.getElem?_modify_ne _ _ (hs.ref_ne hne href href')).trans hjob, hid⟩

theorem clearJobs_mem (hm : id ∈ s.clearJobs.jobs) : id ∈ s.jobs := by
  obtain ⟨ref, href⟩ := (Dict.mem_iff _ _).mp hm
  rw [Scheduler.clearJobs, Dict.get?_filter, Option.filter_eq_some_iff] at href
  exact (Dict.mem_iff _ _).mpr ⟨ref, href.1⟩

theorem clearJobs_keyed (hs : s.Keyed) : s.clearJobs.Keyed := by
  intro id ref href
  rw [Scheduler.clearJobs, Dict.get?_filter, Option.filter_eq_some_iff] at href
  exact hs id ref href.1

theorem finished_eq (h : s.objects[ref]? = some job) : s.finished ref = !job.active := by
  simp only [Scheduler.finished, ScheduledJob.active, h]
  cases job.cancelled <;> cases job.nextRunTime <;> rfl

-- What clear_jobs drops is not live.
theorem clearJobs_live? (s : Scheduler) (id : JobId) : s.clearJobs.live? id = s.live? id := by
  unfold Scheduler.live? Scheduler.job?
  rw [Scheduler.clearJobs, Dict.get?_filter]
  cases s.jobs.get? id with
  | none => rfl
  | some ref =>
      cases hjob : s.objects[ref]? with
      | none =>
          have hfinished : s.finished ref = false := by rw [Scheduler.finished, hjob]
          simp [Option.filter_some, hfinished, hjob]
      | some job =>
          by_cases hactive : job.active
          · simp [Option.filter_some, finished_eq hjob, hactive, hjob]
          · simp [Option.filter_some, finished_eq hjob, hactive, hjob]

theorem Scheduler.Keyed.congr (hs : s.Keyed) (hobjects : t.objects = s.objects)
    (hjobs : t.jobs = s.jobs) : t.Keyed := by
  unfold Scheduler.Keyed
  rw [hobjects, hjobs]
  exact hs

theorem live?_congr (hobjects : t.objects = s.objects) (hjobs : t.jobs = s.jobs) (id : JobId) :
    t.live? id = s.live? id := by
  unfold Scheduler.live? Scheduler.job?
  rw [hobjects, hjobs]

theorem collect_same (h : s.collect now = some t) : t.objects = s.objects ∧ t.jobs = s.jobs := by
  obtain ⟨-, -, rfl⟩ := collect_spec h
  exact ⟨rfl, rfl⟩

theorem submit_same {contextId : Option String} {accepted : Bool}
    (h : s.submit now id contextId accepted = some t) :
    t.objects = s.objects ∧ t.jobs = s.jobs := by
  obtain ⟨_, _, _, -, -, ⟨_, -, rfl⟩ | ⟨_, rfl⟩⟩ := submit_spec h
  · exact ⟨rfl, rfl⟩
  · exact ⟨rfl, rfl⟩

theorem finish_keyed (hs : s.Keyed) {sub : Submission} {old : ScheduledJob} {totalTriggers : Nat}
    {rest : List (Nat × Time)} (hold : s.objects[sub.ref]? = some old) (hid : job.id = old.id) :
    (s.finish now sub job totalTriggers rest).Keyed := by
  intro id ref href
  obtain ⟨found, hfound, hkey⟩ := hs id ref href
  by_cases hr : sub.ref = ref
  · subst hr
    obtain rfl := Option.some.inj (hold.symm.trans hfound)
    exact ⟨job, List.getElem?_set_self (hs.lt href), hid.trans hkey⟩
  · exact ⟨found, (List.getElem?_set_ne hr).trans hfound, hkey⟩

theorem reschedule_keyed (hs : s.Keyed) (h : s.reschedule host ran now = some t) : t.Keyed := by
  obtain ⟨sub, job, -, hjob, ⟨next, hn, rfl⟩ | ⟨-, rfl⟩⟩ := reschedule_spec h
  · obtain ⟨due, -, rfl⟩ := Option.map_eq_some_iff.mp hn
    exact finish_keyed hs hjob rfl
  · exact finish_keyed hs hjob rfl

theorem reschedule_jobs (h : s.reschedule host ran now = some t) : t.jobs = s.jobs := by
  obtain ⟨_, _, -, -, ⟨_, -, rfl⟩ | ⟨-, rfl⟩⟩ := reschedule_spec h
  · rfl
  · rfl

-- The run in flight is the last one of the job under the id.
def Scheduler.LastRun (host : Host) (s : Scheduler) (ran now : Time) (id : JobId) : Prop :=
  ∃ sub next, s.inFlight = some sub ∧ s.rescheduled? host ran now = some next ∧
    s.jobs.get? id = some sub.ref ∧ next.nextRunTime = none

theorem rescheduled?_eq {sub : Submission} (hf : s.inFlight = some sub)
    (hjob : s.objects[sub.ref]? = some job) :
    s.rescheduled? host ran now = (job.counted ran).calculateNextRun host now := by
  unfold Scheduler.rescheduled?
  rw [hf]
  simp only [Option.bind_eq_bind, Option.bind_some, hjob]

theorem finish_live? {sub : Submission} {totalTriggers : Nat} {rest : List (Nat × Time)}
    (hlive : s.live? id = some job) {next : ScheduledJob}
    (hnext : s.jobs.get? id = some sub.ref → next.active) :
    ((s.finish now sub next totalTriggers rest).live? id).isSome := by
  obtain ⟨hjob, hactive⟩ := Option.filter_eq_some_iff.mp hlive
  obtain ⟨ref, href, hobject⟩ := Option.bind_eq_some_iff.mp hjob
  have hkept : ∃ kept, (s.objects.set sub.ref next)[ref]? = some kept ∧ kept.active := by
    by_cases hr : sub.ref = ref
    · subst hr
      have hlt := (List.getElem?_eq_some_iff.mp hobject).1
      exact ⟨next, List.getElem?_set_self hlt, hnext href⟩
    · exact ⟨job, (List.getElem?_set_ne hr).trans hobject, hactive⟩
  obtain ⟨kept, hkept, hactive'⟩ := hkept
  have hfound : (s.finish now sub next totalTriggers rest).live? id = some kept :=
    Option.filter_eq_some_iff.mpr ⟨Option.bind_eq_some_iff.mpr ⟨ref, href, hkept⟩, hactive'⟩
  rw [hfound]
  rfl

theorem reschedule_live? (h : s.reschedule host ran now = some t) (hlive : s.live? id = some job)
    (hlast : ¬s.LastRun host ran now id) : (t.live? id).isSome := by
  obtain ⟨hfound, hactive⟩ := Option.filter_eq_some_iff.mp hlive
  obtain ⟨hcancelled, hdue⟩ := Bool.and_eq_true_iff.mp hactive
  obtain ⟨ref, href, hobject⟩ := Option.bind_eq_some_iff.mp hfound
  obtain ⟨sub, old, hf, hold, ⟨next, hn, rfl⟩ | ⟨-, rfl⟩⟩ := reschedule_spec h
  · refine finish_live? hlive fun hsub => ?_
    have hnext : next.nextRunTime ≠ none := fun hnone =>
      hlast ⟨sub, next, hf, (rescheduled?_eq hf hold).trans hn, hsub, hnone⟩
    obtain rfl := Option.some.inj (href.symm.trans hsub)
    obtain rfl := Option.some.inj (hobject.symm.trans hold)
    obtain ⟨due, -, rfl⟩ := Option.map_eq_some_iff.mp hn
    exact Bool.and_eq_true_iff.mpr ⟨hcancelled, Option.isSome_iff_ne_none.mpr hnext⟩
  · -- The exception leaves the due time.
    refine finish_live? hlive fun hsub => ?_
    obtain rfl := Option.some.inj (href.symm.trans hsub)
    obtain rfl := Option.some.inj (hobject.symm.trans hold)
    exact hactive

theorem loadJob_keyed (hs : s.Keyed) (data : StoredJob) : (s.loadJob host py now data).Keyed := by
  unfold Scheduler.loadJob
  cases h : s.scheduleJob host now (data.arguments py) with
  | none => exact hs
  | some t => exact scheduleJob_keyed hs h

theorem load_keyed (hs : s.Keyed) (stored : List StoredJob) :
    (stored.foldl (Scheduler.loadJob host py now) s).Keyed :=
  List.foldlRecOn stored _ hs fun _ ht data _ => loadJob_keyed ht data

theorem loadJob_live? (hs : s.Keyed) {data : StoredJob} (hdue : data.nextRunTime.isSome)
    (h : (s.live? id).isSome ∨ data.id = id) :
    ((s.loadJob host py now data).live? id).isSome := by
  obtain ⟨due, hdue⟩ := Option.isSome_iff_exists.mp hdue
  have hgiven : (data.arguments py).nextRunTime = some due := hdue
  obtain ⟨job, hinit, hid, hactive⟩ := @init_of_due host now _ due hgiven
  have hschedule : ∃ t, s.scheduleJob host now (data.arguments py) = some t := by
    rw [Scheduler.scheduleJob, hinit]
    exact ⟨_, rfl⟩
  obtain ⟨t, ht⟩ := hschedule
  rw [Scheduler.loadJob, ht, Option.getD_some]
  by_cases he : id = data.id
  · have hjob : t.job? id = some job := he ▸ (scheduleJob_self ht).trans hinit
    rw [Scheduler.live?, hjob, Option.filter_some, if_pos hactive]
    rfl
  · have hsame : t.job? id = s.job? id := scheduleJob_job? hs ht he
    have hlive : (s.live? id).isSome := h.resolve_right fun hc => he hc.symm
    unfold Scheduler.live?
    rw [hsame]
    exact hlive

-- After a load, what was live still is, and so is what was stored.
theorem load_live? {stored : List StoredJob} (hs : s.Keyed)
    (hdue : ∀ data ∈ stored, data.nextRunTime.isSome)
    (h : (s.live? id).isSome ∨ ∃ data ∈ stored, data.id = id) :
    ((stored.foldl (Scheduler.loadJob host py now) s).live? id).isSome := by
  induction stored generalizing s with
  | nil => exact h.resolve_right (by simp)
  | cons data stored ih =>
      refine ih (loadJob_keyed hs data) (fun other hm => hdue other (List.mem_cons_of_mem _ hm)) ?_
      by_cases hlater : ∃ other ∈ stored, other.id = id
      · exact .inr hlater
      · refine .inl (loadJob_live? hs (hdue data List.mem_cons_self) (h.imp_right ?_))
        rintro ⟨other, hm, hid⟩
        rcases List.mem_cons.mp hm with rfl | hm
        · exact hid
        · exact absurd ⟨other, hm, hid⟩ hlater

end Operations

end YasinCore.Scheduling
