import YasinCore.Library.Transition
import YasinCore.Scheduling.Scheduler.Lemmas

namespace YasinCore.Scheduling

open YasinCore.Library YasinCore.Execution

variable {host : Host} {s t : Scheduler}

-- After the trigger of a job is over, the job is not due again for the time at which it ran.
def Settled (s : Scheduler) : Prop :=
  ∀ sub ∈ s.triggered, ∀ job ∈ s.objects[sub.ref]?, ∀ due ∈ job.nextRunTime, sub.time < due

-- All submissions so far, the one in flight included.
def Scheduler.submissions (s : Scheduler) : List Submission := s.triggered ++ s.inFlight.toList

-- A job that was submitted is only submitted again for a due time after that.
def NoRepeat (s : Scheduler) : Prop :=
  s.submissions.Pairwise fun first second => first.ref = second.ref → first.time < second.due

-- What moves a job on at its reschedule after a submission: it was cancelled or has had all its
-- runs, or its expression names a minute within the window that comes after the submission, or its
-- interval leads past the submission, or it has neither.
def Advances (host : Host) (job : ScheduledJob) (submitted now : Time) : Prop :=
  job.cancelled ∨ (∃ maxRuns ∈ job.maxRuns, maxRuns ≤ (job.runCount : Int) + 1) ∨
    match job.cron, job.interval with
    | some expr, _ => ∃ cron time, Cron.parse expr = some cron ∧
        cron.First (host.localMinute now) time ∧ submitted < host.timestamp time
    | none, some interval => submitted < host.round (now + interval)
    | none, none => True

-- The condition on the actions: only the reschedules have one.
def MovesOn (host : Host) (s : Scheduler) : Action → Prop
  | .reschedule _ now => ∀ sub ∈ s.inFlight, ∀ job ∈ s.objects[sub.ref]?,
      Advances host job sub.time now
  | _ => True

theorem cronTime_advances {expr : String} {submitted now : Time} :
    (∃ next, ScheduledJob.cronTime host expr now = some next ∧ ∀ due ∈ next, submitted < due) ↔
      ∃ cron time, Cron.parse expr = some cron ∧ cron.First (host.localMinute now) time ∧
        submitted < host.timestamp time := by
  unfold ScheduledJob.cronTime
  constructor
  · rintro ⟨next, hn, hdue⟩
    obtain ⟨time, htime, rfl⟩ := Option.map_eq_some_iff.mp hn
    obtain ⟨cron, hparse, hfirst⟩ := getNextCronTime_eq_some_iff.mp htime
    exact ⟨cron, time, hparse, hfirst, hdue _ rfl⟩
  · rintro ⟨cron, time, hparse, hfirst, hlt⟩
    have htime := getNextCronTime_eq_some_iff.mpr ⟨cron, hparse, hfirst⟩
    refine ⟨some (host.timestamp time), by rw [htime]; rfl, fun due hd => ?_⟩
    obtain rfl := Option.some.inj hd
    exact hlt

-- Calculating the next run after a run moves the job on in exactly these cases.
theorem dueTime_advances (job : ScheduledJob) (submitted ran now : Time) :
    (∃ next, (job.counted ran).dueTime host now = some next ∧ ∀ due ∈ next, submitted < due) ↔
      Advances host job submitted now := by
  unfold Advances ScheduledJob.dueTime
  by_cases hc : job.cancelled
  · have hcounted : (job.counted ran).cancelled := hc
    rw [if_pos hcounted]
    exact iff_of_true ⟨none, rfl, by simp⟩ (.inl hc)
  · have hcounted : ¬(job.counted ran).cancelled := hc
    have hrun : (job.counted ran).runCount = job.runCount + 1 := rfl
    rw [if_neg hcounted, or_iff_right hc, hrun, if_neg (Nat.succ_ne_zero _)]
    have hreached : ((job.counted ran).maxRuns.any fun maxRuns =>
        maxRuns ≤ ((job.runCount + 1 : Nat) : Int)) = true ↔
          ∃ maxRuns ∈ job.maxRuns, maxRuns ≤ (job.runCount : Int) + 1 := by
      have hmax : (job.counted ran).maxRuns = job.maxRuns := rfl
      rw [hmax]
      cases job.maxRuns <;> simp
    by_cases hm : ∃ maxRuns ∈ job.maxRuns, maxRuns ≤ (job.runCount : Int) + 1
    · rw [if_pos (hreached.mpr hm)]
      exact iff_of_true ⟨none, rfl, by simp⟩ (.inl hm)
    · rw [if_neg (hreached.not.mpr hm), or_iff_right hm]
      have hcron : (job.counted ran).cron = job.cron := rfl
      have hinterval : (job.counted ran).interval = job.interval := rfl
      rw [hcron, hinterval]
      cases job.cron with
      | some expr => exact cronTime_advances
      | none =>
          cases job.interval with
          | some interval => simp
          | none => simp

theorem calculateNextRun_none {job : ScheduledJob} {ran now : Time}
    (h : (job.counted ran).calculateNextRun host now = none) (submitted : Time) :
    ¬Advances host job submitted now := by
  intro ha
  obtain ⟨next, hn, -⟩ := (dueTime_advances job submitted ran now).mpr ha
  rw [ScheduledJob.calculateNextRun, hn] at h
  cases h

theorem calculateNextRun_some {job next : ScheduledJob} {ran now : Time}
    (h : (job.counted ran).calculateNextRun host now = some next) (submitted : Time) :
    Advances host job submitted now ↔ ∀ due ∈ next.nextRunTime, submitted < due := by
  obtain ⟨due, hd, rfl⟩ := Option.map_eq_some_iff.mp h
  rw [← dueTime_advances job submitted ran now, hd]
  simp

-- An object that is known to stand behind a reference, with the due time it was found with, unless
-- it has been cancelled since.
def Scheduler.Found (s : Scheduler) (ref : Nat) (due : Time) : Prop :=
  ∃ job, s.objects[ref]? = some job ∧ (job.cancelled = false → job.nextRunTime = some due)

-- What holds in every state, whatever becomes of the due times.
structure Inv (s : Scheduler) : Prop where
  nodup : s.jobs.values.Nodup
  valid : ∀ ref ∈ s.jobs.values, ref < s.objects.length
  pending_nodup : (s.pending.map Prod.fst).Nodup
  pending_found : ∀ found ∈ s.pending, s.Found found.1 found.2 ∧ found.2 ≤ s.clock
  flight_found : ∀ sub ∈ s.inFlight, s.Found sub.ref sub.due ∧ sub.due ≤ sub.time ∧ sub.time ≤ s.clock
  flight_new : ∀ sub ∈ s.inFlight, sub.ref ∉ s.pending.map Prod.fst
  flight_last : ∀ sub ∈ s.inFlight, ∀ past ∈ s.triggered, past.time ≤ sub.time
  past : ∀ sub ∈ s.triggered, sub.time ≤ s.clock ∧ sub.ref < s.objects.length

-- What calls from outside of a tick do: the objects stay, but for those that they cancel.
structure Outside (s t : Scheduler) : Prop where
  stay : ∀ (ref : Nat) (job : ScheduledJob), s.objects[ref]? = some job →
    ∃ job', t.objects[ref]? = some job' ∧ (job' = job ∨ job' = job.cancel)
  nodup : t.jobs.values.Nodup
  valid : ∀ ref ∈ t.jobs.values, ref < t.objects.length
  clock : s.clock ≤ t.clock
  pending : t.pending = s.pending
  inFlight : t.inFlight = s.inFlight
  triggered : t.triggered = s.triggered

theorem Outside.found (h : Outside s t) {ref : Nat} {due : Time} (hf : s.Found ref due) :
    t.Found ref due := by
  obtain ⟨job, hjob, hdue⟩ := hf
  obtain ⟨job', hjob', rfl | rfl⟩ := h.stay ref job hjob
  · exact ⟨job', hjob', hdue⟩
  · exact ⟨_, hjob', fun hc => by cases hc⟩

theorem Outside.lt (h : Outside s t) {ref : Nat} (hr : ref < s.objects.length) :
    ref < t.objects.length := by
  obtain ⟨job', hjob', -⟩ := h.stay ref _ (List.getElem?_eq_getElem hr)
  exact (List.getElem?_eq_some_iff.mp hjob').1

theorem Outside.inv (h : Outside s t) (hi : Inv s) : Inv t where
  nodup := h.nodup
  valid := h.valid
  pending_nodup := by
    rw [h.pending]
    exact hi.pending_nodup
  pending_found := by
    rw [h.pending]
    intro found hm
    obtain ⟨hfound, hle⟩ := hi.pending_found found hm
    exact ⟨h.found hfound, hle.trans h.clock⟩
  flight_found := by
    rw [h.inFlight]
    intro sub hm
    obtain ⟨hfound, hdue, htime⟩ := hi.flight_found sub hm
    exact ⟨h.found hfound, hdue, htime.trans h.clock⟩
  flight_new := by
    rw [h.inFlight, h.pending]
    exact hi.flight_new
  flight_last := by
    rw [h.inFlight, h.triggered]
    exact hi.flight_last
  past := by
    rw [h.triggered]
    intro sub hm
    obtain ⟨htime, href⟩ := hi.past sub hm
    exact ⟨htime.trans h.clock, h.lt href⟩

theorem Outside.settled (h : Outside s t) (hi : Inv s) (hs : Settled s) : Settled t := by
  intro sub hm job hjob due hdue
  rw [h.triggered] at hm
  have href := (hi.past sub hm).2
  obtain ⟨job', hjob', hkept⟩ := h.stay sub.ref _ (List.getElem?_eq_getElem href)
  obtain rfl := Option.some.inj (hjob'.symm.trans hjob)
  rcases hkept with he | he
  · exact hs sub hm _ (List.getElem?_eq_getElem href) due (he ▸ hdue)
  · rw [he] at hdue
    cases hdue

theorem scheduleJob_outside {now : Time} {arguments : ScheduledJob} (hi : Inv s) (hc : s.clock ≤ now)
    (h : s.scheduleJob host now arguments = some t) : Outside s t := by
  obtain ⟨job, hjob, rfl⟩ := Option.map_eq_some_iff.mp h
  exact {
    stay := fun ref old ho => by
      refine ⟨old, ?_, .inl rfl⟩
      have hlt := (List.getElem?_eq_some_iff.mp ho).1
      rw [List.getElem?_append_left hlt, ho]
    nodup := Dict.nodup_values_set hi.nodup (fun hm => by simpa using hi.valid _ hm) _
    valid := fun ref hm => by
      rw [List.length_append, List.length_singleton]
      rcases Dict.mem_values_set hm with rfl | hm
      · omega
      · exact Nat.lt_succ_of_lt (hi.valid ref hm)
    clock := hc
    pending := rfl
    inFlight := rfl
    triggered := rfl }

theorem modifyObject_stay (ref : Nat) (other : Nat) (job : ScheduledJob)
    (h : s.objects[other]? = some job) :
    ∃ job', (s.modifyObject ref .cancel).objects[other]? = some job' ∧
      (job' = job ∨ job' = job.cancel) := by
  unfold Scheduler.modifyObject
  rw [List.getElem?_modify, h]
  by_cases he : ref = other
  · exact ⟨job.cancel, by simp [he], .inr rfl⟩
  · exact ⟨job, by simp [he], .inl rfl⟩

theorem length_modifyObject (ref : Nat) (f : ScheduledJob → ScheduledJob) :
    (s.modifyObject ref f).objects.length = s.objects.length := List.length_modify ..

theorem cancel_outside (hi : Inv s) (ref : Nat) : Outside s (s.modifyObject ref .cancel) where
  stay := modifyObject_stay ref
  nodup := hi.nodup
  valid := fun other hm => by
    rw [length_modifyObject]
    exact hi.valid other hm
  clock := le_rfl
  pending := rfl
  inFlight := rfl
  triggered := rfl

theorem unscheduleJob_outside (hi : Inv s) (id : JobId) : Outside s (s.unscheduleJob id) := by
  unfold Scheduler.unscheduleJob
  cases s.jobs.get? id with
  | none => exact ⟨fun ref job h => ⟨job, h, .inl rfl⟩, hi.nodup, hi.valid, le_rfl, rfl, rfl, rfl⟩
  | some ref =>
      have hcancel := cancel_outside hi ref
      exact {
        stay := hcancel.stay
        nodup := hi.nodup.sublist (s.jobs.values_erase id)
        valid := fun other hm => hcancel.valid other ((s.jobs.values_erase id).subset hm)
        clock := le_rfl
        pending := rfl
        inFlight := rfl
        triggered := rfl }

theorem clearJobs_outside (hi : Inv s) : Outside s s.clearJobs where
  stay := fun _ job h => ⟨job, h, .inl rfl⟩
  nodup := hi.nodup.sublist (s.jobs.values_filter _)
  valid := fun _ hm => hi.valid _ ((s.jobs.values_filter _).subset hm)
  clock := le_rfl
  pending := rfl
  inFlight := rfl
  triggered := rfl

section Ticks

variable {now ran : Time}

theorem collect_inv (hi : Inv s) (h : s.collect now = some t) (hc : s.clock ≤ now) : Inv t := by
  obtain ⟨-, hf, rfl⟩ := collect_spec h
  exact {
    nodup := hi.nodup
    valid := hi.valid
    pending_nodup := by
      rw [List.map_filterMap]
      refine hi.nodup.filterMap fun ref ref' other hr hr' => ?_
      obtain ⟨found, hfound, rfl⟩ := Option.map_eq_some_iff.mp hr
      obtain ⟨found', hfound', he⟩ := Option.map_eq_some_iff.mp hr'
      rw [← (due?_eq_some hfound).1, ← (due?_eq_some hfound').1, he]
    pending_found := by
      intro found hm
      obtain ⟨ref, -, hfound⟩ := List.mem_filterMap.mp hm
      obtain ⟨rfl, hle, job, hjob, hdue⟩ := due?_eq_some hfound
      exact ⟨⟨job, hjob, fun _ => hdue⟩, hle⟩
    flight_found := by simp [hf]
    flight_new := by simp [hf]
    flight_last := by simp [hf]
    past := fun sub hm => ⟨(hi.past sub hm).1.trans hc, (hi.past sub hm).2⟩ }

theorem submit_inv {id : JobId} {contextId : Option String} {accepted : Bool} (hi : Inv s)
    (h : s.submit now id contextId accepted = some t) (hc : s.clock ≤ now) : Inv t := by
  obtain ⟨ref, due, pending, hf, hp, ⟨rest, hrest, rfl⟩ | ⟨exec, rfl⟩⟩ := submit_spec h
  · exact {
      nodup := hi.nodup
      valid := hi.valid
      pending_nodup := hi.pending_nodup.sublist (hrest.map _)
      pending_found := fun found hm => by
        obtain ⟨hfound, hle⟩ := hi.pending_found found (hrest.subset hm)
        exact ⟨hfound, hle.trans hc⟩
      flight_found := by simp [hf]
      flight_new := by simp [hf]
      flight_last := by simp [hf]
      past := fun sub hm => ⟨(hi.past sub hm).1.trans hc, (hi.past sub hm).2⟩ }
  · have hnodup := hi.pending_nodup
    rw [hp, List.map_cons, List.nodup_cons] at hnodup
    have hhead := hi.pending_found (ref, due) (by simp [hp])
    exact {
      nodup := hi.nodup
      valid := hi.valid
      pending_nodup := hnodup.2
      pending_found := fun found hm => by
        obtain ⟨hfound, hle⟩ := hi.pending_found found (by simp [hp, hm])
        exact ⟨hfound, hle.trans hc⟩
      flight_found := fun sub hm => by
        obtain rfl := Option.some.inj hm
        exact ⟨hhead.1, hhead.2.trans hc, le_rfl⟩
      flight_new := fun sub hm => by
        obtain rfl := Option.some.inj hm
        exact hnodup.1
      flight_last := fun sub hm past hpast => by
        obtain rfl := Option.some.inj hm
        exact (hi.past past hpast).1.trans hc
      past := fun sub hm => ⟨(hi.past sub hm).1.trans hc, (hi.past sub hm).2⟩ }

theorem finish_inv {sub : Submission} {job : ScheduledJob} {totalTriggers : Nat}
    {rest : List (Nat × Time)} (hi : Inv s) (hf : s.inFlight = some sub) (hc : s.clock ≤ now)
    (hrest : rest.Sublist s.pending) : Inv (s.finish now sub job totalTriggers rest) where
  nodup := hi.nodup
  valid := fun ref hm => (List.length_set ..).symm ▸ hi.valid ref hm
  pending_nodup := hi.pending_nodup.sublist (hrest.map _)
  pending_found := fun found hm => by
    obtain ⟨⟨old, hold, hdue⟩, hle⟩ := hi.pending_found found (hrest.subset hm)
    have hne : sub.ref ≠ found.1 := by
      intro he
      exact hi.flight_new sub hf (he ▸ List.mem_map_of_mem (hrest.subset hm))
    refine ⟨⟨old, ?_, hdue⟩, hle.trans hc⟩
    exact (List.getElem?_set_ne hne).trans hold
  flight_found := by simp [Scheduler.finish]
  flight_new := by simp [Scheduler.finish]
  flight_last := by simp [Scheduler.finish]
  past := fun other hm => by
    have hlength : (s.finish now sub job totalTriggers rest).objects.length = s.objects.length :=
      List.length_set ..
    rw [hlength]
    rcases List.mem_append.mp hm with hm | hm
    · exact ⟨(hi.past other hm).1.trans hc, (hi.past other hm).2⟩
    · obtain rfl := List.mem_singleton.mp hm
      obtain ⟨⟨old, hold, -⟩, -, htime⟩ := hi.flight_found other hf
      exact ⟨htime.trans hc, (List.getElem?_eq_some_iff.mp hold).1⟩

-- A finished trigger leaves things settled exactly when the replaced object is not due for it.
theorem finish_settled_iff {sub : Submission} {old job : ScheduledJob} {totalTriggers : Nat}
    {rest : List (Nat × Time)} (hi : Inv s) (hs : Settled s) (hf : s.inFlight = some sub)
    (hold : s.objects[sub.ref]? = some old) :
    Settled (s.finish now sub job totalTriggers rest) ↔ ∀ due ∈ job.nextRunTime, sub.time < due := by
  have hself : (s.objects.set sub.ref job)[sub.ref]? = some job :=
    List.getElem?_set_self (List.getElem?_eq_some_iff.mp hold).1
  constructor
  · intro ht due hdue
    exact ht sub (List.mem_append_right _ (List.mem_singleton_self _)) job hself due hdue
  · intro hnew other hm found hfound due hdue
    by_cases he : sub.ref = other.ref
    · have hreplaced : (s.finish now sub job totalTriggers rest).objects[other.ref]? = some job :=
        he ▸ hself
      obtain rfl := Option.some.inj (hreplaced.symm.trans hfound)
      have hlt := hnew due hdue
      rcases List.mem_append.mp hm with hm | hm
      · exact (hi.flight_last sub hf other hm).trans_lt hlt
      · obtain rfl := List.mem_singleton.mp hm
        exact hlt
    · have hsame : s.objects[other.ref]? = some found := (List.getElem?_set_ne he).symm.trans hfound
      rcases List.mem_append.mp hm with hm | hm
      · exact hs other hm found hsame due hdue
      · exact absurd (congrArg Submission.ref (List.mem_singleton.mp hm)).symm he

-- The exact effect of a reschedule: the job moves on or stays due.
theorem reschedule_settled_iff (hi : Inv s) (hs : Settled s) (h : s.reschedule host ran now = some t) :
    Settled t ↔ MovesOn host s (.reschedule ran now) := by
  obtain ⟨sub, job, hf, hjob, ⟨next, hn, rfl⟩ | ⟨hn, rfl⟩⟩ := reschedule_spec h
  · have hguard : MovesOn host s (.reschedule ran now) ↔ Advances host job sub.time now := by
      simp [MovesOn, hf, hjob]
    rw [finish_settled_iff hi hs hf hjob, hguard, calculateNextRun_some hn]
  · have hguard : MovesOn host s (.reschedule ran now) ↔ Advances host job sub.time now := by
      simp [MovesOn, hf, hjob]
    rw [finish_settled_iff hi hs hf hjob, hguard]
    refine iff_of_false (fun hdue => ?_) (calculateNextRun_none hn sub.time)
    -- The search failed, so the job was not cancelled and still has the time it was found with.
    obtain ⟨⟨found, hfound, hkept⟩, hle, -⟩ := hi.flight_found sub hf
    obtain rfl := Option.some.inj (hjob.symm.trans hfound)
    have hcancelled : job.cancelled = false := by
      by_contra hc
      exact calculateNextRun_none hn sub.time (.inl (by simpa using hc))
    exact absurd (hdue sub.due (hkept hcancelled)) (not_lt.mpr hle)

end Ticks

theorem reschedule_inv {ran now : Time} (hi : Inv s) (hc : s.clock ≤ now)
    (h : s.reschedule host ran now = some t) : Inv t := by
  obtain ⟨sub, job, hf, -, ⟨next, -, rfl⟩ | ⟨-, rfl⟩⟩ := reschedule_spec h
  · exact finish_inv hi hf hc (List.Sublist.refl _)
  · exact finish_inv hi hf hc (List.nil_sublist _)

-- The calls of other threads, as opposed to the pieces of a tick.
def Action.OfOthers : Action → Prop
  | .schedule _ _ | .unschedule _ | .cancel _ | .clearJobs => True
  | .collect _ | .submit _ _ _ _ | .reschedule _ _ => False

theorem step_outside {act : Action} (hact : act.OfOthers) (hi : Inv s) (h : step host s act = some t) :
    Outside s t := by
  cases act with
  | schedule now arguments =>
      obtain ⟨hc, h⟩ := Option.ite_none_right_eq_some.mp h
      exact scheduleJob_outside hi hc h
  | unschedule id => exact Option.some.inj h ▸ unscheduleJob_outside hi id
  | cancel ref => exact Option.some.inj h ▸ cancel_outside hi ref
  | clearJobs => exact Option.some.inj h ▸ clearJobs_outside hi
  | collect _ => exact hact.elim
  | submit _ _ _ _ => exact hact.elim
  | reschedule _ _ => exact hact.elim

theorem step_inv {act : Action} (hi : Inv s) (h : step host s act = some t) : Inv t := by
  by_cases hact : act.OfOthers
  · exact (step_outside hact hi h).inv hi
  · cases act with
    | collect now =>
        obtain ⟨hc, h⟩ := Option.ite_none_right_eq_some.mp h
        exact collect_inv hi h hc
    | submit now id contextId accepted =>
        obtain ⟨hc, h⟩ := Option.ite_none_right_eq_some.mp h
        exact submit_inv hi h hc
    | reschedule ran now =>
        obtain ⟨⟨hc, hran⟩, h⟩ := Option.ite_none_right_eq_some.mp h
        exact reschedule_inv hi (hc.trans hran) h
    | _ => exact absurd trivial hact

-- One action: only a reschedule can leave a job due again.
theorem step_settled_iff {act : Action} (hi : Inv s) (hs : Settled s) (h : step host s act = some t) :
    Settled t ↔ MovesOn host s act := by
  by_cases hact : act.OfOthers
  · refine iff_of_true ((step_outside hact hi h).settled hi hs) ?_
    cases act <;> trivial
  · cases act with
    | collect now =>
        obtain ⟨-, h⟩ := Option.ite_none_right_eq_some.mp h
        obtain ⟨-, -, rfl⟩ := collect_spec h
        exact iff_of_true hs trivial
    | submit now id contextId accepted =>
        obtain ⟨-, h⟩ := Option.ite_none_right_eq_some.mp h
        obtain ⟨_, _, _, -, -, ⟨_, -, rfl⟩ | ⟨_, rfl⟩⟩ := submit_spec h
        · exact iff_of_true hs trivial
        · exact iff_of_true hs trivial
    | reschedule ran now =>
        obtain ⟨-, h⟩ := Option.ite_none_right_eq_some.mp h
        exact reschedule_settled_iff hi hs h
    | _ => exact absurd trivial hact

-- What makes the next submission a new one: the jobs a tick has found were not submitted after
-- the due times they were found with.
structure Orderly (s : Scheduler) : Prop where
  inv : Inv s
  no_repeat : NoRepeat s
  pending_new : ∀ found ∈ s.pending, ∀ sub ∈ s.submissions, sub.ref = found.1 → sub.time < found.2

theorem Outside.orderly (h : Outside s t) (ho : Orderly s) : Orderly t := by
  have hsame : t.submissions = s.submissions := by
    rw [Scheduler.submissions, h.triggered, h.inFlight, Scheduler.submissions]
  refine ⟨h.inv ho.inv, ?_, ?_⟩
  · rw [NoRepeat, hsame]
    exact ho.no_repeat
  · rw [h.pending, hsame]
    exact ho.pending_new

theorem collect_orderly {now : Time} (ho : Orderly s) (hs : Settled s) (hc : s.clock ≤ now)
    (h : s.collect now = some t) : Orderly t := by
  have hi := collect_inv ho.inv h hc
  obtain ⟨-, hf, rfl⟩ := collect_spec h
  refine ⟨hi, ho.no_repeat, fun found hm sub hsub he => ?_⟩
  obtain ⟨ref, -, hfound⟩ := List.mem_filterMap.mp hm
  obtain ⟨rfl, -, job, hjob, hdue⟩ := due?_eq_some hfound
  have htriggered : sub ∈ s.triggered := by simpa [Scheduler.submissions, hf] using hsub
  exact hs sub htriggered job (he ▸ hjob) _ hdue

theorem submit_orderly {now : Time} {id : JobId} {contextId : Option String} {accepted : Bool}
    (ho : Orderly s) (hc : s.clock ≤ now) (h : s.submit now id contextId accepted = some t) :
    Orderly t := by
  have hi := submit_inv ho.inv h hc
  obtain ⟨ref, due, pending, hf, hp, ⟨rest, hrest, rfl⟩ | ⟨exec, rfl⟩⟩ := submit_spec h
  · exact ⟨hi, ho.no_repeat, fun found hm => ho.pending_new found (hrest.subset hm)⟩
  · have hold : s.submissions = s.triggered := by simp [Scheduler.submissions, hf]
    have hnew := ho.pending_new (ref, due) (by simp [hp])
    rw [hold] at hnew
    have hrepeat := ho.no_repeat
    rw [NoRepeat, hold] at hrepeat
    refine ⟨hi, ?_, ?_⟩
    · refine List.pairwise_append.mpr ⟨hrepeat, List.pairwise_singleton _ _, ?_⟩
      intro first hfirst second hsecond he
      obtain rfl := List.mem_singleton.mp hsecond
      exact hnew first hfirst he
    · intro found hm sub hsub he
      rcases List.mem_append.mp hsub with hsub | hsub
      · exact ho.pending_new found (by simp [hp, hm]) sub (hold ▸ hsub) he
      · obtain rfl := List.mem_singleton.mp hsub
        exact absurd (List.mem_map_of_mem hm) (he ▸ hi.flight_new _ rfl)

theorem finish_submissions {sub : Submission} (hf : s.inFlight = some sub) (now : Time) (job : ScheduledJob)
    (totalTriggers : Nat) (rest : List (Nat × Time)) :
    (s.finish now sub job totalTriggers rest).submissions = s.submissions := by
  simp [Scheduler.submissions, Scheduler.finish, hf]

theorem finish_orderly {now : Time} {sub : Submission} {job : ScheduledJob} {totalTriggers : Nat}
    {rest : List (Nat × Time)} (ho : Orderly s) (hf : s.inFlight = some sub) (hc : s.clock ≤ now)
    (hrest : rest.Sublist s.pending) : Orderly (s.finish now sub job totalTriggers rest) := by
  have hsame := finish_submissions hf now job totalTriggers rest
  refine ⟨finish_inv ho.inv hf hc hrest, ?_, fun found hm => ?_⟩
  · rw [NoRepeat, hsame]
    exact ho.no_repeat
  · rw [hsame]
    exact ho.pending_new found (hrest.subset hm)

theorem step_orderly {act : Action} (ho : Orderly s) (hs : Settled s) (h : step host s act = some t) :
    Orderly t := by
  by_cases hact : act.OfOthers
  · exact (step_outside hact ho.inv h).orderly ho
  · cases act with
    | collect now =>
        obtain ⟨hc, h⟩ := Option.ite_none_right_eq_some.mp h
        exact collect_orderly ho hs hc h
    | submit now id contextId accepted =>
        obtain ⟨hc, h⟩ := Option.ite_none_right_eq_some.mp h
        exact submit_orderly ho hc h
    | reschedule ran now =>
        obtain ⟨⟨hc, hran⟩, h⟩ := Option.ite_none_right_eq_some.mp h
        obtain ⟨sub, job, hf, -, ⟨next, -, rfl⟩ | ⟨-, rfl⟩⟩ := reschedule_spec h
        · exact finish_orderly ho hf (hc.trans hran) (List.Sublist.refl _)
        · exact finish_orderly ho hf (hc.trans hran) (List.nil_sublist _)
    | _ => exact absurd trivial hact

theorem blank_orderly (engine : Bool) (clock : Time) : Orderly (Scheduler.blank engine clock) where
  inv := {
    nodup := List.nodup_nil
    valid := fun _ hm => absurd hm List.not_mem_nil
    pending_nodup := List.nodup_nil
    pending_found := fun _ hm => absurd hm List.not_mem_nil
    flight_found := fun _ hm => absurd hm (Option.not_mem_none _)
    flight_new := fun _ hm => absurd hm (Option.not_mem_none _)
    flight_last := fun _ hm => absurd hm (Option.not_mem_none _)
    past := fun _ hm => absurd hm List.not_mem_nil }
  no_repeat := List.Pairwise.nil
  pending_new := fun _ hm => absurd hm List.not_mem_nil

-- Settled states only, and no job is submitted twice for a due time.
theorem always_noRepeat {acts : List Action} (ho : Orderly s) (h : Always (step host) Settled s acts) :
    Always (step host) NoRepeat s acts := by
  refine always_iff.mpr fun first second u he hr => ?_
  have hmeets : Meets (step host) (fun t _ => Settled t) s first := by
    have hall := h.meets
    rw [he] at hall
    exact ((Meets.append hr).mp hall).1
  have horderly : Orderly u :=
    hr.invariant Orderly (fun _ _ _ hov hsv hstep => step_orderly hov hsv hstep) hmeets ho
  exact horderly.no_repeat

-- In every run from the start, each trigger settles its job and no later tick submits the job again
-- for the same due time, exactly when every reschedule moves its job on.
theorem due_time_fires_once_iff (host : Host) (engine : Bool) (clock : Time) (acts : List Action) :
    Always (step host) (fun s => Settled s ∧ NoRepeat s) (.blank engine clock) acts ↔
      Meets (step host) (MovesOn host) (.blank engine clock) acts := by
  have horderly := blank_orderly engine clock
  have hsettled : Settled (.blank engine clock) := fun _ hm => absurd hm List.not_mem_nil
  rw [← always_iff_meets (fun _ _ _ hi h => step_inv hi h)
    (fun _ _ _ hi hs h => step_settled_iff hi hs h) horderly.inv hsettled, always_and]
  exact and_iff_left_of_imp (always_noRepeat horderly)

section Sample

-- A report on every first of January at midnight.
def yearly : ScheduledJob where
  id := "yearly"
  name := "yearly"
  target := .str "report"
  kwargs := .empty
  priority := 20
  retries := 0
  timeout := none
  interval := none
  delay := none
  cron := some "0 0 1 1 *"
  maxRuns := none
  runCount := 0
  lastRunTime := none
  nextRunTime := none
  cancelled := false

def yearlyCron : Cron where
  minutes := [⟨0, 1, 1⟩]
  hours := [⟨0, 1, 1⟩]
  days := [⟨1, 2, 1⟩]
  months := [⟨1, 2, 1⟩]
  daysOfWeek := [⟨0, 8, 1⟩]

-- The start of 2026, as a clock reading and as a local time.
def newYear : Time := 1767225600

def newYearMinute : Nat := 739616 * 1440

theorem contains_single {n m : Nat} (h : Field.contains [⟨n, n + 1, 1⟩] m = true) : m = n := by
  simp only [Field.contains, List.any_cons, List.any_nil, Span.contains, Bool.or_false, decide_eq_true_eq,
    Int.zero_lt_one, ite_true] at h
  omega

-- The window ends in March, so that the next first of January lies outside of it.
theorem yearlyCron_matches {time : Nat} (hlow : newYearMinute < time)
    (hhigh : time ≤ newYearMinute + searchWindow) : yearlyCron.matches time = false := by
  have hdays : ∀ d < 70, dateOf (739616 + d) = (1, 1) → d = 0 := by decide +kernel
  by_contra hm
  rw [Bool.not_eq_false, Cron.matches] at hm
  simp only [Bool.and_eq_true] at hm
  obtain ⟨⟨⟨⟨hminute, hhour⟩, hday⟩, hmonth⟩, -⟩ := hm
  have hminute : time % 60 = 0 := contains_single hminute
  have hhour : time / 60 % 24 = 0 := contains_single hhour
  have hday : (dateOf (time / 1440)).2 = 1 := contains_single hday
  have hmonth : (dateOf (time / 1440)).1 = 1 := contains_single hmonth
  unfold newYearMinute searchWindow at *
  have hordinal : time / 1440 = 739616 + (time / 1440 - 739616) := by omega
  have hsame : time / 1440 - 739616 = 0 := by
    apply hdays
    · omega
    · rw [← hordinal]
      exact Prod.ext hmonth hday
  omega

theorem yearly_search_fails : getNextCronTime "0 0 1 1 *" newYearMinute = none := by
  have hparse : Cron.parse "0 0 1 1 *" = some yearlyCron := rfl
  refine Option.eq_none_iff_forall_ne_some.mpr fun time htime => ?_
  obtain ⟨cron, hcron, hfirst⟩ := getNextCronTime_eq_some_iff.mp htime
  obtain rfl := Option.some.inj (hparse.symm.trans hcron)
  have hnamed := hfirst.named
  rw [yearlyCron_matches hfirst.after hfirst.within] at hnamed
  cases hnamed

def dueYearly : ScheduledJob := { yearly with nextRunTime := some newYear }

def yearlySubmission (job : ScheduledJob) (now : Time) (id : JobId) : Submission where
  ref := 0
  due := newYear
  time := now
  job := Job.init job.target job.kwargs id (some job.name) job.priority job.retries job.timeout none
    now

-- The scheduler with the yearly job, and a record of its runs so far.
def yearlyScheduler (job : ScheduledJob) (clock : Time) (triggered : List Submission) : Scheduler :=
  { Scheduler.blank true 0 with
    objects := [job]
    jobs := Dict.empty.set "yearly" 0
    clock := clock
    triggered := triggered }

theorem schedule_yearly : step utc (.blank true 0) (.schedule (newYear - 30) yearly) =
    some (yearlyScheduler dueYearly (newYear - 30) []) := by
  have hc : (Scheduler.blank true 0).clock ≤ newYear - 30 := by decide +kernel
  have hcron : getNextCronTime "0 0 1 1 *" (utc.localMinute (newYear - 30)) = some newYearMinute := by
    decide +kernel
  have htime : utc.timestamp newYearMinute = newYear := by decide +kernel
  rw [step, if_pos hc]
  simp [Scheduler.scheduleJob, ScheduledJob.init, yearly, ScheduledJob.calculateNextRun,
    ScheduledJob.dueTime, ScheduledJob.cronTime, hcron, htime, dueYearly, yearlyScheduler,
    Scheduler.blank]

theorem collect_yearly {clock now : Time} (triggered : List Submission) (job : ScheduledJob)
    (hdue : job.nextRunTime = some newYear) (hcancelled : job.cancelled = false)
    (hc : clock ≤ now) (hnow : newYear ≤ now) :
    step utc (yearlyScheduler job clock triggered) (.collect now) =
      some { yearlyScheduler job now triggered with pending := [(0, newYear)] } := by
  have hclock : (yearlyScheduler job clock triggered).clock ≤ now := hc
  have hfound : (yearlyScheduler job clock triggered).due? now 0 = some (0, newYear) := by
    have hobject : (yearlyScheduler job clock triggered).objects[0]? = some job := rfl
    simp [Scheduler.due?, hobject, hdue, hcancelled, hnow, guard]
  have hvalues : (yearlyScheduler job clock triggered).jobs.values = [0] := rfl
  rw [step, if_pos hclock, Scheduler.collect, if_pos ⟨rfl, rfl⟩, hvalues,
    List.filterMap_cons_some hfound]
  rfl

theorem submit_yearly (now : Time) (triggered : List Submission) (job : ScheduledJob) (id : JobId) :
    step utc { yearlyScheduler job now triggered with pending := [(0, newYear)] }
      (.submit now id none true) = some { yearlyScheduler job now triggered with
        inFlight := some (yearlySubmission job now id) } := by
  have hc : (yearlyScheduler job now triggered).clock ≤ now := le_rfl
  rw [step, if_pos hc]
  rfl

theorem yearly_next_fails : (dueYearly.counted newYear).calculateNextRun utc newYear = none := by
  have hminute : utc.localMinute newYear = newYearMinute := by decide +kernel
  have hcron : ScheduledJob.cronTime utc "0 0 1 1 *" newYear = none := by
    rw [ScheduledJob.cronTime, hminute, yearly_search_fails]
    rfl
  have hdue : (dueYearly.counted newYear).dueTime utc newYear =
      ScheduledJob.cronTime utc "0 0 1 1 *" newYear := by
    simp only [ScheduledJob.dueTime, ScheduledJob.counted, dueYearly, yearly]
    rfl
  rw [ScheduledJob.calculateNextRun, hdue, hcron]
  rfl

theorem reschedule_yearly : step utc { yearlyScheduler dueYearly newYear [] with
    inFlight := some (yearlySubmission dueYearly newYear "job-1") } (.reschedule newYear newYear) =
      some (yearlyScheduler (dueYearly.counted newYear) newYear
        [yearlySubmission dueYearly newYear "job-1"]) := by
  have hc : (yearlyScheduler dueYearly newYear []).clock ≤ newYear := le_rfl
  have hobject : (yearlyScheduler dueYearly newYear []).objects[0]? = some dueYearly := rfl
  have hf : Scheduler.inFlight { yearlyScheduler dueYearly newYear [] with
      inFlight := some (yearlySubmission dueYearly newYear "job-1") } =
        some (yearlySubmission dueYearly newYear "job-1") := rfl
  rw [step, if_pos ⟨hc, le_rfl⟩]
  exact reschedule_fails hf hobject yearly_next_fails

-- The search fails from the very minute in which the job runs, so that every tick finds the job due
-- and submits it again.
theorem yearly_job_repeats : ∃ s first second,
    Run (step utc) (.blank true 0) [.schedule (newYear - 30) yearly, .collect newYear,
      .submit newYear "job-1" none true, .reschedule newYear newYear, .collect (newYear + 1),
      .submit (newYear + 1) "job-2" none true] s ∧
    s.submissions = [first, second] ∧ first.ref = second.ref ∧ first.due = second.due ∧
      ¬Settled s ∧ ¬NoRepeat s := by
  have hlater : newYear ≤ newYear + 1 := by decide +kernel
  have hcollect := collect_yearly [] dueYearly rfl rfl
    (show newYear - 30 ≤ newYear by decide +kernel) le_rfl
  have hcollect' := collect_yearly [yearlySubmission dueYearly newYear "job-1"] (dueYearly.counted newYear)
    rfl rfl hlater hlater
  have hsubmit := submit_yearly (newYear + 1) [yearlySubmission dueYearly newYear "job-1"]
    (dueYearly.counted newYear) "job-2"
  have hnotAfter : ¬newYear < newYear := lt_irrefl _
  refine ⟨_, yearlySubmission dueYearly newYear "job-1",
    yearlySubmission (dueYearly.counted newYear) (newYear + 1) "job-2",
    .cons schedule_yearly (.cons hcollect (.cons (submit_yearly ..) (.cons reschedule_yearly
      (.cons hcollect' (.cons hsubmit (.nil _)))))), rfl, rfl, rfl, fun hs => ?_, fun hn => ?_⟩
  · exact hnotAfter (hs _ (List.mem_singleton_self _) (dueYearly.counted newYear) rfl newYear rfl)
  · exact hnotAfter ((List.pairwise_cons.mp hn).1 _ (List.mem_singleton_self _) rfl)

end Sample

end YasinCore.Scheduling
