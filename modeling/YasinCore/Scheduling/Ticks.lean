import YasinCore.Scheduling.DueTimes

namespace YasinCore.Scheduling

open YasinCore.Library YasinCore.Execution

-- The jobs of the dictionary that are due: what a tick is to submit.
def Scheduler.dueJobs (s : Scheduler) (now : Time) : List Nat :=
  s.jobs.values.filter fun ref => s.objects[ref]?.any fun job =>
    !job.cancelled && job.nextRunTime.any fun due => due ≤ now

-- The job that the next trigger hands to submit_job; without an engine there is no such call.
def Scheduler.handing (s : Scheduler) : List Nat :=
  if s.engine then s.pending.head?.toList.map Prod.fst else []

-- A scheduler under watch: the jobs that were due when its last tick began, and those that the tick
-- has handed to submit_job since.
structure TickWatch where
  scheduler : Scheduler
  due : List Nat
  handed : List Nat

def TickWatch.start (s : Scheduler) : TickWatch := ⟨s, s.pending.map Prod.fst, []⟩

def watchStep (host : Host) (w : TickWatch) (act : Action) : Option TickWatch :=
  (step host w.scheduler act).map fun s =>
    match act with
    | .collect now => ⟨s, w.scheduler.dueJobs now, []⟩
    | .submit _ _ _ _ => ⟨s, w.due, w.handed ++ w.scheduler.handing⟩
    | _ => ⟨s, w.due, w.handed⟩

-- No due job is lost: each has been handed over or has its turn to come.
def Served (w : TickWatch) : Prop := w.handed ++ w.scheduler.pending.map Prod.fst = w.due

-- A trigger does no harm to the others: there is an engine for it, and if submit_job or the
-- computation of the next run raises then no other job is waiting.
def SparesOthers (host : Host) (w : TickWatch) : Action → Prop
  | .submit _ _ _ accepted =>
      w.scheduler.engine ∧ (accepted = false → w.scheduler.pending.length = 1)
  | .reschedule ran now => ∀ sub ∈ w.scheduler.inFlight, ∀ job ∈ w.scheduler.objects[sub.ref]?,
      (job.counted ran).calculateNextRun host now = none → w.scheduler.pending = []
  | _ => True

variable {host : Host} {s t : Scheduler} {w v : TickWatch} {now ran : Time}

-- At the end of a tick everything that was due has been handed over.
theorem Served.at_rest (h : Served w) (hrest : w.scheduler.pending = []) : w.handed = w.due := by
  rw [Served, hrest, List.map_nil, List.append_nil] at h
  exact h

theorem start_served (s : Scheduler) : Served (.start s) := List.nil_append _

theorem due?_isSome (s : Scheduler) (now : Time) (ref : Nat) : (s.due? now ref).isSome =
    (s.objects[ref]?.any fun job => !job.cancelled && job.nextRunTime.any fun due => due ≤ now) := by
  unfold Scheduler.due?
  cases s.objects[ref]? with
  | none => rfl
  | some job =>
      cases hdue : job.nextRunTime with
      | none => simp [hdue]
      | some due =>
          by_cases hle : due ≤ now
          · cases hc : job.cancelled with
            | true => simp [hdue, hle, hc]
            | false => simp [hdue, hle, hc]
          · simp [hdue, hle]

theorem map_fst_filterMap_due? (s : Scheduler) (now : Time) (refs : List Nat) :
    (refs.filterMap (s.due? now)).map Prod.fst = refs.filter fun ref => (s.due? now ref).isSome := by
  induction refs with
  | nil => rfl
  | cons ref refs ih =>
      cases hd : s.due? now ref with
      | none => rw [List.filterMap_cons_none hd, List.filter_cons_of_neg (by simp [hd]), ih]
      | some found =>
          have href := (due?_eq_some hd).1
          rw [List.filterMap_cons_some hd, List.filter_cons_of_pos (by simp [hd]), List.map_cons, ih, href]

theorem collect_dueJobs (h : s.collect now = some t) : t.pending.map Prod.fst = s.dueJobs now := by
  obtain ⟨-, -, rfl⟩ := collect_spec h
  simp only [map_fst_filterMap_due?, due?_isSome, Scheduler.dueJobs]

theorem step_kept {act : Action} (hact : act.OfOthers) (h : step host s act = some t) :
    t.pending = s.pending ∧ t.submissions = s.submissions := by
  cases act with
  | schedule now arguments =>
      obtain ⟨-, h⟩ := Option.ite_none_right_eq_some.mp h
      obtain ⟨job, -, rfl⟩ := Option.map_eq_some_iff.mp h
      exact ⟨rfl, rfl⟩
  | unschedule id =>
      obtain rfl := Option.some.inj h
      unfold Scheduler.unscheduleJob
      cases s.jobs.get? id with
      | none => exact ⟨rfl, rfl⟩
      | some ref => exact ⟨rfl, rfl⟩
  | cancel ref => exact Option.some.inj h ▸ ⟨rfl, rfl⟩
  | clearJobs => exact Option.some.inj h ▸ ⟨rfl, rfl⟩
  | collect _ => exact hact.elim
  | submit _ _ _ _ => exact hact.elim
  | reschedule _ _ => exact hact.elim

-- What is left of a tick after the first half of a trigger
theorem submit_pending {id : JobId} {contextId : Option String} {accepted : Bool}
    (h : s.submit now id contextId accepted = some t) : ∃ found rest, s.pending = found :: rest ∧
      t.pending = if s.engine ∧ accepted = false then [] else rest := by
  unfold Scheduler.submit at h
  split at h
  · next ref due pending hf hp =>
      obtain ⟨job, -, ht⟩ := Option.map_eq_some_iff.mp h
      refine ⟨(ref, due), pending, hp, ?_⟩
      cases he : s.engine with
      | false =>
          simp only [he] at ht
          simp [← ht]
      | true =>
          cases accepted with
          | false =>
              simp only [he] at ht
              simp [← ht]
          | true =>
              simp only [he] at ht
              simp [← ht]
  · cases h

-- One action loses no due job exactly when it spares the others.
theorem watchStep_served_iff {act : Action} (hw : Served w) (h : watchStep host w act = some v) :
    Served v ↔ SparesOthers host w act := by
  obtain ⟨s, hs, rfl⟩ := Option.map_eq_some_iff.mp h
  by_cases hact : act.OfOthers
  · have hpending := (step_kept hact hs).1
    have hkept : Served ⟨s, w.due, w.handed⟩ := by
      rw [Served, hpending]
      exact hw
    cases act with
    | schedule _ _ | unschedule _ | cancel _ | clearJobs => exact iff_of_true hkept trivial
    | collect _ | submit _ _ _ _ | reschedule _ _ => exact hact.elim
  · cases act with
    | schedule _ _ | unschedule _ | cancel _ | clearJobs => exact absurd trivial hact
    | collect now =>
        obtain ⟨-, hs⟩ := Option.ite_none_right_eq_some.mp hs
        exact iff_of_true (collect_dueJobs hs) trivial
    | submit now id contextId accepted =>
        obtain ⟨-, hs⟩ := Option.ite_none_right_eq_some.mp hs
        obtain ⟨found, rest, hp, hrest⟩ := submit_pending hs
        have hdue : w.due = w.handed ++ found.1 :: rest.map Prod.fst := by
          rw [← hw, hp, List.map_cons]
        show w.handed ++ w.scheduler.handing ++ s.pending.map Prod.fst = w.due ↔ _
        rw [hdue, Scheduler.handing, SparesOthers, hrest, hp, List.append_assoc, List.append_cancel_left_eq]
        cases w.scheduler.engine with
        | false =>
            refine iff_of_false (fun he => ?_) (by simp)
            have hlength := congrArg List.length he
            simp at hlength
        | true =>
            cases accepted with
            | false => simp
            | true => simp
    | reschedule ran now =>
        obtain ⟨-, hs⟩ := Option.ite_none_right_eq_some.mp hs
        obtain ⟨sub, job, hf, hjob, hend⟩ := reschedule_spec hs
        have hguard : SparesOthers host w (.reschedule ran now) ↔
            ((job.counted ran).calculateNextRun host now = none → w.scheduler.pending = []) := by
          simp [SparesOthers, hf, hjob]
        rw [hguard]
        rcases hend with ⟨next, hn, rfl⟩ | ⟨hn, rfl⟩
        · refine iff_of_true hw fun hnone => ?_
          rw [hn] at hnone
          cases hnone
        · have hdue : w.due = w.handed ++ w.scheduler.pending.map Prod.fst := hw.symm
          show w.handed ++ [] = w.due ↔ _
          rw [hdue, List.append_cancel_left_eq]
          simp [hn]

-- submit_job returns for every job that it is given.
def Action.Accepted : Action → Prop
  | .submit _ _ _ accepted => accepted = true
  | _ => True

-- A job that submit_job accepts is among the submissions from then on.
theorem submit_submissions {id : JobId} {contextId : Option String}
    (h : s.submit now id contextId true = some t) :
    t.submissions.map Submission.ref = s.submissions.map Submission.ref ++ s.handing := by
  unfold Scheduler.submit at h
  split at h
  · next ref due pending hf hp =>
      obtain ⟨job, -, ht⟩ := Option.map_eq_some_iff.mp h
      cases he : s.engine with
      | false =>
          simp only [he] at ht
          simp [← ht, Scheduler.submissions, Scheduler.handing, he]
      | true =>
          simp only [he] at ht
          simp [← ht, Scheduler.submissions, Scheduler.handing, he, hf, hp]
  · cases h

theorem watchStep_handed {act : Action} (hacc : act.Accepted) (h : watchStep host w act = some v)
    (hw : w.handed <:+ w.scheduler.submissions.map Submission.ref) :
    v.handed <:+ v.scheduler.submissions.map Submission.ref := by
  obtain ⟨s, hs, rfl⟩ := Option.map_eq_some_iff.mp h
  by_cases hact : act.OfOthers
  · have hsame := (step_kept hact hs).2
    cases act with
    | schedule _ _ | unschedule _ | cancel _ | clearJobs =>
        dsimp only
        rw [hsame]
        exact hw
    | collect _ | submit _ _ _ _ | reschedule _ _ => exact hact.elim
  · cases act with
    | schedule _ _ | unschedule _ | cancel _ | clearJobs => exact absurd trivial hact
    | collect now => exact List.nil_suffix
    | submit now id contextId accepted =>
        obtain rfl : accepted = true := hacc
        obtain ⟨-, hs⟩ := Option.ite_none_right_eq_some.mp hs
        obtain ⟨before, hbefore⟩ := hw
        refine ⟨before, ?_⟩
        dsimp only
        rw [submit_submissions hs, ← hbefore, List.append_assoc]
    | reschedule ran now =>
        obtain ⟨-, hs⟩ := Option.ite_none_right_eq_some.mp hs
        obtain ⟨sub, job, hf, -, hend⟩ := reschedule_spec hs
        dsimp only
        rcases hend with ⟨next, -, rfl⟩ | ⟨-, rfl⟩
        · rw [finish_submissions hf]
          exact hw
        · rw [finish_submissions hf]
          exact hw

-- What the watch notes as handed over in a tick are the last submissions of the scheduler, as long as
-- none is refused.
theorem handed_suffix_submissions {acts : List Action} (hr : Run (watchStep host) (.start s) acts w)
    (hacc : ∀ act ∈ acts, act.Accepted) :
    w.handed <:+ w.scheduler.submissions.map Submission.ref :=
  hr.invariant (fun w => w.handed <:+ w.scheduler.submissions.map Submission.ref)
    (fun _ _ _ hw hact h => watchStep_handed hact h hw) (.of_forall fun act hm _ => hacc act hm)
    List.nil_suffix

-- In every run, ticks and the calls of others in any order, no tick loses a job that was due when it
-- began, exactly when every trigger spares the others.
theorem every_due_job_served_iff (host : Host) (s : Scheduler) (acts : List Action) :
    Always (watchStep host) Served (.start s) acts ↔
      Meets (watchStep host) (SparesOthers host) (.start s) acts :=
  have haux (w : TickWatch) (act : Action) (v : TickWatch) :
      True → watchStep host w act = some v → True := fun _ _ => trivial
  always_iff_meets haux (fun _ _ _ _ hw h => watchStep_served_iff hw h) trivial (start_served s)

section Sample

-- A job for which no time is set, so that it is due at once
def prompt : ScheduledJob := { yearly with id := "prompt", name := "prompt", cron := none }

def duePrompt : ScheduledJob := { prompt with nextRunTime := some (newYear - 30) }

def pairScheduler (job : ScheduledJob) (clock : Time) (triggered : List Submission) : Scheduler :=
  { yearlyScheduler job clock triggered with
    objects := [job, duePrompt]
    jobs := (Dict.empty.set "yearly" 0).set "prompt" 1 }

variable {job : ScheduledJob} {clock : Time} {triggered : List Submission} {id : JobId}

theorem schedule_prompt : step utc (yearlyScheduler dueYearly (newYear - 30) [])
    (.schedule (newYear - 30) prompt) = some (pairScheduler dueYearly (newYear - 30) []) := by
  have hc : (yearlyScheduler dueYearly (newYear - 30) []).clock ≤ newYear - 30 := le_rfl
  rw [step, if_pos hc]
  rfl

theorem yearly_fails_again (hcron : job.cron = some "0 0 1 1 *") (hmax : job.maxRuns = none)
    (hcancelled : job.cancelled = false) (hminute : utc.localMinute now = newYearMinute) :
    (job.counted now).calculateNextRun utc now = none := by
  have htime : ScheduledJob.cronTime utc "0 0 1 1 *" now = none := by
    rw [ScheduledJob.cronTime, hminute, yearly_search_fails]
    rfl
  simp [ScheduledJob.calculateNextRun, ScheduledJob.dueTime, ScheduledJob.counted, hcron, hmax,
    hcancelled, htime]

theorem collect_pair (hdue : job.nextRunTime = some newYear) (hcancelled : job.cancelled = false)
    (hc : clock ≤ now) (hnow : newYear ≤ now) :
    step utc (pairScheduler job clock triggered) (.collect now) =
      some { pairScheduler job now triggered with pending := [(0, newYear), (1, newYear - 30)] } := by
  have hclock : (pairScheduler job clock triggered).clock ≤ now := hc
  have hvalues : (pairScheduler job clock triggered).jobs.values = [0, 1] := rfl
  have hfirst : (pairScheduler job clock triggered).due? now 0 = some (0, newYear) := by
    have hobject : (pairScheduler job clock triggered).objects[0]? = some job := rfl
    simp [Scheduler.due?, hobject, hdue, hcancelled, hnow, guard]
  have hsecond : (pairScheduler job clock triggered).due? now 1 = some (1, newYear - 30) := by
    have hobject : (pairScheduler job clock triggered).objects[1]? = some duePrompt := rfl
    have hprompt : duePrompt.nextRunTime = some (newYear - 30) := rfl
    have hwaiting : duePrompt.cancelled = false := rfl
    have hpast : newYear - 30 ≤ now := le_trans (by decide +kernel) hnow
    simp [Scheduler.due?, hobject, hprompt, hwaiting, hpast, guard]
  rw [step, if_pos hclock, Scheduler.collect, if_pos ⟨rfl, rfl⟩, hvalues,
    List.filterMap_cons_some hfirst, List.filterMap_cons_some hsecond]
  rfl

theorem submit_pair : step utc
    { pairScheduler job now triggered with pending := [(0, newYear), (1, newYear - 30)] }
      (.submit now id none true) = some { pairScheduler job now triggered with
        pending := [(1, newYear - 30)]
        inFlight := some (yearlySubmission job now id) } := by
  have hc : (pairScheduler job now triggered).clock ≤ now := le_rfl
  rw [step, if_pos hc]
  rfl

theorem reschedule_pair (hnone : (job.counted now).calculateNextRun utc now = none) : step utc
    { pairScheduler job now triggered with
      pending := [(1, newYear - 30)]
      inFlight := some (yearlySubmission job now id) } (.reschedule now now) =
    some (pairScheduler (job.counted now) now (triggered ++ [yearlySubmission job now id])) := by
  have hc : (pairScheduler job now triggered).clock ≤ now := le_rfl
  have hobject : (pairScheduler job now triggered).objects[0]? = some job := rfl
  have hf : Scheduler.inFlight { pairScheduler job now triggered with
      pending := [(1, newYear - 30)]
      inFlight := some (yearlySubmission job now id) } = some (yearlySubmission job now id) := rfl
  rw [step, if_pos ⟨hc, le_rfl⟩]
  exact reschedule_fails hf hobject hnone

theorem tick_pair {due handed : List Nat} (hdue : job.nextRunTime = some newYear)
    (hcancelled : job.cancelled = false) (hnone : (job.counted now).calculateNextRun utc now = none)
    (hc : clock ≤ now) (hnow : newYear ≤ now) (id : JobId) :
    Run (watchStep utc) ⟨pairScheduler job clock triggered, due, handed⟩
      [.collect now, .submit now id none true, .reschedule now now]
      ⟨pairScheduler (job.counted now) now (triggered ++ [yearlySubmission job now id]), [0, 1], [0]⟩ := by
  have hcollect : step utc (pairScheduler job clock triggered) (.collect now) = _ :=
    collect_pair hdue hcancelled hc hnow
  have hfound : (pairScheduler job clock triggered).dueJobs now = [0, 1] := by
    obtain ⟨-, hcollected⟩ := Option.ite_none_right_eq_some.mp hcollect
    exact (collect_dueJobs hcollected).symm
  have hwatch : watchStep utc ⟨pairScheduler job clock triggered, due, handed⟩ (.collect now) =
      some ⟨{ pairScheduler job now triggered with pending := [(0, newYear), (1, newYear - 30)] },
        [0, 1], []⟩ := by
    rw [watchStep, hcollect, ← hfound]
    rfl
  have hsubmit : watchStep utc ⟨{ pairScheduler job now triggered with
      pending := [(0, newYear), (1, newYear - 30)] }, [0, 1], []⟩ (.submit now id none true) =
        some ⟨{ pairScheduler job now triggered with
          pending := [(1, newYear - 30)]
          inFlight := some (yearlySubmission job now id) }, [0, 1], [0]⟩ := by
    rw [watchStep, submit_pair]
    rfl
  have hreschedule : watchStep utc ⟨{ pairScheduler job now triggered with
      pending := [(1, newYear - 30)]
      inFlight := some (yearlySubmission job now id) }, [0, 1], [0]⟩ (.reschedule now now) =
        some ⟨pairScheduler (job.counted now) now (triggered ++ [yearlySubmission job now id]),
          [0, 1], [0]⟩ := by
    rw [watchStep, reschedule_pair hnone]
    rfl
  exact .cons hwatch (.cons hsubmit (.cons hreschedule (.nil _)))

-- The job that can not be scheduled on ends every tick, and the other one is never submitted.
theorem failing_job_starves_other : ∃ first second,
    Run (watchStep utc) (.start (.blank true 0)) [.schedule (newYear - 30) yearly,
      .schedule (newYear - 30) prompt, .collect newYear, .submit newYear "job-1" none true,
      .reschedule newYear newYear] first ∧
    Run (watchStep utc) first [.collect (newYear + 1), .submit (newYear + 1) "job-2" none true,
      .reschedule (newYear + 1) (newYear + 1)] second ∧
    (first.due = [0, 1] ∧ first.handed = [0] ∧ first.scheduler.pending = []) ∧
    (second.due = [0, 1] ∧ second.handed = [0] ∧ second.scheduler.pending = []) ∧
    ¬Served first ∧ ¬Served second := by
  have hbefore : newYear - 30 ≤ newYear := by decide +kernel
  have hlater : newYear ≤ newYear + 1 := by decide +kernel
  have hfails : ((dueYearly.counted newYear).counted (newYear + 1)).calculateNextRun utc (newYear + 1) =
      none := yearly_fails_again rfl rfl rfl (by decide +kernel)
  have hyearly : watchStep utc (.start (.blank true 0)) (.schedule (newYear - 30) yearly) =
      some ⟨yearlyScheduler dueYearly (newYear - 30) [], [], []⟩ := by
    rw [watchStep, TickWatch.start, schedule_yearly]
    rfl
  have hprompt : watchStep utc ⟨yearlyScheduler dueYearly (newYear - 30) [], [], []⟩
      (.schedule (newYear - 30) prompt) = some ⟨pairScheduler dueYearly (newYear - 30) [], [], []⟩ := by
    rw [watchStep, schedule_prompt]
    rfl
  refine ⟨_, _, .cons hyearly (.cons hprompt (tick_pair rfl rfl yearly_next_fails hbefore le_rfl "job-1")),
    tick_pair rfl rfl hfails hlater hlater "job-2", ⟨rfl, rfl, rfl⟩, ⟨rfl, rfl, rfl⟩, ?_, ?_⟩
  · exact fun h => by cases h
  · exact fun h => by cases h

end Sample

end YasinCore.Scheduling
