import YasinCore.Scheduling.DueTimes

namespace YasinCore.Scheduling

open YasinCore.Library YasinCore.Execution

-- How often an object has been submitted
def Scheduler.runs (s : Scheduler) (ref : Nat) : Nat := s.submissions.countP fun sub => sub.ref = ref

-- The calls of others come between the ticks.
def BetweenTicks (s : Scheduler) (act : Action) : Prop :=
  act.OfOthers → s.pending = [] ∧ s.inFlight = none

-- A job may have another run: its limit is not reached, and it is repeated or has not run yet.
def Allowed (arguments : ScheduledJob) (runCount : Nat) : Prop :=
  (∀ maxRuns ∈ arguments.maxRuns, (runCount : Int) < maxRuns) ∧
    (arguments.interval = none → arguments.cron = none → runCount = 0)

-- A number of runs that the job may have had.
def Within (arguments : ScheduledJob) (runCount : Nat) : Prop :=
  (∀ maxRuns ∈ arguments.maxRuns, (runCount : Int) ≤ max maxRuns 0) ∧
    (arguments.interval = none → arguments.cron = none → runCount ≤ 1)

-- A job that was made from the arguments, with what is known of it whenever it is at rest: it has had
-- no more runs than it may have, and it only has a due time if it may have another.
structure Governed (arguments job : ScheduledJob) : Prop where
  maxRuns : job.maxRuns = arguments.maxRuns
  interval : job.interval = arguments.interval
  cron : job.cron = arguments.cron
  within : Within arguments job.runCount
  allowed : job.nextRunTime.isSome → Allowed arguments job.runCount

variable {host : Host} {s t : Scheduler} {arguments job next : ScheduledJob} {now ran : Time} {ref : Nat}

theorem Allowed.within {runCount : Nat} (h : Allowed arguments runCount) :
    Within arguments (runCount + 1) := by
  refine ⟨fun maxRuns hm => ?_, fun hi hc => ?_⟩
  · have hlt := h.1 maxRuns hm
    push_cast
    omega
  · rw [h.2 hi hc]

theorem Governed.cancel (h : Governed arguments job) : Governed arguments job.cancel :=
  ⟨h.maxRuns, h.interval, h.cron, h.within, fun hd => by cases hd⟩

-- The order of the tests in calculate_next_run: whatever has a due time, or fails to get one, has
-- passed the test of the limit; without a repetition the only due time is the first.
theorem dueTime_allowed (hm : job.maxRuns = arguments.maxRuns) (hi : job.interval = arguments.interval)
    (hc : job.cron = arguments.cron) (h : job.dueTime host now ≠ some none) :
    Allowed arguments job.runCount := by
  unfold ScheduledJob.dueTime at h
  by_cases hcancelled : job.cancelled
  · rw [if_pos hcancelled] at h
    exact absurd rfl h
  rw [if_neg hcancelled] at h
  by_cases hreached : job.maxRuns.any fun maxRuns => maxRuns ≤ (job.runCount : Int)
  · rw [if_pos hreached] at h
    exact absurd rfl h
  rw [if_neg hreached] at h
  constructor
  · intro maxRuns hmax
    by_contra hle
    have hany : job.maxRuns.any fun maxRuns => maxRuns ≤ (job.runCount : Int) := by
      rw [hm, Option.mem_def.mp hmax]
      simpa using hle
    exact hreached hany
  · intro hinterval hcron
    by_contra hran
    rw [if_neg hran, hc, hcron, hi, hinterval] at h
    exact h rfl

-- Calculating the next run of a job, whether it succeeds or raises.
theorem calculateNextRun_governed (hm : job.maxRuns = arguments.maxRuns)
    (hi : job.interval = arguments.interval) (hc : job.cron = arguments.cron)
    (hw : Within arguments job.runCount) (h : job.calculateNextRun host now = some next) :
    Governed arguments next ∧ next.runCount = job.runCount := by
  obtain ⟨due, hdue, rfl⟩ := Option.map_eq_some_iff.mp h
  have hallowed : due.isSome → Allowed arguments job.runCount := by
    intro hd
    have hne : job.dueTime host now ≠ some none := by
      rw [hdue]
      intro he
      rw [Option.some.inj he] at hd
      cases hd
    exact dueTime_allowed hm hi hc hne
  exact ⟨⟨hm, hi, hc, hw, hallowed⟩, rfl⟩

theorem next_governed (h : Governed arguments job) (hallowed : Allowed arguments job.runCount)
    (hn : (job.counted ran).calculateNextRun host now = some next) :
    Governed arguments next ∧ next.runCount = job.runCount + 1 := by
  have hm : (job.counted ran).maxRuns = arguments.maxRuns := h.maxRuns
  have hi : (job.counted ran).interval = arguments.interval := h.interval
  have hc : (job.counted ran).cron = arguments.cron := h.cron
  have hw : Within arguments (job.counted ran).runCount := hallowed.within
  exact calculateNextRun_governed hm hi hc hw hn

theorem calculateNextRun_cancelled (h : (job.counted ran).calculateNextRun host now = some next) :
    next.cancelled = job.cancelled := by
  obtain ⟨due, -, rfl⟩ := Option.map_eq_some_iff.mp h
  rfl

theorem counted_governed (h : Governed arguments job) (hallowed : Allowed arguments job.runCount)
    (hn : (job.counted ran).calculateNextRun host now = none) : Governed arguments (job.counted ran) := by
  have hne : (job.counted ran).dueTime host now ≠ some none := by
    intro he
    rw [ScheduledJob.calculateNextRun, he] at hn
    cases hn
  exact ⟨h.maxRuns, h.interval, h.cron, hallowed.within,
    fun _ => dueTime_allowed h.maxRuns h.interval h.cron hne⟩

theorem init_governed (hrun : arguments.runCount = 0) (hnext : arguments.nextRunTime = none)
    (h : arguments.init host now = some job) : Governed arguments job ∧ job.runCount = 0 := by
  unfold ScheduledJob.init at h
  rw [hnext] at h
  obtain ⟨given, hm, hi, hc, hr, hgiven⟩ : ∃ given : ScheduledJob, given.maxRuns = arguments.maxRuns ∧
      given.interval = arguments.interval ∧ given.cron = arguments.cron ∧ given.runCount = 0 ∧
        given.calculateNextRun host now = some job :=
    ⟨{ arguments with name := _, nextRunTime := none, cancelled := false }, rfl, rfl, rfl, hrun, h⟩
  have hwithin : Within arguments given.runCount := by
    rw [hr]
    exact ⟨fun maxRuns _ => le_max_right _ _, fun _ _ => Nat.zero_le 1⟩
  obtain ⟨hgoverned, hcount⟩ := calculateNextRun_governed hm hi hc hwithin hgiven
  exact ⟨hgoverned, hcount.trans hr⟩

-- What is known of one object at any moment: it is governed by the arguments it was made from, its
-- run count is the number of its finished triggers, and it is about to run only if it may.
structure Limited (arguments : ScheduledJob) (ref : Nat) (s : Scheduler) (job : ScheduledJob) : Prop where
  object : s.objects[ref]? = some job
  governed : Governed arguments job
  count : s.triggered.countP (fun sub => sub.ref = ref) = job.runCount
  waiting : ref ∈ s.pending.map Prod.fst → job.cancelled = false
  flying : ∀ sub ∈ s.inFlight, sub.ref = ref → job.cancelled = false

theorem due?_not_cancelled {found : Nat × Time} (hjob : s.objects[ref]? = some job)
    (h : s.due? now ref = some found) : job.cancelled = false := by
  obtain ⟨other, hother, h⟩ := Option.bind_eq_some_iff.mp h
  obtain rfl := Option.some.inj (hjob.symm.trans hother)
  obtain ⟨due, -, h⟩ := Option.bind_eq_some_iff.mp h
  obtain ⟨_, hguard, -⟩ := Option.bind_eq_some_iff.mp h
  have hboth : due ≤ now ∧ job.cancelled = false := by simpa [guard] using hguard
  exact hboth.2

section Steps

-- A job in flight may have the run that it is having.
theorem Limited.flying_allowed (h : Limited arguments ref s job) (hi : Inv s) {sub : Submission}
    (hf : s.inFlight = some sub) (href : sub.ref = ref) : Allowed arguments job.runCount := by
  obtain ⟨⟨found, hfound, hdue⟩, -⟩ := hi.flight_found sub hf
  rw [href] at hfound
  obtain rfl := Option.some.inj (h.object.symm.trans hfound)
  have hsome := hdue (h.flying sub hf href)
  exact h.governed.allowed (by rw [hsome]; rfl)

theorem runs_eq (s : Scheduler) (ref : Nat) : s.runs ref =
    s.triggered.countP (fun sub => sub.ref = ref) + s.inFlight.toList.countP fun sub => sub.ref = ref :=
  List.countP_append

theorem Limited.runs_within (h : Limited arguments ref s job) (hi : Inv s) :
    Within arguments (s.runs ref) := by
  rw [runs_eq, h.count]
  cases hf : s.inFlight with
  | none => exact h.governed.within
  | some sub =>
      by_cases href : sub.ref = ref
      · simpa [href] using (h.flying_allowed hi hf href).within
      · simpa [href] using h.governed.within

theorem Limited.outside (h : Limited arguments ref s job) (ho : Outside s t)
    (hrest : s.pending = [] ∧ s.inFlight = none) : ∃ job', Limited arguments ref t job' ∧
      (job.cancelled → job'.cancelled ∧ t.runs ref = s.runs ref) := by
  have hruns : t.runs ref = s.runs ref := by rw [runs_eq, runs_eq, ho.triggered, ho.inFlight]
  have hcount : t.triggered.countP (fun sub => sub.ref = ref) = job.runCount := by
    rw [ho.triggered]
    exact h.count
  have hpending : t.pending = [] := ho.pending.trans hrest.1
  have hflight : t.inFlight = none := ho.inFlight.trans hrest.2
  have hwaiting (job' : ScheduledJob) : ref ∈ t.pending.map Prod.fst → job'.cancelled = false := by
    rw [hpending]
    exact fun hm => absurd hm List.not_mem_nil
  have hflying (job' : ScheduledJob) : ∀ sub ∈ t.inFlight, sub.ref = ref → job'.cancelled = false := by
    rw [hflight]
    exact fun _ hm => absurd hm (Option.not_mem_none _)
  obtain ⟨job', hjob', rfl | rfl⟩ := ho.stay ref job h.object
  · exact ⟨job', ⟨hjob', h.governed, hcount, hwaiting _, hflying _⟩, fun hc => ⟨hc, hruns⟩⟩
  · exact ⟨_, ⟨hjob', h.governed.cancel, hcount, hwaiting _, hflying _⟩, fun _ => ⟨rfl, hruns⟩⟩

theorem Limited.collect (h : Limited arguments ref s job) (hc : s.collect now = some t) :
    Limited arguments ref t job ∧ t.runs ref = s.runs ref := by
  obtain ⟨-, hf, rfl⟩ := collect_spec hc
  refine ⟨⟨h.object, h.governed, h.count, fun hm => ?_, by simp [hf]⟩, rfl⟩
  obtain ⟨found, hfound, rfl⟩ := List.mem_map.mp hm
  obtain ⟨other, -, hdue⟩ := List.mem_filterMap.mp hfound
  obtain ⟨rfl, -⟩ := due?_eq_some hdue
  exact due?_not_cancelled h.object hdue

theorem Limited.submit (h : Limited arguments ref s job) {id : JobId} {contextId : Option String}
    {accepted : Bool} (hs : s.submit now id contextId accepted = some t) :
    Limited arguments ref t job ∧ (job.cancelled → t.runs ref = s.runs ref) := by
  obtain ⟨other, due, pending, hf, hp, ⟨rest, hrest, rfl⟩ | ⟨exec, rfl⟩⟩ := submit_spec hs
  · refine ⟨⟨h.object, h.governed, h.count, fun hm => h.waiting ((hrest.map _).subset hm), ?_⟩,
      fun _ => rfl⟩
    simp [hf]
  · have hnew : other = ref → job.cancelled = false := by
      rintro rfl
      exact h.waiting (by simp [hp])
    refine ⟨⟨h.object, h.governed, h.count, fun hm => h.waiting ?_, fun sub hsub href => ?_⟩,
      fun hcancelled => ?_⟩
    · rw [hp]
      exact List.mem_cons_of_mem _ hm
    · obtain rfl := Option.some.inj hsub
      exact hnew href
    · have hother : other ≠ ref := by
        intro he
        rw [hnew he] at hcancelled
        cases hcancelled
      simp [runs_eq, hf, hother]

-- The end of a trigger, with what has become of the object that was triggered.
theorem Limited.finish (h : Limited arguments ref s job) (hi : Inv s) {sub : Submission}
    {ended : ScheduledJob} {totalTriggers : Nat} {rest : List (Nat × Time)} (hf : s.inFlight = some sub)
    (hended : sub.ref = ref → Governed arguments ended ∧ ended.runCount = job.runCount + 1 ∧
      ended.cancelled = job.cancelled) (hrest : rest.Sublist s.pending) :
    ∃ job', Limited arguments ref (s.finish now sub ended totalTriggers rest) job' ∧
      job'.cancelled = job.cancelled ∧ (s.finish now sub ended totalTriggers rest).runs ref = s.runs ref := by
  have hruns : (s.finish now sub ended totalTriggers rest).runs ref = s.runs ref := by
    simp [runs_eq, Scheduler.finish, hf, List.countP_append]
  have hcount : (s.finish now sub ended totalTriggers rest).triggered.countP (fun sub => sub.ref = ref) =
      job.runCount + if sub.ref = ref then 1 else 0 := by
    rw [← h.count, Scheduler.finish, List.countP_append, List.countP_singleton]
    simp
  by_cases href : sub.ref = ref
  · obtain ⟨hgoverned, hrun, hcancelled⟩ := hended href
    have hlength := (List.getElem?_eq_some_iff.mp h.object).1
    refine ⟨ended, ⟨?_, hgoverned, ?_, fun hm => ?_, by simp [Scheduler.finish]⟩, hcancelled, hruns⟩
    · rw [Scheduler.finish, href]
      exact List.getElem?_set_self hlength
    · rw [hcount, if_pos href, hrun]
    · exact absurd ((hrest.map Prod.fst).subset hm) (href ▸ hi.flight_new sub hf)
  · refine ⟨job, ⟨?_, h.governed, ?_, fun hm => h.waiting ((hrest.map _).subset hm),
      by simp [Scheduler.finish]⟩, rfl, hruns⟩
    · exact (List.getElem?_set_ne href).trans h.object
    · rw [hcount, if_neg href, Nat.add_zero]

theorem Limited.reschedule (h : Limited arguments ref s job) (hi : Inv s)
    (hs : s.reschedule host ran now = some t) : ∃ job', Limited arguments ref t job' ∧
      job'.cancelled = job.cancelled ∧ t.runs ref = s.runs ref := by
  obtain ⟨sub, old, hf, hold, hend⟩ := reschedule_spec hs
  have hsame (href : sub.ref = ref) : old = job := by
    rw [href] at hold
    exact Option.some.inj (hold.symm.trans h.object)
  rcases hend with ⟨next, hn, rfl⟩ | ⟨hn, rfl⟩
  · refine h.finish hi hf (fun href => ?_) (List.Sublist.refl _)
    obtain rfl := hsame href
    obtain ⟨hgoverned, hrun⟩ := next_governed h.governed (h.flying_allowed hi hf href) hn
    exact ⟨hgoverned, hrun, calculateNextRun_cancelled hn⟩
  · refine h.finish hi hf (fun href => ?_) (List.nil_sublist _)
    obtain rfl := hsame href
    exact ⟨counted_governed h.governed (h.flying_allowed hi hf href) hn, rfl, rfl⟩

-- One action: the object stays limited, and once it is cancelled it is not submitted any more.
theorem step_limited {act : Action} (hi : Inv s) (h : Limited arguments ref s job)
    (hact : BetweenTicks s act) (hs : step host s act = some t) : ∃ job', Limited arguments ref t job' ∧
      (job.cancelled → job'.cancelled ∧ t.runs ref = s.runs ref) := by
  by_cases hothers : act.OfOthers
  · exact h.outside (step_outside hothers hi hs) (hact hothers)
  · cases act with
    | collect now =>
        obtain ⟨-, hs⟩ := Option.ite_none_right_eq_some.mp hs
        obtain ⟨hl, hruns⟩ := h.collect hs
        exact ⟨job, hl, fun hc => ⟨hc, hruns⟩⟩
    | submit now id contextId accepted =>
        obtain ⟨-, hs⟩ := Option.ite_none_right_eq_some.mp hs
        obtain ⟨hl, hruns⟩ := h.submit hs
        exact ⟨job, hl, fun hc => ⟨hc, hruns hc⟩⟩
    | reschedule ran now =>
        obtain ⟨-, hs⟩ := Option.ite_none_right_eq_some.mp hs
        obtain ⟨job', hl, hcancelled, hruns⟩ := h.reschedule hi hs
        exact ⟨job', hl, fun hc => ⟨hcancelled.trans hc, hruns⟩⟩
    | _ => exact absurd trivial hothers

end Steps

theorem schedule_limited (hi : Inv s) (hrun : arguments.runCount = 0) (hnext : arguments.nextRunTime = none)
    (h : s.scheduleJob host now arguments = some t) :
    ∃ job, Limited arguments s.objects.length t job := by
  obtain ⟨job, hjob, rfl⟩ := Option.map_eq_some_iff.mp h
  obtain ⟨hgoverned, hcount⟩ := init_governed hrun hnext hjob
  have hnew (other : Nat) (due : Time) (hfound : s.Found other due) : other ≠ s.objects.length := by
    obtain ⟨old, hold, -⟩ := hfound
    have hlt := (List.getElem?_eq_some_iff.mp hold).1
    omega
  refine ⟨job, by simp, hgoverned, ?_, fun hm => ?_, fun sub hf href => ?_⟩
  · rw [hcount, List.countP_eq_zero]
    intro sub hsub
    have hlt := (hi.past sub hsub).2
    simp only [decide_eq_true_eq]
    omega
  · obtain ⟨found, hfound, hlength⟩ := List.mem_map.mp hm
    exact absurd hlength (hnew _ _ (hi.pending_found found hfound).1)
  · exact absurd href (hnew _ _ (hi.flight_found sub hf).1)

theorem run_limited {acts : List Action} (hr : Run (step host) s acts t) (hi : Inv s)
    (h : Limited arguments ref s job) (hacts : Meets (step host) BetweenTicks s acts) :
    ∃ job', Limited arguments ref t job' ∧ (job.cancelled → job'.cancelled ∧ t.runs ref = s.runs ref) := by
  induction hr generalizing job with
  | nil _ => exact ⟨job, h, fun hc => ⟨hc, rfl⟩⟩
  | cons hs _ ih =>
      obtain ⟨hact, hrest⟩ := hacts _ hs
      obtain ⟨job', hl, hstep⟩ := step_limited hi h hact hs
      obtain ⟨last, hlast, hlater⟩ := ih (step_inv hi hs) hl hrest
      refine ⟨last, hlast, fun hc => ?_⟩
      obtain ⟨hc', hruns⟩ := hstep hc
      obtain ⟨hc'', hruns'⟩ := hlater hc'
      exact ⟨hc'', hruns'.trans hruns⟩

theorem run_inv {acts : List Action} (hr : Run (step host) s acts t) (hi : Inv s) : Inv t := by
  have hmeets : Meets (step host) (fun _ _ => True) s acts := .of_forall fun _ _ _ => trivial
  exact hr.invariant Inv (fun _ _ _ hi _ h => step_inv hi h) hmeets hi

-- A job object that was scheduled in any run is submitted as often as its run count says, never more
-- often than its limit allows, only once if it is not repeated, and never after it was cancelled.
theorem run_limits_hold {engine : Bool} {clock : Time} {before after later : List Action}
    {u v w : Scheduler} (hbefore : Run (step host) (.blank engine clock) before s)
    (hschedule : step host s (.schedule now arguments) = some u) (hafter : Run (step host) u after v)
    (hlater : Run (step host) v later w)
    (hrun : arguments.runCount = 0) (hnext : arguments.nextRunTime = none)
    (hacts : Meets (step host) BetweenTicks u (after ++ later)) :
    ∃ job, v.objects[s.objects.length]? = some job ∧
      (v.inFlight = none → v.runs s.objects.length = job.runCount) ∧
      (∀ maxRuns ∈ arguments.maxRuns, (v.runs s.objects.length : Int) ≤ max maxRuns 0) ∧
      (arguments.interval = none → arguments.cron = none → v.runs s.objects.length ≤ 1) ∧
      (job.cancelled → w.runs s.objects.length = v.runs s.objects.length) := by
  have hi := run_inv hbefore (blank_orderly engine clock).inv
  obtain ⟨hclock, hjob⟩ := Option.ite_none_right_eq_some.mp hschedule
  obtain ⟨made, hmade⟩ := schedule_limited hi hrun hnext hjob
  have hiu := step_inv hi hschedule
  obtain ⟨hfirst, hsecond⟩ := (Meets.append hafter).mp hacts
  obtain ⟨job, hl, -⟩ := run_limited hafter hiu hmade hfirst
  have hiv := run_inv hafter hiu
  obtain ⟨last, -, hcancelled⟩ := run_limited hlater hiv hl hsecond
  have hwithin := hl.runs_within hiv
  refine ⟨job, hl.object, fun hf => ?_, hwithin.1, hwithin.2, fun hc => (hcancelled hc).2⟩
  rw [runs_eq, hl.count, hf]
  rfl

section Sample

-- A job that may run twice, ten seconds apart
def twice : ScheduledJob :=
  { yearly with id := "twice", name := "twice", cron := none, interval := some 10, maxRuns := some 2 }

def firstTick : List Action := [.collect 10, .submit 10 "job-1" none true, .reschedule 10 10]

def Scheduler.atRest (s : Scheduler) : Bool := s.pending.isEmpty && s.inFlight.isNone

def Scheduler.isCancelled (s : Scheduler) (ref : Nat) : Bool := s.objects[ref]?.any fun job => job.cancelled

-- It is cancelled after its first run and not submitted again.
theorem run_limits_hold_twice : ∃ v w,
    Run (step utc) (.blank true 0) (.schedule 0 twice :: (firstTick ++ [.cancel 0])) v ∧
    Run (step utc) v [.collect 20] w ∧ (v.runs 0 : Int) ≤ 2 ∧ w.runs 0 = v.runs 0 := by
  obtain ⟨r, hr, hrest⟩ : ∃ r, Run (step utc) (.blank true 0) (.schedule 0 twice :: firstTick) r ∧
      r.atRest := Run.of_any (by decide +kernel)
  obtain ⟨v, hv, hcancelled⟩ : ∃ v,
      Run (step utc) (.blank true 0) (.schedule 0 twice :: (firstTick ++ [.cancel 0])) v ∧
        v.isCancelled 0 := Run.of_any (by decide +kernel)
  obtain ⟨w, hw, -⟩ : ∃ w, Run (step utc) (.blank true 0)
      (.schedule 0 twice :: (firstTick ++ [.cancel 0]) ++ [.collect 20]) w ∧ w.atRest :=
    Run.of_any (by decide +kernel)
  obtain ⟨v', hv', hw⟩ := hw.split
  obtain rfl := hv'.unique hv
  have hwhole := hv
  cases hv with
  | cons hu hafter =>
      cases hr with
      | @cons _ u _ _ _ hu' hr =>
          obtain rfl := Option.some.inj (hu'.symm.trans hu)
          obtain ⟨hpending, hflight⟩ := Bool.and_eq_true_iff.mp hrest
          have hpieces : ∀ act ∈ firstTick ++ [.collect 20], ¬act.OfOthers := by
            simp [firstTick, Action.OfOthers]
          have hcalls : Meets (step utc) BetweenTicks u (firstTick ++ [.cancel 0, .collect 20]) := by
            refine (Meets.append hr).mpr
              ⟨.of_forall fun act hm s hothers => ?_, fun t _ => ⟨fun _ => ?_, ?_⟩⟩
            · exact absurd hothers (hpieces act (List.mem_append_left _ hm))
            · exact ⟨List.isEmpty_iff.mp hpending, Option.isNone_iff_eq_none.mp hflight⟩
            · exact .of_forall fun act hm s hothers =>
                absurd hothers (hpieces act (List.mem_append_right _ hm))
          obtain ⟨job, hjob, -, hlimit, -, hstays⟩ := run_limits_hold (.nil _) hu hafter hw rfl rfl
            (by simpa using hcalls)
          have hcancelled : job.cancelled := by
            rw [Scheduler.isCancelled] at hcancelled
            obtain ⟨found, hfound, hc⟩ := (Option.any_eq_true _ _).mp hcancelled
            obtain rfl := Option.some.inj (hfound.symm.trans hjob)
            exact hc
          exact ⟨_, w, hwhole, hw, hlimit 2 rfl, hstays hcancelled⟩

end Sample

end YasinCore.Scheduling
