import YasinCore.Library.Transition
import YasinCore.Scheduling.Persistence.Lemmas
import Mathlib.Data.Set.Defs

namespace YasinCore.Scheduling

open YasinCore.Library YasinCore.Execution

variable {host : Host} {s t : Service} {call : Call} {id : JobId}

namespace Service

-- The calls that end a job themselves: it is replaced, unscheduled, or has had its last run.
def Ends (host : Host) (s : Service) : Call → JobId → Prop
  | .scheduleJob now arguments, id =>
      id = arguments.id ∧ (arguments.requested.init host now).isSome
  | .unscheduleJob other, id => id = other ∧ other ∈ s.scheduler.jobs
  | .reschedule ran now, id => s.scheduler.LastRun host ran now id
  | _, _ => False

-- The calls that write the entry anew from the jobs in memory, all under the lock.
def Rewrites (host : Host) (s : Service) : Call → Prop
  | .scheduleJob now arguments => (arguments.requested.init host now).isSome
  | .unscheduleJob id => id ∈ s.scheduler.jobs
  | .clearJobs => True
  | _ => False

-- The calls that read the entry.
def loads (s : Service) : Call → Bool
  | .initializeService _ => !s.running
  | .reload _ => true
  | _ => false

-- The job under an id has a target that can be serialized.
def Storable (s : Service) (id : JobId) : Prop :=
  ∀ job ∈ s.scheduler.job? id, (serializeTarget s.interpreter job.target).isSome

def saved (s : Service) : Dict JobId StoredJob := s.scheduler.saved s.interpreter

end Service

def Call.Restarts : Call → Prop
  | .restart _ _ => True
  | _ => False

-- A service, the stored jobs that earlier processes left it and that nothing has ended since,
-- whether this process has read the entry, and what was secure when a tick last gathered.
structure Watch where
  service : Service
  watched : Set JobId
  loaded : Bool
  secured : Set JobId

namespace Watch

def boot (s : Service) : Watch where
  service := s
  watched := {id | id ∈ s.entry}
  loaded := false
  secured := ∅

-- The jobs that a save does not lose: the process has read the entry, and the job can be serialized.
def secure (w : Watch) : Set JobId := {id | w.loaded ∧ w.service.Storable id}

-- What is known after a call in the same process.
def after (host : Host) (w : Watch) (call : Call) (t : Service) : Watch where
  service := t
  watched := {id | id ∈ w.watched ∧ ¬w.service.Ends host call id}
  loaded := w.loaded || w.service.loads call
  secured := match call with
    | .gather => w.secure
    | _ => w.secured

def step (host : Host) (w : Watch) (call : Call) : Option Watch :=
  (w.service.step host call).map fun t =>
    match call with
    | .restart _ _ => boot t
    | call => w.after host call t

-- The jobs that earlier processes left are stored, each with a time for its next run.
def Kept (w : Watch) : Prop :=
  ∀ id ∈ w.watched, ∃ data, w.service.entry.get? id = some data ∧ data.nextRunTime.isSome

-- The condition on a call: what is written is made of jobs in memory at a time at which all of the
-- jobs that it does not end are secure.
def Prepared (host : Host) (w : Watch) : Call → Prop
  | .write => ∀ id ∈ w.watched, id ∈ w.secured
  | call => w.service.Rewrites host call → ∀ id ∈ w.watched, ¬w.service.Ends host call id →
      id ∈ w.secure

-- What holds in every state, as long as the jobs were kept up to it.
structure Sound (w : Watch) : Prop where
  keyed : w.service.scheduler.Keyed
  entry : WellStored w.service.entry
  gathered : ∀ schedule, w.service.saving = .gathered schedule → WellStored schedule
  unread : w.loaded = false → ∀ id ∈ w.watched, id ∉ w.service.scheduler.jobs
  read : w.loaded → ∀ id ∈ w.watched, id ∈ w.service.entry → (w.service.scheduler.live? id).isSome
  flight : ∀ schedule, w.service.saving = .gathered schedule → ∀ id ∈ w.watched, id ∈ schedule →
    (w.service.scheduler.live? id).isSome
  secured : ∀ schedule, w.service.saving = .gathered schedule → ∀ id ∈ w.watched,
    (id ∈ schedule ↔ id ∈ w.secured)

end Watch

-- What a call does to the job under an id that it does not end.
structure Spares (s t : Service) (call : Call) (id : JobId) : Prop where
  live : (s.scheduler.live? id).isSome → (t.scheduler.live? id).isSome
  mem : s.loads call = false → id ∈ t.scheduler.jobs → id ∈ s.scheduler.jobs
  read : s.loads call → id ∈ s.entry → (t.scheduler.live? id).isSome

theorem Spares.of_live? (hread : s.loads call = false)
    (hlive : t.scheduler.live? id = s.scheduler.live? id)
    (hmem : id ∈ t.scheduler.jobs → id ∈ s.scheduler.jobs) : Spares s t call id where
  live := by
    rw [hlive]
    exact fun h => h
  mem := fun _ => hmem
  read := fun h => absurd h (by simp [hread])

theorem Spares.of_same (hread : s.loads call = false)
    (hobjects : t.scheduler.objects = s.scheduler.objects)
    (hjobs : t.scheduler.jobs = s.scheduler.jobs) : Spares s t call id := by
  refine .of_live? hread (live?_congr hobjects hjobs id) ?_
  rw [hjobs]
  exact fun h => h

-- What a call does to the entry and to what a tick has gathered.
inductive Outcome (host : Host) (s t : Service) : Call → Prop
  | rewrite {call : Call} : s.Rewrites host call → t.interpreter = s.interpreter →
      (∀ id, ¬s.Ends host call id → t.scheduler.live? id = s.scheduler.live? id) →
      t.entry = t.saved → t.saving = s.saving → call ≠ .write → call ≠ .gather → Outcome host s t call
  | rest {call : Call} : ¬s.Rewrites host call → t.entry = s.entry →
      (∀ schedule, t.saving = .gathered schedule → s.saving = .gathered schedule) →
      call ≠ .write → call ≠ .gather → Outcome host s t call
  | gather : t.entry = s.entry → t.saving = .gathered s.saved → t.saved = s.saved → Outcome host s t .gather
  | write : s.saving = .gathered t.entry → t.saving = .idle → Outcome host s t .write

-- What any call does but the one that ends the process.
structure Acts (host : Host) (s t : Service) (call : Call) : Prop where
  keyed : t.scheduler.Keyed
  spares : ∀ id, ¬s.Ends host call id → Spares s t call id
  outcome : Outcome host s t call

section Calls

variable {now ran : Time}

theorem scheduleJob_acts (hs : s.scheduler.Keyed) (arguments : ScheduledJob) :
    Acts host s (s.scheduleJob host now arguments) (.scheduleJob now arguments) := by
  unfold Service.scheduleJob
  cases h : s.scheduler.scheduleJob host now arguments.requested with
  | some u =>
      obtain ⟨job, hjob, -⟩ := Option.map_eq_some_iff.mp h
      have hinit : (arguments.requested.init host now).isSome := by
        rw [hjob]
        rfl
      have hne : ∀ id, ¬s.Ends host (.scheduleJob now arguments) id → id ≠ arguments.requested.id :=
        fun id hends he => hends ⟨he, hinit⟩
      have hlive : ∀ id, ¬s.Ends host (.scheduleJob now arguments) id →
          u.live? id = s.scheduler.live? id :=
        fun id hends => congrArg (Option.filter _) (scheduleJob_job? hs h (hne id hends))
      exact {
        keyed := scheduleJob_keyed hs h
        spares := fun id hends => .of_live? rfl (hlive id hends) (scheduleJob_mem h (hne id hends))
        outcome := .rewrite hinit rfl hlive rfl rfl nofun nofun }
  | none =>
      have hinit : ¬(arguments.requested.init host now).isSome := by
        rw [Option.map_eq_none_iff.mp h]
        simp
      exact {
        keyed := hs
        spares := fun _ _ => .of_same rfl rfl rfl
        outcome := .rest hinit rfl (fun _ h => h) nofun nofun }

theorem unscheduleJob_acts (hs : s.scheduler.Keyed) (other : JobId) :
    Acts host s (s.unscheduleJob other) (.unscheduleJob other) := by
  unfold Service.unscheduleJob
  split
  · rename_i hother
    have hlive : ∀ id, ¬s.Ends host (.unscheduleJob other) id →
        (s.scheduler.unscheduleJob other).live? id = s.scheduler.live? id := by
      intro id hends
      have hne : id ≠ other := fun he => hends ⟨he, hother⟩
      exact congrArg (Option.filter _) (unscheduleJob_job? hs hne)
    exact {
      keyed := unscheduleJob_keyed hs
      spares := fun id hends => .of_live? rfl (hlive id hends) unscheduleJob_mem
      outcome := .rewrite hother rfl hlive rfl rfl nofun nofun }
  · rename_i hother
    exact {
      keyed := hs
      spares := fun _ _ => .of_same rfl rfl rfl
      outcome := .rest hother rfl (fun _ h => h) nofun nofun }

theorem clearJobs_acts (hs : s.scheduler.Keyed) : Acts host s s.clearJobs .clearJobs where
  keyed := clearJobs_keyed hs
  spares := fun id _ => .of_live? rfl (clearJobs_live? _ id) clearJobs_mem
  outcome := .rewrite trivial rfl (fun id _ => clearJobs_live? _ id) rfl rfl nofun nofun

theorem load_spares (hs : s.scheduler.Keyed) (he : WellStored s.entry) (hread : s.loads call) :
    Spares s (s.load host now) call id := by
  have hdue : ∀ data ∈ s.entry.values, data.nextRunTime.isSome := by
    intro data hm
    obtain ⟨key, hkey⟩ := (Dict.mem_values_iff _ _).mp hm
    exact he.due key data hkey
  refine ⟨fun hlive => load_live? hs hdue (.inl hlive), fun hno => ?_, fun _ hm => ?_⟩
  · rw [hread] at hno
    cases hno
  · obtain ⟨data, hdata⟩ := (Dict.mem_iff _ _).mp hm
    have hstored : data ∈ s.entry.values := (Dict.mem_values_iff _ _).mpr ⟨id, hdata⟩
    exact load_live? hs hdue (.inr ⟨data, hstored, he.keyed id data hdata⟩)

theorem initializeService_acts (hs : s.scheduler.Keyed) (he : WellStored s.entry) :
    Acts host s (s.initializeService host now) (.initializeService now) := by
  unfold Service.initializeService
  cases hrunning : s.running with
  | true =>
      have hread : s.loads (.initializeService now) = false := by
        rw [Service.loads, hrunning]
        rfl
      exact {
        keyed := hs
        spares := fun _ _ => .of_same hread rfl rfl
        outcome := .rest (fun h => h) rfl (fun _ h => h) nofun nofun }
  | false =>
      have hread : s.loads (.initializeService now) := by
        rw [Service.loads, hrunning]
        rfl
      refine ⟨load_keyed hs _, fun id _ => ?_, .rest (fun h => h) rfl (fun _ h => h) nofun nofun⟩
      obtain ⟨hlive, hmem, hentry⟩ : Spares s (s.load host now) _ id := load_spares hs he hread
      exact ⟨hlive, hmem, hentry⟩

theorem reschedule_acts (hs : s.scheduler.Keyed) (h : s.reschedule host ran now = some t) :
    Acts host s t (.reschedule ran now) := by
  obtain ⟨u, hu, rfl⟩ := Option.map_eq_some_iff.mp h
  refine ⟨reschedule_keyed hs hu, fun id hends => ⟨fun hlive => ?_, fun _ => ?_, nofun⟩,
    .rest (fun h => h) rfl (fun schedule hsaving => ?_) nofun nofun⟩
  · obtain ⟨job, hjob⟩ := Option.isSome_iff_exists.mp hlive
    exact reschedule_live? hu hjob hends
  · rw [reschedule_jobs hu]
    exact fun hm => hm
  · simp only at hsaving
    split at hsaving
    · cases hsaving
    · cases hsaving

-- The pieces of a tick before the submission leave the jobs alone.
theorem Acts.of_same {u : Scheduler} (hs : s.scheduler.Keyed) (hread : s.loads call = false)
    (hrewrites : ¬s.Rewrites host call) (hwrite : call ≠ .write) (hgather : call ≠ .gather)
    (h : u.objects = s.scheduler.objects ∧ u.jobs = s.scheduler.jobs) :
    Acts host s { s with scheduler := u } call where
  keyed := hs.congr h.1 h.2
  spares := fun _ _ => .of_same hread h.1 h.2
  outcome := .rest hrewrites rfl (fun _ h => h) hwrite hgather

theorem step_acts (hs : s.scheduler.Keyed) (he : WellStored s.entry)
    (h : s.step host call = some t) (hr : ¬call.Restarts) : Acts host s t call := by
  cases call with
  | scheduleJob now arguments => exact Option.some.inj h ▸ scheduleJob_acts hs arguments
  | unscheduleJob other => exact Option.some.inj h ▸ unscheduleJob_acts hs other
  | clearJobs => exact Option.some.inj h ▸ clearJobs_acts hs
  | initializeService now => exact Option.some.inj h ▸ initializeService_acts hs he
  | reload now =>
      obtain rfl := Option.some.inj h
      exact {
        keyed := load_keyed hs _
        spares := fun _ _ => load_spares hs he rfl
        outcome := .rest (fun h => h) rfl (fun _ h => h) nofun nofun }
  | shutdown =>
      obtain rfl := Option.some.inj h
      exact {
        keyed := hs
        spares := fun _ _ => .of_same rfl rfl rfl
        outcome := .rest (fun h => h) rfl (fun _ h => h) nofun nofun }
  | collect now =>
      simp only [Service.step] at h
      split at h
      · obtain ⟨u, hu, rfl⟩ := Option.map_eq_some_iff.mp h
        exact .of_same hs rfl (fun h => h) nofun nofun (collect_same hu)
      · cases h
  | submit now other contextId accepted =>
      simp only [Service.step] at h
      split at h
      · obtain ⟨u, hu, rfl⟩ := Option.map_eq_some_iff.mp h
        exact .of_same hs rfl (fun h => h) nofun nofun (submit_same hu)
      · cases h
  | reschedule ran now => exact reschedule_acts hs h
  | gather =>
      simp only [Service.step] at h
      split at h
      · obtain rfl := Option.some.inj h
        exact ⟨hs, fun _ _ => .of_same rfl rfl rfl, .gather rfl rfl rfl⟩
      · cases h
  | write =>
      simp only [Service.step] at h
      split at h
      · rename_i schedule hsaving
        obtain rfl := Option.some.inj h
        exact ⟨hs, fun _ _ => .of_same rfl rfl rfl, .write hsaving rfl⟩
      · cases h
  | restart py engine => exact absurd trivial hr

end Calls

theorem live?_of_mem_saved (h : id ∈ s.saved) : (s.scheduler.live? id).isSome := by
  obtain ⟨data, hdata⟩ := (Dict.mem_iff _ _).mp h
  rw [Service.saved, get?_saved] at hdata
  obtain ⟨job, hjob, -⟩ := Option.bind_eq_some_iff.mp hdata
  rw [hjob]
  rfl

-- A live job is saved exactly when it can be serialized.
theorem mem_saved_iff (hpy : t.interpreter = s.interpreter)
    (hlive : t.scheduler.live? id = s.scheduler.live? id) (h : (s.scheduler.live? id).isSome) :
    id ∈ t.saved ↔ s.Storable id := by
  obtain ⟨job, hjob⟩ := Option.isSome_iff_exists.mp h
  rw [Dict.mem_iff, Service.saved, get?_saved, hlive, hjob, hpy, Service.Storable, job?_eq_some hjob]
  simp only [Option.bind_some, ScheduledJob.toDict, Option.mem_def, Option.some.injEq, forall_eq']
  rw [← Option.isSome_iff_exists, Option.isSome_map]

-- What is stored after a call was stored before it, comes from the jobs in memory, or was gathered.
theorem Acts.entry (h : Acts host s t call) :
    t.entry = s.entry ∨ t.entry = t.saved ∨ s.saving = .gathered t.entry := by
  cases h.outcome with
  | rewrite _ _ _ he => exact .inr (.inl he)
  | rest _ he => exact .inl he
  | gather he => exact .inl he
  | write he => exact .inr (.inr he)

theorem Acts.gathered (h : Acts host s t call) {schedule : Dict JobId StoredJob}
    (hs : t.saving = .gathered schedule) :
    (s.saving = .gathered schedule ∧ call ≠ .gather) ∨
      (schedule = s.saved ∧ t.saved = s.saved ∧ call = .gather) := by
  cases h.outcome with
  | rewrite _ _ _ _ hsame _ hne => exact .inl ⟨hsame ▸ hs, hne⟩
  | rest _ _ hsame _ hne => exact .inl ⟨hsame schedule hs, hne⟩
  | gather _ hgathered hsaved =>
      rw [hgathered] at hs
      exact .inr ⟨(Saving.gathered.inj hs).symm, hsaved, rfl⟩
  | write _ hidle =>
      rw [hidle] at hs
      cases hs

namespace Watch

variable {w v : Watch}

theorem step_eq (h : w.step host call = some v) (hr : ¬call.Restarts) :
    ∃ t, w.service.step host call = some t ∧ v = w.after host call t := by
  obtain ⟨t, ht, rfl⟩ := Option.map_eq_some_iff.mp h
  refine ⟨t, ht, ?_⟩
  cases call with
  | restart py engine => exact absurd trivial hr
  | _ => rfl

theorem step_restart (h : w.step host call = some v) (hr : call.Restarts) :
    ∃ py engine clock, v = boot (.boot py engine clock w.service.entry) := by
  cases call with
  | restart py engine => exact ⟨py, engine, w.service.scheduler.clock, (Option.some.inj h).symm⟩
  | _ => exact hr.elim

theorem kept_iff (he : WellStored w.service.entry) : w.Kept ↔ ∀ id ∈ w.watched, id ∈ w.service.entry := by
  constructor
  · intro hk id hm
    obtain ⟨data, hdata, -⟩ := hk id hm
    exact (Dict.mem_iff _ _).mpr ⟨data, hdata⟩
  · intro hstored id hm
    obtain ⟨data, hdata⟩ := (Dict.mem_iff _ _).mp (hstored id hm)
    exact ⟨data, hdata, he.due id data hdata⟩

-- A job that is stored and watched is saved next exactly when it is secure.
theorem mem_saved_iff_secure (hw : w.Sound) (hm : id ∈ w.watched) (he : id ∈ w.service.entry)
    (hpy : t.interpreter = w.service.interpreter)
    (hlive : t.scheduler.live? id = w.service.scheduler.live? id) : id ∈ t.saved ↔ id ∈ w.secure := by
  cases hloaded : w.loaded with
  | false =>
      have hnone : w.service.scheduler.live? id = none := live?_eq_none (hw.unread hloaded id hm)
      refine iff_of_false (fun hc => ?_) fun hc => ?_
      · have hsome := live?_of_mem_saved hc
        rw [hlive, hnone] at hsome
        cases hsome
      · rw [secure, Set.mem_ofPred_eq, hloaded] at hc
        cases hc.1
  | true =>
      rw [mem_saved_iff hpy hlive (hw.read hloaded id hm he), secure, Set.mem_ofPred_eq, hloaded]
      simp

theorem boot_sound (py : Interpreter) (engine : Bool) (clock : Time) {entry : Dict JobId StoredJob}
    (he : WellStored entry) : Sound (boot (.boot py engine clock entry)) where
  keyed := blank_keyed engine clock
  entry := he
  gathered := nofun
  unread := fun _ _ _ hm => by simp [Service.boot, boot, Scheduler.blank, Dict.mem_iff] at hm
  read := nofun
  flight := nofun
  secured := nofun

theorem boot_kept (py : Interpreter) (engine : Bool) (clock : Time) {entry : Dict JobId StoredJob}
    (he : WellStored entry) : Kept (boot (.boot py engine clock entry)) :=
  (kept_iff (boot_sound py engine clock he).entry).mpr fun _ hm => hm

theorem after_sound (hw : w.Sound) (hk : w.Kept) (h : Acts host w.service t call) :
    (w.after host call t).Sound where
  keyed := h.keyed
  entry := by
    show WellStored t.entry
    rcases h.entry with he | he | he
    · rw [he]
      exact hw.entry
    · rw [he]
      exact saved_wellStored h.keyed _
    · exact hw.gathered _ he
  gathered := by
    intro schedule hsaving
    rcases h.gathered hsaving with ⟨hbefore, -⟩ | ⟨rfl, -, -⟩
    · exact hw.gathered schedule hbefore
    · exact saved_wellStored hw.keyed _
  unread := by
    rintro hloaded id ⟨hm, hends⟩ hjobs
    obtain ⟨hbefore, hread⟩ := Bool.or_eq_false_iff.mp hloaded
    exact hw.unread hbefore id hm ((h.spares id hends).mem hread hjobs)
  read := by
    rintro hloaded id ⟨hm, hends⟩ hentry
    have hspares := h.spares id hends
    rcases h.entry with he | he | he
    · have hstored : id ∈ w.service.entry := he ▸ hentry
      rcases (Bool.or_eq_true _ _).mp hloaded with hbefore | hread
      · exact hspares.live (hw.read hbefore id hm hstored)
      · exact hspares.read hread hstored
    · exact live?_of_mem_saved (he ▸ hentry)
    · exact hspares.live (hw.flight _ he id hm hentry)
  flight := by
    rintro schedule hsaving id ⟨hm, hends⟩ hschedule
    rcases h.gathered hsaving with ⟨hbefore, -⟩ | ⟨rfl, hsaved, -⟩
    · exact (h.spares id hends).live (hw.flight schedule hbefore id hm hschedule)
    · exact live?_of_mem_saved (hsaved ▸ hschedule)
  secured := by
    rintro schedule hsaving id ⟨hm, hends⟩
    rcases h.gathered hsaving with ⟨hbefore, hne⟩ | ⟨rfl, -, rfl⟩
    · rw [hw.secured schedule hbefore id hm]
      cases call with
      | gather => exact absurd rfl hne
      | _ => rfl
    · exact mem_saved_iff_secure hw hm ((kept_iff hw.entry).mp hk id hm) rfl rfl

theorem step_sound (hw : w.Sound) (hk : w.Kept) (h : w.step host call = some v) : v.Sound := by
  by_cases hr : call.Restarts
  · obtain ⟨py, engine, clock, rfl⟩ := step_restart h hr
    exact boot_sound py engine clock hw.entry
  · obtain ⟨t, ht, rfl⟩ := step_eq h hr
    exact after_sound hw hk (step_acts hw.keyed hw.entry ht hr)

theorem prepared_iff (hne : call ≠ .write) : w.Prepared host call ↔ (w.service.Rewrites host call →
    ∀ id ∈ w.watched, ¬w.service.Ends host call id → id ∈ w.secure) := by
  cases call with
  | write => exact absurd rfl hne
  | _ => rfl

-- One call: the jobs stay stored exactly when it is prepared for.
theorem step_kept_iff (hw : w.Sound) (hk : w.Kept) (h : w.step host call = some v) :
    v.Kept ↔ w.Prepared host call := by
  have hstored := (kept_iff hw.entry).mp hk
  have hv : v.Kept ↔ ∀ id ∈ v.watched, id ∈ v.service.entry := kept_iff (step_sound hw hk h).entry
  by_cases hr : call.Restarts
  · obtain ⟨py, engine, clock, rfl⟩ := step_restart h hr
    cases call with
    | restart py engine => exact iff_of_true (boot_kept _ _ _ hw.entry) fun hc => hc.elim
    | _ => exact hr.elim
  · obtain ⟨t, ht, rfl⟩ := step_eq h hr
    rw [hv]
    cases (step_acts hw.keyed hw.entry ht hr).outcome with
    | rewrite hrewrites hpy hlive he _ hwrite _ =>
        have hsaved : ∀ id ∈ w.watched, ¬w.service.Ends host call id →
            (id ∈ t.entry ↔ id ∈ w.secure) := by
          intro id hm hends
          rw [he]
          exact mem_saved_iff_secure hw hm (hstored id hm) hpy (hlive id hends)
        rw [prepared_iff hwrite]
        constructor
        · exact fun hall _ id hm hends => (hsaved id hm hends).mp (hall id ⟨hm, hends⟩)
        · exact fun hp id hm => (hsaved id hm.1 hm.2).mpr (hp hrewrites id hm.1 hm.2)
    | rest hrewrites he _ hwrite _ =>
        rw [prepared_iff hwrite]
        exact iff_of_true (fun id hm => he ▸ hstored id hm.1) fun hc => absurd hc hrewrites
    | gather he =>
        exact iff_of_true (fun id hm => he ▸ hstored id hm.1) fun hc => hc.elim
    | write hsaving =>
        have hiff : ∀ id ∈ w.watched, (id ∈ t.entry ↔ id ∈ w.secured) := hw.secured _ hsaving
        constructor
        · exact fun hall id hm => (hiff id hm).mp (hall id ⟨hm, fun hc => hc⟩)
        · exact fun hp id hm => (hiff id hm.1).mpr (hp id hm.1)

end Watch

-- A schedule that an earlier process left.
structure Schedule where
  jobs : Dict JobId StoredJob
  stored : WellStored jobs

-- The start of a process on such a schedule.
def Schedule.boot (schedule : Schedule) (py : Interpreter) (engine : Bool) (clock : Time) : Watch :=
  .boot (.boot py engine clock schedule.jobs)

-- In every order of calls, the jobs that earlier processes left stay stored until something ends
-- them exactly when every save is prepared for.
theorem stored_jobs_stay_iff (host : Host) (py : Interpreter) (engine : Bool) (clock : Time)
    (schedule : Schedule) (calls : List Call) :
    Always (Watch.step host) Watch.Kept (schedule.boot py engine clock) calls ↔
      Meets (Watch.step host) (Watch.Prepared host) (schedule.boot py engine clock) calls := by
  have hsound : Watch.Sound (schedule.boot py engine clock) :=
    Watch.boot_sound py engine clock schedule.stored
  have hkept : Watch.Kept (schedule.boot py engine clock) :=
    Watch.boot_kept py engine clock schedule.stored
  refine always_iff_meets_of_kept (fun w call v hw hk h => ?_) (fun w call v hw hk h => ?_)
    hsound hkept
  · exact Watch.step_sound hw hk h
  · exact Watch.step_kept_iff hw hk h

section Sample

def tasks : Interpreter where
  isCallable name := name ≠ "None"
  moduleOf _ := some "tasks"
  nameOf name := some name
  importAttr _ name := some (.callable name)
  noneObject := "None"
  none_not_callable := rfl

def everyMinute (id : JobId) : ScheduledJob where
  id := id
  name := id
  target := .str id
  kwargs := .empty
  priority := 20
  retries := 0
  timeout := none
  interval := some 60
  delay := none
  cron := none
  maxRuns := none
  runCount := 0
  lastRunTime := none
  nextRunTime := none
  cancelled := false

def Schedule.empty : Schedule where
  jobs := .empty
  stored := ⟨fun id data h => by simp at h, fun id data h => by simp at h⟩

-- The next process schedules a job of its own before it has read the entry.
theorem schedule_before_initialize_drops : ∃ w, Run (Watch.step utc) (Schedule.empty.boot tasks true 0)
    [.scheduleJob 0 (everyMinute "backup"), .restart tasks true, .scheduleJob 30 (everyMinute "report")]
    w ∧ "backup" ∈ w.watched ∧ "backup" ∉ w.service.entry := by
  refine ⟨_, Run.of_foldlM rfl, ⟨?_, ?_⟩, ?_⟩
  · exact (Dict.mem_iff _ _).mpr ⟨_, rfl⟩
  · rintro ⟨hid, -⟩
    exact absurd hid (by decide)
  · refine (Dict.get?_eq_none_iff _ _).mp ?_
    rfl

end Sample

end YasinCore.Scheduling
