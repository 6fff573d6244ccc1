import YasinCore.Scheduling.Reboot
import YasinCore.Scheduling.Records
import YasinCore.Storage.Backend

namespace YasinCore.Scheduling

open YasinCore.Library YasinCore.Execution YasinCore.Storage

variable {host : Host} {py : Interpreter} {backend : Backend Time}

-- A scheduler with the storage behind it. The flag says that a set, a get or the calculation of a
-- next run has raised.
structure StoredScheduler (backend : Backend Time) where
  jobs : Dict JobId JobRecord
  storage : backend.State
  troubled : Bool

-- What a trigger gives to the job of the execution engine.
structure Handover where
  target : Target
  args : List (Json Time)
  kwargs : Dict Str (Json Time)
  name : String
  priority : Int
  retries : Int
  timeout : Option Time

def JobRecord.handover (job : JobRecord) : Handover where
  target := job.target
  args := job.args
  kwargs := job.kwargs
  name := job.name
  priority := job.priority
  retries := job.retries
  timeout := job.timeout

-- What a tick finds: the clock, the engine and whether it takes a job, and for each job the clock
-- after the submission and in the calculation of the next run.
structure Tick where
  now : Time
  engine : Bool
  accepted : JobId → Bool
  ran : JobId → Time
  next : JobId → Time

-- How the trigger of a job ends: there is no engine, submit_job raises, the calculation of the next
-- run raises after the run was counted, or the job has its next run.
inductive Trigger
  | logged
  | refused
  | raised (counted : JobRecord)
  | triggered (next : JobRecord)

def JobRecord.trigger (host : Host) (tick : Tick) (job : JobRecord) : Trigger :=
  let counted := job.counted (tick.ran job.id)
  if !tick.engine then .logged
  else if !tick.accepted job.id then .refused
  else
    match counted.calculateNextRun host (tick.next job.id) with
    | none => .raised counted
    | some next => .triggered next

inductive Request
  | scheduleJob (found : Arrival) (arguments : JobArguments)
  | unscheduleJob (id : JobId)
  | clearJobs
  | tick (tick : Tick)

-- The jobs that a request makes have strings for targets.
def Request.TextTarget : Request → Prop
  | .scheduleJob _ arguments => ∃ name, arguments.target = .str name
  | _ => True

def scheduleKey : Str := .ofString "scheduler:schedule"

-- The dictionary that _save_schedule builds of the live jobs.
def serialized (py : Interpreter) (jobs : Dict JobId JobRecord) : Json Time :=
  .dict (jobs.entries.filterMap fun entry =>
    (entry.2.toDict py).map fun data => (Str.ofString entry.1, data))

def dueJobs (now : Time) (jobs : Dict JobId JobRecord) : List JobRecord :=
  jobs.values.filter fun job => job.nextRunTime.any (· ≤ now) && !job.cancelled

namespace StoredScheduler

def live (s : StoredScheduler backend) : Dict JobId JobRecord := s.jobs.filter fun _ job => job.active

def save (py : Interpreter) (s : StoredScheduler backend) : StoredScheduler backend :=
  match backend.set scheduleKey (serialized py s.live) s.storage with
  | some storage => { s with storage := storage }
  | none => { s with troubled := true }

-- One turn of the loop of _load_schedule; a job that raises is passed over.
def loadJob (host : Host) (py : Interpreter) (found : Str → Arrival) (jobs : Dict JobId JobRecord)
    (entry : Str × Json Time) : Dict JobId JobRecord :=
  match JobRecord.ofDict host py (found entry.1) entry.2 with
  | some job => jobs.set job.id job
  | none => jobs

def load (host : Host) (py : Interpreter) (found : Str → Arrival) (s : StoredScheduler backend) :
    StoredScheduler backend :=
  match backend.get scheduleKey s.storage with
  | some (.dict entries) => { s with jobs := entries.foldl (loadJob host py found) s.jobs }
  | some _ => s
  | none => { s with troubled := true }

-- A new scheduler that has read what is stored.
def start (host : Host) (py : Interpreter) (found : Str → Arrival) (storage : backend.State) :
    StoredScheduler backend :=
  load host py found { jobs := .empty, storage := storage, troubled := false }

def scheduleJob (host : Host) (py : Interpreter) (found : Arrival) (arguments : JobArguments)
    (s : StoredScheduler backend) : StoredScheduler backend :=
  match JobRecord.init host found arguments.requested with
  | some job => { s with jobs := s.jobs.set job.id job }.save py
  | none => { s with troubled := true }

def unscheduleJob (py : Interpreter) (id : JobId) (s : StoredScheduler backend) :
    StoredScheduler backend :=
  if id ∈ s.jobs then { s with jobs := s.jobs.erase id }.save py else s

def clearJobs (py : Interpreter) (s : StoredScheduler backend) : StoredScheduler backend :=
  { s with jobs := s.jobs.filter fun _ job => !(job.cancelled || job.nextRunTime.isNone) }.save py

-- The loop of a tick over the due jobs. An exception ends it.
def triggerAll (host : Host) (py : Interpreter) (tick : Tick) :
    List JobRecord → StoredScheduler backend → List Handover × StoredScheduler backend
  | [], s => ([], s)
  | job :: rest, s =>
      match job.trigger host tick with
      | .logged => triggerAll host py tick rest s
      | .refused => ([job.handover], s)
      | .raised counted =>
          ([job.handover], { s with jobs := s.jobs.set counted.id counted, troubled := true })
      | .triggered next =>
          let result := triggerAll host py tick rest ({ s with jobs := s.jobs.set next.id next }.save py)
          (job.handover :: result.1, result.2)

def tick (host : Host) (py : Interpreter) (tick : Tick) (s : StoredScheduler backend) :
    List Handover × StoredScheduler backend :=
  s.triggerAll host py tick (dueJobs tick.now s.jobs)

def perform (host : Host) (py : Interpreter) (s : StoredScheduler backend) :
    Request → StoredScheduler backend
  | .scheduleJob found arguments => s.scheduleJob host py found arguments
  | .unscheduleJob id => s.unscheduleJob py id
  | .clearJobs => s.clearJobs py
  | .tick tick => (s.tick host py tick).2

def performAll (host : Host) (py : Interpreter) (requests : List Request)
    (s : StoredScheduler backend) : StoredScheduler backend :=
  requests.foldl (perform host py) s

-- What the ticks that follow hand to the engine.
def handovers (host : Host) (py : Interpreter) : List Tick → StoredScheduler backend → List (List Handover)
  | [], _ => []
  | tick :: ticks, s => (s.tick host py tick).1 :: handovers host py ticks (s.tick host py tick).2

end StoredScheduler

-- The same loop on the live jobs alone.
def LiveJobs.triggerAll (host : Host) (tick : Tick) :
    List JobRecord → Dict JobId JobRecord → List Handover × Dict JobId JobRecord
  | [], jobs => ([], jobs)
  | job :: rest, jobs =>
      match job.trigger host tick with
      | .logged => triggerAll host tick rest jobs
      | .refused => ([job.handover], jobs)
      | .raised counted => ([job.handover], jobs.set counted.id counted)
      | .triggered next =>
          let result := triggerAll host tick rest
            (if next.active then jobs.set next.id next else jobs.erase next.id)
          (job.handover :: result.1, result.2)

-- What ticks hand to the engine if they find these live jobs.
def LiveJobs.handovers (host : Host) : List Tick → Dict JobId JobRecord → List (List Handover)
  | [], _ => []
  | tick :: ticks, jobs =>
      let result := triggerAll host tick (dueJobs tick.now jobs) jobs
      result.1 :: handovers host ticks result.2

section Trigger

variable {tick : Tick}

theorem trigger_cases (host : Host) (tick : Tick) (job : JobRecord) :
    job.trigger host tick = .logged ∨ job.trigger host tick = .refused ∨
      job.trigger host tick = .raised (job.counted (tick.ran job.id)) ∨
      ∃ next, job.trigger host tick = .triggered next ∧
        (job.counted (tick.ran job.id)).calculateNextRun host (tick.next job.id) = some next := by
  unfold JobRecord.trigger
  dsimp only
  cases tick.engine with
  | false => exact .inl rfl
  | true =>
      cases tick.accepted job.id with
      | false => exact .inr (.inl rfl)
      | true =>
          cases (job.counted (tick.ran job.id)).calculateNextRun host (tick.next job.id) with
          | none => exact .inr (.inr (.inl rfl))
          | some next => exact .inr (.inr (.inr ⟨next, rfl, rfl⟩))

end Trigger

-- Every job is under its own identifier and has what the constructor sees to.
structure Keeping (jobs : Dict JobId JobRecord) : Prop where
  keyed : ∀ id job, jobs.get? id = some job → job.id = id
  sound : ∀ id job, jobs.get? id = some job → job.Sound

section Reading

variable {jobs : Dict JobId JobRecord}

theorem Keeping.empty : Keeping (.empty : Dict JobId JobRecord) where
  keyed := fun id job h => by simp at h
  sound := fun id job h => by simp at h

theorem Keeping.set (h : Keeping jobs) {job : JobRecord} (hsound : job.Sound) :
    Keeping (jobs.set job.id job) := by
  have hfound : ∀ id other, (jobs.set job.id job).get? id = some other →
      other.id = id ∧ other.Sound := by
    intro id other hother
    rw [Dict.get?_set] at hother
    split at hother
    · rename_i hid
      obtain rfl := Option.some.inj hother
      exact ⟨hid.symm, hsound⟩
    · exact ⟨h.keyed id other hother, h.sound id other hother⟩
  exact ⟨fun id other ho => (hfound id other ho).1, fun id other ho => (hfound id other ho).2⟩

theorem Keeping.filter (h : Keeping jobs) (keep : JobId → JobRecord → Bool) :
    Keeping (jobs.filter keep) := by
  have hfound : ∀ id job, (jobs.filter keep).get? id = some job → jobs.get? id = some job := by
    intro id job hjob
    rw [Dict.get?_filter, Option.filter_eq_some_iff] at hjob
    exact hjob.1
  exact ⟨fun id job hj => h.keyed id job (hfound id job hj),
    fun id job hj => h.sound id job (hfound id job hj)⟩

theorem foldl_loadJob (host : Host) (py : Interpreter) (found : Str → Arrival)
    {entries : List (JobId × JobRecord)}
    (h : ∀ entry ∈ entries, entry.2.id = entry.1 ∧ entry.2.Sound ∧ entry.2.active)
    (start : Dict JobId JobRecord) :
    (entries.filterMap fun entry => (entry.2.toDict py).map fun data =>
      (Str.ofString entry.1, data)).foldl (StoredScheduler.loadJob host py found) start =
      entries.foldl (fun (jobs : Dict JobId JobRecord) entry => jobs.set entry.1 entry.2) start := by
  induction entries generalizing start with
  | nil => rfl
  | cons entry entries ih =>
      obtain ⟨hid, hsound, hactive⟩ := h entry List.mem_cons_self
      obtain ⟨data, hdata, hread⟩ := hsound.ofDict_toDict hactive py host
      have hload : StoredScheduler.loadJob host py found start (Str.ofString entry.1, data) =
          start.set entry.1 entry.2 := by
        rw [StoredScheduler.loadJob, hread, ← hid]
      rw [List.filterMap_cons_some (b := (Str.ofString entry.1, data)) (by rw [hdata]; rfl),
        List.foldl_cons, List.foldl_cons, hload]
      exact ih (fun other ho => h other (List.mem_cons_of_mem _ ho)) _

-- What a scheduler finds stored of live jobs are these jobs, in their order.
theorem load_serialized (hk : Keeping jobs) (hactive : ∀ id job, jobs.get? id = some job → job.active)
    {storage : backend.State} (hget : backend.get scheduleKey storage = some (serialized py jobs))
    (host : Host) (found : Str → Arrival) :
    StoredScheduler.start host py found storage =
      { jobs := jobs, storage := storage, troubled := false } := by
  have hentries : ∀ entry ∈ jobs.entries, entry.2.id = entry.1 ∧ entry.2.Sound ∧ entry.2.active := by
    intro ⟨id, job⟩ hm
    have hjob : jobs.get? id = some job := (jobs.mem_entries_iff id job).mp hm
    exact ⟨hk.keyed id job hjob, hk.sound id job hjob, hactive id job hjob⟩
  have hjobs : jobs.entries.foldl (fun (jobs : Dict JobId JobRecord) entry => jobs.set entry.1 entry.2)
      .empty = jobs := jobs.ofEntries_entries
  unfold StoredScheduler.start StoredScheduler.load
  rw [hget, serialized]
  simp only [foldl_loadJob host py found hentries, hjobs]

end Reading

namespace StoredScheduler

variable {s t : StoredScheduler backend}

-- A new scheduler would have the live jobs.
def Resumes (host : Host) (py : Interpreter) (s : StoredScheduler backend) : Prop :=
  ∀ found, (start host py found s.storage).jobs = s.live

theorem live_active (s : StoredScheduler backend) (id : JobId) (job : JobRecord)
    (h : s.live.get? id = some job) : job.active := by
  rw [live, Dict.get?_filter, Option.filter_eq_some_iff] at h
  exact h.2

section Save

theorem save_jobs (py : Interpreter) (s : StoredScheduler backend) : (s.save py).jobs = s.jobs := by
  unfold save
  cases backend.set scheduleKey (serialized py s.live) s.storage with
  | some storage => rfl
  | none => rfl

theorem save_live (py : Interpreter) (s : StoredScheduler backend) : (s.save py).live = s.live := by
  rw [live, save_jobs]
  rfl

theorem save_calm (h : (s.save py).troubled = false) : s.troubled = false := by
  unfold save at h
  cases hset : backend.set scheduleKey (serialized py s.live) s.storage with
  | some storage =>
      rw [hset] at h
      exact h
  | none =>
      rw [hset] at h
      cases h

theorem save_resumes (hk : Keeping s.jobs) (h : (s.save py).troubled = false) (host : Host) :
    (s.save py).Resumes host py := by
  intro found
  rw [save_live]
  unfold save at h ⊢
  cases hset : backend.set scheduleKey (serialized py s.live) s.storage with
  | some storage =>
      have hget := backend.get_set hset
      exact congrArg jobs (load_serialized (hk.filter _) s.live_active hget host found)
  | none =>
      rw [hset] at h
      cases h

end Save

-- What a request leaves behind of the invariants.
structure Continues (host : Host) (py : Interpreter) (s t : StoredScheduler backend) : Prop where
  keeping : Keeping t.jobs
  calm : t.troubled = false → s.troubled = false
  resumes : t.troubled = false → s.Resumes host py → t.Resumes host py

section Requests

variable {tick : Tick} {due : List JobRecord}

theorem Continues.refl (hk : Keeping s.jobs) : Continues host py s s := ⟨hk, fun h => h, fun _ h => h⟩

-- A save makes up for whatever was done to the jobs before it.
theorem save_continues {jobs : Dict JobId JobRecord} (hk : Keeping jobs) :
    Continues host py s ({ s with jobs := jobs }.save py) where
  keeping := by
    rw [save_jobs]
    exact hk
  calm := save_calm
  resumes := fun hcalm _ => save_resumes hk hcalm host

theorem scheduleJob_continues (hk : Keeping s.jobs) (found : Arrival) {arguments : JobArguments}
    (htarget : ∃ name, arguments.target = .str name) :
    Continues host py s (s.scheduleJob host py found arguments) := by
  obtain ⟨name, hname⟩ := htarget
  have hrequested : arguments.requested.target = .str name := hname
  unfold scheduleJob
  cases hjob : JobRecord.init host found arguments.requested with
  | some job => exact save_continues (hk.set (init_sound hrequested hjob))
  | none => exact ⟨hk, nofun, nofun⟩

theorem unscheduleJob_continues (hk : Keeping s.jobs) (id : JobId) :
    Continues host py s (s.unscheduleJob py id) := by
  unfold unscheduleJob
  split
  · have hkept : Keeping (s.jobs.erase id) := by
      rw [Dict.erase_eq_filter]
      exact hk.filter _
    exact save_continues hkept
  · exact .refl hk

theorem triggerAll_continues (hk : Keeping s.jobs) (hdue : ∀ job ∈ due, job.Sound) :
    Continues host py s (s.triggerAll host py tick due).2 := by
  induction due generalizing s with
  | nil => exact .refl hk
  | cons job rest ih =>
      have hrest : ∀ other ∈ rest, other.Sound := fun other ho => hdue other (List.mem_cons_of_mem _ ho)
      have hcounted : (job.counted (tick.ran job.id)).Sound :=
        counted_sound (hdue job List.mem_cons_self) _
      unfold triggerAll
      rcases trigger_cases host tick job with h | h | h | ⟨next, h, hnext⟩
      · rw [h]
        exact ih hk hrest
      · rw [h]
        exact .refl hk
      · rw [h]
        exact ⟨hk.set hcounted, nofun, nofun⟩
      · rw [h]
        have hkept : Keeping (s.jobs.set next.id next) := hk.set (calculateNextRun_sound hcounted hnext).2
        have hsave : Continues host py s ({ s with jobs := s.jobs.set next.id next }.save py) :=
          save_continues hkept
        have hlater := ih hsave.keeping hrest
        exact {
          keeping := hlater.keeping
          calm := fun h => hsave.calm (hlater.calm h)
          resumes := fun h hs => hlater.resumes h (hsave.resumes (hlater.calm h) hs) }

theorem mem_dueJobs {now : Time} {jobs : Dict JobId JobRecord} {job : JobRecord}
    (h : job ∈ dueJobs now jobs) : ∃ id, jobs.get? id = some job :=
  (Dict.mem_values_iff _ _).mp (List.mem_filter.mp h).1

theorem perform_continues (hk : Keeping s.jobs) {request : Request} (htarget : request.TextTarget) :
    Continues host py s (s.perform host py request) := by
  cases request with
  | scheduleJob found arguments => exact scheduleJob_continues hk found htarget
  | unscheduleJob id => exact unscheduleJob_continues hk id
  | clearJobs => exact save_continues (hk.filter _)
  | tick tick =>
      refine triggerAll_continues hk fun job hm => ?_
      obtain ⟨id, hid⟩ := mem_dueJobs hm
      exact hk.sound id job hid

end Requests

section Live

variable {jobs : Dict JobId JobRecord} {job : JobRecord} {tick : Tick} {due : List JobRecord}

theorem values_filter_active (jobs : Dict JobId JobRecord) :
    (jobs.filter fun _ job => job.active).values = jobs.values.filter JobRecord.active := by
  unfold Dict.values Dict.filter
  rw [List.filter_map]
  rfl

theorem active_eq (job : JobRecord) : job.active = (!job.cancelled && job.nextRunTime.isSome) := rfl

-- What is due is live.
theorem dueJobs_live (now : Time) (s : StoredScheduler backend) :
    dueJobs now s.live = dueJobs now s.jobs := by
  rw [dueJobs, live, values_filter_active, List.filter_filter]
  refine List.filter_congr fun job _ => ?_
  rw [active_eq]
  cases job.nextRunTime with
  | none => rfl
  | some due => simp

-- The due jobs are in the dictionary, each under an identifier of its own.
theorem dueJobs_found (hk : Keeping jobs) {now : Time} (hm : job ∈ dueJobs now jobs) :
    jobs.get? job.id = some job := by
  obtain ⟨id, hid⟩ := mem_dueJobs hm
  rw [hk.keyed id job hid]
  exact hid

theorem dueJobs_nodup (hk : Keeping jobs) (now : Time) :
    ((dueJobs now jobs).map JobRecord.id).Nodup := by
  have hkeys : jobs.values.map JobRecord.id = jobs.keys := by
    unfold Dict.values Dict.keys
    rw [List.map_map]
    refine List.map_congr_left fun entry hm => ?_
    exact hk.keyed entry.1 entry.2 ((jobs.mem_entries_iff entry.1 entry.2).mp hm)
  have hnodup : (jobs.values.map JobRecord.id).Nodup := hkeys ▸ jobs.nodup
  exact hnodup.sublist (List.filter_sublist.map _)

theorem live_set (s : StoredScheduler backend) {next : JobRecord} (hid : next.id = job.id)
    (hjob : s.jobs.get? job.id = some job) (hactive : job.active) :
    (s.jobs.set next.id next).filter (fun _ job => job.active) =
      if next.active then s.live.set next.id next else s.live.erase next.id := by
  cases hnext : next.active with
  | true => exact Dict.filter_set_of_keep (hid ▸ hjob) hactive hnext
  | false => exact Dict.filter_set_of_drop hnext

-- The loop does to the live jobs what it would do if there were no others.
theorem triggerAll_live (hk : Keeping s.jobs)
    (hdue : ∀ job ∈ due, s.jobs.get? job.id = some job ∧ job.active)
    (hnodup : (due.map JobRecord.id).Nodup) :
    (s.triggerAll host py tick due).1 = (LiveJobs.triggerAll host tick due s.live).1 ∧
      (s.triggerAll host py tick due).2.live = (LiveJobs.triggerAll host tick due s.live).2 := by
  induction due generalizing s with
  | nil => exact ⟨rfl, rfl⟩
  | cons job rest ih =>
      obtain ⟨hjob, hactive⟩ := hdue job List.mem_cons_self
      obtain ⟨hnot, hnodup⟩ := List.nodup_cons.mp hnodup
      have hrest : ∀ other ∈ rest, s.jobs.get? other.id = some other ∧ other.active :=
        fun other ho => hdue other (List.mem_cons_of_mem _ ho)
      unfold triggerAll LiveJobs.triggerAll
      rcases trigger_cases host tick job with h | h | h | ⟨next, h, hnext⟩
      · rw [h]
        exact ih hk hrest hnodup
      · rw [h]
        exact ⟨rfl, rfl⟩
      · rw [h]
        refine ⟨rfl, ?_⟩
        have hid : (job.counted (tick.ran job.id)).id = job.id := rfl
        have hcounted : (job.counted (tick.ran job.id)).active := hactive
        have hset := live_set s hid hjob hactive
        rw [if_pos hcounted] at hset
        exact hset
      · rw [h]
        have hsound : (job.counted (tick.ran job.id)).Sound := counted_sound (hk.sound _ _ hjob) _
        obtain ⟨hid, hnextSound⟩ := calculateNextRun_sound hsound hnext
        have hsame : next.id = job.id := hid
        have hkept : Keeping (s.jobs.set next.id next) := hk.set hnextSound
        have hothers : ∀ other ∈ rest, (s.jobs.set next.id next).get? other.id = some other ∧
            other.active := by
          intro other ho
          have hne : other.id ≠ next.id := fun he =>
            hnot (List.mem_map.mpr ⟨other, ho, he.trans hsame⟩)
          rw [Dict.get?_set_of_ne _ _ hne]
          exact hrest other ho
        have hlive : ({ s with jobs := s.jobs.set next.id next }.save py).live =
            if next.active then s.live.set next.id next else s.live.erase next.id := by
          rw [save_live]
          exact live_set s hsame hjob hactive
        have hlater := @ih ({ s with jobs := s.jobs.set next.id next }.save py)
          (by rw [save_jobs]; exact hkept) (by rw [save_jobs]; exact hothers) hnodup
        rw [hlive] at hlater
        exact ⟨congrArg (job.handover :: ·) hlater.1, hlater.2⟩

theorem tick_live (hk : Keeping s.jobs) (tick : Tick) :
    (s.tick host py tick).1 = (LiveJobs.triggerAll host tick (dueJobs tick.now s.live) s.live).1 ∧
      (s.tick host py tick).2.live =
        (LiveJobs.triggerAll host tick (dueJobs tick.now s.live) s.live).2 := by
  rw [dueJobs_live]
  refine triggerAll_live hk (fun job hm => ⟨dueJobs_found hk hm, ?_⟩) (dueJobs_nodup hk tick.now)
  rw [← dueJobs_live] at hm
  obtain ⟨id, hid⟩ := mem_dueJobs hm
  exact s.live_active id job hid

-- A scheduler hands to the engine what its live jobs say.
theorem handovers_live (hk : Keeping s.jobs) (ticks : List Tick) :
    s.handovers host py ticks = LiveJobs.handovers host ticks s.live := by
  induction ticks generalizing s with
  | nil => rfl
  | cons tick ticks ih =>
      obtain ⟨hhandovers, hlive⟩ := @tick_live host py backend s hk tick
      have hkept : Keeping (s.tick host py tick).2.jobs :=
        (triggerAll_continues hk fun job hm => hk.sound _ _ (dueJobs_found hk hm)).keeping
      rw [handovers, LiveJobs.handovers, hhandovers, ih hkept, hlive]

end Live

end StoredScheduler

-- What a scheduler has stored: the live jobs, or nothing yet.
structure LiveSchedule where
  jobs : Dict JobId JobRecord
  keeping : Keeping jobs
  active : ∀ id job, jobs.get? id = some job → job.active

def LiveSchedule.stored (py : Interpreter) : Option LiveSchedule → Json Time
  | none => .null
  | some schedule => serialized py schedule.jobs

namespace StoredScheduler

theorem start_spec {schedule : Option LiveSchedule} {storage : backend.State}
    (hget : backend.get scheduleKey storage = some (LiveSchedule.stored py schedule)) (host : Host) :
    ∃ jobs, Keeping jobs ∧ (∀ id job, jobs.get? id = some job → job.active) ∧
      ∀ found, start host py found storage = { jobs := jobs, storage := storage, troubled := false } := by
  cases schedule with
  | none =>
      refine ⟨.empty, .empty, fun id job h => by simp at h, fun found => ?_⟩
      unfold start load
      rw [hget]
      rfl
  | some schedule =>
      exact ⟨schedule.jobs, schedule.keeping, schedule.active,
        load_serialized schedule.keeping schedule.active hget host⟩

theorem performAll_continues {s : StoredScheduler backend} (hk : Keeping s.jobs)
    {requests : List Request} (htargets : ∀ request ∈ requests, request.TextTarget) :
    Continues host py s (s.performAll host py requests) := by
  induction requests generalizing s with
  | nil => exact .refl hk
  | cons request requests ih =>
      have hfirst : Continues host py s (s.perform host py request) :=
        perform_continues hk (htargets request List.mem_cons_self)
      have hlater := ih hfirst.keeping fun other ho => htargets other (List.mem_cons_of_mem _ ho)
      exact {
        keeping := hlater.keeping
        calm := fun h => hfirst.calm (hlater.calm h)
        resumes := fun h hs => hlater.resumes h (hfirst.resumes (hlater.calm h) hs) }

-- A new scheduler has the live jobs of the old one and hands over the same at every later tick.
theorem restarted_scheduler_resumes (host : Host) (py : Interpreter) (backend : Backend Time)
    (schedule : Option LiveSchedule) (storage : backend.State)
    (hget : backend.get scheduleKey storage = some (LiveSchedule.stored py schedule))
    (first : Str → Arrival) (requests : List Request)
    (htargets : ∀ request ∈ requests, request.TextTarget) (s : StoredScheduler backend)
    (hs : (start host py first storage).performAll host py requests = s)
    (hcalm : s.troubled = false) (found : Str → Arrival) :
    (start host py found s.storage).jobs = s.live ∧
      ∀ ticks, (start host py found s.storage).handovers host py ticks = s.handovers host py ticks := by
  obtain ⟨jobs, hk, hactive, hstart⟩ := start_spec hget host
  have hkept : Keeping (start host py first storage).jobs := by
    rw [hstart]
    exact hk
  have hresumes : (start host py first storage).Resumes host py := by
    intro other
    rw [hstart first, live, Dict.filter_eq_self hactive, hstart other]
  have hcontinues : Continues host py (start host py first storage) s :=
    hs ▸ performAll_continues hkept htargets
  have hjobs : (start host py found s.storage).jobs = s.live :=
    hcontinues.resumes hcalm hresumes found
  refine ⟨hjobs, fun ticks => ?_⟩
  have hlive : (start host py found s.storage).live = s.live := by
    rw [live, hjobs, Dict.filter_eq_self s.live_active]
  have hloaded : Keeping (start host py found s.storage).jobs := by
    rw [hjobs]
    exact hcontinues.keeping.filter _
  rw [handovers_live hloaded, handovers_live hcontinues.keeping, hlive]

end StoredScheduler

section Sample

open StoredScheduler

-- Two jobs, one with nested arguments, and a tick between the calls; the one-off job is used up.
def reportArguments (id : JobId) (interval : Option Time) : JobArguments where
  target := .str "report"
  args := some [.list [.int 1, .list [.str (.ofString "weekly")]]]
  kwargs := some (.ofEntries [(.ofString "deep", .dict [(.ofString "on", .bool true)])])
  id := some id
  name := none
  priority := 20
  retries := 2
  timeout := some 30
  interval := interval
  delay := none
  cron := none
  maxRuns := none
  nextRunTime := none
  runCount := 0
  lastRunTime := none
  createdAt := none

def noon : Arrival where
  uuid := ⟨"generated", by decide⟩
  created := ⟨43200, by decide +kernel⟩
  now := 43200

def reportRequests : List Request :=
  [.scheduleJob noon (reportArguments "hourly" (some 3600)), .scheduleJob noon (reportArguments "once" none),
    .tick {
      now := 46800
      engine := true
      accepted := fun _ => true
      ran := fun _ => 46800
      next := fun _ => 46800 },
    .clearJobs]

def reported : StoredScheduler (Backend.inMemory : Backend Time) :=
  (start utc tasks (fun _ => noon) (Dict.empty : Dict Str (Json Time))).performAll utc tasks
    reportRequests

theorem report_resumes : reported.live.keys = ["hourly"] ∧
    (start utc tasks (fun _ => noon) reported.storage).jobs = reported.live ∧
      ∀ ticks, (start utc tasks (fun _ => noon) reported.storage).handovers utc tasks ticks =
        reported.handovers utc tasks ticks := by
  have htargets : ∀ request ∈ reportRequests, request.TextTarget := by
    simp [reportRequests, Request.TextTarget, reportArguments]
  refine ⟨by decide +kernel, ?_⟩
  exact restarted_scheduler_resumes utc tasks .inMemory none _ rfl (fun _ => noon) reportRequests
    htargets reported rfl (by decide +kernel) fun _ => noon

end Sample

end YasinCore.Scheduling
