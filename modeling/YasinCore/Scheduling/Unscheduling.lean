import YasinCore.Scheduling.Reboot

namespace YasinCore.Scheduling

open YasinCore.Library YasinCore.Execution

namespace Scheduler

def ids (s : Scheduler) : List JobId := s.objects.map ScheduledJob.id

-- The ids of the jobs that a tick has collected and not triggered yet.
def dueIds (s : Scheduler) : List JobId := s.pending.filterMap fun entry => s.ids[entry.1]?

end Scheduler

-- The calls that do not wait for the lock: what a tick does after it has collected the due jobs,
-- but for the moment at which it gathers the schedule.
def Call.lockFree : Call → Bool
  | .submit _ _ _ _ => true
  | .reschedule _ _ => true
  | .write => true
  | _ => false

-- The call makes a new job under the id.
def Call.reuses (id : JobId) : Call → Bool
  | .scheduleJob _ arguments => arguments.id == id
  | _ => false

-- The call hands a job of the id to the execution engine, which may refuse it.
def Service.submits (s : Service) (id : JobId) : Call → Bool
  | .submit _ _ _ _ =>
      s.scheduler.engine && (s.scheduler.pending.head?.bind fun entry => s.scheduler.ids[entry.1]?) == some id
  | _ => false

-- How far unschedule_job is with the job; it holds the lock from the removal to the return.
inductive Removal
  | notCalled
  | removed
  | gathered (schedule : Dict JobId StoredJob)
  | returned

-- A service, one call of unschedule_job by another thread, and whether the engine was handed a job
-- of the id after the return.
structure Unscheduling where
  id : JobId
  service : Service
  removal : Removal
  resubmitted : Bool

-- The pieces of unschedule_job between which the ticks can come, and everything else.
inductive Move
  | call (call : Call)
  | remove
  | gather
  | store

-- Nothing of a tick is left to do.
def Service.atRest (s : Service) : Bool :=
  s.scheduler.pending.isEmpty && s.scheduler.inFlight.isNone && match s.saving with
    | .idle => true
    | _ => false

namespace Unscheduling

def returned (u : Unscheduling) : Bool :=
  match u.removal with
  | .returned => true
  | _ => false

def settled (u : Unscheduling) : Bool := u.returned && u.service.atRest

-- What is possible beside unschedule_job. After the return it is everything, until a new job is
-- made under the id.
def admits (u : Unscheduling) (call : Call) : Bool :=
  match u.removal with
  | .notCalled => true
  | .removed => call.lockFree
  | .gathered _ => call.lockFree
  | .returned => !call.reuses u.id

def step (host : Host) (u : Unscheduling) : Move → Option Unscheduling
  | .call call =>
      if u.admits call then
        (u.service.step host call).map fun service =>
          { u with
            service := service
            resubmitted := u.resubmitted || (u.returned && u.service.submits u.id call) }
      else none
  | .remove =>
      match u.removal with
      | .notCalled =>
          if u.id ∈ u.service.scheduler.jobs then
            some { u with
              service := { u.service with scheduler := u.service.scheduler.unscheduleJob u.id }
              removal := .removed }
          else none
      | _ => none
  | .gather =>
      match u.removal with
      | .removed => some { u with removal := .gathered u.service.saved }
      | _ => none
  | .store =>
      match u.removal with
      | .gathered schedule =>
          some { u with service := { u.service with entry := schedule }, removal := .returned }
      | _ => none

structure Final (u : Unscheduling) : Prop where
  submitted : u.resubmitted = false
  stored : u.settled → u.id ∉ u.service.entry

-- The condition on the return: no tick holds the job among those that it will trigger, or in a
-- schedule that it will write.
def Timely (u : Unscheduling) : Move → Prop
  | .store => (u.service.scheduler.engine → u.id ∉ u.service.scheduler.dueIds) ∧
      ∀ schedule, u.service.saving = .gathered schedule → u.id ∉ schedule
  | _ => True

end Unscheduling

-- Objects keep their ids and nothing becomes due.
structure Steady (s t : Scheduler) : Prop where
  ids : s.ids <+: t.ids
  pending : t.pending ⊆ s.pending
  engine : t.engine = s.engine

variable {host : Host} {py : Interpreter} {now ran : Time} {id : JobId}

section Steady

variable {s t u : Scheduler} {arguments : ScheduledJob}

theorem Steady.refl (s : Scheduler) : Steady s s := ⟨List.prefix_rfl, List.Subset.refl _, rfl⟩

theorem Steady.trans (hst : Steady s t) (htu : Steady t u) : Steady s u where
  ids := hst.ids.trans htu.ids
  pending := List.Subset.trans htu.pending hst.pending
  engine := htu.engine.trans hst.engine

theorem scheduleJob_steady (h : s.scheduleJob host now arguments = some t) : Steady s t := by
  obtain ⟨job, -, rfl⟩ := Option.map_eq_some_iff.mp h
  refine ⟨?_, List.Subset.refl _, rfl⟩
  show s.objects.map _ <+: (s.objects ++ [job]).map _
  rw [List.map_append]
  exact List.prefix_append _ _

theorem unscheduleJob_steady (s : Scheduler) (other : JobId) : Steady s (s.unscheduleJob other) := by
  unfold Scheduler.unscheduleJob
  split
  · exact .refl s
  · rename_i ref _
    have hids : (s.objects.modify ref .cancel).map ScheduledJob.id = s.ids := by
      apply List.ext_getElem?
      intro i
      rw [Scheduler.ids, List.getElem?_map, List.getElem?_map, List.getElem?_modify]
      split
      · cases s.objects[i]? with
        | none => rfl
        | some job => rfl
      · cases s.objects[i]? with
        | none => rfl
        | some job => rfl
    have hinitial : s.ids <+: (s.objects.modify ref .cancel).map ScheduledJob.id :=
      hids ▸ List.prefix_rfl
    exact ⟨hinitial, List.Subset.refl _, rfl⟩

theorem load_steady (stored : List StoredJob) :
    Steady s (stored.foldl (Scheduler.loadJob host py now) s) := by
  induction stored generalizing s with
  | nil => exact .refl s
  | cons data stored ih =>
      refine Steady.trans ?_ ih
      unfold Scheduler.loadJob
      cases h : s.scheduleJob host now (data.arguments py) with
      | none => exact .refl s
      | some t => exact scheduleJob_steady h

theorem submit_steady {other : JobId} {contextId : Option String} {accepted : Bool}
    (h : s.submit now other contextId accepted = some t) : Steady s t := by
  obtain ⟨ref, due, rest, -, hpending, ⟨left, hleft, rfl⟩ | ⟨_, rfl⟩⟩ := submit_spec h
  · exact ⟨List.prefix_rfl, hleft.subset, rfl⟩
  · refine ⟨List.prefix_rfl, ?_, rfl⟩
    rw [hpending]
    exact List.subset_cons_self _ _

theorem finish_steady {sub : Submission} {old job : ScheduledJob} {totalTriggers : Nat}
    {rest : List (Nat × Time)} (hold : s.objects[sub.ref]? = some old) (hid : job.id = old.id)
    (hrest : rest ⊆ s.pending) : Steady s (s.finish now sub job totalTriggers rest) := by
  have hids : (s.objects.set sub.ref job).map ScheduledJob.id = s.ids := by
    obtain ⟨hlt, rfl⟩ := List.getElem?_eq_some_iff.mp hold
    have hlt' : sub.ref < (s.objects.map ScheduledJob.id).length := by
      rw [List.length_map]
      exact hlt
    have hsame : job.id = (s.objects.map ScheduledJob.id)[sub.ref] := by
      rw [hid, List.getElem_map]
    rw [List.map_set, hsame]
    exact List.set_getElem_self hlt'
  have hinitial : s.ids <+: (s.objects.set sub.ref job).map ScheduledJob.id :=
    hids ▸ List.prefix_rfl
  exact ⟨hinitial, hrest, rfl⟩

theorem reschedule_steady (h : s.reschedule host ran now = some t) : Steady s t := by
  obtain ⟨sub, job, -, hjob, ⟨next, hn, rfl⟩ | ⟨-, rfl⟩⟩ := reschedule_spec h
  · obtain ⟨due, -, rfl⟩ := Option.map_eq_some_iff.mp hn
    exact finish_steady hjob rfl (List.Subset.refl _)
  · exact finish_steady hjob rfl (List.nil_subset _)

end Steady

-- What was collected refers to objects.
def Scheduler.Tracked (s : Scheduler) : Prop := ∀ entry ∈ s.pending, entry.1 < s.ids.length

section Due

variable {s t : Scheduler}

theorem Steady.tracked (h : Steady s t) (hs : s.Tracked) : t.Tracked :=
  fun entry hm => (hs entry (h.pending hm)).trans_le h.ids.length_le

theorem Steady.dueIds (h : Steady s t) (hs : s.Tracked) (hdue : id ∈ t.dueIds) : id ∈ s.dueIds := by
  obtain ⟨entry, hentry, hid⟩ := List.mem_filterMap.mp hdue
  have hm : entry ∈ s.pending := h.pending hentry
  obtain ⟨rest, hrest⟩ := h.ids
  rw [← hrest, List.getElem?_append_left (hs entry hm)] at hid
  exact List.mem_filterMap.mpr ⟨entry, hm, hid⟩

-- What is collected comes from the dictionary.
theorem collect_pending (h : s.collect now = some t) {entry : Nat × Time} (hm : entry ∈ t.pending) :
    ∃ key, s.jobs.get? key = some entry.1 := by
  obtain ⟨-, -, rfl⟩ := collect_spec h
  obtain ⟨ref, href, hdue⟩ := List.mem_filterMap.mp hm
  obtain ⟨key, hkey⟩ := (Dict.mem_values_iff _ _).mp href
  obtain ⟨hsame, -, -⟩ := due?_eq_some hdue
  exact ⟨key, hsame ▸ hkey⟩

theorem collect_tracked (hs : s.Keyed) (h : s.collect now = some t) : t.Tracked := by
  intro entry hm
  obtain ⟨key, hkey⟩ := collect_pending h hm
  have hlt : entry.1 < s.objects.length := hs.lt hkey
  rw [Scheduler.ids, List.length_map, (collect_same h).1]
  exact hlt

theorem collect_dueIds (hs : s.Keyed) (h : s.collect now = some t) (hdue : id ∈ t.dueIds) :
    id ∈ s.jobs := by
  obtain ⟨entry, hm, hid⟩ := List.mem_filterMap.mp hdue
  obtain ⟨key, hkey⟩ := collect_pending h hm
  obtain ⟨job, hjob, hname⟩ := hs key entry.1 hkey
  have hsame : id = key := by
    rw [Scheduler.ids, List.getElem?_map, (collect_same h).1, hjob, Option.map_some] at hid
    exact (Option.some.inj hid).symm.trans hname
  exact (Dict.mem_iff _ _).mpr ⟨entry.1, hsame ▸ hkey⟩

end Due

section Calls

variable {s t : Service} {call : Call}

-- Only collecting makes something due.
theorem step_steady (h : s.step host call = some t) (hr : ¬call.Restarts) :
    Steady s.scheduler t.scheduler ∨ ∃ now, s.scheduler.collect now = some t.scheduler := by
  cases call with
  | scheduleJob now arguments =>
      obtain rfl := Option.some.inj h
      unfold Service.scheduleJob
      cases hu : s.scheduler.scheduleJob host now arguments.requested with
      | none => exact .inl (.refl _)
      | some u => exact .inl (scheduleJob_steady hu)
  | unscheduleJob other =>
      obtain rfl := Option.some.inj h
      unfold Service.unscheduleJob
      split
      · exact .inl (unscheduleJob_steady _ other)
      · exact .inl (.refl _)
  | clearJobs =>
      obtain rfl := Option.some.inj h
      exact .inl ⟨List.prefix_rfl, List.Subset.refl _, rfl⟩
  | initializeService now =>
      obtain rfl := Option.some.inj h
      unfold Service.initializeService
      split
      · exact .inl (.refl _)
      · exact .inl (load_steady _)
  | reload now =>
      obtain rfl := Option.some.inj h
      exact .inl (load_steady _)
  | shutdown =>
      obtain rfl := Option.some.inj h
      exact .inl (.refl _)
  | collect now =>
      simp only [Service.step] at h
      split at h
      · obtain ⟨u, hu, rfl⟩ := Option.map_eq_some_iff.mp h
        exact .inr ⟨now, hu⟩
      · cases h
  | submit now other contextId accepted =>
      simp only [Service.step] at h
      split at h
      · obtain ⟨u, hu, rfl⟩ := Option.map_eq_some_iff.mp h
        exact .inl (submit_steady hu)
      · cases h
  | reschedule ran now =>
      obtain ⟨u, hu, rfl⟩ := Option.map_eq_some_iff.mp h
      exact .inl (reschedule_steady hu)
  | gather =>
      simp only [Service.step] at h
      split at h
      · obtain rfl := Option.some.inj h
        exact .inl (.refl _)
      · cases h
  | write =>
      simp only [Service.step] at h
      split at h
      · obtain rfl := Option.some.inj h
        exact .inl (.refl _)
      · cases h
  | restart py engine => exact absurd trivial hr

theorem loadJob_mem {u : Scheduler} {data : StoredJob}
    (h : id ∈ (u.loadJob host py now data).jobs) : id ∈ u.jobs ∨ data.id = id := by
  unfold Scheduler.loadJob at h
  cases hv : u.scheduleJob host now (data.arguments py) with
  | none =>
      rw [hv] at h
      exact .inl h
  | some v =>
      rw [hv, Option.getD_some] at h
      by_cases he : id = data.id
      · exact .inr he.symm
      · exact .inl (scheduleJob_mem hv he h)

theorem load_mem {u : Scheduler} {stored : List StoredJob}
    (h : id ∈ (stored.foldl (Scheduler.loadJob host py now) u).jobs) :
    id ∈ u.jobs ∨ ∃ data ∈ stored, data.id = id := by
  induction stored generalizing u with
  | nil => exact .inl h
  | cons data stored ih =>
      rcases ih h with hm | ⟨other, hm, hid⟩
      · rcases loadJob_mem hm with hm | hid
        · exact .inl hm
        · exact .inr ⟨data, List.mem_cons_self, hid⟩
      · exact .inr ⟨other, List.mem_cons_of_mem _ hm, hid⟩

theorem Service.load_mem (he : WellStored s.entry) (h : id ∈ (s.load host now).scheduler.jobs) :
    id ∈ s.scheduler.jobs ∨ id ∈ s.entry := by
  refine (Scheduling.load_mem h).imp_right fun ⟨data, hm, hid⟩ => ?_
  obtain ⟨key, hkey⟩ := (Dict.mem_values_iff _ _).mp hm
  exact (Dict.mem_iff _ _).mpr ⟨data, hid ▸ (he.keyed key data hkey).symm ▸ hkey⟩

-- A job that is neither known nor stored comes back through schedule_job alone.
theorem step_mem (hs : s.scheduler.Keyed) (he : WellStored s.entry) (h : s.step host call = some t)
    (hr : ¬call.Restarts) (hreuses : call.reuses id = false) (hm : id ∈ t.scheduler.jobs) :
    id ∈ s.scheduler.jobs ∨ id ∈ s.entry := by
  have hacts : Acts host s t call := step_acts hs he h hr
  by_cases hends : s.Ends host call id
  · cases call with
    | scheduleJob now arguments =>
        rw [hends.1, Call.reuses, beq_self_eq_true] at hreuses
        cases hreuses
    | unscheduleJob other => exact .inl (hends.1 ▸ hends.2)
    | reschedule ran now =>
        obtain ⟨sub, _, -, -, href, -⟩ := hends
        exact .inl ((Dict.mem_iff _ _).mpr ⟨sub.ref, href⟩)
    | _ => exact hends.elim
  · cases hloads : s.loads call with
    | false => exact .inl ((hacts.spares id hends).mem hloads hm)
    | true =>
        cases call with
        | initializeService now =>
            obtain rfl := Option.some.inj h
            unfold Service.initializeService at hm
            split at hm
            · exact .inl hm
            · exact Service.load_mem he hm
        | reload now =>
            obtain rfl := Option.some.inj h
            exact Service.load_mem he hm
        | _ => cases hloads

theorem lockFree_jobs (h : s.step host call = some t) (hfree : call.lockFree) :
    t.scheduler.jobs = s.scheduler.jobs := by
  cases call with
  | submit now other contextId accepted =>
      simp only [Service.step] at h
      split at h
      · obtain ⟨u, hu, rfl⟩ := Option.map_eq_some_iff.mp h
        exact (submit_same hu).2
      · cases h
  | reschedule ran now =>
      obtain ⟨u, hu, rfl⟩ := Option.map_eq_some_iff.mp h
      exact reschedule_jobs hu
  | write =>
      simp only [Service.step] at h
      split at h
      · obtain rfl := Option.some.inj h
        rfl
      · cases h
  | _ => cases hfree

theorem not_mem_unscheduleJob {u : Scheduler} : id ∉ (u.unscheduleJob id).jobs := by
  unfold Scheduler.unscheduleJob
  split
  · rename_i hnone
    exact (Dict.get?_eq_none_iff _ _).mp hnone
  · intro hm
    obtain ⟨ref, href⟩ := (Dict.mem_iff _ _).mp hm
    rw [Dict.get?_erase, if_pos rfl] at href
    cases href

theorem not_mem_saved (h : id ∉ s.scheduler.jobs) : id ∉ s.saved := by
  intro hm
  have hlive := live?_of_mem_saved hm
  rw [live?_eq_none h] at hlive
  cases hlive

-- What holds of every service.
structure Ordered (s : Service) : Prop where
  keyed : s.scheduler.Keyed
  tracked : s.scheduler.Tracked
  entry : WellStored s.entry
  gathered : ∀ schedule, s.saving = .gathered schedule → WellStored schedule

theorem boot_ordered (py : Interpreter) (engine : Bool) (clock : Time) {entry : Dict JobId StoredJob}
    (he : WellStored entry) : Ordered (.boot py engine clock entry) where
  keyed := blank_keyed engine clock
  tracked := fun _ hm => absurd hm List.not_mem_nil
  entry := he
  gathered := nofun

theorem step_ordered (hs : Ordered s) (h : s.step host call = some t) : Ordered t := by
  by_cases hr : call.Restarts
  · cases call with
    | restart py engine => exact Option.some.inj h ▸ boot_ordered py engine _ hs.entry
    | _ => exact hr.elim
  · have hacts : Acts host s t call := step_acts hs.keyed hs.entry h hr
    refine ⟨hacts.keyed, ?_, ?_, fun schedule hsaving => ?_⟩
    · rcases step_steady h hr with hsteady | ⟨now, hcollect⟩
      · exact hsteady.tracked hs.tracked
      · exact collect_tracked hs.keyed hcollect
    · rcases hacts.entry with he | he | he
      · rw [he]
        exact hs.entry
      · rw [he]
        exact saved_wellStored hacts.keyed _
      · exact hs.gathered _ he
    · rcases hacts.gathered hsaving with ⟨hbefore, -⟩ | ⟨rfl, -, -⟩
      · exact hs.gathered schedule hbefore
      · exact saved_wellStored hs.keyed _

-- Nothing of the job is left, in memory, in a tick or in the storage.
structure Cleared (s : Service) (id : JobId) : Prop where
  jobs : id ∉ s.scheduler.jobs
  due : s.scheduler.engine → id ∉ s.scheduler.dueIds
  gathered : ∀ schedule, s.saving = .gathered schedule → id ∉ schedule
  entry : id ∉ s.entry

theorem step_cleared (hs : Ordered s) (hc : Cleared s id) (h : s.step host call = some t)
    (hreuses : call.reuses id = false) : Cleared t id := by
  by_cases hr : call.Restarts
  · cases call with
    | restart py engine =>
        obtain rfl := Option.some.inj h
        exact {
          jobs := by simp [Service.boot, Scheduler.blank, Dict.mem_iff]
          due := fun _ => List.not_mem_nil
          gathered := nofun
          entry := hc.entry }
    | _ => exact hr.elim
  · have hacts : Acts host s t call := step_acts hs.keyed hs.entry h hr
    have hjobs : id ∉ t.scheduler.jobs := by
      intro hm
      rcases step_mem hs.keyed hs.entry h hr hreuses hm with hbefore | hstored
      · exact hc.jobs hbefore
      · exact hc.entry hstored
    refine ⟨hjobs, fun hengine hdue => ?_, fun schedule hsaving => ?_, ?_⟩
    · rcases step_steady h hr with hsteady | ⟨now, hcollect⟩
      · exact hc.due (hsteady.engine ▸ hengine) (hsteady.dueIds hs.tracked hdue)
      · exact hc.jobs (collect_dueIds hs.keyed hcollect hdue)
    · rcases hacts.gathered hsaving with ⟨hbefore, -⟩ | ⟨rfl, -, -⟩
      · exact hc.gathered schedule hbefore
      · exact not_mem_saved hc.jobs
    · rcases hacts.entry with he | he | he
      · rw [he]
        exact hc.entry
      · rw [he]
        exact not_mem_saved hjobs
      · exact hc.gathered _ he

-- What goes to the engine is the first of the due jobs.
theorem Cleared.submits (hc : Cleared s id) (call : Call) : s.submits id call = false := by
  cases call with
  | submit now other contextId accepted =>
      rw [Service.submits]
      cases hengine : s.scheduler.engine with
      | false => rfl
      | true =>
          have hdue : id ∉ s.scheduler.dueIds := hc.due hengine
          cases hpending : s.scheduler.pending with
          | nil => rfl
          | cons entry rest =>
              have hne : s.scheduler.ids[entry.1]? ≠ some id := by
                intro hid
                refine hdue (List.mem_filterMap.mpr ⟨entry, ?_, hid⟩)
                rw [hpending]
                exact List.mem_cons_self
              simpa using hne
  | _ => rfl

end Calls

variable {u v : Unscheduling} {move : Move}

namespace Unscheduling

-- What holds in every state, as long as the return was timely.
structure Sound (u : Unscheduling) : Prop where
  ordered : Ordered u.service
  gone : u.removal ≠ .notCalled → u.id ∉ u.service.scheduler.jobs
  snapshot : ∀ schedule, u.removal = .gathered schedule → WellStored schedule ∧ u.id ∉ schedule
  cleared : u.removal = .returned → Cleared u.service u.id
  submitted : u.resubmitted = false

theorem removal_of_returned (h : u.returned) : u.removal = .returned := by
  unfold returned at h
  split at h
  · assumption
  · cases h

theorem Sound.final (hu : u.Sound) : u.Final where
  submitted := hu.submitted
  stored := fun hsettled => (hu.cleared (removal_of_returned (Bool.and_eq_true_iff.mp hsettled).1)).entry

theorem call_sound {call : Call} (hu : u.Sound) (h : u.step host (.call call) = some v) : v.Sound := by
  simp only [step, Option.ite_none_right_eq_some] at h
  obtain ⟨hadmits, h⟩ := h
  obtain ⟨service, hservice, rfl⟩ := Option.map_eq_some_iff.mp h
  have hcleared : u.removal = .returned → Cleared service u.id := by
    intro hreturned
    rw [admits, hreturned, Bool.not_eq_true'] at hadmits
    exact step_cleared hu.ordered (hu.cleared hreturned) hservice hadmits
  refine ⟨step_ordered hu.ordered hservice, fun hne => ?_, hu.snapshot, hcleared, ?_⟩
  · have hgone : u.id ∉ u.service.scheduler.jobs := hu.gone hne
    cases hremoval : u.removal with
    | notCalled => exact absurd hremoval hne
    | removed =>
        rw [admits, hremoval] at hadmits
        rw [lockFree_jobs hservice hadmits]
        exact hgone
    | gathered schedule =>
        rw [admits, hremoval] at hadmits
        rw [lockFree_jobs hservice hadmits]
        exact hgone
    | returned => exact (hcleared hremoval).jobs
  · show (u.resubmitted || (u.returned && u.service.submits u.id call)) = false
    rw [hu.submitted, Bool.false_or]
    cases hremoval : u.removal with
    | returned => rw [(hu.cleared hremoval).submits, Bool.and_false]
    | _ => rw [returned, hremoval, Bool.false_and]

theorem remove_sound (hu : u.Sound) (h : u.step host .remove = some v) : v.Sound := by
  simp only [step] at h
  split at h
  · rename_i hremoval
    simp only [Option.ite_none_right_eq_some, Option.some.injEq] at h
    obtain ⟨hm, rfl⟩ := h
    refine ⟨⟨?_, ?_, hu.ordered.entry, hu.ordered.gathered⟩, fun _ => ?_, nofun, nofun, hu.submitted⟩
    · exact unscheduleJob_keyed hu.ordered.keyed
    · exact (unscheduleJob_steady _ u.id).tracked hu.ordered.tracked
    · exact not_mem_unscheduleJob
  · cases h

theorem gather_sound (hu : u.Sound) (h : u.step host .gather = some v) : v.Sound := by
  simp only [step] at h
  split at h
  · rename_i hremoval
    obtain rfl := Option.some.inj h
    have hgone : u.id ∉ u.service.scheduler.jobs := hu.gone (by rw [hremoval]; nofun)
    refine ⟨hu.ordered, fun _ => hgone, fun schedule hs => ?_, nofun, hu.submitted⟩
    obtain rfl := Removal.gathered.inj hs
    exact ⟨saved_wellStored hu.ordered.keyed _, not_mem_saved hgone⟩
  · cases h

theorem store_sound (hu : u.Sound) (htimely : u.Timely .store) (h : u.step host .store = some v) :
    v.Sound := by
  simp only [step] at h
  split at h
  · rename_i schedule hremoval
    obtain rfl := Option.some.inj h
    obtain ⟨hstored, habsent⟩ := hu.snapshot schedule hremoval
    have hgone : u.id ∉ u.service.scheduler.jobs := hu.gone (by rw [hremoval]; nofun)
    obtain ⟨hdue, hgathered⟩ := htimely
    exact {
      ordered := ⟨hu.ordered.keyed, hu.ordered.tracked, hstored, hu.ordered.gathered⟩
      gone := fun _ => hgone
      snapshot := nofun
      cleared := fun _ => ⟨hgone, hdue, hgathered, habsent⟩
      submitted := hu.submitted }
  · cases h

theorem step_sound (hu : u.Sound) (htimely : u.Timely move) (h : u.step host move = some v) :
    v.Sound := by
  cases move with
  | call call => exact call_sound hu h
  | remove => exact remove_sound hu h
  | gather => exact gather_sound hu h
  | store => exact store_sound hu htimely h

theorem timely_of_ne (hne : move ≠ .store) (u : Unscheduling) : u.Timely move := by
  cases move with
  | store => exact absurd rfl hne
  | _ => trivial

-- Between two ticks, every return is timely.
theorem timely_of_atRest (h : u.service.atRest) : u.Timely .store := by
  obtain ⟨hnone, hidle⟩ := Bool.and_eq_true_iff.mp h
  have hpending : u.service.scheduler.pending = [] :=
    List.isEmpty_iff.mp (Bool.and_eq_true_iff.mp hnone).1
  refine ⟨fun _ hdue => ?_, fun schedule hsaving => ?_⟩
  · rw [Scheduler.dueIds, hpending] at hdue
    exact absurd hdue List.not_mem_nil
  · rw [hsaving] at hidle
    cases hidle

end Unscheduling

-- The start of a process on a schedule, before the job is unscheduled.
def Schedule.unscheduling (schedule : Schedule) (py : Interpreter) (engine : Bool) (clock : Time)
    (id : JobId) : Unscheduling where
  id := id
  service := .boot py engine clock schedule.jobs
  removal := .notCalled
  resubmitted := false

-- In every interleaving, a job that was unscheduled stays away from the engine and from the storage
-- if unschedule_job does not return while a tick holds on to the job.
theorem unscheduled_job_stays_away (host : Host) (py : Interpreter) (engine : Bool) (clock : Time)
    (schedule : Schedule) (id : JobId) (moves : List Move) (u : Unscheduling)
    (hrun : Run (Unscheduling.step host) (schedule.unscheduling py engine clock id) moves u)
    (htimely : Meets (Unscheduling.step host) Unscheduling.Timely
      (schedule.unscheduling py engine clock id) moves) : u.Final := by
  have hstart : (schedule.unscheduling py engine clock id).Sound := {
    ordered := boot_ordered py engine clock schedule.stored
    gone := fun hne => absurd rfl hne
    snapshot := nofun
    cleared := nofun
    submitted := rfl }
  have hsound : u.Sound := hrun.invariant Unscheduling.Sound
    (fun _ _ _ hu htimely h => Unscheduling.step_sound hu htimely h) htimely hstart
  exact hsound.final

section Sample

def backups : Unscheduling := Schedule.empty.unscheduling tasks true 0 "backup"

-- A whole tick that triggers the job.
def triggering : List Move :=
  [.call (.scheduleJob 0 (everyMinute "backup")), .call (.collect 60),
    .call (.submit 60 "exec" none true), .call (.reschedule 60 60), .call .gather, .call .write]

-- The removal comes when the tick is over, and the next tick finds nothing.
theorem unscheduled_between_ticks : ∃ u, Run (Unscheduling.step utc) backups
    (triggering ++ [.remove, .gather] ++ [.store, .call (.collect 120)]) u ∧ u.settled ∧ u.Final := by
  obtain ⟨v, hv, hrest⟩ : ∃ v, Run (Unscheduling.step utc) backups (triggering ++ [.remove, .gather]) v ∧
      v.service.atRest := Run.of_any (by decide +kernel)
  obtain ⟨u, hu, hsettled⟩ : ∃ u, Run (Unscheduling.step utc) backups
      (triggering ++ [.remove, .gather] ++ [.store, .call (.collect 120)]) u ∧ u.settled :=
    Run.of_any (by decide +kernel)
  refine ⟨u, hu, hsettled, unscheduled_job_stays_away _ _ _ _ _ _ _ _ hu ?_⟩
  have hfirst : ∀ move ∈ triggering ++ [.remove, .gather], move ≠ Move.store := by
    rintro move hm rfl
    simp [triggering] at hm
  refine (Meets.append hv).mpr ⟨Meets.of_forall fun move hm => Unscheduling.timely_of_ne (hfirst move hm), ?_⟩
  refine fun w hw => ⟨Unscheduling.timely_of_atRest hrest, Meets.of_forall fun move hm => ?_⟩
  obtain rfl := List.mem_singleton.mp hm
  exact fun _ => trivial

-- A tick has collected the job before the removal, and submits it after the return.
def submittedLate : List Move :=
  [.call (.scheduleJob 0 (everyMinute "backup")), .call (.collect 60), .remove, .gather, .store,
    .call (.submit 60 "exec" none true)]

-- A tick has gathered the schedule before the removal, and writes it after the return.
def writtenLate : List Move :=
  [.call (.scheduleJob 0 (everyMinute "backup")), .call (.collect 60),
    .call (.submit 60 "exec" none true), .call (.reschedule 60 60), .call .gather,
    .remove, .gather, .store, .call .write]

theorem tick_outlives_removal :
    (∃ u, Run (Unscheduling.step utc) backups submittedLate u ∧ u.returned ∧ u.resubmitted) ∧
      ∃ u, Run (Unscheduling.step utc) backups writtenLate u ∧ u.settled ∧
        "backup" ∈ u.service.entry := by
  constructor
  · obtain ⟨u, hu, h⟩ : ∃ u, Run (Unscheduling.step utc) backups submittedLate u ∧
        (u.returned && u.resubmitted) := Run.of_any (by decide +kernel)
    exact ⟨u, hu, Bool.and_eq_true_iff.mp h⟩
  · obtain ⟨u, hu, h⟩ : ∃ u, Run (Unscheduling.step utc) backups writtenLate u ∧
        (u.settled && (u.service.entry.get? "backup").isSome) := Run.of_any (by decide +kernel)
    obtain ⟨hsettled, hstored⟩ := Bool.and_eq_true_iff.mp h
    exact ⟨u, hu, hsettled, (Dict.mem_iff _ _).mpr (Option.isSome_iff_exists.mp hstored)⟩

end Sample

end YasinCore.Scheduling
