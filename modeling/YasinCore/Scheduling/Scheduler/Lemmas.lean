import YasinCore.Scheduling.Scheduler

namespace YasinCore.Scheduling

open YasinCore.Library YasinCore.Execution

variable {host : Host} {s t : Scheduler} {now ran : Time} {arguments job : ScheduledJob}

theorem init_id (h : arguments.init host now = some job) : job.id = arguments.id := by
  unfold ScheduledJob.init at h
  cases hdue : arguments.nextRunTime with
  | some due =>
      rw [hdue] at h
      exact Option.some.inj h ▸ rfl
  | none =>
      rw [hdue] at h
      obtain ⟨next, -, rfl⟩ := Option.map_eq_some_iff.mp h
      rfl

theorem due?_eq_some {ref : Nat} {found : Nat × Time} (h : s.due? now ref = some found) :
    found.1 = ref ∧ found.2 ≤ now ∧
      ∃ job, s.objects[ref]? = some job ∧ job.nextRunTime = some found.2 := by
  obtain ⟨job, hjob, h⟩ := Option.bind_eq_some_iff.mp h
  obtain ⟨due, hdue, h⟩ := Option.bind_eq_some_iff.mp h
  obtain ⟨_, hguard, h⟩ := Option.bind_eq_some_iff.mp h
  obtain rfl := Option.some.inj h
  have hle : due ≤ now ∧ job.cancelled = false := by simpa [guard] using hguard
  exact ⟨rfl, hle.1, job, hjob, hdue⟩

theorem collect_spec (h : s.collect now = some t) : s.pending = [] ∧ s.inFlight = none ∧
    t = { s with clock := now, pending := s.jobs.values.filterMap (s.due? now) } := by
  unfold Scheduler.collect at h
  split at h
  · next hc => exact ⟨hc.1, Option.isNone_iff_eq_none.mp hc.2, (Option.some.inj h).symm⟩
  · cases h

-- A submission that does not come about takes jobs off the tick; otherwise the job is in flight.
theorem submit_spec {id : JobId} {contextId : Option String} {accepted : Bool}
    (h : s.submit now id contextId accepted = some t) : ∃ ref due pending, s.inFlight = none ∧
      s.pending = (ref, due) :: pending ∧
        ((∃ rest, rest.Sublist s.pending ∧ t = { s with clock := now, pending := rest }) ∨
          ∃ exec, t = { s with
            clock := now
            pending := pending
            inFlight := some { ref := ref, due := due, time := now, job := exec } }) := by
  unfold Scheduler.submit at h
  split at h
  · next ref due pending hf hp =>
      refine ⟨ref, due, pending, hf, hp, ?_⟩
      obtain ⟨job, -, ht⟩ := Option.map_eq_some_iff.mp h
      split at ht
      · exact .inl ⟨pending, hp ▸ List.sublist_cons_self _ _, ht.symm⟩
      · split at ht
        · exact .inl ⟨[], List.nil_sublist _, ht.symm⟩
        · exact .inr ⟨_, ht.symm⟩
  · cases h

-- The end of a trigger: the object is replaced, and on an exception the tick ends.
def Scheduler.finish (s : Scheduler) (now : Time) (sub : Submission) (job : ScheduledJob)
    (totalTriggers : Nat) (rest : List (Nat × Time)) : Scheduler :=
  { s with
    objects := s.objects.set sub.ref job
    totalTriggers := totalTriggers
    clock := now
    pending := rest
    inFlight := none
    triggered := s.triggered ++ [sub] }

theorem reschedule_spec (h : s.reschedule host ran now = some t) : ∃ sub job,
    s.inFlight = some sub ∧ s.objects[sub.ref]? = some job ∧
      ((∃ next, (job.counted ran).calculateNextRun host now = some next ∧
          t = s.finish now sub next (s.totalTriggers + 1) s.pending) ∨
        ((job.counted ran).calculateNextRun host now = none ∧
          t = s.finish now sub (job.counted ran) s.totalTriggers [])) := by
  obtain ⟨sub, hf, h⟩ := Option.bind_eq_some_iff.mp h
  obtain ⟨job, hjob, h⟩ := Option.bind_eq_some_iff.mp h
  refine ⟨sub, job, hf, hjob, ?_⟩
  cases hn : (job.counted ran).calculateNextRun host now with
  | some next =>
      simp only [hn] at h
      exact .inl ⟨next, rfl, (Option.some.inj h).symm⟩
  | none =>
      simp only [hn] at h
      exact .inr ⟨rfl, (Option.some.inj h).symm⟩

theorem reschedule_fails {sub : Submission} {job : ScheduledJob}
    (hf : s.inFlight = some sub) (hjob : s.objects[sub.ref]? = some job)
    (hn : (job.counted ran).calculateNextRun host now = none) :
    s.reschedule host ran now = some (s.finish now sub (job.counted ran) s.totalTriggers []) := by
  rw [Scheduler.reschedule, hf]
  simp only [Option.bind_eq_bind, Option.bind_some, hjob, hn]
  rfl

end YasinCore.Scheduling
