import YasinCore.Execution.Ownership

namespace YasinCore.Execution

open YasinCore.Library

namespace State

-- A call that leaves a job alone, and all assignments, queues and the memory with it.
structure Untouched (s t : State) (jobId : JobId) : Prop where
  job : ∀ ref, s.jobs.get? jobId = some ref → t.heap ref = s.heap ref
  nodes : ∀ workerId, (t.workers.get? workerId).map (fun node => (node.assignedJobs, node.queue)) =
    (s.workers.get? workerId).map fun node => (node.assignedJobs, node.queue)
  memory : t.memory = s.memory

-- The job shows already all that the report writes. A report of success or of failure is never so:
-- it goes to the memory or back into a queue.
def Repeats (job : Job) (status : JobStatus) (result error : Option String) (now : Time) : Prop :=
  job.status = status ∧
    match status with
    | .pending | .queued => True
    | .running => job.startedAt = some now
    | .cancelled => job.completedAt = some now ∧ job.result = result ∧ job.error = error
    | .completed | .failed => False

section Known

variable (s : State) {workerId : WorkerId} {node : WorkerNode} {jobId : JobId} {ref : JobRef}
  {result error : Option String} {now : Time}

-- A finished job that was not assigned is taken off no assignments.
theorem complete_of_notMem (h : jobId ∉ node.assignedJobs) : node.complete jobId = node := by
  unfold WorkerNode.complete
  rw [Dict.erase_of_notMem h]

theorem setNode_map_get? (hw : s.workers.get? workerId = some node) (other : WorkerId) :
    ((s.workers.set workerId node).get? other).map (fun node => (node.assignedJobs, node.queue)) =
      (s.workers.get? other).map fun node => (node.assignedJobs, node.queue) := by
  rw [Dict.get?_set]
  split
  · rename_i he
    rw [he, hw]
  · rfl

-- A retry is counted, whoever reports the failure.
theorem not_untouched_of_retry (hj : s.jobs.get? jobId = some ref) (hr : (s.heap ref).CanRetry) :
    ¬Untouched s (s.applyReport workerId node jobId ref .failed result error now) jobId := by
  intro h
  obtain ⟨_, _, _, _, hheap⟩ :=
    s.applyReport_heap_self workerId node jobId ref .failed result error now
  have hsame := h.job ref hj
  rw [hheap] at hsame
  have hcount := congrArg Job.retryCount hsame
  simp only [true_and, if_pos hr] at hcount
  omega

-- A success, and a failure without retries, is put into the memory.
theorem not_untouched_of_save (t : State) (ref : JobRef) (h : t.memory = s.memory) :
    ¬Untouched s (t.saveToMemory ref) jobId := by
  intro hu
  have hlength := congrArg List.length hu.memory
  simp only [saveToMemory, h, List.length_cons] at hlength
  omega

theorem untouched_running_iff (hj : s.jobs.get? jobId = some ref) :
    Untouched s (s.applyReport workerId node jobId ref .running result error now) jobId ↔
      Repeats (s.heap ref) .running result error now := by
  have hheap : (s.applyReport workerId node jobId ref .running result error now).heap ref =
      { s.heap ref with status := .running, startedAt := some now } := by
    simp [applyReport, recordReport]
  constructor
  · intro h
    have hsame := h.job ref hj
    rw [hheap] at hsame
    exact ⟨(congrArg Job.status hsame).symm, (congrArg Job.startedAt hsame).symm⟩
  · rintro ⟨hstatus, hstarted⟩
    refine ⟨fun other ho => ?_, fun _ => rfl, rfl⟩
    obtain rfl := Option.some.inj (hj.symm.trans ho)
    rw [hheap, ← hstatus, ← hstarted]

theorem untouched_cancelled_iff (hw : s.workers.get? workerId = some node)
    (hj : s.jobs.get? jobId = some ref) (hlate : jobId ∉ node.assignedJobs) :
    Untouched s (s.applyReport workerId node jobId ref .cancelled result error now) jobId ↔
      Repeats (s.heap ref) .cancelled result error now := by
  have hheap : (s.applyReport workerId node jobId ref .cancelled result error now).heap ref =
      { s.heap ref with
        status := .cancelled, completedAt := some now, result := result, error := error } := by
    simp [applyReport, recordReport, JobStatus.Terminal]
  constructor
  · intro h
    have hsame := h.job ref hj
    rw [hheap] at hsame
    exact ⟨(congrArg Job.status hsame).symm, (congrArg Job.completedAt hsame).symm,
      (congrArg Job.result hsame).symm, (congrArg Job.error hsame).symm⟩
  · rintro ⟨hstatus, hcompleted, hresult, herror⟩
    refine ⟨fun other ho => ?_, fun other => ?_, ?_⟩
    · obtain rfl := Option.some.inj (hj.symm.trans ho)
      rw [hheap, ← hstatus, ← hcompleted, ← hresult, ← herror]
    · rw [applyReport_workers, if_neg (by simp), if_pos (.inr (.inr rfl)), complete_of_notMem hlate]
      exact setNode_map_get? s hw other
    · exact s.recordReport_memory workerId node jobId ref .cancelled result error now

theorem untouched_waiting_iff (hj : s.jobs.get? jobId = some ref) {status : JobStatus}
    (hwaiting : status = .pending ∨ status = .queued) :
    Untouched s (s.applyReport workerId node jobId ref status result error now) jobId ↔
      Repeats (s.heap ref) status result error now := by
  have hreport : s.applyReport workerId node jobId ref status result error now =
      s.updateJob ref fun job => { job with status := status } := by
    rcases hwaiting with rfl | rfl
    · rfl
    · rfl
  have hrepeats : Repeats (s.heap ref) status result error now ↔ (s.heap ref).status = status := by
    rcases hwaiting with rfl | rfl
    · exact iff_of_eq (and_true _)
    · exact iff_of_eq (and_true _)
  rw [hreport, hrepeats]
  constructor
  · intro h
    have hsame := h.job ref hj
    rw [updateJob_heap_self] at hsame
    exact (congrArg Job.status hsame).symm
  · intro hstatus
    refine ⟨fun other ho => ?_, fun _ => rfl, rfl⟩
    obtain rfl := Option.some.inj (hj.symm.trans ho)
    rw [updateJob_heap_self, ← hstatus]

end Known

-- A report by a worker to which the job is not assigned leaves everything as it is exactly when one
-- of the two is unknown, or when the report says nothing new.
theorem late_report_untouched_iff (s : State) (workerId : WorkerId) (jobId : JobId)
    (status : JobStatus) (result error : Option String) (now : Time)
    (hlate : ∀ node, s.workers.get? workerId = some node → jobId ∉ node.assignedJobs) :
    Untouched s (s.reportJobStatus workerId jobId status result error now).2 jobId ↔
      ∀ node ref, s.workers.get? workerId = some node → s.jobs.get? jobId = some ref →
        Repeats (s.heap ref) status result error now := by
  rcases s.reportJobStatus_cases workerId jobId status result error now with
    ⟨hunknown, he⟩ | ⟨node, ref, hw, hj, he⟩
  · rw [he]
    refine iff_of_true ⟨fun _ _ => rfl, fun _ => rfl, rfl⟩ fun node ref hw hj => ?_
    rcases hunknown with hunknown | hunknown
    · exact absurd ((Dict.mem_iff _ _).mpr ⟨node, hw⟩) hunknown
    · rw [hunknown] at hj
      cases hj
  · rw [he]
    simp only [hw, hj, Option.some.injEq, forall_eq', forall_apply_eq_imp_iff]
    cases status with
    | pending => exact untouched_waiting_iff s hj (.inl rfl)
    | queued => exact untouched_waiting_iff s hj (.inr rfl)
    | running => exact untouched_running_iff s hj
    | cancelled => exact untouched_cancelled_iff s hw hj (hlate node hw)
    | completed =>
        refine iff_of_false (not_untouched_of_save s _ ref ?_) fun h => h.2
        exact s.recordReport_memory workerId node jobId ref .completed result error now
    | failed =>
        refine iff_of_false ?_ fun h => h.2
        by_cases hr : (s.heap ref).CanRetry
        · exact not_untouched_of_retry s hj hr
        · have hsaved :=
            (s.recordReport_canRetry workerId node jobId ref .failed result error now).not.mpr hr
          simp only [applyReport, if_neg hsaved]
          refine not_untouched_of_save s _ ref ?_
          exact s.recordReport_memory workerId node jobId ref .failed result error now

-- A report about a job that nobody has submitted
theorem late_report_untouched_unknown :
    Untouched ((start fun _ => sharedJob).registerWorker "w1" "first" [] .empty 0)
      (((start fun _ => sharedJob).registerWorker "w1" "first" [] .empty 0).reportJobStatus "w1"
        "job-1" .completed none none 1).2 "job-1" := by
  refine (late_report_untouched_iff _ "w1" "job-1" .completed none none 1 ?_).mpr ?_
  · rintro node hw
    cases hw
    exact List.not_mem_nil
  · rintro node ref hw hj
    cases hj

def retriedJob : Job :=
  Job.init (.callable "task") (Dict.empty.set "worker_id" "w1") "job-1" none 20 1 none none 0

-- The first worker is silent until its job has been recovered; the job is then assigned to the
-- second one, which runs it.
def recoveredRun : List Action :=
  [.registerWorker "w1" "first" [] .empty 0, .sendHeartbeat "w1" .empty 0, .submitJob 0 none,
    .fetchJob "w1" 0, .reportJobStatus "w1" "job-1" .running none none 1,
    .registerWorker "w2" "second" [] .empty 20, .sendHeartbeat "w2" .empty 20, .monitorWorkers 20,
    .monitorWorkers 21, .assignJob "job-1" "w2", .fetchJob "w2" 0,
    .reportJobStatus "w2" "job-1" .running none none 22]

def afterLateFailure (s : State) : State :=
  (s.reportJobStatus "w1" "job-1" .failed none (some "late") 23).2

-- The late failure of the first worker takes the job from RUNNING to QUEUED and puts it into the
-- first worker's queue, while the second one still has it.
def Disturbed (s : State) : Prop :=
  (∀ node ∈ s.workers.get? "w1", "job-1" ∉ node.assignedJobs) ∧
    (∃ node ∈ s.workers.get? "w2", node.assignedJobs.get? "job-1" = some 0) ∧
    s.jobs.get? "job-1" = some 0 ∧ (s.heap 0).status = .running ∧
    (∃ node ∈ (afterLateFailure s).workers.get? "w1", node.queue = [0]) ∧
    ((afterLateFailure s).heap 0).status = .queued

instance (s : State) : Decidable (Disturbed s) :=
  inferInstanceAs (Decidable (_ ∧ _ ∧ _ ∧ _ ∧ _ ∧ _))

theorem late_failure_disturbs_job : ∃ s, Run step (start fun _ => retriedJob) recoveredRun s ∧
    Disturbed s ∧ ¬Untouched s (afterLateFailure s) "job-1" := by
  have hrun : (recoveredRun.foldlM step (start fun _ => retriedJob)).any fun s => Disturbed s := by
    decide +kernel
  obtain ⟨s, hr, hp⟩ := Run.of_any hrun
  have hd : Disturbed s := of_decide_eq_true hp
  refine ⟨s, hr, hd, fun h => ?_⟩
  obtain ⟨-, -, hj, hrunning, -, hqueued⟩ := hd
  have hsame := congrArg Job.status (h.job 0 hj)
  rw [hrunning] at hsame
  exact JobStatus.noConfusion (hqueued.symm.trans hsame)

end State

end YasinCore.Execution
