import YasinCore.Execution.Worker

namespace YasinCore.Execution.State

open YasinCore.Library

-- A submitted job is found under its id.
theorem registerJob_registered (s : State) (ref : JobRef) (context : Option String) :
    (s.registerJob ref context).jobs.get? ((s.registerJob ref context).heap ref).id = some ref := by
  simp [registerJob]

section HandOver

variable (s : State) (workerId : WorkerId) (node : WorkerNode) (jobId : JobId) (ref : JobRef)

@[simp] theorem handOver_heap : (s.handOver workerId node jobId ref).heap =
    (s.updateJob ref fun job => { job with workerId := some workerId, status := .queued }).heap := rfl
@[simp] theorem handOver_queue : (s.handOver workerId node jobId ref).queue = s.queue := rfl
@[simp] theorem handOver_jobs : (s.handOver workerId node jobId ref).jobs = s.jobs := rfl
@[simp] theorem handOver_hands : (s.handOver workerId node jobId ref).hands = s.hands := rfl
@[simp] theorem handOver_workers : (s.handOver workerId node jobId ref).workers =
    s.workers.set workerId (node.assign jobId ref) := rfl

end HandOver

-- An assignment is refused without effect, or hands the registered job over to an active node.
theorem assignJob_cases (s : State) (jobId : JobId) (workerId : WorkerId) :
    s.assignJob jobId workerId = (false, s) ∨
      ∃ node ref, s.workers.get? workerId = some node ∧ node.status = .active ∧
        s.jobs.get? jobId = some ref ∧
        s.assignJob jobId workerId = (true, s.handOver workerId node jobId ref) := by
  unfold assignJob getJob
  cases hw : s.workers.get? workerId with
  | none => exact .inl rfl
  | some node =>
      by_cases ha : node.status = .active
      · cases hj : s.jobs.get? jobId with
        | none => left; simp [ha]
        | some ref => exact .inr ⟨node, ref, rfl, ha, rfl, by simp [ha]⟩
      · exact .inl (if_pos ha)

theorem assignJobByCapability_cases (s : State) (ref : JobRef) :
    s.assignJobByCapability ref = (none, s) ∨
      ∃ workerId t, s.assignJob (s.heap ref).id workerId = (true, t) ∧
        s.assignJobByCapability ref = (some workerId, t) := by
  unfold assignJobByCapability
  dsimp only
  split
  · exact .inl rfl
  · rename_i first rest _
    rcases s.assignJob_cases (s.heap ref).id (leastLoaded first rest).id with h | ⟨_, _, _, _, _, h⟩
    · exact .inl (by rw [h])
    · exact .inr ⟨_, _, h, by rw [h]⟩

theorem routeAnywhere_some {s t : State} {ref : JobRef} (h : s.routeAnywhere ref = some t) :
    ∃ workerId, s.assignJob (s.heap ref).id workerId = (true, t) := by
  unfold routeAnywhere at h
  rcases s.assignJobByCapability_cases ref with hc | ⟨workerId, u, ha, hc⟩
  · simp [hc] at h
  · rw [hc] at h
    exact ⟨workerId, Option.some.inj h ▸ ha⟩

-- A routed job has been accepted by some worker.
theorem routeToWorker_some {s t : State} {ref : JobRef} (h : s.routeToWorker ref = some t) :
    ∃ workerId, s.assignJob (s.heap ref).id workerId = (true, t) := by
  unfold routeToWorker at h
  split at h
  · cases h
  rcases Option.or_eq_some_iff.mp h with h | ⟨-, h⟩
  · unfold routeExplicitly at h
    split at h
    · rename_i workerId _
      rcases s.assignJob_cases (s.heap ref).id workerId with ha | ⟨_, _, _, _, _, ha⟩
      · simp [ha] at h
      · rw [ha] at h
        exact ⟨workerId, Option.some.inj h ▸ ha⟩
    · cases h
  rcases Option.or_eq_some_iff.mp h with h | ⟨-, h⟩
  · unfold routeByCapability at h
    split at h
    · exact routeAnywhere_some h
    · cases h
  · unfold routeByTarget at h
    split at h
    · split at h
      · cases h
      · exact routeAnywhere_some h
    · cases h

section Report

variable (s : State) (workerId : WorkerId) (node : WorkerNode) (jobId : JobId) (ref : JobRef)
  (status : JobStatus) (result error : Option String) (now : Time)

theorem reportJobStatus_cases :
    (workerId ∉ s.workers ∨ s.jobs.get? jobId = none) ∧
        s.reportJobStatus workerId jobId status result error now = (false, s) ∨
      ∃ node ref, s.workers.get? workerId = some node ∧ s.jobs.get? jobId = some ref ∧
        s.reportJobStatus workerId jobId status result error now =
          (true, s.applyReport workerId node jobId ref status result error now) := by
  unfold reportJobStatus getJob
  cases hw : s.workers.get? workerId with
  | none => exact .inl ⟨.inl ((Dict.get?_eq_none_iff _ _).mp hw), rfl⟩
  | some node =>
      cases hj : s.jobs.get? jobId with
      | none => exact .inl ⟨.inr rfl, rfl⟩
      | some ref => exact .inr ⟨node, ref, rfl, rfl, rfl⟩

@[simp] theorem recordReport_queue :
    (s.recordReport workerId node jobId ref status result error now).queue = s.queue := by
  unfold recordReport; split_ifs <;> rfl

@[simp] theorem recordReport_jobs :
    (s.recordReport workerId node jobId ref status result error now).jobs = s.jobs := by
  unfold recordReport; split_ifs <;> rfl

@[simp] theorem recordReport_hands :
    (s.recordReport workerId node jobId ref status result error now).hands = s.hands := by
  unfold recordReport; split_ifs <;> rfl

@[simp] theorem recordReport_memory :
    (s.recordReport workerId node jobId ref status result error now).memory = s.memory := by
  unfold recordReport; split_ifs <;> rfl

@[simp] theorem recordReport_workers :
    (s.recordReport workerId node jobId ref status result error now).workers =
      if status.Terminal then s.workers.set workerId (node.complete jobId) else s.workers := by
  unfold recordReport
  split_ifs with hr ht ht
  · subst hr; simp [JobStatus.Terminal] at ht
  all_goals rfl

theorem recordReport_heap_of_ne {other : JobRef} (h : other ≠ ref) :
    (s.recordReport workerId node jobId ref status result error now).heap other = s.heap other := by
  unfold recordReport; split_ifs <;> simp [updateJob_heap, h]

-- A report rewrites the status, the outcome and the times of a job, and nothing else of it.
theorem recordReport_heap_self : ∃ startedAt completedAt result' error',
    (s.recordReport workerId node jobId ref status result error now).heap ref =
      { s.heap ref with
        status := status, startedAt := startedAt, completedAt := completedAt, result := result',
        error := error' } := by
  unfold recordReport
  split_ifs
  · exact ⟨some now, (s.heap ref).completedAt, (s.heap ref).result, (s.heap ref).error, by simp⟩
  · exact ⟨(s.heap ref).startedAt, some now, result, error, by simp⟩
  · exact ⟨(s.heap ref).startedAt, (s.heap ref).completedAt, (s.heap ref).result,
      (s.heap ref).error, by simp⟩

theorem recordReport_canRetry :
    ((s.recordReport workerId node jobId ref status result error now).heap ref).CanRetry ↔
      (s.heap ref).CanRetry := by
  obtain ⟨_, _, _, _, h⟩ := s.recordReport_heap_self workerId node jobId ref status result error now
  rw [h]
  exact Iff.rfl

-- The status a report leaves behind; a retried failure goes back to QUEUED.
def reportedStatus (job : Job) (status : JobStatus) : JobStatus :=
  if status = .failed ∧ job.CanRetry then .queued else status

-- Everything a report does to the shared state, split by whether it retries the job.
theorem applyReport_retry (h : (s.heap ref).CanRetry) :
    s.applyReport workerId node jobId ref .failed result error now =
      (s.recordReport workerId node jobId ref .failed result error now).retryOnWorker workerId node
        jobId ref :=
  if_pos ((s.recordReport_canRetry ..).mpr h)

theorem applyReport_no_retry (h : ¬(status = .failed ∧ (s.heap ref).CanRetry)) :
    ∃ events memory, s.applyReport workerId node jobId ref status result error now =
      { s.recordReport workerId node jobId ref status result error now with
        events := events, memory := memory } := by
  cases status with
  | failed =>
      have hr := mt (s.recordReport_canRetry workerId node jobId ref .failed result error now).mp
        (fun hc => h ⟨rfl, hc⟩)
      exact ⟨_, _, if_neg hr⟩
  | pending | queued | running | completed | cancelled => exact ⟨_, _, rfl⟩

@[simp] theorem applyReport_queue :
    (s.applyReport workerId node jobId ref status result error now).queue = s.queue := by
  by_cases h : status = .failed ∧ (s.heap ref).CanRetry
  · obtain ⟨rfl, h⟩ := h
    simp [applyReport_retry _ _ _ _ _ _ _ _ h, retryOnWorker]
  · obtain ⟨_, _, he⟩ := s.applyReport_no_retry workerId node jobId ref status result error now h
    simp [he]

@[simp] theorem applyReport_jobs :
    (s.applyReport workerId node jobId ref status result error now).jobs = s.jobs := by
  by_cases h : status = .failed ∧ (s.heap ref).CanRetry
  · obtain ⟨rfl, h⟩ := h
    simp [applyReport_retry _ _ _ _ _ _ _ _ h, retryOnWorker]
  · obtain ⟨_, _, he⟩ := s.applyReport_no_retry workerId node jobId ref status result error now h
    simp [he]

@[simp] theorem applyReport_hands :
    (s.applyReport workerId node jobId ref status result error now).hands = s.hands := by
  by_cases h : status = .failed ∧ (s.heap ref).CanRetry
  · obtain ⟨rfl, h⟩ := h
    simp [applyReport_retry _ _ _ _ _ _ _ _ h, retryOnWorker]
  · obtain ⟨_, _, he⟩ := s.applyReport_no_retry workerId node jobId ref status result error now h
    simp [he]

theorem applyReport_workers :
    (s.applyReport workerId node jobId ref status result error now).workers =
      if status = .failed ∧ (s.heap ref).CanRetry then
        (s.workers.set workerId (node.complete jobId)).set workerId
          ((node.complete jobId).assign jobId ref)
      else if status.Terminal then s.workers.set workerId (node.complete jobId)
      else s.workers := by
  by_cases h : status = .failed ∧ (s.heap ref).CanRetry
  · obtain ⟨rfl, h⟩ := h
    simp [applyReport_retry _ _ _ _ _ _ _ _ h, retryOnWorker, h, JobStatus.Terminal]
  · obtain ⟨_, _, he⟩ := s.applyReport_no_retry workerId node jobId ref status result error now h
    simp [he, h]

theorem applyReport_heap_of_ne {other : JobRef} (hne : other ≠ ref) :
    (s.applyReport workerId node jobId ref status result error now).heap other = s.heap other := by
  have hr := s.recordReport_heap_of_ne workerId node jobId ref status result error now hne
  by_cases h : status = .failed ∧ (s.heap ref).CanRetry
  · obtain ⟨rfl, h⟩ := h
    simp [applyReport_retry _ _ _ _ _ _ _ _ h, retryOnWorker, updateJob_heap, hne, hr]
  · obtain ⟨_, _, he⟩ := s.applyReport_no_retry workerId node jobId ref status result error now h
    simp [he, hr]

-- A report rewrites the status, the outcome and the times of its job; a retry also counts.
theorem applyReport_heap_self : ∃ startedAt completedAt result' error',
    (s.applyReport workerId node jobId ref status result error now).heap ref =
      { s.heap ref with
        status := reportedStatus (s.heap ref) status,
        retryCount := if status = .failed ∧ (s.heap ref).CanRetry then (s.heap ref).retryCount + 1
          else (s.heap ref).retryCount,
        startedAt := startedAt, completedAt := completedAt, result := result', error := error' } := by
  obtain ⟨startedAt, completedAt, result', error', hr⟩ :=
    s.recordReport_heap_self workerId node jobId ref status result error now
  refine ⟨startedAt, completedAt, result', error', ?_⟩
  by_cases h : status = .failed ∧ (s.heap ref).CanRetry
  · obtain ⟨rfl, h⟩ := h
    simp [applyReport_retry _ _ _ _ _ _ _ _ h, retryOnWorker, reportedStatus, h, hr]
  · obtain ⟨_, _, he⟩ := s.applyReport_no_retry workerId node jobId ref status result error now h
    simp [he, hr, reportedStatus, h]

theorem applyReport_status :
    ((s.applyReport workerId node jobId ref status result error now).heap ref).status =
      reportedStatus (s.heap ref) status := by
  obtain ⟨_, _, _, _, h⟩ := s.applyReport_heap_self workerId node jobId ref status result error now
  rw [h]

@[simp] theorem applyReport_id :
    ((s.applyReport workerId node jobId ref status result error now).heap ref).id =
      (s.heap ref).id := by
  obtain ⟨_, _, _, _, h⟩ := s.applyReport_heap_self workerId node jobId ref status result error now
  rw [h]

end Report

section Recovery

@[simp] theorem requeueJob_jobs (s : State) (ref : JobRef) : (s.requeueJob ref).jobs = s.jobs := rfl
@[simp] theorem requeueJob_hands (s : State) (ref : JobRef) : (s.requeueJob ref).hands = s.hands := rfl
@[simp] theorem requeueJob_workers (s : State) (ref : JobRef) :
    (s.requeueJob ref).workers = s.workers := rfl
@[simp] theorem requeueJob_queue (s : State) (ref : JobRef) :
    (s.requeueJob ref).queue.jobs = s.queue.jobs ++ [ref] := by
  simp [requeueJob]
theorem requeueJob_heap (s : State) (ref other : JobRef) : (s.requeueJob ref).heap other =
    if other = ref then { s.heap ref with status := .queued, workerId := none }
    else s.heap other := by
  simp only [requeueJob, publishJob_heap, putQueue_heap, updateJob_heap]

variable (refs : List JobRef) (s : State)

@[simp] theorem requeueAll_jobs : (refs.foldl requeueJob s).jobs = s.jobs := by
  induction refs generalizing s with
  | nil => rfl
  | cons ref rest ih => simp [ih]

@[simp] theorem requeueAll_hands : (refs.foldl requeueJob s).hands = s.hands := by
  induction refs generalizing s with
  | nil => rfl
  | cons ref rest ih => simp [ih]

@[simp] theorem requeueAll_workers : (refs.foldl requeueJob s).workers = s.workers := by
  induction refs generalizing s with
  | nil => rfl
  | cons ref rest ih => simp [ih]

@[simp] theorem requeueAll_queue :
    (refs.foldl requeueJob s).queue.jobs = s.queue.jobs ++ refs := by
  induction refs generalizing s with
  | nil => simp
  | cons ref rest ih => simp [ih]

theorem requeueAll_heap (ref : JobRef) : (refs.foldl requeueJob s).heap ref =
    if ref ∈ refs then { s.heap ref with status := .queued, workerId := none } else s.heap ref := by
  induction refs generalizing s with
  | nil => simp
  | cons first rest ih =>
      rw [List.foldl_cons, ih, requeueJob_heap]
      by_cases hf : ref = first
      · subst hf
        by_cases hr : ref ∈ rest <;> simp [hr]
      · simp [hf]

-- One node's turn: nothing, a suspension, or the recovery of a dead node's jobs.
theorem monitorWorker_cases (now : Time) (workerId : WorkerId) :
    monitorWorker now s workerId = s ∨
      (∃ node, s.workers.get? workerId = some node ∧
        monitorWorker now s workerId =
          (s.setNode workerId { node with status := .suspended }).publishWorker "worker_suspended"
            { node with status := .suspended } none) ∨
      ∃ node, s.workers.get? workerId = some node ∧ node.status = .suspended ∧
        now - node.lastHeartbeat ≥ s.heartbeatTimeout * 2 ∧
        monitorWorker now s workerId =
          ((s.setNode workerId { node with status := .offline }).publishWorker "worker_offline"
            { node with status := .offline } none).recoverWorkerJobs workerId
              { node with status := .offline } := by
  unfold monitorWorker
  cases hw : s.workers.get? workerId with
  | none => exact .inl rfl
  | some node =>
      by_cases ha : node.status = .active
      · by_cases ht : now - node.lastHeartbeat ≥ s.heartbeatTimeout
        · exact .inr (.inl ⟨node, rfl, by simp only [ha, ht, if_true]⟩)
        · exact .inl (by simp only [ha, ht, if_true, if_false])
      · by_cases hs : node.status = .suspended
        · by_cases ht : now - node.lastHeartbeat ≥ s.heartbeatTimeout * 2
          · exact .inr (.inr ⟨node, rfl, hs, ht, by simp [hs, ht]⟩)
          · exact .inl (by simp only [hs, ht, reduceCtorEq, if_true, if_false])
        · exact .inl (by simp only [ha, hs, if_false])

end Recovery

theorem fetchJob_eq {s t : State} {workerId : WorkerId} {ref : JobRef}
    (h : step s (.fetchJob workerId ref) = some t) :
    ∃ node rest, s.workers.get? workerId = some node ∧ node.queue = ref :: rest ∧
      t = s.setNode workerId { node with queue := rest } := by
  simp only [step, fetchJob] at h
  cases hw : s.workers.get? workerId with
  | none => simp [hw] at h
  | some node =>
      cases hq : node.queue with
      | nil => simp [hw, hq] at h
      | cons first rest =>
          simp only [hw, hq] at h
          split at h
          · rename_i he
            exact ⟨node, rest, rfl, he ▸ hq, (Option.some.inj h).symm⟩
          · cases h

end YasinCore.Execution.State
