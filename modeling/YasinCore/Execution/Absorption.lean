import YasinCore.Library.Transition
import YasinCore.Execution.Worker.Lemmas

namespace YasinCore.Execution

open YasinCore.Library

def Finished (s : State) (ref : JobRef) : Prop := (s.heap ref).status.Terminal

-- The manager finds this node dead and moves its jobs back to the central queue.
def Dead (s : State) (now : Time) (node : WorkerNode) : Prop :=
  node.status = .suspended ∧ now - node.lastHeartbeat ≥ s.heartbeatTimeout * 2

instance (s : State) (now : Time) (node : WorkerNode) : Decidable (Dead s now node) :=
  inferInstanceAs (Decidable (_ ∧ _))

-- The status that a step writes to a job, when it writes one.
def statusWrite (s : State) : Action → JobRef → Option JobStatus
  | .submitJob ref _, job => if job = ref then some .queued else none
  | .cancelJob jobId _, job =>
      if s.jobs.get? jobId = some job ∧ ¬(s.heap job).status.Terminal then some .cancelled else none
  | .assignJob jobId workerId, job =>
      if (s.assignJob jobId workerId).1 ∧ s.jobs.get? jobId = some job then some .queued else none
  | .assignJobByCapability ref, job =>
      if (s.assignJobByCapability ref).1.isSome ∧ s.jobs.get? (s.heap ref).id = some job then
        some .queued
      else none
  | .reportJobStatus workerId jobId status _ _ _, job =>
      if workerId ∈ s.workers ∧ s.jobs.get? jobId = some job then
        some (State.reportedStatus (s.heap job) status)
      else none
  | .monitorWorkers now, job =>
      if ∃ node ∈ s.workers.values, Dead s now node ∧ job ∈ node.assignedJobs.values then
        some .queued
      else none
  | .checkCancelled _ ref _, job =>
      if job = ref ∧ ((s.heap ref).cancelled ∨ (s.heap ref).status = .cancelled) then some .cancelled
      else none
  | .startJob _ ref _, job => if job = ref then some .running else none
  | .succeedJob _ ref _ _, job => if job = ref then some .completed else none
  | .handleFailure _ ref _ _, job =>
      if job = ref then some (if (s.heap ref).CanRetry then .queued else .failed) else none
  | _, _ => none

-- The steps that leave finished jobs alone. None of the components but cancel itself looks at the
-- status first, so each of them has to come before the job is finished, or repeat its status.
def LeavesFinished (s : State) : Action → Prop
  | .submitJob ref _ | .startJob _ ref _ => ¬Finished s ref
  | .assignJob jobId workerId =>
      ∀ node ref, s.workers.get? workerId = some node → node.status = .active →
        s.jobs.get? jobId = some ref → ¬Finished s ref
  | .assignJobByCapability ref =>
      (s.assignJobByCapability ref).1.isSome →
        ∀ job, s.jobs.get? (s.heap ref).id = some job → ¬Finished s job
  | .reportJobStatus workerId jobId status _ _ _ =>
      workerId ∈ s.workers → ∀ ref, s.jobs.get? jobId = some ref → Finished s ref →
        status = (s.heap ref).status ∧ ¬(status = .failed ∧ (s.heap ref).CanRetry)
  | .monitorWorkers now =>
      ∀ node ∈ s.workers.values, Dead s now node → ∀ ref ∈ node.assignedJobs.values, ¬Finished s ref
  | .checkCancelled _ ref _ =>
      (s.heap ref).cancelled → (s.heap ref).status ≠ .completed ∧ (s.heap ref).status ≠ .failed
  | .succeedJob _ ref _ _ => Finished s ref → (s.heap ref).status = .completed
  | .handleFailure _ ref _ _ =>
      Finished s ref → (s.heap ref).status = .failed ∧ ¬(s.heap ref).CanRetry
  | _ => True

section StatusWrite

variable {s t : State}

theorem handOver_status (workerId : WorkerId) (node : WorkerNode) (jobId : JobId) (ref job : JobRef) :
    ((s.handOver workerId node jobId ref).heap job).status =
      if job = ref then .queued else (s.heap job).status := by
  rw [State.handOver_heap, State.updateJob_heap]
  split <;> rfl

theorem assignJob_status (jobId : JobId) (workerId : WorkerId) (job : JobRef) :
    ((s.assignJob jobId workerId).2.heap job).status =
      if (s.assignJob jobId workerId).1 ∧ s.jobs.get? jobId = some job then .queued
      else (s.heap job).status := by
  rcases s.assignJob_cases jobId workerId with he | ⟨node, ref, _, _, hj, he⟩
  · simp [he]
  · simp only [he, hj, handOver_status, true_and, Option.some.injEq, eq_comm]

theorem submitJob_status (ref : JobRef) (context : Option String) (job : JobRef) :
    ((s.submitJob ref context).heap job).status =
      if job = ref then .queued else (s.heap job).status := by
  have hr : ((s.registerJob ref context).heap job).status =
      if job = ref then .queued else (s.heap job).status := by
    by_cases h : job = ref <;> simp [State.registerJob, State.updateJob_heap, h]
  have hreg := s.registerJob_registered ref context
  unfold State.submitJob
  dsimp only
  split
  · rename_i t ht
    obtain ⟨workerId, ha⟩ := State.routeToWorker_some ht
    have hs := assignJob_status (s := s.registerJob ref context)
      ((s.registerJob ref context).heap ref).id workerId job
    rw [ha, hreg, hr] at hs
    rw [hs]
    by_cases h : job = ref
    · simp [h]
    · simp [h, Ne.symm h]
  · exact hr

theorem cancelJob_status (jobId : JobId) (now : Time) (job : JobRef) :
    ((s.cancelJob jobId now).2.heap job).status =
      if s.jobs.get? jobId = some job ∧ ¬(s.heap job).status.Terminal then .cancelled
      else (s.heap job).status := by
  unfold State.cancelJob State.getJob
  cases hj : s.jobs.get? jobId with
  | none => simp
  | some ref =>
      by_cases ht : (s.heap ref).status.Terminal
      · by_cases he : job = ref
        · simp [Job.cancel_of_terminal ht, he, ht]
        · simp [Job.cancel_of_terminal ht, State.updateJob_heap, he, Ne.symm he]
      · by_cases he : job = ref
        · simp [Job.cancel_of_not_terminal ht, he, ht]
        · simp [Job.cancel_of_not_terminal ht, State.updateJob_heap, he, Ne.symm he]

theorem recoverWorkerJobs_status (workerId : WorkerId) (node : WorkerNode) (job : JobRef) :
    ((s.recoverWorkerJobs workerId node).heap job).status =
      if job ∈ node.assignedJobs.values then .queued else (s.heap job).status := by
  simp only [State.recoverWorkerJobs, State.requeueAll_heap, State.setNode_heap]
  split <;> rfl

-- One node's turn touches no other node and requeues its jobs exactly when it is dead.
theorem monitorWorker_status (now : Time) (workerId : WorkerId) (job : JobRef) :
    ((State.monitorWorker now s workerId).heap job).status =
      if ∃ node, s.workers.get? workerId = some node ∧ Dead s now node ∧
          job ∈ node.assignedJobs.values then .queued
      else (s.heap job).status := by
  unfold State.monitorWorker
  cases hw : s.workers.get? workerId with
  | none => simp
  | some node =>
      by_cases ha : node.status = .active
      · have hd : ¬Dead s now node := fun hd => by simp [ha, Dead] at hd
        simp only [ha, if_true, Option.some.injEq, exists_eq_left', hd, false_and, if_false]
        split <;> rfl
      · by_cases hs : node.status = .suspended
        · by_cases ht : now - node.lastHeartbeat ≥ s.heartbeatTimeout * 2
          · simp [hs, ht, Dead, recoverWorkerJobs_status]
          · simp [hs, ht, Dead]
        · simp [ha, hs, Dead]

theorem monitorWorker_frame (now : Time) {workerId other : WorkerId} (h : other ≠ workerId) :
    (State.monitorWorker now s workerId).workers.get? other = s.workers.get? other := by
  rcases s.monitorWorker_cases now workerId with he | ⟨node, hw, he⟩ | ⟨node, hw, _, _, he⟩ <;> rw [he]
  · simp [Dict.get?_set, h]
  · simp [State.recoverWorkerJobs, Dict.get?_set, h]

theorem requeueAll_timeout (refs : List JobRef) :
    (refs.foldl State.requeueJob s).heartbeatTimeout = s.heartbeatTimeout := by
  induction refs generalizing s with
  | nil => rfl
  | cons ref rest ih => exact ih

theorem monitorWorker_timeout (now : Time) (workerId : WorkerId) :
    (State.monitorWorker now s workerId).heartbeatTimeout = s.heartbeatTimeout := by
  rcases s.monitorWorker_cases now workerId with he | ⟨node, hw, he⟩ | ⟨node, hw, _, _, he⟩ <;> rw [he]
  · rfl
  · exact requeueAll_timeout _

theorem sweep_status (now : Time) (workerIds : List WorkerId) (hn : workerIds.Nodup) (job : JobRef) :
    ((workerIds.foldl (State.monitorWorker now) s).heap job).status =
      if ∃ workerId ∈ workerIds, ∃ node, s.workers.get? workerId = some node ∧ Dead s now node ∧
          job ∈ node.assignedJobs.values then .queued
      else (s.heap job).status := by
  induction workerIds generalizing s with
  | nil => simp
  | cons workerId rest ih =>
      obtain ⟨hnot, hrest⟩ := List.nodup_cons.mp hn
      rw [List.foldl_cons, ih hrest, monitorWorker_status]
      have hsame : (∃ other ∈ rest, ∃ node,
            (State.monitorWorker now s workerId).workers.get? other = some node ∧
            Dead (State.monitorWorker now s workerId) now node ∧ job ∈ node.assignedJobs.values) ↔
          ∃ other ∈ rest, ∃ node, s.workers.get? other = some node ∧ Dead s now node ∧
            job ∈ node.assignedJobs.values := by
        refine exists_congr fun other => and_congr_right fun ho => exists_congr fun node => ?_
        rw [monitorWorker_frame now (ne_of_mem_of_not_mem ho hnot), Dead, monitorWorker_timeout]
        rfl
      simp only [hsame, List.mem_cons, or_and_right, exists_or, exists_eq_left]
      split_ifs with hlater hd hfirst hd hd
      · rfl
      · exact absurd (.inr hlater) hd
      · rfl
      · exact absurd (.inl hfirst) hd
      · exact absurd hd (not_or.mpr ⟨hfirst, hlater⟩)
      · rfl

theorem monitorWorkers_status (now : Time) (job : JobRef) :
    ((s.monitorWorkers now).heap job).status =
      if ∃ node ∈ s.workers.values, Dead s now node ∧ job ∈ node.assignedJobs.values then .queued
      else (s.heap job).status := by
  have hiff : (∃ workerId ∈ s.workers.keys, ∃ node, s.workers.get? workerId = some node ∧
        Dead s now node ∧ job ∈ node.assignedJobs.values) ↔
      ∃ node ∈ s.workers.values, Dead s now node ∧ job ∈ node.assignedJobs.values := by
    constructor
    · rintro ⟨workerId, _, node, hw, h⟩
      exact ⟨node, (Dict.mem_values_iff _ _).mpr ⟨workerId, hw⟩, h⟩
    · rintro ⟨node, hm, h⟩
      obtain ⟨workerId, hw⟩ := (Dict.mem_values_iff _ _).mp hm
      exact ⟨workerId, (Dict.mem_keys_iff _ _).mpr ⟨node, hw⟩, node, hw, h⟩
  have hs := sweep_status (s := s) now s.workers.keys s.workers.nodup job
  rw [State.monitorWorkers]
  simpa only [hiff] using hs

end StatusWrite

-- The status of a job after any step is the one the step writes, and the old one when it writes none.
theorem step_status {s t : State} {act : Action} (h : step s act = some t) (job : JobRef) :
    (t.heap job).status = (statusWrite s act job).getD (s.heap job).status := by
  cases act with
  | submitJob ref context =>
      obtain rfl := Option.some.inj h
      rw [submitJob_status, statusWrite]
      split <;> rfl
  | cancelJob jobId now =>
      obtain rfl := Option.some.inj h
      rw [cancelJob_status, statusWrite]
      split <;> rfl
  | registerWorker => obtain rfl := Option.some.inj h; rfl
  | unregisterWorker workerId =>
      obtain rfl := Option.some.inj h
      unfold State.unregisterWorker
      split <;> rfl
  | sendHeartbeat workerId health now =>
      obtain rfl := Option.some.inj h
      unfold State.sendHeartbeat
      split <;> rfl
  | assignJob jobId workerId =>
      obtain rfl := Option.some.inj h
      rw [assignJob_status, statusWrite]
      split <;> rfl
  | assignJobByCapability ref =>
      obtain rfl := Option.some.inj h
      rw [statusWrite]
      rcases s.assignJobByCapability_cases ref with he | ⟨workerId, u, ha, he⟩
      · simp [he]
      · have hs := assignJob_status (s := s) (s.heap ref).id workerId job
        simp only [ha, true_and] at hs
        simp only [he, hs, true_and, Option.isSome_some]
        split <;> rfl
  | fetchJob workerId ref =>
      obtain ⟨node, rest, _, _, rfl⟩ := State.fetchJob_eq h
      rfl
  | reportJobStatus workerId jobId status result error now =>
      obtain rfl := Option.some.inj h
      rw [statusWrite]
      rcases s.reportJobStatus_cases workerId jobId status result error now with
        ⟨hu, he⟩ | ⟨node, ref, hw, hj, he⟩ <;> rw [he]
      · have hnot : ¬(workerId ∈ s.workers ∧ s.jobs.get? jobId = some job) := by
          rintro ⟨hm, hj⟩
          rcases hu with hu | hu
          · exact hu hm
          · simp [hu] at hj
        simp [hnot]
      · have hm : workerId ∈ s.workers := (Dict.mem_iff _ _).mpr ⟨node, hw⟩
        by_cases hjob : job = ref
        · subst hjob
          simp [State.applyReport_status, hm, hj]
        · simp [State.applyReport_heap_of_ne _ _ _ _ _ _ _ _ _ hjob, hj, Ne.symm hjob]
  | monitorWorkers now =>
      obtain rfl := Option.some.inj h
      rw [monitorWorkers_status, statusWrite]
      split <;> rfl
  | dequeue thread ref =>
      obtain ⟨_, _, _, rfl⟩ := State.dequeue_eq h
      rfl
  | checkCancelled thread ref now =>
      obtain ⟨_, ⟨hc, rfl⟩ | ⟨hc, rfl⟩⟩ := State.checkCancelled_eq h
      · by_cases he : job = ref <;> simp [statusWrite, State.updateJob_heap, he, hc]
      · simp [statusWrite, hc]
  | startJob thread ref now =>
      obtain ⟨_, rfl⟩ := State.startJob_eq h
      by_cases he : job = ref <;> simp [statusWrite, State.updateJob_heap, he]
  | succeedJob thread ref result now =>
      obtain ⟨_, rfl⟩ := State.succeedJob_eq h
      by_cases he : job = ref <;> simp [statusWrite, State.updateJob_heap, he]
  | failJob thread ref error =>
      obtain ⟨_, rfl⟩ := State.failJob_eq h
      rfl
  | handleFailure thread ref error now =>
      obtain ⟨_, ⟨hc, rfl⟩ | ⟨hc, rfl⟩⟩ := State.handleFailure_eq h
      · by_cases he : job = ref <;> simp [statusWrite, State.updateJob_heap, he, hc]
      · by_cases he : job = ref <;> simp [statusWrite, State.updateJob_heap, he, hc]
  | requeue thread ref =>
      obtain ⟨_, rfl⟩ := State.requeue_eq h
      rfl

-- Finished jobs keep their status from one state to the other.
def KeepsFinished (s t : State) : Prop :=
  ∀ ref, Finished s ref → (t.heap ref).status = (s.heap ref).status

section Exactness

variable {s t : State} {ref : JobRef}

theorem respects_write_iff {writes : JobRef → Prop} [DecidablePred writes]
    {status : JobRef → JobStatus} :
    (∀ job, Finished s job → ∀ written, (if writes job then some (status job) else none) = some written →
      written = (s.heap job).status) ↔
    ∀ job, writes job → Finished s job → status job = (s.heap job).status := by
  constructor
  · intro h job hw hf
    exact h job hf (status job) (if_pos hw)
  · intro h job hf written he
    split at he
    · rename_i hw
      exact Option.some.inj he ▸ h job hw hf
    · cases he

-- A status that is not terminal respects a job exactly when the job is not finished.
theorem respects_live_iff {status : JobStatus} (h : ¬status.Terminal) :
    (Finished s ref → status = (s.heap ref).status) ↔ ¬Finished s ref :=
  ⟨fun hi hf => h (hi hf ▸ hf), fun hn hf => absurd hf hn⟩

theorem queued_not_terminal : ¬JobStatus.queued.Terminal := by decide

theorem running_not_terminal : ¬JobStatus.running.Terminal := by decide

-- A step keeps the finished jobs exactly when it is one of those that leave them alone.
theorem keepsFinished_step_iff {act : Action} (h : step s act = some t) :
    KeepsFinished s t ↔ LeavesFinished s act := by
  have hwrite : KeepsFinished s t ↔ ∀ job, Finished s job →
      ∀ written, statusWrite s act job = some written → written = (s.heap job).status := by
    refine forall_congr' fun job => imp_congr_right fun _ => ?_
    rw [step_status h]
    cases statusWrite s act job <;> simp
  rw [hwrite]
  cases act with
  | submitJob ref context =>
      simp only [statusWrite, respects_write_iff, forall_eq, respects_live_iff queued_not_terminal]
      exact Iff.rfl
  | cancelJob jobId now =>
      simp only [statusWrite, respects_write_iff]
      exact iff_of_true (fun _ hw hf => absurd hf hw.2) trivial
  | registerWorker | unregisterWorker | sendHeartbeat | fetchJob | dequeue | failJob | requeue =>
      simp [statusWrite, LeavesFinished]
  | assignJob jobId workerId =>
      simp only [statusWrite, respects_write_iff, respects_live_iff queued_not_terminal]
      rcases s.assignJob_cases jobId workerId with he | ⟨node, ref, hw, ha, hj, he⟩
      · refine iff_of_true (by simp [he]) fun node ref hw ha hj => ?_
        simp [State.assignJob, State.getJob, hw, ha, hj] at he
      · simp [LeavesFinished, he, hw, ha, hj]
  | assignJobByCapability ref =>
      simp only [statusWrite, respects_write_iff, respects_live_iff queued_not_terminal]
      simp only [LeavesFinished, and_imp]
      exact ⟨fun hn hs job hj => hn job hs hj, fun hn job hs hj => hn hs job hj⟩
  | reportJobStatus workerId jobId status result error now =>
      simp only [statusWrite, respects_write_iff, and_imp]
      have hreported (job : JobRef) (hf : Finished s job) :
          State.reportedStatus (s.heap job) status = (s.heap job).status ↔
            status = (s.heap job).status ∧ ¬(status = .failed ∧ (s.heap job).CanRetry) := by
        unfold State.reportedStatus
        split
        · rename_i hr
          exact iff_of_false (fun he => queued_not_terminal (he ▸ hf)) fun hc => hc.2 hr
        · rename_i hr
          exact (and_iff_left hr).symm
      constructor
      · exact fun hn hm job hj hf => (hreported job hf).mp (hn job hm hj hf)
      · exact fun hn job hm hj hf => (hreported job hf).mpr (hn hm job hj hf)
  | monitorWorkers now =>
      simp only [statusWrite, respects_write_iff, respects_live_iff queued_not_terminal]
      constructor
      · exact fun hn node hm hd job hj => hn job ⟨node, hm, hd, hj⟩
      · rintro hn job ⟨node, hm, hd, hj⟩
        exact hn node hm hd job hj
  | checkCancelled thread ref now =>
      simp only [statusWrite, respects_write_iff, and_imp, forall_eq, LeavesFinished]
      constructor
      · intro hn hc
        by_contra hcon
        have hf : (s.heap ref).status = .completed ∨ (s.heap ref).status = .failed := by tauto
        have he := hn (.inl hc) (by rcases hf with hf | hf <;> simp [Finished, JobStatus.Terminal, hf])
        rcases hf with hf | hf <;> simp [hf] at he
      · rintro hn (hc | hc) hf
        · rcases hf with hf | hf | hf
          · exact absurd hf (hn hc).1
          · exact absurd hf (hn hc).2
          · exact hf.symm
        · exact hc.symm
  | startJob thread ref now =>
      simp only [statusWrite, respects_write_iff, forall_eq, respects_live_iff running_not_terminal]
      exact Iff.rfl
  | succeedJob thread ref result now =>
      simp only [statusWrite, respects_write_iff, forall_eq, LeavesFinished]
      exact imp_congr_right fun _ => eq_comm
  | handleFailure thread ref error now =>
      simp only [statusWrite, respects_write_iff, forall_eq, LeavesFinished]
      refine imp_congr_right fun hf => ?_
      split
      · rename_i hr
        exact iff_of_false (fun he => queued_not_terminal (he ▸ hf)) fun hc => hc.2 hr
      · rename_i hr
        exact ⟨fun he => ⟨he.symm, hr⟩, fun hc => hc.1.symm⟩

end Exactness

theorem KeepsFinished.refl (s : State) : KeepsFinished s s := fun _ _ => rfl

theorem KeepsFinished.trans {s t u : State} (h₁ : KeepsFinished s t) (h₂ : KeepsFinished t u) :
    KeepsFinished s u := by
  intro ref hf
  have ht := h₁ ref hf
  exact (h₂ ref (by rw [Finished, ht]; exact hf)).trans ht

-- A cancellation that reports success leaves the job CANCELLED.
theorem cancelJob_true {s : State} {jobId : JobId} {now : Time} (h : (s.cancelJob jobId now).1) :
    ∃ ref, s.jobs.get? jobId = some ref ∧ ((s.cancelJob jobId now).2.heap ref).status = .cancelled := by
  cases hj : s.jobs.get? jobId with
  | none => simp [State.cancelJob, State.getJob, hj] at h
  | some ref =>
      by_cases ht : (s.heap ref).status.Terminal
      · simp [State.cancelJob, State.getJob, hj, Job.cancel_of_terminal ht] at h
      · exact ⟨ref, rfl, by simp [cancelJob_status, hj, ht]⟩

-- Over whole runs: a job that is finished in one state has the same status in every later one, and
-- a successful cancellation lasts, exactly when every step leaves the finished jobs alone.
theorem finished_is_final_iff (heap : JobRef → Job) (acts : List Action) :
    (∀ first second third t u, acts = first ++ (second ++ third) →
      Run step (State.start heap) first t → Run step t second u →
        KeepsFinished t u ∧ ∀ jobId now rest, second = .cancelJob jobId now :: rest →
          (t.cancelJob jobId now).1 → ∃ ref, t.jobs.get? jobId = some ref ∧
            (u.heap ref).status = .cancelled) ↔
      Meets step LeavesFinished (State.start heap) acts := by
  rw [← stays_iff_meets KeepsFinished.refl (fun _ _ _ => KeepsFinished.trans)
    fun _ _ _ => keepsFinished_step_iff]
  constructor
  · exact fun h first second third t u he ht hu => (h first second third t u he ht hu).1
  · refine fun h first second third t u he ht hu => ⟨h first second third t u he ht hu, ?_⟩
    rintro jobId now rest rfl hc
    cases hu with
    | cons hs hr =>
        obtain rfl := Option.some.inj hs
        obtain ⟨ref, hj, hstatus⟩ := cancelJob_true hc
        have hk := h (first ++ [.cancelJob jobId now]) rest third _ u (by simp [he])
          (ht.append (.single rfl)) hr ref (by simp [Finished, JobStatus.Terminal, hstatus])
        exact ⟨ref, hj, hk.trans hstatus⟩

-- Cancelled while its target runs, the job is reported COMPLETED all the same.
def plainJob : Job := Job.init (.callable "task") .empty "job-1" none 20 0 none none 0

def lateCancelRun : List Action :=
  [.submitJob 0 none, .dequeue 0 0, .checkCancelled 0 0 1, .startJob 0 0 1]

theorem completion_overwrites_cancel :
    ∃ t u, Run step (State.start fun _ => plainJob) lateCancelRun t ∧
      (t.cancelJob "job-1" 2).1 ∧ t.jobs.get? "job-1" = some 0 ∧
      Run step t [.cancelJob "job-1" 2, .succeedJob 0 0 "done" 3] u ∧
      (u.heap 0).status = .completed := by
  refine ⟨_, _, Run.of_foldlM rfl, rfl, rfl, Run.of_foldlM rfl, rfl⟩

end YasinCore.Execution
