import YasinCore.Execution.Distributed.Lemmas

namespace YasinCore.Execution

open YasinCore.Library

-- The job stands under this identifier in the assignment map of a node that the manager has.
def AssignedAs (workers : Dict WorkerId WorkerNode) (workerId : WorkerId) (jobId : JobId)
    (ref : JobRef) : Prop :=
  ∃ node, workers.get? workerId = some node ∧ node.assignedJobs.get? jobId = some ref

section AssignedAs

variable {workers : Dict WorkerId WorkerNode} {workerId other : WorkerId} {node old : WorkerNode}
  {jobId id : JobId} {ref job : JobRef}

theorem assignedAs_iff (h : workers.get? workerId = some node) :
    AssignedAs workers workerId jobId ref ↔ node.assignedJobs.get? jobId = some ref := by
  constructor
  · rintro ⟨found, hf, ha⟩
    exact Option.some.inj (h.symm.trans hf) ▸ ha
  · exact fun ha => ⟨node, h, ha⟩

theorem assignedAs_set : AssignedAs (workers.set workerId node) other jobId ref ↔
    if other = workerId then node.assignedJobs.get? jobId = some ref
    else AssignedAs workers other jobId ref := by
  by_cases h : other = workerId
  · subst h
    simp only [if_true]
    exact assignedAs_iff (Dict.get?_set_self ..)
  · simp [h, AssignedAs, Dict.get?_set]

theorem assignedAs_erase : AssignedAs (workers.erase workerId) other jobId ref ↔
    other ≠ workerId ∧ AssignedAs workers other jobId ref := by
  by_cases h : other = workerId
  · subst h
    simp [AssignedAs]
  · simp [h, AssignedAs, Dict.get?_erase]

-- Replacing a node by one with the same assignments changes no assignment.
theorem assignedAs_set_same (h : workers.get? workerId = some old)
    (hs : node.assignedJobs = old.assignedJobs) :
    AssignedAs (workers.set workerId node) other jobId ref ↔ AssignedAs workers other jobId ref := by
  rw [assignedAs_set]
  split
  · rename_i he
    rw [he, assignedAs_iff h, hs]
  · exact Iff.rfl

theorem assignedAs_set_assign (h : workers.get? workerId = some old) :
    AssignedAs (workers.set workerId (old.assign jobId ref)) other id job ↔
      if other = workerId ∧ id = jobId then ref = job else AssignedAs workers other id job := by
  rw [assignedAs_set]
  by_cases ho : other = workerId
  · subst ho
    by_cases hi : id = jobId <;> simp [hi, WorkerNode.assign, Dict.get?_set, assignedAs_iff h]
  · simp [ho]

theorem assignedAs_set_complete (h : workers.get? workerId = some old) :
    AssignedAs (workers.set workerId (old.complete jobId)) other id job ↔
      ¬(other = workerId ∧ id = jobId) ∧ AssignedAs workers other id job := by
  rw [assignedAs_set]
  by_cases ho : other = workerId
  · subst ho
    by_cases hi : id = jobId <;> simp [hi, WorkerNode.complete, Dict.get?_erase, assignedAs_iff h]
  · simp [ho]

theorem assignedAs_set_empty (h : node.assignedJobs = .empty) :
    AssignedAs (workers.set workerId node) other id job ↔
      other ≠ workerId ∧ AssignedAs workers other id job := by
  rw [assignedAs_set]
  by_cases ho : other = workerId <;> simp [ho, h]

end AssignedAs

-- The registry and the assignment maps file every job under its own identifier.
structure Keyed (s : State) : Prop where
  registry : ∀ jobId ref, s.jobs.get? jobId = some ref → (s.heap ref).id = jobId
  assigned : ∀ workerId jobId ref, AssignedAs s.workers workerId jobId ref → (s.heap ref).id = jobId

theorem keyed_start (heap : JobRef → Job) : Keyed (State.start heap) where
  registry := by simp [State.start]
  assigned := by simp [State.start, AssignedAs]

-- A step keeps the keys when it renames no job and files new entries under the job's identifier.
theorem Keyed.of_step {s t : State} (h : Keyed s) (hid : ∀ ref, (t.heap ref).id = (s.heap ref).id)
    (hjobs : ∀ jobId ref, t.jobs.get? jobId = some ref →
      s.jobs.get? jobId = some ref ∨ (s.heap ref).id = jobId)
    (hassigned : ∀ workerId jobId ref, AssignedAs t.workers workerId jobId ref →
      (∃ other, AssignedAs s.workers other jobId ref) ∨ (s.heap ref).id = jobId) : Keyed t where
  registry jobId ref hj := by
    rw [hid]
    exact (hjobs jobId ref hj).elim (h.registry jobId ref) id
  assigned workerId jobId ref ha := by
    rw [hid]
    rcases hassigned workerId jobId ref ha with ⟨other, ho⟩ | he
    · exact h.assigned other jobId ref ho
    · exact he

section Keyed

variable {s : State} (h : Keyed s)

include h

theorem Keyed.setNode_same {workerId : WorkerId} (node : WorkerNode) {old : WorkerNode}
    (hw : s.workers.get? workerId = some old) (hs : node.assignedJobs = old.assignedJobs) :
    Keyed (s.setNode workerId node) :=
  h.of_step (fun _ => rfl) (fun _ _ => .inl) fun other _ _ ha =>
    .inl ⟨other, (assignedAs_set_same hw hs).mp ha⟩

theorem Keyed.handOver {workerId : WorkerId} {node : WorkerNode} {jobId : JobId} {ref : JobRef}
    (hw : s.workers.get? workerId = some node) (hj : (s.heap ref).id = jobId) :
    Keyed (s.handOver workerId node jobId ref) := by
  refine h.of_step (fun other => ?_) (fun _ _ => .inl) fun other id job ha => ?_
  · simp only [State.handOver_heap, State.updateJob_heap]
    split <;> simp_all
  · rw [State.handOver_workers, assignedAs_set_assign hw] at ha
    split at ha
    · rename_i he
      exact .inr (by rw [← ha, he.2, hj])
    · exact .inl ⟨other, ha⟩

theorem Keyed.assignJob (jobId : JobId) (workerId : WorkerId) :
    Keyed (s.assignJob jobId workerId).2 := by
  rcases s.assignJob_cases jobId workerId with he | ⟨node, ref, hw, _, hj, he⟩ <;> rw [he]
  · exact h
  · exact h.handOver hw (h.registry jobId ref hj)

theorem Keyed.registerJob (ref : JobRef) (context : Option String) :
    Keyed (s.registerJob ref context) := by
  refine h.of_step (fun other => ?_) (fun jobId other hj => ?_) fun workerId _ _ ha => .inl ⟨workerId, ha⟩
  · by_cases ho : other = ref <;> simp [State.registerJob, State.updateJob_heap, ho]
  · simp only [State.registerJob, State.updateJob_jobs, Dict.get?_set] at hj
    split at hj
    · rename_i he
      cases hj
      exact .inr (by simp [he])
    · exact .inl hj

theorem Keyed.submitJob (ref : JobRef) (context : Option String) :
    Keyed (s.submitJob ref context) := by
  have hr := h.registerJob ref context
  unfold State.submitJob
  dsimp only
  split
  · rename_i t ht
    obtain ⟨workerId, ha⟩ := State.routeToWorker_some ht
    simpa [ha] using hr.assignJob ((s.registerJob ref context).heap ref).id workerId
  · exact ⟨hr.registry, hr.assigned⟩

theorem Keyed.applyReport {workerId : WorkerId} {node : WorkerNode} {jobId : JobId} {ref : JobRef}
    (hw : s.workers.get? workerId = some node) (hj : s.jobs.get? jobId = some ref)
    (status : JobStatus) (result error : Option String) (now : Time) :
    Keyed (s.applyReport workerId node jobId ref status result error now) := by
  refine h.of_step (fun other => ?_) (fun id job => by simpa using .inl) fun other id job ha => ?_
  · by_cases ho : other = ref
    · subst ho; simp
    · rw [State.applyReport_heap_of_ne _ _ _ _ _ _ _ _ _ ho]
  · rw [State.applyReport_workers] at ha
    split at ha
    · rw [assignedAs_set_assign (Dict.get?_set_self ..)] at ha
      split at ha
      · rename_i he
        exact .inr (by rw [← ha, he.2, h.registry jobId ref hj])
      · exact .inl ⟨other, ((assignedAs_set_complete hw).mp ha).2⟩
    · split at ha
      · exact .inl ⟨other, ((assignedAs_set_complete hw).mp ha).2⟩
      · exact .inl ⟨other, ha⟩

theorem Keyed.recoverWorkerJobs (workerId : WorkerId) (node : WorkerNode) :
    Keyed (s.recoverWorkerJobs workerId node) := by
  refine h.of_step (fun ref => ?_) (fun id job => by simpa [State.recoverWorkerJobs] using .inl)
    fun other id job ha => ?_
  · simp only [State.recoverWorkerJobs, State.requeueAll_heap]
    split <;> rfl
  · simp only [State.recoverWorkerJobs, State.requeueAll_workers, State.setNode_workers] at ha
    exact .inl ⟨other, ((assignedAs_set_empty rfl).mp ha).2⟩

theorem Keyed.monitorWorker (now : Time) (workerId : WorkerId) :
    Keyed (State.monitorWorker now s workerId) := by
  rcases s.monitorWorker_cases now workerId with he | ⟨node, hw, he⟩ | ⟨node, hw, _, _, he⟩ <;> rw [he]
  · exact h
  · have hs := h.setNode_same { node with status := .suspended } hw rfl
    exact ⟨hs.registry, hs.assigned⟩
  · have hs := h.setNode_same { node with status := .offline } hw rfl
    apply Keyed.recoverWorkerJobs
    exact ⟨hs.registry, hs.assigned⟩

theorem Keyed.monitorWorkers (now : Time) : Keyed (s.monitorWorkers now) := by
  unfold State.monitorWorkers
  exact List.foldlRecOn _ _ h fun _ hs workerId _ => hs.monitorWorker now workerId

theorem Keyed.cancelJob (jobId : JobId) (now : Time) : Keyed (s.cancelJob jobId now).2 := by
  unfold State.cancelJob
  split
  · exact h
  · rename_i ref _
    refine h.of_step (fun other => ?_) (fun id job hj => .inl ?_) fun other id job ha => .inl ⟨other, ?_⟩
    · by_cases ht : (s.heap ref).status.Terminal
      · by_cases ho : other = ref <;> simp [Job.cancel_of_terminal ht, State.updateJob_heap, ho]
      · by_cases ho : other = ref <;> simp [Job.cancel_of_not_terminal ht, State.updateJob_heap, ho]
    · dsimp only at hj
      split at hj <;> exact hj
    · dsimp only at ha
      split at ha <;> exact ha

end Keyed

end YasinCore.Execution
