import YasinCore.Execution.Assignment

namespace YasinCore.Execution

open YasinCore.Library

-- The thread and the job of an action of a local JobWorker.
def Action.localJob? : Action → Option (ThreadId × JobRef)
  | .dequeue thread ref | .checkCancelled thread ref _ | .startJob thread ref _
  | .succeedJob thread ref _ _ | .failJob thread ref _ | .handleFailure thread ref _ _
  | .requeue thread ref => some (thread, ref)
  | _ => none

-- What every action of a local thread leaves alone: the registry, the nodes, the other threads
-- and the other jobs, whose queue entries stay.
structure LocalStep (s t : State) (thread : ThreadId) (ref : JobRef) : Prop where
  jobs : t.jobs = s.jobs
  workers : t.workers = s.workers
  hands : ∀ other, other ≠ thread → t.hands other = s.hands other
  heap : ∀ other, other ≠ ref → t.heap other = s.heap other
  id : (t.heap ref).id = (s.heap ref).id
  retries : (t.heap ref).retries = (s.heap ref).retries
  hand : ∀ other, (s.hands thread).job? = some other → other = ref
  hand' : ∀ other, (t.hands thread).job? = some other → other = ref
  queue : ∀ other, other ≠ ref → t.queue.jobs.count other = s.queue.jobs.count other

namespace State

variable {s t : State} {thread : ThreadId} {ref : JobRef} {now : Time}

-- The outcomes of the local actions, one lemma for each.
theorem dequeue_eq (h : s.dequeue thread ref = some t) :
    s.hands thread = .idle ∧ ∃ rest, s.queue.getNowait = some (ref, rest) ∧
      t = { s with queue := rest }.setHand thread (.taken ref) := by
  unfold dequeue at h
  split at h
  · rename_i hi
    split at h
    · rename_i other rest hq
      split at h
      · rename_i he
        subst he
        exact ⟨hi, rest, hq, (Option.some.inj h).symm⟩
      · cases h
    · cases h
  · cases h

theorem checkCancelled_eq (h : s.checkCancelled thread ref now = some t) :
    s.hands thread = .taken ref ∧
      (((s.heap ref).cancelled ∨ (s.heap ref).status = .cancelled) ∧
        t = ((s.updateJob ref fun job =>
          { job with status := .cancelled, completedAt := some now }).publishJob "job_cancelled"
            ref).setHand thread .idle ∨
      ¬((s.heap ref).cancelled ∨ (s.heap ref).status = .cancelled) ∧
        t = s.setHand thread (.starting ref)) := by
  unfold checkCancelled at h
  split at h
  · rename_i hi
    split at h
    · rename_i hc
      exact ⟨hi, .inl ⟨hc, (Option.some.inj h).symm⟩⟩
    · rename_i hc
      exact ⟨hi, .inr ⟨hc, (Option.some.inj h).symm⟩⟩
  · cases h

theorem startJob_eq (h : s.startJob thread ref now = some t) :
    s.hands thread = .starting ref ∧
      t = ((s.updateJob ref fun job =>
        { job with status := .running, startedAt := some now }).publishJob "job_started"
          ref).setHand thread (.running ref) := by
  unfold startJob at h
  split at h
  · rename_i hi
    exact ⟨hi, (Option.some.inj h).symm⟩
  · cases h

theorem succeedJob_eq {result : String} (h : s.succeedJob thread ref result now = some t) :
    s.hands thread = .running ref ∧
      t = (((s.updateJob ref fun job =>
        { job with result := some result, status := .completed, completedAt := some now }).publishJob
          "job_completed" ref).saveToMemory ref).setHand thread .idle := by
  unfold succeedJob at h
  split at h
  · rename_i hi
    exact ⟨hi, (Option.some.inj h).symm⟩
  · cases h

theorem failJob_eq {error : String} (h : s.failJob thread ref error = some t) :
    s.hands thread = .running ref ∧ t = s.setHand thread (.failing ref error) := by
  unfold failJob at h
  split at h
  · rename_i hi
    exact ⟨hi, (Option.some.inj h).symm⟩
  · cases h

theorem handleFailure_eq {error : String} (h : s.handleFailure thread ref error now = some t) :
    s.hands thread = .failing ref error ∧
      ((s.heap ref).CanRetry ∧
        t = ((s.updateJob ref fun job =>
          { job with retryCount := job.retryCount + 1, status := .queued }).publishJob "job_retrying"
            ref).setHand thread (.requeuing ref) ∨
      ¬(s.heap ref).CanRetry ∧
        t = (((s.updateJob ref fun job =>
          { job with error := some error, status := .failed, completedAt := some now }).publishJob
            "job_failed" ref).saveToMemory ref).setHand thread .idle) := by
  unfold handleFailure at h
  split at h
  · rename_i hi
    split at h
    · rename_i hc
      exact ⟨hi, .inl ⟨hc, (Option.some.inj h).symm⟩⟩
    · rename_i hc
      exact ⟨hi, .inr ⟨hc, (Option.some.inj h).symm⟩⟩
  · cases h

theorem requeue_eq (h : s.requeue thread ref = some t) :
    s.hands thread = .requeuing ref ∧ t = (s.putQueue ref).setHand thread .idle := by
  unfold requeue at h
  split at h
  · rename_i hi
    exact ⟨hi, (Option.some.inj h).symm⟩
  · cases h

-- Rewriting one job and moving the thread that holds it is a local step.
theorem localStep_update {job : Job} {hand : Hand} (hheap : t.heap = Function.update s.heap ref job)
    (hhands : t.hands = Function.update s.hands thread hand)
    (hframe : t.jobs = s.jobs ∧ t.workers = s.workers ∧ t.queue = s.queue)
    (hs : (s.hands thread).job? = some ref)
    (hjob : job.id = (s.heap ref).id ∧ job.retries = (s.heap ref).retries)
    (hh : ∀ other, hand.job? = some other → other = ref) : LocalStep s t thread ref := by
  obtain ⟨hj, hw, hq⟩ := hframe
  refine ⟨hj, hw, fun other ho => ?_, fun other ho => ?_, ?_, ?_, fun other ho => ?_, fun other ho => ?_,
    fun _ _ => by rw [hq]⟩
  · simp [hhands, ho]
  · simp [hheap, ho]
  · simp [hheap, hjob.1]
  · simp [hheap, hjob.2]
  · exact Option.some.inj (ho.symm.trans hs)
  · exact hh other (by simpa [hhands] using ho)

theorem localStep_setHand {hand : Hand} (hs : (s.hands thread).job? = some ref)
    (hh : ∀ other, hand.job? = some other → other = ref) :
    LocalStep s (s.setHand thread hand) thread ref :=
  localStep_update (Function.update_eq_self ref s.heap).symm rfl ⟨rfl, rfl, rfl⟩ hs ⟨rfl, rfl⟩ hh

theorem localStep_dequeue (h : s.dequeue thread ref = some t) : LocalStep s t thread ref := by
  obtain ⟨hi, rest, hq, rfl⟩ := dequeue_eq h
  refine ⟨rfl, rfl, fun other ho => ?_, fun _ _ => rfl, rfl, rfl, fun other ho => ?_, fun other ho => ?_,
    fun other ho => ?_⟩
  · simp [setHand_hands, ho]
  · simp [hi, Hand.job?] at ho
  · simpa [setHand_hands, Hand.job?] using ho.symm
  · have hp := (JobQueue.getNowait_perm hq).count_eq other
    simpa [List.count_cons, Ne.symm ho] using hp.symm

theorem localStep_requeue (h : s.requeue thread ref = some t) : LocalStep s t thread ref := by
  obtain ⟨hi, rfl⟩ := requeue_eq h
  refine ⟨rfl, rfl, fun other ho => ?_, fun _ _ => rfl, rfl, rfl, fun other ho => ?_, fun other ho => ?_,
    fun other ho => ?_⟩
  · simp [setHand_hands, ho]
  · simpa [hi, Hand.job?] using ho.symm
  · simp [setHand_hands, Hand.job?] at ho
  · simp [List.count_append, Ne.symm ho]

theorem localStep_of_step {act : Action} (h : step s act = some t)
    (hl : act.localJob? = some (thread, ref)) : LocalStep s t thread ref := by
  cases act with
  | dequeue thread' ref' =>
      obtain ⟨rfl, rfl⟩ : thread' = thread ∧ ref' = ref := by simpa [Action.localJob?] using hl
      exact localStep_dequeue h
  | checkCancelled thread' ref' now =>
      obtain ⟨rfl, rfl⟩ : thread' = thread ∧ ref' = ref := by simpa [Action.localJob?] using hl
      obtain ⟨hi, ⟨_, rfl⟩ | ⟨_, rfl⟩⟩ := checkCancelled_eq h
      · exact localStep_update rfl rfl ⟨rfl, rfl, rfl⟩ (by simp [hi, Hand.job?]) ⟨rfl, rfl⟩
          (by simp [Hand.job?])
      · exact localStep_setHand (by simp [hi, Hand.job?]) (by simp [Hand.job?])
  | startJob thread' ref' now =>
      obtain ⟨rfl, rfl⟩ : thread' = thread ∧ ref' = ref := by simpa [Action.localJob?] using hl
      obtain ⟨hi, rfl⟩ := startJob_eq h
      exact localStep_update rfl rfl ⟨rfl, rfl, rfl⟩ (by simp [hi, Hand.job?]) ⟨rfl, rfl⟩
          (by simp [Hand.job?])
  | succeedJob thread' ref' result now =>
      obtain ⟨rfl, rfl⟩ : thread' = thread ∧ ref' = ref := by simpa [Action.localJob?] using hl
      obtain ⟨hi, rfl⟩ := succeedJob_eq h
      exact localStep_update rfl rfl ⟨rfl, rfl, rfl⟩ (by simp [hi, Hand.job?]) ⟨rfl, rfl⟩
          (by simp [Hand.job?])
  | failJob thread' ref' error =>
      obtain ⟨rfl, rfl⟩ : thread' = thread ∧ ref' = ref := by simpa [Action.localJob?] using hl
      obtain ⟨hi, rfl⟩ := failJob_eq h
      exact localStep_setHand (by simp [hi, Hand.job?]) (by simp [Hand.job?])
  | handleFailure thread' ref' error now =>
      obtain ⟨rfl, rfl⟩ : thread' = thread ∧ ref' = ref := by simpa [Action.localJob?] using hl
      obtain ⟨hi, ⟨_, rfl⟩ | ⟨_, rfl⟩⟩ := handleFailure_eq h
      · exact localStep_update rfl rfl ⟨rfl, rfl, rfl⟩ (by simp [hi, Hand.job?]) ⟨rfl, rfl⟩
          (by simp [Hand.job?])
      · exact localStep_update rfl rfl ⟨rfl, rfl, rfl⟩ (by simp [hi, Hand.job?]) ⟨rfl, rfl⟩
          (by simp [Hand.job?])
  | requeue thread' ref' =>
      obtain ⟨rfl, rfl⟩ : thread' = thread ∧ ref' = ref := by simpa [Action.localJob?] using hl
      exact localStep_requeue h
  | submitJob | cancelJob | registerWorker | unregisterWorker | sendHeartbeat | assignJob
  | assignJobByCapability | fetchJob | reportJobStatus | monitorWorkers =>
      cases hl

end State

theorem keyed_step {s t : State} {act : Action} (h : Keyed s) (hs : step s act = some t) : Keyed t := by
  cases hl : act.localJob? with
  | some pair =>
      have hlocal := State.localStep_of_step hs hl
      refine h.of_step (fun ref => ?_) (fun _ _ hj => .inl (hlocal.jobs ▸ hj))
        fun workerId _ _ ha => .inl ⟨workerId, hlocal.workers ▸ ha⟩
      by_cases he : ref = pair.2
      · exact he ▸ hlocal.id
      · rw [hlocal.heap ref he]
  | none =>
      cases act with
      | submitJob ref context => exact Option.some.inj hs ▸ h.submitJob ref context
      | cancelJob jobId now =>
          obtain rfl := Option.some.inj hs
          exact h.cancelJob jobId now
      | registerWorker workerId name capabilities health now =>
          obtain rfl := Option.some.inj hs
          exact h.of_step (fun _ => rfl) (fun _ _ => .inl) fun other _ _ ha =>
            .inl ⟨other, ((assignedAs_set_empty rfl).mp ha).2⟩
      | unregisterWorker workerId =>
          obtain rfl := Option.some.inj hs
          unfold State.unregisterWorker
          split
          · exact h
          · exact h.of_step (fun _ => rfl) (fun _ _ => .inl) fun other _ _ ha =>
              .inl ⟨other, (assignedAs_erase.mp ha).2⟩
      | sendHeartbeat workerId health now =>
          obtain rfl := Option.some.inj hs
          unfold State.sendHeartbeat
          split
          · exact h
          · rename_i node hw
            have hn := h.setNode_same (node.updateHeartbeat health now) hw rfl
            exact ⟨hn.registry, hn.assigned⟩
      | assignJob jobId workerId => exact Option.some.inj hs ▸ h.assignJob jobId workerId
      | assignJobByCapability ref =>
          obtain rfl := Option.some.inj hs
          rcases s.assignJobByCapability_cases ref with he | ⟨workerId, t, ha, he⟩ <;> rw [he]
          · exact h
          · simpa [ha] using h.assignJob (s.heap ref).id workerId
      | fetchJob workerId ref =>
          obtain ⟨node, rest, hw, _, rfl⟩ := State.fetchJob_eq hs
          exact h.setNode_same _ hw rfl
      | reportJobStatus workerId jobId status result error now =>
          obtain rfl := Option.some.inj hs
          rcases s.reportJobStatus_cases workerId jobId status result error now with
            ⟨_, he⟩ | ⟨node, ref, hw, hj, he⟩ <;> rw [he]
          · exact h
          · exact h.applyReport hw hj status result error now
      | monitorWorkers now => exact Option.some.inj hs ▸ h.monitorWorkers now
      | dequeue | checkCancelled | startJob | succeedJob | failJob | handleFailure | requeue => cases hl

end YasinCore.Execution
