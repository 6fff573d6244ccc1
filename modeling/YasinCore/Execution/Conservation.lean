import YasinCore.Library.Transition
import YasinCore.Execution.Worker.Lemmas

namespace YasinCore.Execution

open YasinCore.Library

def Held (s : State) (ref : JobRef) : Prop := ∃ thread, (s.hands thread).job? = some ref

-- The places from which a job can still be served or recovered.
def Placed (s : State) (ref : JobRef) : Prop :=
  ref ∈ s.queue.jobs ∨ Held s ref ∨ ∃ workerId jobId, AssignedAs s.workers workerId jobId ref

def PlacedOutside (s : State) (workerId : WorkerId) (ref : JobRef) : Prop :=
  ref ∈ s.queue.jobs ∨ Held s ref ∨
    ∃ other jobId, other ≠ workerId ∧ AssignedAs s.workers other jobId ref

def NoJobLost (s : State) : Prop :=
  ∀ jobId ref, s.jobs.get? jobId = some ref → (s.heap ref).status.Live → Placed s ref

-- The steps that hand no live job out of sight: a node is dropped or replaced only when its live
-- jobs have another place, and a job is reported RUNNING or QUEUED only while it has a place.
def Keeps (s : State) : Action → Prop
  | .registerWorker workerId _ _ _ _ | .unregisterWorker workerId =>
      ∀ jobId ref, AssignedAs s.workers workerId jobId ref → s.jobs.get? jobId = some ref →
        (s.heap ref).status.Live → PlacedOutside s workerId ref
  | .reportJobStatus workerId jobId status _ _ _ =>
      status.Live → workerId ∈ s.workers → ∀ ref, s.jobs.get? jobId = some ref → Placed s ref
  | _ => True

-- Every live job but this one has a place.
def NoOtherJobLost (s : State) (job : JobRef) : Prop :=
  ∀ jobId ref, ref ≠ job → s.jobs.get? jobId = some ref → (s.heap ref).status.Live → Placed s ref

theorem noJobLost_start (heap : JobRef → Job) : NoJobLost (State.start heap) := by
  simp [NoJobLost, State.start]

theorem NoJobLost.other {s : State} (h : NoJobLost s) (job : JobRef) : NoOtherJobLost s job :=
  fun jobId ref _ => h jobId ref

theorem NoJobLost.of_other {s : State} (job : JobRef) (h : NoOtherJobLost s job)
    (hjob : (s.heap job).status.Live → Placed s job) : NoJobLost s := by
  intro jobId ref hj hl
  by_cases he : ref = job
  · subst he; exact hjob hl
  · exact h jobId ref he hj hl

section Steps

variable {s t : State} {ref : JobRef} {workerId : WorkerId} {node : WorkerNode} {jobId : JobId}

theorem NoJobLost.localStep {thread : ThreadId} (h : NoJobLost s) (hl : LocalStep s t thread ref)
    (hself : (t.heap ref).status.Live → Placed t ref) : NoJobLost t := by
  refine .of_other ref (fun id other ho hj hlive => ?_) hself
  rw [hl.jobs] at hj
  rw [hl.heap other ho] at hlive
  rcases h id other hj hlive with hq | ⟨held, hh⟩ | ha
  · left
    exact List.count_pos_iff.mp (hl.queue other ho ▸ List.count_pos_iff.mpr hq)
  · by_cases he : held = thread
    · exact absurd (hl.hand other (he ▸ hh)) ho
    · exact .inr (.inl ⟨held, hl.hands held he ▸ hh⟩)
  · exact .inr (.inr (hl.workers ▸ ha))

-- A job in a thread's hand, in the queue, or out of the live states needs no further care.
theorem NoJobLost.step_local (h : NoJobLost s) {act : Action} {thread : ThreadId}
    (hs : step s act = some t) (hl : act.localJob? = some (thread, ref)) : NoJobLost t := by
  have hlocal := State.localStep_of_step hs hl
  have hhand : ∀ hand : Hand, t.hands thread = hand → hand.job? = some ref → Placed t ref :=
    fun hand he hh => .inr (.inl ⟨thread, he ▸ hh⟩)
  refine h.localStep hlocal fun hlive => ?_
  cases act with
  | dequeue _ _ =>
      obtain ⟨rfl, rfl⟩ := Prod.mk.inj (Option.some.inj hl)
      obtain ⟨_, _, _, rfl⟩ := State.dequeue_eq hs
      exact hhand _ (Function.update_self ..) rfl
  | checkCancelled _ _ _ =>
      obtain ⟨rfl, rfl⟩ := Prod.mk.inj (Option.some.inj hl)
      obtain ⟨_, ⟨_, rfl⟩ | ⟨_, rfl⟩⟩ := State.checkCancelled_eq hs
      · simp [JobStatus.Live] at hlive
      · exact hhand _ (Function.update_self ..) rfl
  | startJob _ _ _ =>
      obtain ⟨rfl, rfl⟩ := Prod.mk.inj (Option.some.inj hl)
      obtain ⟨_, rfl⟩ := State.startJob_eq hs
      exact hhand _ (Function.update_self ..) rfl
  | succeedJob _ _ _ _ =>
      obtain ⟨rfl, rfl⟩ := Prod.mk.inj (Option.some.inj hl)
      obtain ⟨_, rfl⟩ := State.succeedJob_eq hs
      simp [JobStatus.Live] at hlive
  | failJob _ _ _ =>
      obtain ⟨rfl, rfl⟩ := Prod.mk.inj (Option.some.inj hl)
      obtain ⟨_, rfl⟩ := State.failJob_eq hs
      exact hhand _ (Function.update_self ..) rfl
  | handleFailure _ _ _ _ =>
      obtain ⟨rfl, rfl⟩ := Prod.mk.inj (Option.some.inj hl)
      obtain ⟨_, ⟨_, rfl⟩ | ⟨_, rfl⟩⟩ := State.handleFailure_eq hs
      · exact hhand _ (Function.update_self ..) rfl
      · simp [JobStatus.Live] at hlive
  | requeue _ _ =>
      obtain ⟨rfl, rfl⟩ := Prod.mk.inj (Option.some.inj hl)
      obtain ⟨_, rfl⟩ := State.requeue_eq hs
      exact .inl (by simp)
  | submitJob | cancelJob | registerWorker | unregisterWorker | sendHeartbeat | assignJob
  | assignJobByCapability | fetchJob | reportJobStatus | monitorWorkers =>
      cases hl

-- A job that the registry files under another identifier keeps its assignment when this
-- identifier is overwritten or removed.
theorem Keyed.ne_of_registered (hk : Keyed s) (hj : s.jobs.get? jobId = some ref) {id id' : JobId}
    {other : WorkerId} {job : JobRef} (hne : job ≠ ref) (hjob : s.jobs.get? id = some job)
    (ha : AssignedAs s.workers other id' job) : id' ≠ jobId := by
  rintro rfl
  have he : id = id' := (hk.registry id job hjob).symm.trans (hk.assigned other id' job ha)
  subst he
  exact hne (Option.some.inj (hjob.symm.trans hj))

theorem NoOtherJobLost.handOver (h : NoOtherJobLost s ref) (hk : Keyed s)
    (hw : s.workers.get? workerId = some node) (hj : s.jobs.get? jobId = some ref) :
    NoJobLost (s.handOver workerId node jobId ref) := by
  refine .of_other ref (fun id job hne hjob hl => ?_) fun _ => ?_
  · simp only [State.handOver_jobs] at hjob
    simp only [State.handOver_heap, State.updateJob_heap, hne, if_false] at hl
    rcases h id job hne hjob hl with hq | hh | ⟨other, id', ha⟩
    · exact .inl hq
    · exact .inr (.inl hh)
    · refine .inr (.inr ⟨other, id', ?_⟩)
      have hi := hk.ne_of_registered hj hne hjob ha
      rw [State.handOver_workers, assignedAs_set_assign hw]
      simpa [hi] using ha
  · refine .inr (.inr ⟨workerId, jobId, ?_⟩)
    rw [State.handOver_workers, assignedAs_set_assign hw]
    simp

theorem NoJobLost.assignJob (h : NoJobLost s) (hk : Keyed s) (jobId : JobId) (workerId : WorkerId) :
    NoJobLost (s.assignJob jobId workerId).2 := by
  rcases s.assignJob_cases jobId workerId with he | ⟨node, ref, hw, _, hj, he⟩ <;> rw [he]
  · exact h
  · exact (h.other ref).handOver hk hw hj

theorem NoJobLost.registerJob (h : NoJobLost s) (ref : JobRef) (context : Option String) :
    NoOtherJobLost (s.registerJob ref context) ref := by
  intro id job hne hj hl
  simp only [State.registerJob, State.updateJob_jobs, Dict.get?_set] at hj
  split at hj
  · exact absurd (Option.some.inj hj).symm hne
  · simp only [State.registerJob, State.updateJob_heap, hne, if_false] at hl
    exact h id job hj hl

theorem NoJobLost.submitJob (h : NoJobLost s) (hk : Keyed s) (ref : JobRef)
    (context : Option String) : NoJobLost (s.submitJob ref context) := by
  have hr := h.registerJob ref context
  have hkr := hk.registerJob ref context
  have hreg := s.registerJob_registered ref context
  unfold State.submitJob
  dsimp only
  split
  · rename_i t ht
    obtain ⟨workerId, ha⟩ := State.routeToWorker_some ht
    rcases (s.registerJob ref context).assignJob_cases
        ((s.registerJob ref context).heap ref).id workerId with he | ⟨node, job, hw, _, hj, he⟩
    · simp [he] at ha
    · obtain rfl := Option.some.inj (hreg.symm.trans hj)
      rw [he] at ha
      exact (Prod.mk.inj ha).2 ▸ hr.handOver hkr hw hreg
  · refine .of_other ref (fun id job hne hj hl => ?_) fun _ => .inl (by simp)
    rcases hr id job hne hj hl with hq | hp
    · exact .inl (by simp [hq])
    · exact .inr hp

theorem NoJobLost.cancelJob (h : NoJobLost s) (jobId : JobId) (now : Time) :
    NoJobLost (s.cancelJob jobId now).2 := by
  unfold State.cancelJob
  split
  · exact h
  · rename_i ref hj
    by_cases ht : (s.heap ref).status.Terminal
    · simpa [Job.cancel_of_terminal ht, State.updateJob] using h
    · rw [Job.cancel_of_not_terminal ht]
      refine .of_other ref (fun id job hne hjob hl => ?_) fun hl => ?_
      · exact h id job hjob (by simpa [State.updateJob_heap, hne] using hl)
      · simp [JobStatus.Live] at hl

-- Losing the assignments of one node strands exactly the jobs placed nowhere else.
theorem noJobLost_drop_iff (h : NoJobLost s) (hk : Keyed s) (hjobs : t.jobs = s.jobs)
    (hheap : t.heap = s.heap) (hqueue : t.queue = s.queue) (hhands : t.hands = s.hands)
    (hworkers : ∀ other jobId ref, AssignedAs t.workers other jobId ref ↔
      other ≠ workerId ∧ AssignedAs s.workers other jobId ref) :
    NoJobLost t ↔ ∀ jobId ref, AssignedAs s.workers workerId jobId ref →
      s.jobs.get? jobId = some ref → (s.heap ref).status.Live → PlacedOutside s workerId ref := by
  have hplaced (ref : JobRef) : Placed t ref ↔ PlacedOutside s workerId ref := by
    simp only [Placed, PlacedOutside, Held, hqueue, hhands, hworkers]
  simp only [NoJobLost, hjobs, hheap, hplaced]
  constructor
  · exact fun ht jobId ref _ hj hl => ht jobId ref hj hl
  · intro hkeep jobId ref hj hl
    rcases h jobId ref hj hl with hq | hh | ⟨other, id, ha⟩
    · exact .inl hq
    · exact .inr (.inl hh)
    · by_cases he : other = workerId
      · subst he
        have hid : id = jobId := (hk.assigned other id ref ha).symm.trans (hk.registry jobId ref hj)
        exact hkeep jobId ref (hid ▸ ha) hj hl
      · exact .inr (.inr ⟨other, id, he, ha⟩)

-- When nothing but equivalent assignments changes, the places of all jobs stay as they are.
theorem NoJobLost.congr (h : NoJobLost s) (hjobs : t.jobs = s.jobs) (hheap : t.heap = s.heap)
    (hqueue : t.queue = s.queue) (hhands : t.hands = s.hands)
    (hworkers : ∀ other jobId ref, AssignedAs s.workers other jobId ref →
      AssignedAs t.workers other jobId ref) : NoJobLost t := by
  intro jobId ref hj hl
  rw [hjobs] at hj
  rw [hheap] at hl
  rcases h jobId ref hj hl with hq | hh | ⟨other, id, ha⟩
  · exact .inl (hqueue ▸ hq)
  · exact .inr (.inl (by simpa only [Held, hhands] using hh))
  · exact .inr (.inr ⟨other, id, hworkers _ _ _ ha⟩)

theorem noJobLost_applyReport_iff (h : NoJobLost s) (hk : Keyed s)
    (hw : s.workers.get? workerId = some node) (hj : s.jobs.get? jobId = some ref)
    (status : JobStatus) (result error : Option String) (now : Time) :
    NoJobLost (s.applyReport workerId node jobId ref status result error now) ↔
      (status.Live → Placed s ref) := by
  have hassigned (id : JobId) (job : JobRef) (hne : job ≠ ref) (hjob : s.jobs.get? id = some job)
      (other : WorkerId) (id' : JobId) (ha : AssignedAs s.workers other id' job) :
      AssignedAs (s.applyReport workerId node jobId ref status result error now).workers other id'
        job := by
    have hi := hk.ne_of_registered hj hne hjob ha
    rw [State.applyReport_workers]
    split_ifs
    · rw [assignedAs_set_assign (Dict.get?_set_self ..)]
      simp only [hi, and_false, if_false]
      exact (assignedAs_set_complete hw).mpr ⟨fun hc => hi hc.2, ha⟩
    · exact (assignedAs_set_complete hw).mpr ⟨fun hc => hi hc.2, ha⟩
    · exact ha
  have hother : NoOtherJobLost (s.applyReport workerId node jobId ref status result error now) ref := by
    intro id job hne hjob hl
    rw [State.applyReport_jobs] at hjob
    rw [State.applyReport_heap_of_ne _ _ _ _ _ _ _ _ _ hne] at hl
    rcases h id job hjob hl with hq | hh | ⟨other, id', ha⟩
    · exact .inl (by simpa using hq)
    · exact .inr (.inl (by simpa [Held] using hh))
    · exact .inr (.inr ⟨other, id', hassigned id job hne hjob other id' ha⟩)
  by_cases hlive : status.Live
  · have hworkers : (s.applyReport workerId node jobId ref status result error now).workers =
        s.workers := by
      rw [State.applyReport_workers]
      rcases hlive with rfl | rfl <;> simp [JobStatus.Terminal]
    have hstatus : ((s.applyReport workerId node jobId ref status result error now).heap
        ref).status = status := by
      rw [State.applyReport_status, State.reportedStatus]
      rcases hlive with rfl | rfl <;> simp
    have hplaced : Placed (s.applyReport workerId node jobId ref status result error now) ref ↔
        Placed s ref := by
      simp [Placed, Held, hworkers]
    constructor
    · exact fun hn _ => hplaced.mp (hn jobId ref (by simpa using hj) (by rwa [hstatus]))
    · exact fun hp => NoJobLost.of_other ref hother fun _ => hplaced.mpr (hp hlive)
  · refine iff_of_true (.of_other ref hother fun hl => ?_) (fun hc => absurd hc hlive)
    rw [State.applyReport_status, State.reportedStatus] at hl
    split at hl
    · rename_i hr
      refine .inr (.inr ⟨workerId, jobId, ?_⟩)
      rw [State.applyReport_workers, if_pos hr, assignedAs_set_assign (Dict.get?_set_self ..)]
      simp
    · exact absurd hl hlive

theorem NoJobLost.recoverWorkerJobs (h : NoJobLost s) (hw : s.workers.get? workerId = some node) :
    NoJobLost (s.recoverWorkerJobs workerId node) := by
  intro id job hj hl
  by_cases hm : job ∈ node.assignedJobs.values
  · exact .inl (by simp [State.recoverWorkerJobs, hm])
  · simp only [State.recoverWorkerJobs, State.requeueAll_jobs, State.setNode_jobs] at hj
    simp only [State.recoverWorkerJobs, State.requeueAll_heap, hm, if_false, State.setNode_heap] at hl
    rcases h id job hj hl with hq | hh | ⟨other, id', ha⟩
    · exact .inl (by simp [State.recoverWorkerJobs, hq])
    · exact .inr (.inl (by simpa [Held, State.recoverWorkerJobs] using hh))
    · have hne : other ≠ workerId := by
        rintro rfl
        exact hm ((Dict.mem_values_iff _ _).mpr ⟨id', (assignedAs_iff hw).mp ha⟩)
      refine .inr (.inr ⟨other, id', ?_⟩)
      simp only [State.recoverWorkerJobs, State.requeueAll_workers, State.setNode_workers]
      exact (assignedAs_set_empty rfl).mpr ⟨hne, ha⟩

theorem NoJobLost.setNode_same (h : NoJobLost s) (new : WorkerNode)
    (hw : s.workers.get? workerId = some node) (hs : new.assignedJobs = node.assignedJobs) :
    NoJobLost (s.setNode workerId new) :=
  h.congr rfl rfl rfl rfl fun _ _ _ => (assignedAs_set_same hw hs).mpr

theorem NoJobLost.monitorWorker (h : NoJobLost s) (now : Time) (workerId : WorkerId) :
    NoJobLost (State.monitorWorker now s workerId) := by
  rcases s.monitorWorker_cases now workerId with he | ⟨node, hw, he⟩ | ⟨node, hw, _, _, he⟩ <;> rw [he]
  · exact h
  · exact h.setNode_same { node with status := .suspended } hw rfl
  · have hs := h.setNode_same { node with status := .offline } hw rfl
    exact NoJobLost.recoverWorkerJobs hs (Dict.get?_set_self ..)

theorem NoJobLost.monitorWorkers (h : NoJobLost s) (now : Time) : NoJobLost (s.monitorWorkers now) := by
  unfold State.monitorWorkers
  exact List.foldlRecOn _ _ h fun _ hs workerId _ => hs.monitorWorker now workerId

end Steps

-- One step loses no job exactly when it is one of the steps that keep jobs in sight.
theorem noJobLost_step_iff {s t : State} {act : Action} (hk : Keyed s) (h : NoJobLost s)
    (hs : step s act = some t) : NoJobLost t ↔ Keeps s act := by
  cases hl : act.localJob? with
  | some pair =>
      refine iff_of_true (h.step_local hs hl) ?_
      cases act <;> trivial
  | none =>
      cases act with
      | submitJob ref context => exact iff_of_true (Option.some.inj hs ▸ h.submitJob hk ref context) trivial
      | cancelJob jobId now => exact iff_of_true (Option.some.inj hs ▸ h.cancelJob jobId now) trivial
      | registerWorker workerId name capabilities health now =>
          obtain rfl := Option.some.inj hs
          exact noJobLost_drop_iff h hk rfl rfl rfl rfl fun _ _ _ => assignedAs_set_empty rfl
      | unregisterWorker workerId =>
          obtain rfl := Option.some.inj hs
          unfold State.unregisterWorker
          split
          · rename_i hw
            refine iff_of_true h ?_
            rintro jobId ref ⟨node, hn, _⟩
            simp [hw] at hn
          · exact noJobLost_drop_iff h hk rfl rfl rfl rfl fun _ _ _ => assignedAs_erase
      | sendHeartbeat workerId health now =>
          obtain rfl := Option.some.inj hs
          refine iff_of_true ?_ trivial
          unfold State.sendHeartbeat
          split
          · exact h
          · rename_i node hw
            exact h.setNode_same (node.updateHeartbeat health now) hw rfl
      | assignJob jobId workerId =>
          exact iff_of_true (Option.some.inj hs ▸ h.assignJob hk jobId workerId) trivial
      | assignJobByCapability ref =>
          obtain rfl := Option.some.inj hs
          refine iff_of_true ?_ trivial
          rcases s.assignJobByCapability_cases ref with he | ⟨workerId, t, ha, he⟩ <;> rw [he]
          · exact h
          · simpa [ha] using h.assignJob hk (s.heap ref).id workerId
      | fetchJob workerId ref =>
          refine iff_of_true ?_ trivial
          obtain ⟨node, rest, hw, _, rfl⟩ := State.fetchJob_eq hs
          exact h.setNode_same _ hw rfl
      | reportJobStatus workerId jobId status result error now =>
          obtain rfl := Option.some.inj hs
          rcases s.reportJobStatus_cases workerId jobId status result error now with
            ⟨hu, he⟩ | ⟨node, ref, hw, hj, he⟩
          · rw [he]
            refine iff_of_true h fun _ hm ref hj => ?_
            rcases hu with hu | hu
            · exact absurd hm hu
            · simp [hu] at hj
          · rw [he, noJobLost_applyReport_iff h hk hw hj]
            have hm : workerId ∈ s.workers := (Dict.mem_iff _ _).mpr ⟨node, hw⟩
            simp [Keeps, hm, hj]
      | monitorWorkers now => exact iff_of_true (Option.some.inj hs ▸ h.monitorWorkers now) trivial
      | dequeue | checkCancelled | startJob | succeedJob | failJob | handleFailure | requeue => cases hl

-- Over whole runs: no state on the way has lost a job exactly when every step keeps jobs in sight.
theorem no_job_lost_iff (heap : JobRef → Job) (acts : List Action) :
    Always step NoJobLost (State.start heap) acts ↔ Meets step Keeps (State.start heap) acts :=
  always_iff_meets (fun _ _ _ => keyed_step) (fun _ _ _ => noJobLost_step_iff) (keyed_start heap)
    (noJobLost_start heap)

-- A job pinned to a worker that is unregistered before it fetches anything.
def pinnedJob : Job :=
  Job.init (.callable "task") (Dict.empty.set "worker_id" "w1") "job-1" none 20 0 none none 0

def strandingRun : List Action :=
  [.registerWorker "w1" "node" [] .empty 0, .sendHeartbeat "w1" .empty 0, .submitJob 0 none,
    .unregisterWorker "w1"]

theorem unregister_strands_job : ∃ s, Run step (State.start fun _ => pinnedJob) strandingRun s ∧
    s.jobs.get? "job-1" = some 0 ∧ (s.heap 0).status = .queued ∧ ¬NoJobLost s := by
  refine ⟨_, Run.of_foldlM rfl, rfl, rfl, fun h => ?_⟩
  rcases h "job-1" 0 rfl (.inl rfl) with hq | ⟨thread, hh⟩ | ⟨workerId, jobId, node, hw, _⟩
  · cases hq
  · cases hh
  · cases hw

end YasinCore.Execution
