import YasinCore.Library.Transition
import YasinCore.Execution.Worker.Lemmas

namespace YasinCore.Execution

open YasinCore.Library

namespace State

-- The identifiers of the jobs in a queue, in its order.
def idsOf (s : State) (queue : List JobRef) : List JobId := queue.map fun ref => (s.heap ref).id

-- The nodes among which the router chooses by capability.
def candidates (s : State) (ref : JobRef) : List WorkerNode :=
  let candidates := s.discoverWorkers (routingCapability (s.heap ref))
  let candidates := if candidates = [] then s.discoverWorkers "default" else candidates
  if candidates = [] then s.listWorkers (some .active) else candidates

def selectWorker (s : State) (ref : JobRef) : Option WorkerId :=
  match s.candidates ref with
  | [] => none
  | first :: rest => some (leastLoaded first rest).id

-- The worker is registered and active, and the engine knows the job.
def Accepts (s : State) (jobId : JobId) (workerId : WorkerId) : Prop :=
  jobId ∈ s.jobs ∧ ∃ node ∈ s.workers.get? workerId, node.status = .active

instance (s : State) (jobId : JobId) (workerId : WorkerId) : Decidable (s.Accepts jobId workerId) :=
  inferInstanceAs (Decidable (_ ∧ _))

-- The workers that submit_job asks to take the job, in this order, until one of them accepts.
def attempts (s : State) (ref : JobRef) : List WorkerId :=
  let job := s.heap ref
  let byTarget := match job.target with
    | .str name => if s.discoverWorkers ("target:" ++ name) = [] then none else s.selectWorker ref
    | .callable _ => none
  if s.listWorkers none = [] then []
  else (Job.given job.workerId).toList ++
    ((if job.requiredCapability.isSome then s.selectWorker ref else none).toList ++ byTarget.toList)

def routedWorker (s : State) (ref : JobRef) : Option WorkerId :=
  (s.attempts ref).find? fun workerId => s.Accepts (s.heap ref).id workerId

section Routing

variable {s t : State} {ref : JobRef} {jobId : JobId} {workerId : WorkerId}

theorem assignJob_of_accepts (h : s.Accepts jobId workerId) :
    ∃ node job, s.workers.get? workerId = some node ∧ s.jobs.get? jobId = some job ∧
      s.assignJob jobId workerId = (true, s.handOver workerId node jobId job) := by
  obtain ⟨hm, node, hw, ha⟩ := h
  obtain ⟨job, hj⟩ := (Dict.mem_iff _ _).mp hm
  rcases s.assignJob_cases jobId workerId with he | ⟨node', job', hw', _, hj', he⟩
  · have hw : s.workers.get? workerId = some node := hw
    simp [assignJob, getJob, hw, ha, hj] at he
  · exact ⟨node', job', hw', hj', he⟩

theorem assignJob_of_not_accepts (h : ¬s.Accepts jobId workerId) :
    s.assignJob jobId workerId = (false, s) := by
  rcases s.assignJob_cases jobId workerId with he | ⟨node, job, hw, ha, hj, _⟩
  · exact he
  · exact absurd ⟨(Dict.mem_iff _ _).mpr ⟨job, hj⟩, node, hw, ha⟩ h

theorem assignJobByCapability_eq (s : State) (ref : JobRef) :
    s.assignJobByCapability ref =
      match s.selectWorker ref with
      | none => (none, s)
      | some workerId =>
          if s.Accepts (s.heap ref).id workerId then
            (some workerId, (s.assignJob (s.heap ref).id workerId).2)
          else (none, s) := by
  unfold assignJobByCapability selectWorker
  dsimp only
  rw [← candidates]
  cases s.candidates ref with
  | nil => rfl
  | cons first rest =>
      by_cases ha : s.Accepts (s.heap ref).id (leastLoaded first rest).id
      · obtain ⟨_, _, _, _, he⟩ := assignJob_of_accepts ha
        simp [he, ha]
      · simp [assignJob_of_not_accepts ha, ha]

theorem routeExplicitly_eq (s : State) (ref : JobRef) :
    s.routeExplicitly ref =
      ((Job.given (s.heap ref).workerId).toList.find? fun workerId =>
        s.Accepts (s.heap ref).id workerId).map fun workerId =>
          (s.assignJob (s.heap ref).id workerId).2 := by
  unfold routeExplicitly
  cases Job.given (s.heap ref).workerId with
  | none => rfl
  | some workerId =>
      by_cases ha : s.Accepts (s.heap ref).id workerId
      · obtain ⟨_, _, _, _, he⟩ := assignJob_of_accepts ha
        simp [he, ha]
      · simp [assignJob_of_not_accepts ha, ha]

theorem routeAnywhere_eq (s : State) (ref : JobRef) :
    s.routeAnywhere ref =
      ((s.selectWorker ref).toList.find? fun workerId =>
        s.Accepts (s.heap ref).id workerId).map fun workerId =>
          (s.assignJob (s.heap ref).id workerId).2 := by
  unfold routeAnywhere
  rw [assignJobByCapability_eq]
  cases s.selectWorker ref with
  | none => rfl
  | some workerId =>
      by_cases ha : s.Accepts (s.heap ref).id workerId <;> simp [ha]

-- The first worker that accepts the job decides where submit_job sends it.
theorem routeToWorker_eq (s : State) (ref : JobRef) :
    s.routeToWorker ref =
      (s.routedWorker ref).map fun workerId => (s.assignJob (s.heap ref).id workerId).2 := by
  unfold routeToWorker routedWorker attempts
  by_cases hl : s.listWorkers none = []
  · simp [hl]
  have hcapability : s.routeByCapability ref =
      ((if (s.heap ref).requiredCapability.isSome then s.selectWorker ref else none).toList.find?
        fun workerId => s.Accepts (s.heap ref).id workerId).map fun workerId =>
          (s.assignJob (s.heap ref).id workerId).2 := by
    unfold routeByCapability
    split
    · exact routeAnywhere_eq s ref
    · rfl
  have htarget : s.routeByTarget ref =
      ((match (s.heap ref).target with
        | .str name => if s.discoverWorkers ("target:" ++ name) = [] then none else s.selectWorker ref
        | .callable _ => none).toList.find?
          fun workerId => s.Accepts (s.heap ref).id workerId).map fun workerId =>
            (s.assignJob (s.heap ref).id workerId).2 := by
    unfold routeByTarget
    cases (s.heap ref).target with
    | callable _ => rfl
    | str name =>
        dsimp only
        split
        · rfl
        · exact routeAnywhere_eq s ref
  simp only [hl, if_false, List.find?_append, Option.map_or]
  rw [routeExplicitly_eq, hcapability, htarget]

theorem submitJob_eq (s : State) (ref : JobRef) (context : Option String) :
    s.submitJob ref context = ((s.registerJob ref context).routeToWorker ref).getD
      (((s.registerJob ref context).putQueue ref).publishJob "job_queued" ref) := by
  unfold submitJob
  dsimp only
  cases (s.registerJob ref context).routeToWorker ref with
  | none => rfl
  | some t => rfl

end Routing

end State

-- A node's queue holds jobs of its own assignment map only, each of them once.
structure Orderly (heap : JobRef → Job) (node : WorkerNode) : Prop where
  queued : ∀ ref ∈ node.queue, node.assignedJobs.get? (heap ref).id = some ref
  once : (node.queue.map fun ref => (heap ref).id).Nodup

-- The three views of an assignment agree: the job's own field, the nodes' maps, the nodes' queues.
structure OneWorker (s : State) : Prop where
  unique : ∀ workerId other jobId ref ref', AssignedAs s.workers workerId jobId ref →
    AssignedAs s.workers other jobId ref' → workerId = other
  orderly : ∀ workerId node, s.workers.get? workerId = some node → Orderly s.heap node
  named : ∀ workerId jobId ref, AssignedAs s.workers workerId jobId ref →
    (s.heap ref).workerId = some workerId

-- The job is not assigned to another worker, and does not wait in the queue of this one.
def Free (s : State) (workerId : WorkerId) (jobId : JobId) : Prop :=
  (∀ other ref, AssignedAs s.workers other jobId ref → other = workerId) ∧
    ∀ node, s.workers.get? workerId = some node → jobId ∉ s.idsOf node.queue

-- The steps that keep a job with one worker.
def Exclusive (s : State) : Action → Prop
  | .submitJob ref context =>
      ∀ workerId ∈ (s.registerJob ref context).routedWorker ref, Free s workerId (s.heap ref).id
  | .assignJob jobId workerId => s.Accepts jobId workerId → Free s workerId jobId
  | .assignJobByCapability ref =>
      ∀ workerId ∈ s.selectWorker ref, s.Accepts (s.heap ref).id workerId →
        Free s workerId (s.heap ref).id
  | .reportJobStatus workerId jobId status _ _ _ =>
      ∀ node ref, s.workers.get? workerId = some node → s.jobs.get? jobId = some ref →
        status.Terminal →
          if status = .failed ∧ (s.heap ref).CanRetry then
            Free s workerId jobId ∧ (s.heap ref).workerId = some workerId
          else jobId ∉ s.idsOf node.queue
  | _ => True

section Nodes

variable {heap heap' : JobRef → Job} {node new : WorkerNode} {ref : JobRef} {jobId : JobId}

theorem Orderly.reheap (h : Orderly heap node) (hid : ∀ ref, (heap' ref).id = (heap ref).id) :
    Orderly heap' node := by
  constructor
  · intro ref hr
    rw [hid]
    exact h.queued ref hr
  · simpa only [hid] using h.once

theorem Orderly.shrink (h : Orderly heap node) (hassigned : new.assignedJobs = node.assignedJobs)
    (hqueue : new.queue.Sublist node.queue) : Orderly heap new := by
  constructor
  · intro ref hr
    rw [hassigned]
    exact h.queued ref (hqueue.subset hr)
  · exact h.once.sublist (hqueue.map _)

theorem orderly_of_queue_nil (h : node.queue = []) : Orderly heap node := by
  constructor <;> simp [h]

-- One more entry, filed under its identifier, is in order when the queue has none for it yet.
theorem orderly_take_iff (h : Orderly heap node) (hid : (heap ref).id = jobId)
    (hqueue : new.queue = node.queue ++ [ref])
    (hassigned : ∀ id, new.assignedJobs.get? id =
      if id = jobId then some ref else node.assignedJobs.get? id) :
    Orderly heap new ↔ jobId ∉ node.queue.map fun ref => (heap ref).id := by
  have hmap : (new.queue.map fun ref => (heap ref).id) =
      (node.queue.map fun ref => (heap ref).id) ++ [jobId] := by
    rw [hqueue, List.map_append, List.map_singleton, hid]
  constructor
  · intro hnew hm
    have honce := hnew.once
    rw [hmap, List.nodup_append] at honce
    exact honce.2.2 _ hm _ (List.mem_singleton_self _) rfl
  · intro hnot
    constructor
    · intro other ho
      rw [hassigned]
      rw [hqueue, List.mem_append, List.mem_singleton] at ho
      rcases ho with ho | rfl
      · have hne : (heap other).id ≠ jobId := by
          rintro he
          exact hnot (List.mem_map.mpr ⟨other, ho, he⟩)
        rw [if_neg hne]
        exact h.queued other ho
      · rw [if_pos hid]
    · rw [hmap, List.nodup_append]
      refine ⟨h.once, List.nodup_singleton _, fun a ha b hb he => hnot ?_⟩
      rw [← List.mem_singleton.mp hb, ← he]
      exact ha

-- A finished job leaves the map in order when no entry of the queue is left behind.
theorem orderly_complete_iff (h : Orderly heap node) :
    Orderly heap (node.complete jobId) ↔ jobId ∉ node.queue.map fun ref => (heap ref).id := by
  constructor
  · intro hnew hm
    obtain ⟨ref, hr, he⟩ := List.mem_map.mp hm
    have hq := hnew.queued ref hr
    rw [he] at hq
    simp [WorkerNode.complete] at hq
  · intro hnot
    constructor
    · intro ref hr
      have hne : (heap ref).id ≠ jobId := fun he => hnot (List.mem_map.mpr ⟨ref, hr, he⟩)
      have hq := h.queued ref hr
      simpa [WorkerNode.complete, Dict.get?_erase, hne] using hq
    · exact h.once

end Nodes

section Steps

variable {s t : State} {ref : JobRef} {workerId : WorkerId} {node new : WorkerNode} {jobId : JobId}

theorem oneWorker_start (heap : JobRef → Job) : OneWorker (State.start heap) := by
  constructor <;> simp [State.start, AssignedAs]

-- Other fields of the jobs may change, as long as assigned jobs keep their worker.
theorem OneWorker.reheap (h : OneWorker s) (hworkers : t.workers = s.workers)
    (hid : ∀ ref, (t.heap ref).id = (s.heap ref).id)
    (hnamed : ∀ workerId jobId ref, AssignedAs s.workers workerId jobId ref →
      (t.heap ref).workerId = (s.heap ref).workerId) : OneWorker t := by
  constructor
  · rw [hworkers]
    exact h.unique
  · rw [hworkers]
    exact fun workerId node hw => (h.orderly workerId node hw).reheap hid
  · rw [hworkers]
    intro workerId jobId ref ha
    rw [hnamed workerId jobId ref ha]
    exact h.named workerId jobId ref ha

-- A node may change in everything but its assignments, and its queue may lose entries.
theorem OneWorker.setNode (h : OneWorker s) (new : WorkerNode)
    (hw : s.workers.get? workerId = some node) (hassigned : new.assignedJobs = node.assignedJobs)
    (hqueue : new.queue.Sublist node.queue) :
    OneWorker (s.setNode workerId new) := by
  have hsame (other : WorkerId) (jobId : JobId) (ref : JobRef) :
      AssignedAs (s.setNode workerId new).workers other jobId ref ↔
        AssignedAs s.workers other jobId ref := assignedAs_set_same hw hassigned
  constructor
  · intro first second jobId ref ref' ha hb
    exact h.unique first second jobId ref ref' ((hsame ..).mp ha) ((hsame ..).mp hb)
  · intro other found hf
    rw [State.setNode_workers, Dict.get?_set] at hf
    split at hf
    · obtain rfl := Option.some.inj hf
      exact (h.orderly workerId node hw).shrink hassigned hqueue
    · exact h.orderly other found hf
  · intro other jobId ref ha
    exact h.named other jobId ref ((hsame ..).mp ha)

-- A node that is emptied or dropped takes nothing from the others.
theorem OneWorker.drop (h : OneWorker s) (hheap : t.heap = s.heap)
    (hworkers : ∀ other found, t.workers.get? other = some found →
      found.queue = [] ∧ found.assignedJobs = .empty ∨ s.workers.get? other = some found) :
    OneWorker t := by
  have hassigned {other : WorkerId} {jobId : JobId} {ref : JobRef}
      (ha : AssignedAs t.workers other jobId ref) : AssignedAs s.workers other jobId ref := by
    obtain ⟨found, hf, hr⟩ := ha
    rcases hworkers other found hf with ⟨_, he⟩ | hf
    · rw [he] at hr
      cases hr
    · exact ⟨found, hf, hr⟩
  constructor
  · intro first second jobId ref ref' ha hb
    exact h.unique first second jobId ref ref' (hassigned ha) (hassigned hb)
  · intro other found hf
    rw [hheap]
    rcases hworkers other found hf with ⟨he, _⟩ | hf
    · exact orderly_of_queue_nil he
    · exact h.orderly other found hf
  · intro other jobId ref ha
    rw [hheap]
    exact h.named other jobId ref (hassigned ha)

-- A worker takes a job: into its map, at the end of its queue.
theorem oneWorker_take_iff (hk : Keyed s) (h : OneWorker s) (new : WorkerNode)
    (hw : s.workers.get? workerId = some node) (hid : (s.heap ref).id = jobId)
    (hqueue : new.queue = node.queue ++ [ref])
    (hassigned : ∀ id, new.assignedJobs.get? id =
      if id = jobId then some ref else node.assignedJobs.get? id)
    (hworkers : ∀ other, t.workers.get? other =
      if other = workerId then some new else s.workers.get? other)
    (hids : ∀ ref, (t.heap ref).id = (s.heap ref).id)
    (hheap : ∀ other, other ≠ ref → t.heap other = s.heap other) :
    OneWorker t ↔ Free s workerId jobId ∧ (t.heap ref).workerId = some workerId := by
  have htaken : AssignedAs t.workers workerId jobId ref := by
    refine ⟨new, ?_, ?_⟩
    · rw [hworkers, if_pos rfl]
    · rw [hassigned, if_pos rfl]
  have hother {other : WorkerId} (ho : other ≠ workerId) (id : JobId) (job : JobRef) :
      AssignedAs t.workers other id job ↔ AssignedAs s.workers other id job := by
    unfold AssignedAs
    rw [hworkers, if_neg ho]
  have hsame {id : JobId} {job : JobRef} (ha : AssignedAs t.workers workerId id job) :
      id = jobId ∧ job = ref ∨ id ≠ jobId ∧ AssignedAs s.workers workerId id job := by
    obtain ⟨found, hf, hj⟩ := ha
    rw [hworkers, if_pos rfl] at hf
    obtain rfl := Option.some.inj hf
    rw [hassigned] at hj
    split at hj
    · rename_i he
      exact .inl ⟨he, (Option.some.inj hj).symm⟩
    · rename_i hne
      exact .inr ⟨hne, node, hw, hj⟩
  have horderly : Orderly t.heap new ↔ jobId ∉ s.idsOf node.queue := by
    have htake : Orderly s.heap new ↔ jobId ∉ node.queue.map fun ref => (s.heap ref).id :=
      orderly_take_iff (h.orderly workerId node hw) hid hqueue hassigned
    rw [State.idsOf, ← htake]
    exact ⟨fun ho => ho.reheap fun ref => (hids ref).symm, fun ho => ho.reheap hids⟩
  constructor
  · intro ht
    refine ⟨⟨fun other job ha => ?_, fun found hf => ?_⟩, ht.named workerId jobId ref htaken⟩
    · by_contra hne
      exact hne (ht.unique other workerId jobId job ref ((hother hne ..).mpr ha) htaken)
    · obtain rfl := Option.some.inj (hw.symm.trans hf)
      have hnew : t.workers.get? workerId = some new := by rw [hworkers, if_pos rfl]
      exact horderly.mp (ht.orderly workerId new hnew)
  · rintro ⟨⟨hfree, hqueue⟩, hnamed⟩
    -- The job that is taken was nowhere else, and all others stay where they were.
    have hback {other : WorkerId} {id : JobId} {job : JobRef} (ha : AssignedAs t.workers other id job) :
        other = workerId ∧ id = jobId ∧ job = ref ∨ id ≠ jobId ∧ AssignedAs s.workers other id job := by
      by_cases ho : other = workerId
      · subst ho
        rcases hsame ha with he | ho
        · exact .inl ⟨rfl, he⟩
        · exact .inr ho
      · have ha := (hother ho ..).mp ha
        refine .inr ⟨?_, ha⟩
        rintro rfl
        exact ho (hfree other job ha)
    constructor
    · intro first second id job job' ha hb
      rcases hback ha with ⟨rfl, hi, _⟩ | ⟨hi, ha⟩
      · rcases hback hb with ⟨rfl, _⟩ | ⟨hi', _⟩
        · rfl
        · exact absurd hi hi'
      · rcases hback hb with ⟨_, hi', _⟩ | ⟨_, hb⟩
        · exact absurd hi' hi
        · exact h.unique first second id job job' ha hb
    · intro other found hf
      rw [hworkers] at hf
      split at hf
      · obtain rfl := Option.some.inj hf
        exact horderly.mpr (hqueue node hw)
      · exact (h.orderly other found hf).reheap hids
    · intro other id job ha
      rcases hback ha with ⟨rfl, _, rfl⟩ | ⟨hi, ha⟩
      · exact hnamed
      · have hne : job ≠ ref := by
          rintro rfl
          exact hi ((hk.assigned other id job ha).symm.trans hid)
        rw [hheap job hne]
        exact h.named other id job ha

theorem oneWorker_assignJob_iff (hk : Keyed s) (h : OneWorker s) (jobId : JobId) (workerId : WorkerId) :
    OneWorker (s.assignJob jobId workerId).2 ↔ (s.Accepts jobId workerId → Free s workerId jobId) := by
  by_cases ha : s.Accepts jobId workerId
  · obtain ⟨node, ref, hw, hj, he⟩ := State.assignJob_of_accepts ha
    have hid := hk.registry jobId ref hj
    have htake : OneWorker (s.handOver workerId node jobId ref) ↔ Free s workerId jobId ∧
        ((s.handOver workerId node jobId ref).heap ref).workerId = some workerId :=
      oneWorker_take_iff hk h (node.assign jobId ref) hw hid rfl
        (fun id => Dict.get?_set _ _ _ _) (fun other => Dict.get?_set _ _ _ _)
        (fun other => by by_cases ho : other = ref <;> simp [State.updateJob_heap, ho])
        (fun other ho => by simp [State.updateJob_heap, ho])
    rw [he, htake]
    simp [ha]
  · rw [State.assignJob_of_not_accepts ha]
    exact iff_of_true h fun hc => absurd hc ha

theorem OneWorker.registerJob (h : OneWorker s) (ref : JobRef) (context : Option String) :
    OneWorker (s.registerJob ref context) := by
  have hworkers : (s.registerJob ref context).workers = s.workers := rfl
  apply h.reheap hworkers
  · intro other
    by_cases ho : other = ref <;> simp [State.registerJob, State.updateJob_heap, ho]
  · intro workerId jobId other ha
    by_cases ho : other = ref <;> simp [State.registerJob, State.updateJob_heap, ho]

theorem free_registerJob (context : Option String) :
    Free (s.registerJob ref context) workerId jobId ↔ Free s workerId jobId := by
  have hids (queue : List JobRef) : (s.registerJob ref context).idsOf queue = s.idsOf queue := by
    apply List.map_congr_left
    intro other _
    by_cases ho : other = ref <;> simp [State.registerJob, State.updateJob_heap, ho]
  have hworkers : (s.registerJob ref context).workers = s.workers := rfl
  simp only [Free, hids, hworkers]

theorem oneWorker_submitJob_iff (hk : Keyed s) (h : OneWorker s) (context : Option String) :
    OneWorker (s.submitJob ref context) ↔ Exclusive s (.submitJob ref context) := by
  have hkr := hk.registerJob ref context
  have hr := h.registerJob ref context
  have hid : ((s.registerJob ref context).heap ref).id = (s.heap ref).id := by
    simp [State.registerJob]
  rw [State.submitJob_eq, State.routeToWorker_eq, Exclusive, hid]
  cases hroute : (s.registerJob ref context).routedWorker ref with
  | none =>
      refine iff_of_true ⟨hr.unique, hr.orderly, hr.named⟩ ?_
      intro workerId hm
      cases hm
  | some workerId =>
      have ha : (s.registerJob ref context).Accepts (s.heap ref).id workerId := by
        have hfound := List.find?_some hroute
        rw [hid] at hfound
        exact of_decide_eq_true hfound
      have hassign := oneWorker_assignJob_iff hkr hr (s.heap ref).id workerId
      simpa [ha, free_registerJob] using hassign

-- A finished job leaves its worker's map.
theorem oneWorker_finish_iff (h : OneWorker s) (hw : s.workers.get? workerId = some node)
    (hworkers : t.workers = s.workers.set workerId (node.complete jobId))
    (hids : ∀ ref, (t.heap ref).id = (s.heap ref).id)
    (hnamed : ∀ ref, (t.heap ref).workerId = (s.heap ref).workerId) :
    OneWorker t ↔ jobId ∉ s.idsOf node.queue := by
  have hcomplete : Orderly s.heap (node.complete jobId) ↔ jobId ∉ s.idsOf node.queue :=
    orderly_complete_iff (h.orderly workerId node hw)
  have hassigned {other : WorkerId} {id : JobId} {job : JobRef} (ha : AssignedAs t.workers other id job) :
      AssignedAs s.workers other id job := by
    rw [hworkers] at ha
    exact ((assignedAs_set_complete hw).mp ha).2
  constructor
  · intro ht
    apply hcomplete.mp
    have hnew : t.workers.get? workerId = some (node.complete jobId) := by
      rw [hworkers, Dict.get?_set_self]
    exact (ht.orderly workerId _ hnew).reheap fun ref => (hids ref).symm
  · intro hnot
    constructor
    · intro first second id job job' ha hb
      exact h.unique first second id job job' (hassigned ha) (hassigned hb)
    · intro other found hf
      rw [hworkers, Dict.get?_set] at hf
      split at hf
      · obtain rfl := Option.some.inj hf
        exact (hcomplete.mpr hnot).reheap hids
      · exact (h.orderly other found hf).reheap hids
    · intro other id job ha
      rw [hnamed]
      exact h.named other id job (hassigned ha)

section Report

variable (status : JobStatus) (result error : Option String) (now : Time)

-- Only an assignment or a recovery changes a job's worker.
theorem applyReport_workerId (s : State) (workerId : WorkerId) (node : WorkerNode) (jobId : JobId)
    (ref other : JobRef) :
    ((s.applyReport workerId node jobId ref status result error now).heap other).workerId =
      (s.heap other).workerId := by
  by_cases ho : other = ref
  · subst ho
    obtain ⟨_, _, _, _, he⟩ := s.applyReport_heap_self workerId node jobId other status result error now
    rw [he]
  · rw [State.applyReport_heap_of_ne _ _ _ _ _ _ _ _ _ ho]

theorem oneWorker_applyReport_iff (hk : Keyed s) (h : OneWorker s)
    (hw : s.workers.get? workerId = some node) (hj : s.jobs.get? jobId = some ref) :
    OneWorker (s.applyReport workerId node jobId ref status result error now) ↔
      (status.Terminal → if status = .failed ∧ (s.heap ref).CanRetry then
        Free s workerId jobId ∧ (s.heap ref).workerId = some workerId
        else jobId ∉ s.idsOf node.queue) := by
  have hworkers := s.applyReport_workers workerId node jobId ref status result error now
  have hid := hk.registry jobId ref hj
  have hids (other : JobRef) :
      ((s.applyReport workerId node jobId ref status result error now).heap other).id =
        (s.heap other).id := by
    by_cases ho : other = ref
    · rw [ho, State.applyReport_id]
    · rw [State.applyReport_heap_of_ne _ _ _ _ _ _ _ _ _ ho]
  have hnamed := applyReport_workerId status result error now s workerId node jobId ref
  by_cases hretry : status = .failed ∧ (s.heap ref).CanRetry
  · have hterminal : status.Terminal := .inr (.inl hretry.1)
    rw [if_pos hretry] at hworkers
    have htake := oneWorker_take_iff hk h ((node.complete jobId).assign jobId ref) hw hid rfl
      (fun id => ?_) (fun other => ?_) hids
      (fun other ho => State.applyReport_heap_of_ne s workerId node jobId ref status result error now ho)
    · rw [htake, hnamed, if_pos hretry]
      simp [hterminal]
    · simp only [WorkerNode.assign, WorkerNode.complete, Dict.get?_set, Dict.get?_erase]
      split <;> rfl
    · rw [hworkers, Dict.get?_set, Dict.get?_set]
      split <;> rfl
  · rw [if_neg hretry] at hworkers ⊢
    by_cases hterminal : status.Terminal
    · rw [if_pos hterminal] at hworkers
      rw [oneWorker_finish_iff h hw hworkers hids hnamed]
      simp [hterminal]
    · rw [if_neg hterminal] at hworkers
      refine iff_of_true (h.reheap hworkers hids fun _ _ other _ => hnamed other) ?_
      exact fun hc => absurd hc hterminal

end Report

-- The jobs of a dead node are nobody's afterwards, and no other node had any of them.
theorem OneWorker.recoverWorkerJobs (hk : Keyed s) (h : OneWorker s)
    (hw : s.workers.get? workerId = some node) : OneWorker (s.recoverWorkerJobs workerId node) := by
  have hdrained : OneWorker (s.setNode workerId node.drain) := by
    refine h.drop (t := s.setNode workerId node.drain) rfl fun other found hf => ?_
    rw [State.setNode_workers, Dict.get?_set] at hf
    split at hf
    · obtain rfl := Option.some.inj hf
      exact .inl ⟨rfl, rfl⟩
    · exact .inr hf
  have hworkers : (s.recoverWorkerJobs workerId node).workers = s.workers.set workerId node.drain := by
    simp [State.recoverWorkerJobs]
  apply hdrained.reheap hworkers
  · intro ref
    simp only [State.recoverWorkerJobs, State.requeueAll_heap]
    split <;> rfl
  · intro other id ref ha
    obtain ⟨hne, ha⟩ := (assignedAs_set_empty rfl).mp ha
    have hnot : ref ∉ node.assignedJobs.values := by
      intro hm
      obtain ⟨id', hid'⟩ := (Dict.mem_values_iff _ _).mp hm
      have hown := (assignedAs_iff hw).mpr hid'
      have he : id' = id := (hk.assigned workerId id' ref hown).symm.trans (hk.assigned other id ref ha)
      exact hne (h.unique other workerId id ref ref ha (he ▸ hown))
    simp [State.recoverWorkerJobs, State.requeueAll_heap, hnot]

theorem OneWorker.monitorWorker (hk : Keyed s) (h : OneWorker s) (now : Time) (workerId : WorkerId) :
    OneWorker (State.monitorWorker now s workerId) := by
  rcases s.monitorWorker_cases now workerId with he | ⟨node, hw, he⟩ | ⟨node, hw, _, _, he⟩ <;> rw [he]
  · exact h
  · have hs := h.setNode { node with status := .suspended } hw rfl (List.Sublist.refl _)
    exact ⟨hs.unique, hs.orderly, hs.named⟩
  · have hs := h.setNode { node with status := .offline } hw rfl (List.Sublist.refl _)
    have hks := hk.setNode_same { node with status := .offline } hw rfl
    apply OneWorker.recoverWorkerJobs
    · exact ⟨hks.registry, hks.assigned⟩
    · exact ⟨hs.unique, hs.orderly, hs.named⟩
    · exact Dict.get?_set_self ..

theorem OneWorker.monitorWorkers (hk : Keyed s) (h : OneWorker s) (now : Time) :
    OneWorker (s.monitorWorkers now) := by
  unfold State.monitorWorkers
  generalize s.workers.keys = workerIds
  induction workerIds generalizing s with
  | nil => exact h
  | cons workerId rest ih => exact ih (hk.monitorWorker now workerId) (h.monitorWorker hk now workerId)

theorem OneWorker.cancelJob (h : OneWorker s) (jobId : JobId) (now : Time) :
    OneWorker (s.cancelJob jobId now).2 := by
  unfold State.cancelJob
  split
  · exact h
  · rename_i ref _
    by_cases ht : (s.heap ref).status.Terminal
    · simpa [Job.cancel_of_terminal ht, State.updateJob] using h
    · rw [Job.cancel_of_not_terminal ht]
      refine h.reheap ?_ (fun other => ?_) fun _ _ other _ => ?_
      · rfl
      · by_cases ho : other = ref <;> simp [State.updateJob_heap, ho]
      · by_cases ho : other = ref <;> simp [State.updateJob_heap, ho]

theorem State.local_workerId {act : Action} {thread : ThreadId} (hs : step s act = some t)
    (hl : act.localJob? = some (thread, ref)) : (t.heap ref).workerId = (s.heap ref).workerId := by
  cases act with
  | dequeue _ _ =>
      obtain ⟨_, _, _, rfl⟩ := State.dequeue_eq hs
      rfl
  | checkCancelled _ _ _ =>
      obtain ⟨rfl, rfl⟩ := Prod.mk.inj (Option.some.inj hl)
      obtain ⟨_, ⟨_, rfl⟩ | ⟨_, rfl⟩⟩ := State.checkCancelled_eq hs <;> simp
  | startJob _ _ _ =>
      obtain ⟨rfl, rfl⟩ := Prod.mk.inj (Option.some.inj hl)
      obtain ⟨_, rfl⟩ := State.startJob_eq hs
      simp
  | succeedJob _ _ _ _ =>
      obtain ⟨rfl, rfl⟩ := Prod.mk.inj (Option.some.inj hl)
      obtain ⟨_, rfl⟩ := State.succeedJob_eq hs
      simp
  | failJob _ _ _ =>
      obtain ⟨_, rfl⟩ := State.failJob_eq hs
      rfl
  | handleFailure _ _ _ _ =>
      obtain ⟨rfl, rfl⟩ := Prod.mk.inj (Option.some.inj hl)
      obtain ⟨_, ⟨_, rfl⟩ | ⟨_, rfl⟩⟩ := State.handleFailure_eq hs <;> simp
  | requeue _ _ =>
      obtain ⟨_, rfl⟩ := State.requeue_eq hs
      rfl
  | submitJob | cancelJob | registerWorker | unregisterWorker | sendHeartbeat | assignJob
  | assignJobByCapability | fetchJob | reportJobStatus | monitorWorkers =>
      cases hl

-- Local threads take jobs from the central queue and leave every assignment as it is.
theorem OneWorker.step_local (h : OneWorker s) {act : Action} {thread : ThreadId}
    (hs : step s act = some t) (hl : act.localJob? = some (thread, ref)) : OneWorker t := by
  have hlocal := State.localStep_of_step hs hl
  apply h.reheap hlocal.workers
  · intro other
    by_cases ho : other = ref
    · rw [ho, hlocal.id]
    · rw [hlocal.heap other ho]
  · intro workerId jobId other _
    by_cases ho : other = ref
    · rw [ho, State.local_workerId hs hl]
    · rw [hlocal.heap other ho]

end Steps

-- One step leaves every job with one worker exactly when it is one of the exclusive steps.
theorem oneWorker_step_iff {s t : State} {act : Action} (hk : Keyed s) (h : OneWorker s)
    (hs : step s act = some t) : OneWorker t ↔ Exclusive s act := by
  cases hl : act.localJob? with
  | some pair =>
      refine iff_of_true (h.step_local hs hl) ?_
      cases act <;> trivial
  | none =>
      cases act with
      | submitJob ref context =>
          obtain rfl := Option.some.inj hs
          exact oneWorker_submitJob_iff hk h context
      | cancelJob jobId now =>
          obtain rfl := Option.some.inj hs
          exact iff_of_true (h.cancelJob jobId now) trivial
      | registerWorker workerId name capabilities health now =>
          obtain rfl := Option.some.inj hs
          refine iff_of_true (h.drop rfl fun other found hf => ?_) trivial
          simp only [State.registerWorker, State.publishWorker_workers, State.setNode_workers,
            Dict.get?_set] at hf
          split at hf
          · obtain rfl := Option.some.inj hf
            exact .inl ⟨rfl, rfl⟩
          · exact .inr hf
      | unregisterWorker workerId =>
          obtain rfl := Option.some.inj hs
          refine iff_of_true ?_ trivial
          unfold State.unregisterWorker
          split
          · exact h
          · refine h.drop rfl fun other found hf => .inr ?_
            simp only [State.publishWorker_workers, Dict.get?_erase] at hf
            split at hf
            · cases hf
            · exact hf
      | sendHeartbeat workerId health now =>
          obtain rfl := Option.some.inj hs
          refine iff_of_true ?_ trivial
          unfold State.sendHeartbeat
          split
          · exact h
          · rename_i node hw
            have hn := h.setNode (node.updateHeartbeat health now) hw rfl (List.Sublist.refl _)
            exact ⟨hn.unique, hn.orderly, hn.named⟩
      | assignJob jobId workerId =>
          obtain rfl := Option.some.inj hs
          exact oneWorker_assignJob_iff hk h jobId workerId
      | assignJobByCapability ref =>
          obtain rfl := Option.some.inj hs
          rw [State.assignJobByCapability_eq, Exclusive]
          cases hw : s.selectWorker ref with
          | none =>
              refine iff_of_true h fun workerId hm => ?_
              cases hm
          | some workerId =>
              have hassign := oneWorker_assignJob_iff hk h (s.heap ref).id workerId
              by_cases ha : s.Accepts (s.heap ref).id workerId
              · simpa [ha] using hassign
              · simpa [ha] using h
      | fetchJob workerId ref =>
          obtain ⟨node, rest, hw, hq, rfl⟩ := State.fetchJob_eq hs
          refine iff_of_true (h.setNode _ hw rfl ?_) trivial
          rw [hq]
          exact List.sublist_cons_self ref rest
      | reportJobStatus workerId jobId status result error now =>
          obtain rfl := Option.some.inj hs
          rcases s.reportJobStatus_cases workerId jobId status result error now with
            ⟨hu, he⟩ | ⟨node, ref, hw, hj, he⟩
          · rw [he]
            refine iff_of_true h fun node ref hw hj _ => ?_
            rcases hu with hu | hu
            · exact absurd ((Dict.mem_iff _ _).mpr ⟨node, hw⟩) hu
            · rw [hu] at hj
              cases hj
          · rw [he, oneWorker_applyReport_iff status result error now hk h hw hj]
            simp only [Exclusive, hw, hj, Option.some.injEq, forall_eq', forall_apply_eq_imp_iff]
      | monitorWorkers now =>
          obtain rfl := Option.some.inj hs
          exact iff_of_true (h.monitorWorkers hk now) trivial
      | dequeue | checkCancelled | startJob | succeedJob | failJob | handleFailure | requeue => cases hl

-- Over whole runs: every job stays with one worker exactly when every step is exclusive.
theorem one_worker_iff (heap : JobRef → Job) (acts : List Action) :
    Always step OneWorker (State.start heap) acts ↔ Meets step Exclusive (State.start heap) acts :=
  always_iff_meets (fun _ _ _ => keyed_step) (fun _ _ _ => oneWorker_step_iff) (keyed_start heap)
    (oneWorker_start heap)

-- Two active workers, and a job that is assigned to the first one when it is submitted.
def sharingRun : List Action :=
  [.registerWorker "w1" "first" [] .empty 0, .sendHeartbeat "w1" .empty 0,
    .registerWorker "w2" "second" [] .empty 0, .sendHeartbeat "w2" .empty 0, .submitJob 0 none,
    .assignJob "job-1" "w2"]

def sharedJob : Job :=
  Job.init (.callable "task") (Dict.empty.set "worker_id" "w1") "job-1" none 20 0 none none 0

-- The second assignment leaves the job with the first worker as well: both fetch it and run it.
theorem second_assignment_shares_job : ∃ s, Run step (State.start fun _ => sharedJob) sharingRun s ∧
    AssignedAs s.workers "w1" "job-1" 0 ∧ AssignedAs s.workers "w2" "job-1" 0 ∧
    (∃ node, s.workers.get? "w1" = some node ∧ node.queue = [0]) ∧
    (∃ node, s.workers.get? "w2" = some node ∧ node.queue = [0]) ∧ ¬OneWorker s := by
  refine ⟨_, Run.of_foldlM rfl, ⟨_, rfl, rfl⟩, ⟨_, rfl, rfl⟩, ⟨_, rfl, rfl⟩, ⟨_, rfl, rfl⟩, fun h => ?_⟩
  have he := h.unique "w1" "w2" "job-1" 0 0 ⟨_, rfl, rfl⟩ ⟨_, rfl, rfl⟩
  exact absurd he (by decide)

end YasinCore.Execution
