import YasinCore.Library.Balance
import YasinCore.Library.Transition
import YasinCore.Execution.Worker.Lemmas

namespace YasinCore.Execution

open YasinCore.Library

theorem leastLoaded_mem (best : WorkerNode) (rest : List WorkerNode) :
    State.leastLoaded best rest ∈ best :: rest := by
  induction rest generalizing best with
  | nil => exact List.mem_singleton_self best
  | cons node rest ih =>
      rw [State.leastLoaded]
      split
      · exact List.mem_cons_of_mem _ (ih node)
      · rcases List.mem_cons.mp (ih best) with h | h
        · exact List.mem_cons.mpr (.inl h)
        · exact List.mem_cons_of_mem _ (List.mem_cons_of_mem _ h)

theorem leastLoaded_le (best : WorkerNode) (rest : List WorkerNode) : ∀ node ∈ best :: rest,
    (State.leastLoaded best rest).assignedJobs.size ≤ node.assignedJobs.size := by
  induction rest generalizing best with
  | nil =>
      intro node hm
      rw [List.mem_singleton.mp hm]
      exact Nat.le_refl _
  | cons other rest ih =>
      intro node hm
      rw [State.leastLoaded]
      split
      · rename_i hlt
        rcases List.mem_cons.mp hm with rfl | hm
        · have hle := ih other other List.mem_cons_self
          omega
        · exact ih other node hm
      · rename_i hge
        rcases List.mem_cons.mp hm with rfl | hm
        · exact ih _ _ List.mem_cons_self
        · rcases List.mem_cons.mp hm with rfl | hm
          · have hle := ih best best List.mem_cons_self
            omega
          · exact ih best node (List.mem_cons_of_mem _ hm)

namespace State

-- Every node is kept under its own id.
def Filed (s : State) : Prop := ∀ entry ∈ s.workers.entries, entry.2.id = entry.1

section Filed

variable {s t : State} {workerId : WorkerId} {node : WorkerNode} (h : Filed s)

include h

theorem Filed.id (hw : s.workers.get? workerId = some node) : node.id = workerId :=
  h (workerId, node) ((s.workers.mem_entries_iff _ _).mpr hw)

theorem Filed.of_workers (ht : t.workers = s.workers) : Filed t := by
  rw [Filed, ht]
  exact h

theorem Filed.of_set (ht : t.workers = s.workers.set workerId node) (hid : node.id = workerId) :
    Filed t := by
  rintro ⟨other, found⟩ hm
  have hget := (t.workers.mem_entries_iff _ _).mp hm
  rw [ht, Dict.get?_set] at hget
  split at hget
  · rename_i he
    obtain rfl := Option.some.inj hget
    exact hid.trans he.symm
  · exact h.id hget

theorem Filed.of_update {old : WorkerNode} (hw : s.workers.get? workerId = some old)
    (ht : t.workers = s.workers.set workerId node) (hid : node.id = old.id) : Filed t :=
  h.of_set ht (hid.trans (h.id hw))

theorem Filed.assignJob (jobId : JobId) (workerId : WorkerId) :
    Filed (s.assignJob jobId workerId).2 := by
  rcases s.assignJob_cases jobId workerId with he | ⟨node, ref, hw, -, -, he⟩
  · rw [he]
    exact h
  · rw [he]
    exact h.of_update hw (s.handOver_workers workerId node jobId ref) rfl

theorem Filed.submitJob (ref : JobRef) (context : Option String) : Filed (s.submitJob ref context) := by
  have hr : Filed (s.registerJob ref context) := h.of_workers rfl
  unfold State.submitJob
  dsimp only
  split
  · rename_i t ht
    obtain ⟨workerId, ha⟩ := routeToWorker_some ht
    have hassigned := hr.assignJob ((s.registerJob ref context).heap ref).id workerId
    rw [ha] at hassigned
    exact hassigned
  · exact hr.of_workers rfl

theorem Filed.applyReport (hw : s.workers.get? workerId = some node) (jobId : JobId) (ref : JobRef)
    (status : JobStatus) (result error : Option String) (now : Time) :
    Filed (s.applyReport workerId node jobId ref status result error now) := by
  have hworkers := s.applyReport_workers workerId node jobId ref status result error now
  split at hworkers
  · rw [Dict.set_set] at hworkers
    exact h.of_update hw hworkers rfl
  · split at hworkers
    · exact h.of_update hw hworkers rfl
    · exact h.of_workers hworkers

theorem Filed.monitorWorker (now : Time) (workerId : WorkerId) :
    Filed (State.monitorWorker now s workerId) := by
  rcases s.monitorWorker_cases now workerId with he | ⟨node, hw, he⟩ | ⟨node, hw, -, -, he⟩
  · rw [he]
    exact h
  · rw [he]
    exact h.of_update hw rfl rfl
  · rw [he]
    have hworkers : ((s.setNode workerId { node with status := .offline }).publishWorker
        "worker_offline" { node with status := .offline } none |>.recoverWorkerJobs workerId
          { node with status := .offline }).workers =
        s.workers.set workerId ({ node with status := .offline } : WorkerNode).drain := by
      rw [recoverWorkerJobs, requeueAll_workers, setNode_workers, publishWorker_workers,
        setNode_workers, Dict.set_set]
    exact h.of_update hw hworkers rfl

theorem Filed.monitorWorkers (now : Time) : Filed (s.monitorWorkers now) := by
  unfold State.monitorWorkers
  exact List.foldlRecOn _ _ h fun _ hs workerId _ => hs.monitorWorker now workerId

theorem filed_step {act : Action} (hs : step s act = some t) : Filed t := by
  cases hl : act.localJob? with
  | some pair => exact h.of_workers (localStep_of_step hs hl).workers
  | none =>
      cases act with
      | submitJob ref context => exact Option.some.inj hs ▸ h.submitJob ref context
      | cancelJob jobId now =>
          obtain rfl := Option.some.inj hs
          unfold State.cancelJob
          split
          · exact h
          · dsimp only
            split
            · exact h.of_workers rfl
            · exact h.of_workers rfl
      | registerWorker workerId name capabilities health now =>
          obtain rfl := Option.some.inj hs
          exact h.of_set rfl rfl
      | unregisterWorker workerId =>
          obtain rfl := Option.some.inj hs
          unfold State.unregisterWorker
          split
          · exact h
          · exact fun entry hm => h entry (List.mem_of_mem_filter hm)
      | sendHeartbeat workerId health now =>
          obtain rfl := Option.some.inj hs
          unfold State.sendHeartbeat
          split
          · exact h
          · rename_i node hw
            exact h.of_update hw rfl rfl
      | assignJob jobId workerId => exact Option.some.inj hs ▸ h.assignJob jobId workerId
      | assignJobByCapability ref =>
          obtain rfl := Option.some.inj hs
          rcases s.assignJobByCapability_cases ref with he | ⟨workerId, t, ha, he⟩
          · rw [he]
            exact h
          · have hassigned := h.assignJob (s.heap ref).id workerId
            rw [ha] at hassigned
            rw [he]
            exact hassigned
      | fetchJob workerId ref =>
          obtain ⟨node, rest, hw, -, rfl⟩ := fetchJob_eq hs
          exact h.of_update hw rfl rfl
      | reportJobStatus workerId jobId status result error now =>
          obtain rfl := Option.some.inj hs
          rcases s.reportJobStatus_cases workerId jobId status result error now with
            ⟨-, he⟩ | ⟨node, ref, hw, -, he⟩
          · rw [he]
            exact h
          · rw [he]
            exact h.applyReport hw jobId ref status result error now
      | monitorWorkers now => exact Option.some.inj hs ▸ h.monitorWorkers now
      | dequeue | checkCancelled | startJob | succeedJob | failJob | handleFailure | requeue => cases hl

end Filed

-- So it is in every state that the calls reach, whatever their order.
theorem filed_run {heap : JobRef → Job} {acts : List Action} {s : State}
    (hr : Run step (start heap) acts s) : Filed s := by
  have hstart : Filed (start heap) := fun _ hm => absurd hm List.not_mem_nil
  have hmeets : Meets step (fun _ _ => True) (start heap) acts := .of_forall fun _ _ _ => trivial
  exact hr.invariant Filed (fun _ _ _ h _ hs => filed_step h hs) hmeets hstart

-- The loads of the active nodes that report a capability
def loads (s : State) (capability : String) : List Nat :=
  (s.discoverWorkers capability).map fun node => node.assignedJobs.size

def assignAll (s : State) (refs : List JobRef) : State :=
  refs.foldl (fun s ref => (s.assignJobByCapability ref).2) s

-- Jobs that are registered and assigned to nobody, with a capability that some active node reports
structure Routable (s : State) (capability : String) (refs : List JobRef) : Prop where
  keyed : ∀ entry ∈ s.workers.entries, entry.2.id = entry.1
  reported : s.discoverWorkers capability ≠ []
  distinct : refs.Nodup
  registered : ∀ ref ∈ refs, s.jobs.get? (s.heap ref).id = some ref
  unassigned : ∀ ref ∈ refs, ∀ node ∈ s.workers.values, (s.heap ref).id ∉ node.assignedJobs
  required : ∀ ref ∈ refs, routingCapability (s.heap ref) = capability

-- The job has gone to one active node that reports the capability, and no other node has changed.
def RoutedTo (s t : State) (capability : String) (ref : JobRef) (workerId : WorkerId) : Prop :=
  ∃ node, s.workers.get? workerId = some node ∧ node.status = .active ∧
    capability ∈ node.capabilities ∧
    (node.assign (s.heap ref).id ref).assignedJobs.size = node.assignedJobs.size + 1 ∧
    t.workers = s.workers.set workerId (node.assign (s.heap ref).id ref)

section Step

variable {s : State} {capability : String} {ref : JobRef} {refs : List JobRef}

theorem mem_discoverWorkers {node : WorkerNode} : node ∈ s.discoverWorkers capability ↔
    (∃ workerId, s.workers.get? workerId = some node) ∧ node.status = .active ∧
      capability ∈ node.capabilities := by
  simp only [discoverWorkers, listWorkers, List.mem_filter, decide_eq_true_eq, Dict.mem_values_iff]
  rw [and_assoc]

theorem size_set_of_notMem {κ α : Type} [DecidableEq κ] {dict : Dict κ α} {key : κ}
    (h : key ∉ dict) (value : α) : (dict.set key value).size = dict.size + 1 := by
  have hkeys := congrArg List.length (dict.keys_set key value)
  rw [if_neg h, List.length_append, List.length_singleton] at hkeys
  simpa only [Dict.size, Dict.keys, List.length_map] using hkeys

-- The router picks one of the least loaded nodes that report the capability.
theorem assignJobByCapability_eq_some (h : Routable s capability (ref :: refs)) : ∃ workerId node,
    s.workers.get? workerId = some node ∧ node ∈ s.discoverWorkers capability ∧
      (∀ other ∈ s.discoverWorkers capability, node.assignedJobs.size ≤ other.assignedJobs.size) ∧
      s.assignJobByCapability ref =
        (some workerId, s.handOver workerId node (s.heap ref).id ref) := by
  have hrequired := h.required ref List.mem_cons_self
  obtain ⟨first, rest, hcandidates⟩ := List.exists_cons_of_ne_nil h.reported
  have hmem := leastLoaded_mem first rest
  have hle := leastLoaded_le first rest
  generalize hselected : leastLoaded first rest = node at hmem hle
  rw [← hcandidates] at hmem hle
  obtain ⟨⟨workerId, hw⟩, hactive, hreports⟩ := mem_discoverWorkers.mp hmem
  have hid : node.id = workerId := Filed.id h.keyed hw
  refine ⟨workerId, node, hw, hmem, hle, ?_⟩
  have hassign : s.assignJob (s.heap ref).id workerId =
      (true, s.handOver workerId node (s.heap ref).id ref) := by
    have hactive' : ¬node.status ≠ .active := not_not.mpr hactive
    rw [assignJob, hw]
    dsimp only
    rw [if_neg hactive', getJob, h.registered ref List.mem_cons_self]
  unfold assignJobByCapability
  simp only [hrequired, if_neg h.reported]
  rw [hcandidates]
  simp only [hselected, hid, hassign]

theorem Routable.routed (h : Routable s capability (ref :: refs)) : ∃ workerId,
    (s.assignJobByCapability ref).1 = some workerId ∧
      RoutedTo s (s.assignJobByCapability ref).2 capability ref workerId := by
  obtain ⟨workerId, node, hw, hmem, -, hassign⟩ := assignJobByCapability_eq_some h
  obtain ⟨-, hactive, hreports⟩ := mem_discoverWorkers.mp hmem
  have hnew := h.unassigned ref List.mem_cons_self node ((s.workers.mem_values_iff node).mpr ⟨workerId, hw⟩)
  rw [hassign]
  exact ⟨workerId, rfl, node, hw, hactive, hreports, size_set_of_notMem hnew ref, rfl⟩

-- A node of the next state is one of this one, but for the job that one of them has been given.
theorem handOver_get? {workerId other : WorkerId} {node found : WorkerNode} {jobId : JobId}
    (h : (s.handOver workerId node jobId ref).workers.get? other = some found) :
    s.workers.get? other = some found ∨ other = workerId ∧ found = node.assign jobId ref := by
  rw [handOver_workers, Dict.get?_set] at h
  split at h
  · rename_i he
    exact .inr ⟨he, (Option.some.inj h).symm⟩
  · exact .inl h

theorem Routable.tail (h : Routable s capability (ref :: refs)) :
    Routable (s.assignJobByCapability ref).2 capability refs := by
  obtain ⟨workerId, node, hw, hmem, -, hassign⟩ := assignJobByCapability_eq_some h
  obtain ⟨-, hactive, hreports⟩ := mem_discoverWorkers.mp hmem
  obtain ⟨hnot, hdistinct⟩ := List.nodup_cons.mp h.distinct
  have hheap (other : JobRef) : ∃ worker status, ((s.handOver workerId node (s.heap ref).id ref).heap other) =
      { s.heap other with workerId := worker, status := status } := by
    rw [handOver_heap, updateJob_heap]
    split
    · rename_i he
      rw [he]
      exact ⟨_, _, rfl⟩
    · exact ⟨(s.heap other).workerId, (s.heap other).status, rfl⟩
  have hid (other : JobRef) : ((s.handOver workerId node (s.heap ref).id ref).heap other).id =
      (s.heap other).id := by
    obtain ⟨_, _, he⟩ := hheap other
    rw [he]
  rw [hassign]
  refine ⟨fun entry hm => ?_, ?_, hdistinct, fun other hm => ?_, fun other hm found hf => ?_,
    fun other hm => ?_⟩
  · have hget := (Dict.mem_entries_iff _ entry.1 entry.2).mp hm
    rcases handOver_get? hget with hget | ⟨he, hfound⟩
    · exact h.keyed entry ((s.workers.mem_entries_iff _ _).mpr hget)
    · rw [he, hfound]
      exact h.keyed (workerId, node) ((s.workers.mem_entries_iff _ _).mpr hw)
  · have hgot : (s.handOver workerId node (s.heap ref).id ref).workers.get? workerId =
        some (node.assign (s.heap ref).id ref) := by
      rw [handOver_workers, Dict.get?_set_self]
    exact List.ne_nil_of_mem (mem_discoverWorkers.mpr ⟨⟨workerId, hgot⟩, hactive, hreports⟩)
  · rw [hid]
    exact h.registered other (List.mem_cons_of_mem _ hm)
  · rw [hid]
    obtain ⟨otherWorker, hget⟩ := (Dict.mem_values_iff _ _).mp hf
    rcases handOver_get? hget with hget | ⟨-, rfl⟩
    · exact h.unassigned other (List.mem_cons_of_mem _ hm) found
        ((s.workers.mem_values_iff _).mpr ⟨_, hget⟩)
    · have hold := h.unassigned other (List.mem_cons_of_mem _ hm) node
        ((s.workers.mem_values_iff _).mpr ⟨_, hw⟩)
      intro hin
      rcases (Dict.mem_set _ _ _ _).mp hin with he | hin
      · have hother := h.registered other (List.mem_cons_of_mem _ hm)
        rw [he, h.registered ref List.mem_cons_self] at hother
        exact hnot (Option.some.inj hother ▸ hm)
      · exact hold hin
  · obtain ⟨_, _, he⟩ := hheap other
    rw [he]
    exact h.required other (List.mem_cons_of_mem _ hm)

theorem Routable.spread_le (h : Routable s capability (ref :: refs)) :
    spread ((s.assignJobByCapability ref).2.loads capability) ≤ max (spread (s.loads capability)) 1 := by
  obtain ⟨workerId, node, hw, hmem, hleast, hassign⟩ := assignJobByCapability_eq_some h
  have hnew := h.unassigned ref List.mem_cons_self node ((s.workers.mem_values_iff node).mpr ⟨workerId, hw⟩)
  rw [hassign]
  refine spread_raise (List.mem_map.mpr ⟨node, hmem, rfl⟩) (fun load hl => ?_) fun load hl => ?_
  · obtain ⟨other, ho, rfl⟩ := List.mem_map.mp hl
    exact hleast other ho
  · obtain ⟨found, hf, rfl⟩ := List.mem_map.mp hl
    obtain ⟨⟨other, hget⟩, hactive, hreports⟩ := mem_discoverWorkers.mp hf
    rcases handOver_get? hget with hget | ⟨-, rfl⟩
    · exact .inl (List.mem_map.mpr ⟨found, mem_discoverWorkers.mpr ⟨⟨other, hget⟩, hactive, hreports⟩, rfl⟩)
    · exact .inr (size_set_of_notMem hnew ref)

end Step

-- Jobs that require one capability are spread evenly over the active nodes that report it.
theorem routing_sound_and_balanced {s : State} {capability : String} {refs : List JobRef}
    (h : Routable s capability refs) :
    (∀ before ref after, refs = before ++ ref :: after → ∃ workerId,
      ((s.assignAll before).assignJobByCapability ref).1 = some workerId ∧
        RoutedTo (s.assignAll before) ((s.assignAll before).assignJobByCapability ref).2 capability
          ref workerId) ∧
    ∀ before after, refs = before ++ after →
      spread ((s.assignAll before).loads capability) ≤ max (spread (s.loads capability)) 1 := by
  have hrun (before after : List JobRef) (s : State) (hr : Routable s capability (before ++ after)) :
      Routable (s.assignAll before) capability after ∧
        spread ((s.assignAll before).loads capability) ≤ max (spread (s.loads capability)) 1 := by
    induction before generalizing s with
    | nil => exact ⟨hr, Nat.le_max_left _ _⟩
    | cons ref before ih =>
        have hstep : Routable s capability (ref :: (before ++ after)) := hr
        obtain ⟨hready, hspread⟩ := ih _ hstep.tail
        have hfirst := hstep.spread_le
        refine ⟨hready, Nat.le_trans hspread ?_⟩
        omega
  constructor
  · rintro before ref after rfl
    exact (hrun before (ref :: after) s h).1.routed
  · rintro before after rfl
    exact (hrun before after s h).2

-- Two jobs for two nodes that are equally loaded
def renderJob (id : JobId) : Job :=
  Job.init (.callable "render") (Dict.empty.set "capability" "gpu") id none 20 0 none none 0

def renderFarm : State :=
  (((((((start fun ref => renderJob (if ref = 0 then "job-1" else "job-2")).submitJob 0 none).submitJob
    1 none).registerWorker "w1" "first" ["gpu"] .empty 0).sendHeartbeat "w1" .empty 0).2.registerWorker
      "w2" "second" ["gpu", "cpu"] .empty 0).sendHeartbeat "w2" .empty 0).2

theorem renderFarm_routable : Routable renderFarm "gpu" [0, 1] where
  keyed := by decide +kernel
  reported := by decide +kernel
  distinct := by decide
  registered := by decide +kernel
  unassigned := by decide +kernel
  required := by decide +kernel

theorem routing_sound_and_balanced_farm :
    spread ((renderFarm.assignAll [0, 1]).loads "gpu") ≤ max (spread (renderFarm.loads "gpu")) 1 :=
  (routing_sound_and_balanced renderFarm_routable).2 [0, 1] [] rfl

end State

end YasinCore.Execution
