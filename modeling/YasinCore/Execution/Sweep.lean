import YasinCore.Execution.Distributed.Lemmas

namespace YasinCore.Execution

open YasinCore.Library

-- An active node that has been silent for the timeout, and a suspended one that has been silent for
-- twice as long.
def WorkerNode.Stale (node : WorkerNode) (timeout now : Time) : Prop :=
  node.status = .active ∧ timeout ≤ now - node.lastHeartbeat

def WorkerNode.Dead (node : WorkerNode) (timeout now : Time) : Prop :=
  node.status = .suspended ∧ timeout * 2 ≤ now - node.lastHeartbeat

instance (node : WorkerNode) (timeout now : Time) : Decidable (node.Stale timeout now) :=
  inferInstanceAs (Decidable (_ ∧ _))

instance WorkerNode.decidableDead (node : WorkerNode) (timeout now : Time) :
    Decidable (node.Dead timeout now) :=
  inferInstanceAs (Decidable (_ ∧ _))

-- What a sweep makes of one node
def WorkerNode.swept (node : WorkerNode) (timeout now : Time) : WorkerNode :=
  if node.Stale timeout now then { node with status := .suspended }
  else if node.Dead timeout now then { node with status := .offline, assignedJobs := .empty, queue := [] }
  else node

namespace State

-- The jobs that a sweep takes from one node, an entry for each assignment
def recoveredFrom (s : State) (now : Time) (workerId : WorkerId) : List JobRef :=
  match s.workers.get? workerId with
  | none => []
  | some node => if node.Dead s.heartbeatTimeout now then node.assignedJobs.values else []

-- All nodes, in the order of their registration
def recovered (s : State) (now : Time) : List JobRef := s.workers.keys.flatMap (s.recoveredFrom now)

def requeued (job : Job) : Job := { job with status := .queued, workerId := none }

-- The effect of the sweep on some of the nodes
structure Sweeps (workerIds : List WorkerId) (now : Time) (s t : State) : Prop where
  nodes : ∀ other, t.workers.get? other = if other ∈ workerIds then
    (s.workers.get? other).map fun node => node.swept s.heartbeatTimeout now else s.workers.get? other
  keys : t.workers.keys = s.workers.keys
  queue : ∃ items, t.queue.items = s.queue.items ++ items ∧
    items.map QueueItem.job = workerIds.flatMap (s.recoveredFrom now)
  heap : ∀ ref, t.heap ref =
    if ref ∈ workerIds.flatMap (s.recoveredFrom now) then requeued (s.heap ref) else s.heap ref
  jobs : t.jobs = s.jobs
  hands : t.hands = s.hands
  memory : t.memory = s.memory
  timeout : t.heartbeatTimeout = s.heartbeatTimeout

variable {s t u : State} {now : Time} {workerId : WorkerId}

theorem Sweeps.refl (s : State) (now : Time) : Sweeps [] now s s where
  nodes _ := rfl
  keys := rfl
  queue := ⟨[], by simp, rfl⟩
  heap _ := rfl
  jobs := rfl
  hands := rfl
  memory := rfl
  timeout := rfl

theorem keys_set_of_get? {workers : Dict WorkerId WorkerNode} {old : WorkerNode}
    (h : workers.get? workerId = some old) (node : WorkerNode) :
    (workers.set workerId node).keys = workers.keys := by
  rw [Dict.keys_set, if_pos ((Dict.mem_iff _ _).mpr ⟨old, h⟩)]

-- A node that is not dead gives up no job.
theorem sweeps_setNode {node swept : WorkerNode} (hw : s.workers.get? workerId = some node)
    (hswept : node.swept s.heartbeatTimeout now = swept) (hdead : ¬node.Dead s.heartbeatTimeout now)
    (events : List Event) : Sweeps [workerId] now s { s.setNode workerId swept with events := events } := by
  have hnone : s.recoveredFrom now workerId = [] := by
    rw [recoveredFrom, hw]
    exact if_neg hdead
  refine ⟨fun other => ?_, keys_set_of_get? hw swept, ⟨[], ?_⟩, fun ref => ?_, rfl, rfl, rfl, rfl⟩
  · simp only [setNode_workers, Dict.get?_set, List.mem_singleton]
    split
    · rename_i he
      rw [he, hw, Option.map_some, hswept]
    · rfl
  · rw [List.flatMap_singleton, hnone]
    exact ⟨by simp, rfl⟩
  · rw [List.flatMap_singleton, hnone, if_neg List.not_mem_nil]
    rfl

theorem requeueAll_items (refs : List JobRef) (s : State) : ∃ items,
    (refs.foldl requeueJob s).queue.items = s.queue.items ++ items ∧ items.map QueueItem.job = refs := by
  induction refs generalizing s with
  | nil => exact ⟨[], by simp, rfl⟩
  | cons ref refs ih =>
      obtain ⟨items, hitems, hjobs⟩ := ih (s.requeueJob ref)
      have hput : (s.requeueJob ref).queue.items = s.queue.items ++
          [⟨-(s.heap ref).priority, (s.heap ref).createdAt, s.queue.counter + 1, ref⟩] := by
        simp [requeueJob, JobQueue.put, updateJob_queue]
      refine ⟨⟨-(s.heap ref).priority, (s.heap ref).createdAt, s.queue.counter + 1, ref⟩ :: items, ?_, ?_⟩
      · rw [List.foldl_cons, hitems, hput, List.append_assoc]
        rfl
      · rw [List.map_cons, hjobs]

theorem requeueAll_kept (refs : List JobRef) (s : State) :
    (refs.foldl requeueJob s).memory = s.memory ∧
      (refs.foldl requeueJob s).heartbeatTimeout = s.heartbeatTimeout := by
  induction refs generalizing s with
  | nil => exact ⟨rfl, rfl⟩
  | cons ref refs ih => exact ih (s.requeueJob ref)

theorem sweeps_recover {node : WorkerNode} (hw : s.workers.get? workerId = some node)
    (hdead : node.Dead s.heartbeatTimeout now) :
    Sweeps [workerId] now s (((s.setNode workerId { node with status := .offline }).publishWorker
      "worker_offline" { node with status := .offline } none).recoverWorkerJobs workerId
        { node with status := .offline }) := by
  have hstale : ¬node.Stale s.heartbeatTimeout now := fun h =>
    WorkerState.noConfusion (h.1.symm.trans hdead.1)
  have hrefs : s.recoveredFrom now workerId = node.assignedJobs.values := by
    rw [recoveredFrom, hw]
    exact if_pos hdead
  have hswept : node.swept s.heartbeatTimeout now =
      { node with status := .offline, assignedJobs := .empty, queue := [] } := by
    rw [WorkerNode.swept, if_neg hstale, if_pos hdead]
  unfold recoverWorkerJobs
  refine ⟨fun other => ?_, ?_, ?_, fun ref => ?_, ?_, ?_, ?_, ?_⟩
  · simp only [requeueAll_workers, setNode_workers, publishWorker_workers, Dict.set_set, Dict.get?_set,
      List.mem_singleton]
    split
    · rename_i he
      rw [he, hw, Option.map_some, hswept]
      rfl
    · rfl
  · rw [requeueAll_workers, setNode_workers, publishWorker_workers, setNode_workers, Dict.set_set]
    exact keys_set_of_get? hw _
  · rw [List.flatMap_singleton, hrefs]
    exact requeueAll_items node.assignedJobs.values _
  · rw [List.flatMap_singleton, hrefs]
    exact requeueAll_heap node.assignedJobs.values _ ref
  · exact requeueAll_jobs node.assignedJobs.values _
  · exact requeueAll_hands node.assignedJobs.values _
  · exact (requeueAll_kept node.assignedJobs.values _).1
  · exact (requeueAll_kept node.assignedJobs.values _).2

-- One node's turn
theorem monitorWorker_sweeps (s : State) (now : Time) (workerId : WorkerId) :
    Sweeps [workerId] now s (monitorWorker now s workerId) := by
  unfold monitorWorker
  cases hw : s.workers.get? workerId with
  | none =>
      have hnone : s.recoveredFrom now workerId = [] := by
        rw [recoveredFrom, hw]
      refine ⟨fun other => ?_, rfl, ⟨[], by simp, ?_⟩, fun ref => ?_, rfl, rfl, rfl, rfl⟩
      · simp only [List.mem_singleton]
        split
        · rename_i he
          rw [he, hw]
          rfl
        · rfl
      · rw [List.flatMap_singleton, hnone]
        rfl
      · rw [List.flatMap_singleton, hnone, if_neg List.not_mem_nil]
  | some node =>
      dsimp only
      by_cases ha : node.status = .active
      · have hdead : ¬node.Dead s.heartbeatTimeout now := fun h =>
          WorkerState.noConfusion (ha.symm.trans h.1)
        rw [if_pos ha]
        by_cases ht : now - node.lastHeartbeat ≥ s.heartbeatTimeout
        · have hswept : node.swept s.heartbeatTimeout now = { node with status := .suspended } :=
            if_pos ⟨ha, ht⟩
          rw [if_pos ht]
          exact sweeps_setNode hw hswept hdead _
        · have hswept : node.swept s.heartbeatTimeout now = node := by
            rw [WorkerNode.swept, if_neg fun h => ht h.2, if_neg hdead]
          rw [if_neg ht]
          have hsame : s.workers.set workerId node = s.workers := Dict.set_eq_self hw
          have hsweeps := sweeps_setNode hw hswept hdead s.events
          rw [setNode, hsame] at hsweeps
          exact hsweeps
      · have hstale : ¬node.Stale s.heartbeatTimeout now := fun h => ha h.1
        rw [if_neg ha]
        by_cases hd : node.Dead s.heartbeatTimeout now
        · rw [if_pos hd.1, if_pos hd.2]
          exact sweeps_recover hw hd
        · have hswept : node.swept s.heartbeatTimeout now = node := by
            rw [WorkerNode.swept, if_neg hstale, if_neg hd]
          have hsame : s.workers.set workerId node = s.workers := Dict.set_eq_self hw
          have hsweeps := sweeps_setNode hw hswept hd s.events
          rw [setNode, hsame] at hsweeps
          split
          · rename_i hsuspended
            rw [if_neg fun h => hd ⟨hsuspended, h⟩]
            exact hsweeps
          · exact hsweeps

-- A node that has had its turn does not count for the others.
theorem Sweeps.cons {workerIds : List WorkerId} (hfirst : Sweeps [workerId] now s t)
    (hrest : Sweeps workerIds now t u) (hnot : workerId ∉ workerIds) :
    Sweeps (workerId :: workerIds) now s u := by
  have hothers : ∀ other ∈ workerIds, t.workers.get? other = s.workers.get? other := by
    intro other hm
    rw [hfirst.nodes, if_neg]
    rintro he
    exact hnot (List.mem_singleton.mp he ▸ hm)
  have hrecovered : workerIds.flatMap (t.recoveredFrom now) = workerIds.flatMap (s.recoveredFrom now) := by
    refine List.flatMap_congr fun other hm => ?_
    rw [recoveredFrom, recoveredFrom, hothers other hm, hfirst.timeout]
  refine ⟨fun other => ?_, hrest.keys.trans hfirst.keys, ?_, fun ref => ?_, hrest.jobs.trans hfirst.jobs,
    hrest.hands.trans hfirst.hands, hrest.memory.trans hfirst.memory, hrest.timeout.trans hfirst.timeout⟩
  · rw [hrest.nodes, hfirst.timeout]
    by_cases hm : other ∈ workerIds
    · rw [if_pos hm, if_pos (List.mem_cons_of_mem _ hm), hothers other hm]
    · rw [if_neg hm, hfirst.nodes]
      by_cases he : other = workerId
      · rw [if_pos (List.mem_singleton.mpr he), if_pos (List.mem_cons.mpr (.inl he))]
      · rw [if_neg (List.mem_singleton.not.mpr he), if_neg (List.mem_cons.not.mpr (not_or.mpr ⟨he, hm⟩))]
  · obtain ⟨items, hitems, hjobs⟩ := hfirst.queue
    obtain ⟨items', hitems', hjobs'⟩ := hrest.queue
    refine ⟨items ++ items', by rw [hitems', hitems, List.append_assoc], ?_⟩
    rw [List.map_append, hjobs, hjobs', hrecovered, List.flatMap_singleton, List.flatMap_cons]
  · rw [hrest.heap, hrecovered, hfirst.heap, List.flatMap_singleton, List.flatMap_cons]
    by_cases hf : ref ∈ s.recoveredFrom now workerId
    · by_cases hr : ref ∈ workerIds.flatMap (s.recoveredFrom now)
      · rw [if_pos hf, if_pos hr, if_pos (List.mem_append_left _ hf)]
        rfl
      · rw [if_pos hf, if_neg hr, if_pos (List.mem_append_left _ hf)]
    · by_cases hr : ref ∈ workerIds.flatMap (s.recoveredFrom now)
      · rw [if_neg hf, if_pos hr, if_pos (List.mem_append_right _ hr)]
      · have hneither : ref ∉ s.recoveredFrom now workerId ++ workerIds.flatMap (s.recoveredFrom now) := by
          simp only [List.mem_append, hf, hr, or_self, not_false_eq_true]
        rw [if_neg hf, if_neg hr, if_neg hneither]

theorem monitorWorkers_sweeps (s : State) (now : Time) :
    Sweeps s.workers.keys now s (s.monitorWorkers now) := by
  have hfold (workerIds : List WorkerId) (hnodup : workerIds.Nodup) (s : State) :
      Sweeps workerIds now s (workerIds.foldl (monitorWorker now) s) := by
    induction workerIds generalizing s with
    | nil => exact .refl s now
    | cons workerId rest ih =>
        obtain ⟨hnot, hnodup⟩ := List.nodup_cons.mp hnodup
        exact (s.monitorWorker_sweeps now workerId).cons (ih hnodup _) hnot
  exact hfold s.workers.keys s.workers.nodup s

-- What a sweep does, and what the next one at the same time leaves alone
structure RecoversExactly (s t u : State) (now : Time) : Prop where
  -- at most one step for each node, and this one exactly when the node has been silent long enough
  registered : t.workers.keys = s.workers.keys
  status : ∀ workerId node node', s.workers.get? workerId = some node →
    t.workers.get? workerId = some node' → node'.status ≠ node.status →
      (node.status = .active ∧ node'.status = .suspended ∧
        s.heartbeatTimeout ≤ now - node.lastHeartbeat) ∨
      (node.status = .suspended ∧ node'.status = .offline ∧
        s.heartbeatTimeout * 2 ≤ now - node.lastHeartbeat)
  due : ∀ workerId node node', s.workers.get? workerId = some node →
    t.workers.get? workerId = some node' →
      (node.Stale s.heartbeatTimeout now → node' = { node with status := .suspended }) ∧
      (node.Dead s.heartbeatTimeout now →
        node' = { node with status := .offline, assignedJobs := .empty, queue := [] }) ∧
      (¬node.Stale s.heartbeatTimeout now → ¬node.Dead s.heartbeatTimeout now → node' = node)
  -- one entry for each assignment of a node that dies, behind the entries that were there
  queue : ∃ items, t.queue.items = s.queue.items ++ items ∧
    items.map QueueItem.job = s.recovered now
  recovered : ∀ ref ∈ s.recovered now, t.heap ref = requeued (s.heap ref)
  others : ∀ ref, ref ∉ s.recovered now → t.heap ref = s.heap ref
  memory : t.memory = s.memory
  jobs : t.jobs = s.jobs
  -- the second sweep
  settled : ∀ workerId node, t.workers.get? workerId = some node → node.status = .offline →
    u.workers.get? workerId = some node ∧ t.recoveredFrom now workerId = []
  again : ∃ items, u.queue.items = t.queue.items ++ items ∧
    items.map QueueItem.job = (t.workers.keys.filter fun workerId =>
      (t.workers.get? workerId).any fun node => node.status ≠ .offline).flatMap (t.recoveredFrom now)

theorem swept_of_offline {node : WorkerNode} (h : node.status = .offline) (timeout now : Time) :
    node.swept timeout now = node := by
  have hstale : ¬node.Stale timeout now := fun hs => WorkerState.noConfusion (h.symm.trans hs.1)
  have hdead : ¬node.Dead timeout now := fun hd => WorkerState.noConfusion (h.symm.trans hd.1)
  rw [WorkerNode.swept, if_neg hstale, if_neg hdead]

theorem recoveredFrom_of_offline {node : WorkerNode} (hw : s.workers.get? workerId = some node)
    (h : node.status = .offline) (now : Time) : s.recoveredFrom now workerId = [] := by
  rw [recoveredFrom, hw]
  exact if_neg fun hd => WorkerState.noConfusion (h.symm.trans hd.1)

-- The sweep recovers the jobs of the dead nodes and nothing else.
theorem sweep_recovers_exactly (s : State) (now : Time) :
    RecoversExactly s (s.monitorWorkers now) ((s.monitorWorkers now).monitorWorkers now) now := by
  have hfirst := s.monitorWorkers_sweeps now
  have hsecond := (s.monitorWorkers now).monitorWorkers_sweeps now
  have hnode (t : State) (workerId : WorkerId) (node : WorkerNode)
      (hw : t.workers.get? workerId = some node) : workerId ∈ t.workers.keys :=
    (Dict.mem_keys_iff _ _).mpr ⟨node, hw⟩
  have hswept (workerId : WorkerId) (node node' : WorkerNode) (hw : s.workers.get? workerId = some node)
      (hw' : (s.monitorWorkers now).workers.get? workerId = some node') :
      node' = node.swept s.heartbeatTimeout now := by
    rw [hfirst.nodes, if_pos (hnode s workerId node hw), hw] at hw'
    exact (Option.some.inj hw').symm
  refine ⟨hfirst.keys, ?_, ?_, hfirst.queue, fun ref hm => ?_, fun ref hm => ?_, hfirst.memory,
    hfirst.jobs, ?_, ?_⟩
  · intro workerId node node' hw hw' hne
    rw [hswept workerId node node' hw hw', WorkerNode.swept] at hne ⊢
    by_cases hs : node.Stale s.heartbeatTimeout now
    · rw [if_pos hs]
      exact .inl ⟨hs.1, rfl, hs.2⟩
    · by_cases hd : node.Dead s.heartbeatTimeout now
      · rw [if_neg hs, if_pos hd]
        exact .inr ⟨hd.1, rfl, hd.2⟩
      · rw [if_neg hs, if_neg hd] at hne
        exact absurd rfl hne
  · intro workerId node node' hw hw'
    rw [hswept workerId node node' hw hw', WorkerNode.swept]
    refine ⟨fun hs => if_pos hs, fun hd => ?_, fun hs hd => by rw [if_neg hs, if_neg hd]⟩
    have hs : ¬node.Stale s.heartbeatTimeout now := fun hs =>
      WorkerState.noConfusion (hs.1.symm.trans hd.1)
    rw [if_neg hs, if_pos hd]
  · rw [hfirst.heap]
    exact if_pos hm
  · rw [hfirst.heap]
    exact if_neg hm
  · intro workerId node hw hoffline
    refine ⟨?_, recoveredFrom_of_offline hw hoffline now⟩
    rw [hsecond.nodes, if_pos (hnode _ workerId node hw), hw, Option.map_some, swept_of_offline hoffline]
  · obtain ⟨items, hitems, hjobs⟩ := hsecond.queue
    refine ⟨items, hitems, hjobs.trans ?_⟩
    generalize (s.monitorWorkers now).workers.keys = workerIds
    induction workerIds with
    | nil => rfl
    | cons workerId rest ih =>
        rw [List.flatMap_cons, ih, List.filter_cons]
        split
        · rw [List.flatMap_cons]
        · rename_i hoffline
          have hnone : (s.monitorWorkers now).recoveredFrom now workerId = [] := by
            cases hw : (s.monitorWorkers now).workers.get? workerId with
            | none => rw [recoveredFrom, hw]
            | some node =>
                rw [hw] at hoffline
                exact recoveredFrom_of_offline hw (by simpa using hoffline) now
          rw [hnone, List.nil_append]

end State

end YasinCore.Execution
