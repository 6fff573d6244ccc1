import YasinCore.Library.Locks
import YasinCore.Execution.Engine

namespace YasinCore.Execution

open YasinCore.Library

-- The re-entrant locks of TaskExecutionEngine and DistributedWorkerManager. The locks of a queue, of a
-- job and of a node are taken within each other, but neither of these two is asked for while one of
-- them is held, so they do not bear on the two and are left out.
inductive Lock
  | engine
  | manager
  deriving DecidableEq

-- Whether the engine's client has a worker manager, and the manager's client an engine.
structure Wiring where
  engineHasManager : Bool
  managerHasEngine : Bool

-- The shared data as assign_job_by_capability finds it at each of its looks. Other threads may
-- change it in between where they need no lock that the call holds.
structure CapabilityLooks where
  matching : State
  default : State
  active : State
  assign : State

structure SubmitLooks where
  listed : State
  explicit : State
  capability : CapabilityLooks
  target : State
  targeted : CapabilityLooks

-- A call of one of the two services, with what it sees where its locks depend on it.
inductive Call
  | submitJob (ref : JobRef) (seen : SubmitLooks)
  | getJob
  | cancelJob
  | listJobs
  | clearJobs
  | engineHealth
  | engineStatus
  | registerWorker
  | unregisterWorker
  | getWorker
  | listWorkers
  | discoverWorkers
  | sendHeartbeat
  | assignJob (jobId : JobId) (workerId : WorkerId) (seen : State)
  | assignJobByCapability (ref : JobRef) (seen : CapabilityLooks)
  | getAssignedJobs
  | reportJobStatus (workerId : WorkerId) (jobId : JobId) (seen : State)
  | monitorWorkers
  | managerHealth
  | managerStatus

def withEngine (body : Code Lock) : Code Lock := .sync .engine body .skip

def withManager (body : Code Lock) : Code Lock := .sync .manager body .skip

def getJobLocks : Code Lock := withEngine .skip

def listWorkersLocks : Code Lock := withManager .skip

def discoverWorkersLocks : Code Lock := withManager listWorkersLocks

-- The worker is known and active, and there is an engine to fetch the job from.
def Wiring.AsksEngine (w : Wiring) (s : State) (workerId : WorkerId) : Prop :=
  w.managerHasEngine ∧ ∃ node, s.workers.get? workerId = some node ∧ node.status = .active

def assignJobLocks (w : Wiring) (s : State) (workerId : WorkerId) : Code Lock :=
  withManager
    (match s.workers.get? workerId with
    | none => .skip
    | some node =>
        if node.status ≠ .active then .skip
        else if w.managerHasEngine then getJobLocks
        else .skip)

def assignJobResult (w : Wiring) (s : State) (jobId : JobId) (workerId : WorkerId) : Bool :=
  w.managerHasEngine && (s.assignJob jobId workerId).1

namespace CapabilityLooks

-- What the call sees when nobody changes anything meanwhile.
def still (s : State) : CapabilityLooks := ⟨s, s, s, s⟩

def matched (seen : CapabilityLooks) (ref : JobRef) : List WorkerNode :=
  seen.matching.discoverWorkers (State.routingCapability (seen.matching.heap ref))

def discovered (seen : CapabilityLooks) (ref : JobRef) : List WorkerNode :=
  if seen.matched ref = [] then seen.default.discoverWorkers "default" else seen.matched ref

def candidates (seen : CapabilityLooks) (ref : JobRef) : List WorkerNode :=
  if seen.discovered ref = [] then seen.active.listWorkers (some .active) else seen.discovered ref

def locks (w : Wiring) (seen : CapabilityLooks) (ref : JobRef) : Code Lock :=
  withManager (.seq
    [discoverWorkersLocks,
      if seen.matched ref = [] then discoverWorkersLocks else .skip,
      if seen.discovered ref = [] then listWorkersLocks else .skip,
      match seen.candidates ref with
      | [] => .skip
      | first :: rest => assignJobLocks w seen.assign (State.leastLoaded first rest).id])

def result (w : Wiring) (seen : CapabilityLooks) (ref : JobRef) : Bool :=
  match seen.candidates ref with
  | [] => false
  | first :: rest =>
      assignJobResult w seen.assign (seen.assign.heap ref).id (State.leastLoaded first rest).id

-- A call that nobody disturbs ends as the sequential model of the method says.
theorem still_result (s : State) (ref : JobRef) :
    (still s).result ⟨true, true⟩ ref = (s.assignJobByCapability ref).1.isSome := by
  have hcandidates : (still s).candidates ref =
      (let candidates := s.discoverWorkers (State.routingCapability (s.heap ref))
       let candidates := if candidates = [] then s.discoverWorkers "default" else candidates
       if candidates = [] then s.listWorkers (some .active) else candidates) := rfl
  unfold result State.assignJobByCapability
  dsimp only at hcandidates ⊢
  rw [← hcandidates]
  cases (still s).candidates ref with
  | nil => rfl
  | cons first rest =>
      show (true && (s.assignJob (s.heap ref).id (State.leastLoaded first rest).id).1) = _
      dsimp only
      split <;> rename_i h <;> rw [h] <;> rfl

end CapabilityLooks

namespace SubmitLooks

def still (s : State) : SubmitLooks := ⟨s, s, .still s, s, .still s⟩

def targetLocks (w : Wiring) (seen : SubmitLooks) (ref : JobRef) : Code Lock :=
  match (seen.target.heap ref).target with
  | .str name =>
      discoverWorkersLocks.append
        (if seen.target.discoverWorkers ("target:" ++ name) = [] then .skip
        else seen.targeted.locks w ref)
  | .callable _ => .skip

def capabilityLocks (w : Wiring) (seen : SubmitLooks) (ref : JobRef) : Code Lock :=
  if (seen.listed.heap ref).requiredCapability.isSome then
    (seen.capability.locks w ref).append
      (if seen.capability.result w ref then .skip else seen.targetLocks w ref)
  else seen.targetLocks w ref

def explicitLocks (w : Wiring) (seen : SubmitLooks) (ref : JobRef) : Code Lock :=
  match Job.given (seen.listed.heap ref).workerId with
  | some workerId =>
      (assignJobLocks w seen.explicit workerId).append
        (if assignJobResult w seen.explicit (seen.explicit.heap ref).id workerId then .skip
        else seen.capabilityLocks w ref)
  | none => seen.capabilityLocks w ref

-- The whole of submit_job runs under the engine's lock, its calls of the manager included.
def locks (w : Wiring) (seen : SubmitLooks) (ref : JobRef) : Code Lock :=
  withEngine
    (if w.engineHasManager then
      listWorkersLocks.append
        (if seen.listed.listWorkers none = [] then .skip else seen.explicitLocks w ref)
    else .skip)

end SubmitLooks

def reportJobStatusLocks (w : Wiring) (s : State) (workerId : WorkerId) : Code Lock :=
  withManager
    (if workerId ∈ s.workers then if w.managerHasEngine then getJobLocks else .skip else .skip)

namespace Call

def locks (w : Wiring) : Call → Code Lock
  | .submitJob ref seen => seen.locks w ref
  | .getJob => getJobLocks
  | .cancelJob | .listJobs | .clearJobs | .engineHealth | .engineStatus => withEngine .skip
  | .registerWorker | .unregisterWorker | .getWorker | .sendHeartbeat | .getAssignedJobs
  | .monitorWorkers => withManager .skip
  | .listWorkers => listWorkersLocks
  | .discoverWorkers => discoverWorkersLocks
  | .assignJob _ workerId seen => assignJobLocks w seen workerId
  | .assignJobByCapability ref seen => seen.locks w ref
  | .reportJobStatus workerId _ seen => reportJobStatusLocks w seen workerId
  | .managerHealth => withManager listWorkersLocks
  | .managerStatus => withManager (.seq [listWorkersLocks, listWorkersLocks, listWorkersLocks])

-- The call asks the worker manager while it holds the engine's lock.
def AsksManager (w : Wiring) : Call → Prop
  | .submitJob _ _ => w.engineHasManager
  | _ => False

-- The call asks the engine while it holds the manager's lock.
def AsksEngine (w : Wiring) : Call → Prop
  | .assignJob _ workerId seen => w.AsksEngine seen workerId
  | .assignJobByCapability ref seen =>
      ∃ first rest, seen.candidates ref = first :: rest ∧
        w.AsksEngine seen.assign (State.leastLoaded first rest).id
  | .reportJobStatus workerId _ seen => w.managerHasEngine ∧ workerId ∈ seen.workers
  | _ => False

end Call

theorem withEngine_takes_iff (body : Code Lock) :
    (withEngine body).Takes .engine .manager ↔ Lock.manager ∈ body.locks := by
  simp [withEngine, Code.Takes]

-- Behind its own lock a service takes no lock that it would wait for.
theorem withEngine_not_takes (body : Code Lock) : ¬(withEngine body).Takes .manager .engine := by
  simp [withEngine, Code.Takes]

theorem withManager_takes_iff (body : Code Lock) :
    (withManager body).Takes .manager .engine ↔ Lock.engine ∈ (withManager body).locks := by
  simp [withManager, Code.Takes, Code.locks]

theorem withManager_not_takes (body : Code Lock) : ¬(withManager body).Takes .engine .manager := by
  simp [withManager, Code.Takes]

theorem engine_mem_assignJobLocks (w : Wiring) (s : State) (workerId : WorkerId) :
    Lock.engine ∈ (assignJobLocks w s workerId).locks ↔ w.AsksEngine s workerId := by
  unfold assignJobLocks Wiring.AsksEngine
  cases hw : s.workers.get? workerId with
  | none => simp [withManager, Code.locks]
  | some node =>
      by_cases hactive : node.status = .active <;> by_cases he : w.managerHasEngine <;>
        simp [withManager, withEngine, getJobLocks, Code.locks, hactive, he]

theorem CapabilityLooks.engine_mem_locks (w : Wiring) (seen : CapabilityLooks) (ref : JobRef) :
    Lock.engine ∈ (seen.locks w ref).locks ↔
      ∃ first rest, seen.candidates ref = first :: rest ∧
        w.AsksEngine seen.assign (State.leastLoaded first rest).id := by
  have hdiscover : Lock.engine ∉ discoverWorkersLocks.locks := by decide
  have hlist : Lock.engine ∉ listWorkersLocks.locks := by decide
  have hsome : ∀ (p : Prop) [Decidable p] (code : Code Lock), Lock.engine ∉ code.locks →
      Lock.engine ∉ (if p then code else .skip).locks := by
    intro p _ code hcode
    split
    · exact hcode
    · exact List.not_mem_nil
  simp only [locks, withManager, Code.locks, Code.mem_locks_seq, List.mem_cons, List.mem_append,
    List.not_mem_nil, or_false, reduceCtorEq, false_or, exists_eq_or_imp, exists_eq_left, hdiscover,
    hsome _ _ hdiscover, hsome _ _ hlist]
  cases hc : seen.candidates ref with
  | nil => simp [Code.locks]
  | cons first rest => simp [engine_mem_assignJobLocks]

theorem engine_mem_reportJobStatusLocks (w : Wiring) (s : State) (workerId : WorkerId) :
    Lock.engine ∈ (reportJobStatusLocks w s workerId).locks ↔
      w.managerHasEngine ∧ workerId ∈ s.workers := by
  unfold reportJobStatusLocks
  by_cases hw : workerId ∈ s.workers <;> by_cases he : w.managerHasEngine <;>
    simp [withManager, withEngine, getJobLocks, Code.locks, hw, he]

theorem SubmitLooks.takes_manager_iff (w : Wiring) (seen : SubmitLooks) (ref : JobRef) :
    (seen.locks w ref).Takes .engine .manager ↔ w.engineHasManager := by
  unfold locks
  rw [withEngine_takes_iff]
  cases w.engineHasManager with
  | false => simp [Code.locks]
  | true => simp [Code.mem_locks_append, listWorkersLocks, withManager, Code.locks]

theorem Call.takes_manager_iff (w : Wiring) (call : Call) :
    (call.locks w).Takes .engine .manager ↔ call.AsksManager w := by
  cases call with
  | submitJob ref seen => exact seen.takes_manager_iff w ref
  | getJob | cancelJob | listJobs | clearJobs | engineHealth | engineStatus =>
      refine iff_of_false (fun h => ?_) id
      exact List.not_mem_nil ((withEngine_takes_iff .skip).mp h)
  | registerWorker | unregisterWorker | getWorker | listWorkers | discoverWorkers | sendHeartbeat
  | getAssignedJobs | monitorWorkers | managerHealth | managerStatus
  | assignJob _ _ _ | assignJobByCapability _ _ | reportJobStatus _ _ _ =>
      exact iff_of_false (withManager_not_takes _) id

theorem Call.takes_engine_iff (w : Wiring) (call : Call) :
    (call.locks w).Takes .manager .engine ↔ call.AsksEngine w := by
  cases call with
  | submitJob | getJob | cancelJob | listJobs | clearJobs | engineHealth | engineStatus =>
      exact iff_of_false (withEngine_not_takes _) id
  | assignJob jobId workerId seen =>
      exact (withManager_takes_iff _).trans (engine_mem_assignJobLocks w seen workerId)
  | assignJobByCapability ref seen =>
      exact (withManager_takes_iff _).trans (seen.engine_mem_locks w ref)
  | reportJobStatus workerId jobId seen =>
      exact (withManager_takes_iff _).trans (engine_mem_reportJobStatusLocks w seen workerId)
  | registerWorker | unregisterWorker | getWorker | sendHeartbeat | getAssignedJobs
  | monitorWorkers | listWorkers | discoverWorkers | managerHealth | managerStatus =>
      refine iff_of_false (fun h => ?_) id
      have hmem := (withManager_takes_iff _).mp h
      exact absurd hmem (by decide)

-- What a thread does when it makes the calls one after the other.
def threadCode (w : Wiring) (calls : List Call) : Code Lock := .seq (calls.map (·.locks w))

-- Two threads never come to wait for each other's lock exactly if no call that asks the manager
-- under the engine's lock meets, in another thread, one that asks the engine under the manager's.
theorem no_circular_wait_iff {τ : Type*} [DecidableEq τ] (w : Wiring) (calls : τ → List Call) :
    (∀ acts s, Run Threads.step (Threads.start fun t => threadCode w (calls t)) acts s →
      ¬s.CircularWait .engine .manager) ↔
    ¬∃ t u, t ≠ u ∧ (∃ call ∈ calls t, call.AsksManager w) ∧ ∃ call ∈ calls u, call.AsksEngine w := by
  have hlocks : ∀ t, ∀ lock ∈ (threadCode w (calls t)).locks, lock = Lock.engine ∨ lock = .manager := by
    intro t lock _
    cases lock with
    | engine => exact .inl rfl
    | manager => exact .inr rfl
  have h := Threads.circularWait_iff (by decide) hlocks
  simp only [threadCode, Code.takes_seq, List.mem_map, exists_exists_and_eq_and,
    Call.takes_manager_iff, Call.takes_engine_iff] at h
  rw [← h]
  simp only [not_exists, not_and]
  rfl

-- A client with one worker, whose job reports while another job is submitted.
def reportingClient : State :=
  (State.start fun _ => Job.init (.callable "task") .empty "job-1" none 20 0 none none 0).registerWorker
    "w1" "first" [] .empty 0

def crossingCalls : Bool → List Call
  | false => [.submitJob 0 (.still reportingClient)]
  | true => [.reportJobStatus "w1" "job-1" reportingClient]

-- Each thread has taken its own service's lock, and stands before the other's.
theorem submit_and_report_deadlock :
    ∃ acts s, Run Threads.step (Threads.start fun t => threadCode ⟨true, true⟩ (crossingCalls t)) acts s ∧
      s.CircularWait .engine .manager := by
  refine ⟨[false, true], _, Run.of_foldlM rfl, false, true, by decide, ⟨?_, _, rfl⟩, ?_, _, rfl⟩
  · exact Nat.one_pos
  · exact Nat.one_pos

end YasinCore.Execution
