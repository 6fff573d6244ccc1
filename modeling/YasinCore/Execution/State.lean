import YasinCore.Execution.Queue
import Mathlib.Data.Finset.Insert
import Mathlib.Logic.Function.Basic

namespace YasinCore.Execution

open YasinCore.Library

abbrev WorkerId := String

-- The number of a local JobWorker thread; any number of them may be at work.
abbrev ThreadId := Nat

inductive WorkerState
  | registered
  | active
  | offline
  | suspended
  | failed
  deriving DecidableEq, Repr

structure WorkerNode where
  id : WorkerId
  name : String
  status : WorkerState
  capabilities : Finset String
  health : Dict String String
  lastHeartbeat : Time
  queue : List JobRef
  assignedJobs : Dict JobId JobRef
  deriving DecidableEq

inductive Event
  | job (name : String) (snapshot : Job)
  | worker (name : String) (worker : WorkerId) (workerName : String) (status : WorkerState)
      (capabilities : Finset String) (job : Option (JobId × String))

-- What _save_to_memory hands to the client's short-term memory.
structure MemoryRecord where
  key : String
  result : Option String
  error : Option String
  status : JobStatus
  completedAt : Option Time
  contextId : Option String

-- Where a local JobWorker thread stands between two of its atomic steps.
inductive Hand
  | idle
  | taken (job : JobRef)
  | starting (job : JobRef)
  | running (job : JobRef)
  | failing (job : JobRef) (error : String)
  | requeuing (job : JobRef)
  deriving DecidableEq

def Hand.job? : Hand → Option JobRef
  | .idle => none
  | .taken ref | .starting ref | .running ref | .failing ref _ | .requeuing ref => some ref

-- One engine, its worker manager and its local threads, over a heap of job objects.
-- The event and memory logs have the newest entry first.
structure State where
  heap : JobRef → Job
  queue : JobQueue
  jobs : Dict JobId JobRef
  hands : ThreadId → Hand
  workers : Dict WorkerId WorkerNode
  heartbeatTimeout : Time
  totalAssignments : Nat
  events : List Event
  memory : List MemoryRecord

namespace State

-- A client before its first call, with the job objects that will ever be submitted to it.
def start (heap : JobRef → Job) : State where
  heap := heap
  queue := .empty
  jobs := .empty
  hands := fun _ => .idle
  workers := .empty
  heartbeatTimeout := 6
  totalAssignments := 0
  events := []
  memory := []

def updateJob (s : State) (ref : JobRef) (f : Job → Job) : State :=
  { s with heap := Function.update s.heap ref (f (s.heap ref)) }

def setHand (s : State) (thread : ThreadId) (hand : Hand) : State :=
  { s with hands := Function.update s.hands thread hand }

def setNode (s : State) (worker : WorkerId) (node : WorkerNode) : State :=
  { s with workers := s.workers.set worker node }

def putQueue (s : State) (ref : JobRef) : State :=
  { s with queue := s.queue.put ref (s.heap ref) }

-- TaskExecutionEngine._publish_event
def publishJob (s : State) (name : String) (ref : JobRef) : State :=
  { s with events := .job name (s.heap ref) :: s.events }

-- DistributedWorkerManager._publish_event
def publishWorker (s : State) (name : String) (node : WorkerNode) (ref : Option JobRef) : State :=
  { s with
    events := .worker name node.id node.name node.status node.capabilities
      (ref.map fun ref => ((s.heap ref).id, (s.heap ref).name)) :: s.events }

-- TaskExecutionEngine._save_to_memory
def saveToMemory (s : State) (ref : JobRef) : State :=
  { s with
    memory := ⟨"job_execution:" ++ (s.heap ref).id, (s.heap ref).result, (s.heap ref).error,
      (s.heap ref).status, (s.heap ref).completedAt, (s.heap ref).contextId⟩ :: s.memory }

section Projections

variable (s : State) (ref other : JobRef) (f : Job → Job) (thread : ThreadId) (hand : Hand)
  (worker : WorkerId) (node : WorkerNode) (name : String) (job : Option JobRef)

theorem updateJob_heap : (s.updateJob ref f).heap other =
    if other = ref then f (s.heap ref) else s.heap other := Function.update_apply _ _ _ _

@[simp] theorem updateJob_heap_self : (s.updateJob ref f).heap ref = f (s.heap ref) := by
  simp [updateJob_heap]

@[simp] theorem updateJob_queue : (s.updateJob ref f).queue = s.queue := rfl
@[simp] theorem updateJob_jobs : (s.updateJob ref f).jobs = s.jobs := rfl
@[simp] theorem updateJob_hands : (s.updateJob ref f).hands = s.hands := rfl
@[simp] theorem updateJob_workers : (s.updateJob ref f).workers = s.workers := rfl

@[simp] theorem setHand_heap : (s.setHand thread hand).heap = s.heap := rfl
@[simp] theorem setHand_queue : (s.setHand thread hand).queue = s.queue := rfl
@[simp] theorem setHand_jobs : (s.setHand thread hand).jobs = s.jobs := rfl
@[simp] theorem setHand_workers : (s.setHand thread hand).workers = s.workers := rfl

theorem setHand_hands (thread' : ThreadId) : (s.setHand thread hand).hands thread' =
    if thread' = thread then hand else s.hands thread' := Function.update_apply _ _ _ _

@[simp] theorem setNode_heap : (s.setNode worker node).heap = s.heap := rfl
@[simp] theorem setNode_queue : (s.setNode worker node).queue = s.queue := rfl
@[simp] theorem setNode_jobs : (s.setNode worker node).jobs = s.jobs := rfl
@[simp] theorem setNode_hands : (s.setNode worker node).hands = s.hands := rfl
@[simp] theorem setNode_workers :
    (s.setNode worker node).workers = s.workers.set worker node := rfl

@[simp] theorem putQueue_heap : (s.putQueue ref).heap = s.heap := rfl
@[simp] theorem putQueue_queue : (s.putQueue ref).queue = s.queue.put ref (s.heap ref) := rfl
@[simp] theorem putQueue_jobs : (s.putQueue ref).jobs = s.jobs := rfl
@[simp] theorem putQueue_hands : (s.putQueue ref).hands = s.hands := rfl
@[simp] theorem putQueue_workers : (s.putQueue ref).workers = s.workers := rfl

@[simp] theorem publishJob_heap : (s.publishJob name ref).heap = s.heap := rfl
@[simp] theorem publishJob_queue : (s.publishJob name ref).queue = s.queue := rfl
@[simp] theorem publishJob_jobs : (s.publishJob name ref).jobs = s.jobs := rfl
@[simp] theorem publishJob_hands : (s.publishJob name ref).hands = s.hands := rfl
@[simp] theorem publishJob_workers : (s.publishJob name ref).workers = s.workers := rfl

@[simp] theorem publishWorker_heap : (s.publishWorker name node job).heap = s.heap := rfl
@[simp] theorem publishWorker_queue : (s.publishWorker name node job).queue = s.queue := rfl
@[simp] theorem publishWorker_jobs : (s.publishWorker name node job).jobs = s.jobs := rfl
@[simp] theorem publishWorker_hands : (s.publishWorker name node job).hands = s.hands := rfl
@[simp] theorem publishWorker_workers :
    (s.publishWorker name node job).workers = s.workers := rfl

@[simp] theorem saveToMemory_heap : (s.saveToMemory ref).heap = s.heap := rfl
@[simp] theorem saveToMemory_queue : (s.saveToMemory ref).queue = s.queue := rfl
@[simp] theorem saveToMemory_jobs : (s.saveToMemory ref).jobs = s.jobs := rfl
@[simp] theorem saveToMemory_hands : (s.saveToMemory ref).hands = s.hands := rfl
@[simp] theorem saveToMemory_workers : (s.saveToMemory ref).workers = s.workers := rfl

end Projections

end State

end YasinCore.Execution
