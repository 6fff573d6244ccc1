import YasinCore.Execution.State

namespace YasinCore.Execution

open YasinCore.Library

namespace WorkerNode

def init (workerId : WorkerId) (name : String) (capabilities : List String)
    (health : Dict String String) (now : Time) : WorkerNode where
  id := workerId
  name := name
  status := .registered
  capabilities := capabilities.toFinset
  health := health
  lastHeartbeat := now
  queue := []
  assignedJobs := .empty

def updateHeartbeat (node : WorkerNode) (healthMetrics : Dict String String) (now : Time) :
    WorkerNode :=
  { node with
    lastHeartbeat := now
    health := healthMetrics.entries.foldl (fun health entry => health.set entry.1 entry.2) node.health
    status := if node.status = .registered ∨ node.status = .offline then .active else node.status }

-- One entry for the job in the assignment map, and one more in the node's queue.
def assign (node : WorkerNode) (jobId : JobId) (ref : JobRef) : WorkerNode :=
  { node with assignedJobs := node.assignedJobs.set jobId ref, queue := node.queue ++ [ref] }

def complete (node : WorkerNode) (jobId : JobId) : WorkerNode :=
  { node with assignedJobs := node.assignedJobs.erase jobId }

def drain (node : WorkerNode) : WorkerNode :=
  { node with assignedJobs := .empty, queue := [] }

end WorkerNode

namespace State

def registerWorker (s : State) (workerId : WorkerId) (name : String) (capabilities : List String)
    (health : Dict String String) (now : Time) : State :=
  let node := WorkerNode.init workerId name capabilities health now
  (s.setNode workerId node).publishWorker "worker_registered" node none

def unregisterWorker (s : State) (workerId : WorkerId) : State :=
  match s.workers.get? workerId with
  | none => s
  | some node =>
      { s with workers := s.workers.erase workerId }.publishWorker "worker_unregistered"
        { node with status := .offline } none

def listWorkers (s : State) (status : Option WorkerState) : List WorkerNode :=
  match status with
  | none => s.workers.values
  | some status => s.workers.values.filter fun node => node.status = status

def discoverWorkers (s : State) (capability : String) : List WorkerNode :=
  (s.listWorkers (some .active)).filter fun node => capability ∈ node.capabilities

def sendHeartbeat (s : State) (workerId : WorkerId) (health : Dict String String) (now : Time) :
    Bool × State :=
  match s.workers.get? workerId with
  | none => (false, s)
  | some node =>
      let node := node.updateHeartbeat health now
      (true, (s.setNode workerId node).publishWorker "worker_heartbeat" node none)

-- TaskExecutionEngine.get_job
def getJob (s : State) (jobId : JobId) : Option JobRef := s.jobs.get? jobId

-- The effect of an accepted assignment.
def handOver (s : State) (workerId : WorkerId) (node : WorkerNode) (jobId : JobId) (ref : JobRef) :
    State :=
  let node := node.assign jobId ref
  let s := s.updateJob ref fun job => { job with workerId := some workerId, status := .queued }
  let s := { s.setNode workerId node with totalAssignments := s.totalAssignments + 1 }
  s.publishWorker "job_assigned" node (some ref)

def assignJob (s : State) (jobId : JobId) (workerId : WorkerId) : Bool × State :=
  match s.workers.get? workerId with
  | none => (false, s)
  | some node =>
      if node.status ≠ .active then (false, s)
      else
        match s.getJob jobId with
        | none => (false, s)
        | some ref => (true, s.handOver workerId node jobId ref)

-- The first node with the fewest assigned jobs, as min with a key picks it.
def leastLoaded (best : WorkerNode) : List WorkerNode → WorkerNode
  | [] => best
  | node :: rest =>
      leastLoaded (if node.assignedJobs.size < best.assignedJobs.size then node else best) rest

-- The capability the router asks for when it has to pick a node by itself.
def routingCapability (job : Job) : String :=
  match job.requiredCapability with
  | some capability => capability
  | none =>
      match job.target with
      | .str name => "target:" ++ name
      | .callable _ => "default"

def assignJobByCapability (s : State) (ref : JobRef) : Option WorkerId × State :=
  let job := s.heap ref
  let candidates := s.discoverWorkers (routingCapability job)
  let candidates := if candidates = [] then s.discoverWorkers "default" else candidates
  let candidates := if candidates = [] then s.listWorkers (some .active) else candidates
  match candidates with
  | [] => (none, s)
  | first :: rest =>
      let selected := leastLoaded first rest
      match s.assignJob job.id selected.id with
      | (true, s) => (some selected.id, s)
      | (false, s) => (none, s)

-- The write of a reported status; a finished job also leaves the reporter's assignments.
def recordReport (s : State) (workerId : WorkerId) (node : WorkerNode) (jobId : JobId) (ref : JobRef)
    (status : JobStatus) (result error : Option String) (now : Time) : State :=
  let s := s.updateJob ref fun job => { job with status := status }
  if status = .running then
    s.updateJob ref fun job => { job with startedAt := some now }
  else if status.Terminal then
    (s.updateJob ref fun job =>
      { job with completedAt := some now, result := result, error := error }).setNode workerId
      (node.complete jobId)
  else s

-- A failed job with attempts left goes straight back into the reporter's assignments and queue.
def retryOnWorker (s : State) (workerId : WorkerId) (node : WorkerNode) (jobId : JobId)
    (ref : JobRef) : State :=
  let s := s.updateJob ref fun job => { job with retryCount := job.retryCount + 1, status := .queued }
  (s.publishJob "job_retrying" ref).setNode workerId ((node.complete jobId).assign jobId ref)

def applyReport (s : State) (workerId : WorkerId) (node : WorkerNode) (jobId : JobId) (ref : JobRef)
    (status : JobStatus) (result error : Option String) (now : Time) : State :=
  let s := s.recordReport workerId node jobId ref status result error now
  match status with
  | .running => s.publishJob "job_started" ref
  | .completed => (s.publishJob "job_completed" ref).saveToMemory ref
  | .failed =>
      if (s.heap ref).CanRetry then s.retryOnWorker workerId node jobId ref
      else (s.publishJob "job_failed" ref).saveToMemory ref
  | .cancelled => s.publishJob "job_cancelled" ref
  | .pending | .queued => s

def reportJobStatus (s : State) (workerId : WorkerId) (jobId : JobId) (status : JobStatus)
    (result error : Option String) (now : Time) : Bool × State :=
  match s.workers.get? workerId with
  | none => (false, s)
  | some node =>
      match s.getJob jobId with
      | none => (false, s)
      | some ref => (true, s.applyReport workerId node jobId ref status result error now)

def requeueJob (s : State) (ref : JobRef) : State :=
  ((s.updateJob ref fun job => { job with status := .queued, workerId := none }).putQueue
    ref).publishJob "job_queued" ref

-- _recover_worker_jobs
def recoverWorkerJobs (s : State) (workerId : WorkerId) (node : WorkerNode) : State :=
  node.assignedJobs.values.foldl requeueJob (s.setNode workerId node.drain)

-- One node's turn in the sweep of monitor_workers.
def monitorWorker (now : Time) (s : State) (workerId : WorkerId) : State :=
  match s.workers.get? workerId with
  | none => s
  | some node =>
      if node.status = .active then
        if now - node.lastHeartbeat ≥ s.heartbeatTimeout then
          let node := { node with status := .suspended }
          (s.setNode workerId node).publishWorker "worker_suspended" node none
        else s
      else if node.status = .suspended then
        if now - node.lastHeartbeat ≥ s.heartbeatTimeout * 2 then
          let node := { node with status := .offline }
          ((s.setNode workerId node).publishWorker "worker_offline" node none).recoverWorkerJobs
            workerId node
        else s
      else s

def monitorWorkers (s : State) (now : Time) : State :=
  s.workers.keys.foldl (monitorWorker now) s

-- BaseDistributedWorker._fetch_job: the worker takes the next entry of its node's queue.
def fetchJob (s : State) (workerId : WorkerId) : Option (JobRef × State) :=
  match s.workers.get? workerId with
  | none => none
  | some node =>
      match node.queue with
      | [] => none
      | ref :: rest => some (ref, s.setNode workerId { node with queue := rest })

end State

end YasinCore.Execution
