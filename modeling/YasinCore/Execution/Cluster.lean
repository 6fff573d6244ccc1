import YasinCore.Execution.Ownership

namespace YasinCore.Execution

open YasinCore.Library

-- What the execution loop of a distributed worker has in hand between two of its steps.
inductive WorkerHand
  | idle
  | fetched (job : JobRef)
  | started (job : JobRef)
  | ran (job : JobRef) (outcome : Except String String)

def WorkerHand.job? : WorkerHand → Option JobRef
  | .idle => none
  | .fetched ref | .started ref | .ran ref _ => some ref

-- The engine, the manager and the distributed workers, and for each job how the calls of its
-- target ended, the oldest call first.
structure Cluster where
  state : State
  hands : WorkerId → WorkerHand
  outcomes : JobRef → List Bool

def succeeded : Except String String → Bool
  | .ok _ => true
  | .error _ => false

-- The steps of _execution_loop and _execute_job, and what goes on around them.
inductive ClusterAction
  | submitJob (ref : JobRef) (context : Option String)
  | sendHeartbeat (workerId : WorkerId) (health : Dict String String) (now : Time)
  | monitorWorkers (now : Time)
  | fetchJob (workerId : WorkerId)
  | reportRunning (workerId : WorkerId) (now : Time)
  | runTarget (workerId : WorkerId) (outcome : Except String String) (now : Time)
  | reportOutcome (workerId : WorkerId) (now : Time)

-- The worker whose own execution loop takes the step.
def ClusterAction.worker? : ClusterAction → Option WorkerId
  | .fetchJob workerId | .reportRunning workerId _ | .runTarget workerId _ _
  | .reportOutcome workerId _ => some workerId
  | _ => none

namespace Cluster

def start (heap : JobRef → Job) (workers : Dict WorkerId WorkerNode) : Cluster where
  state := { State.start heap with workers := workers }
  hands := fun _ => .idle
  outcomes := fun _ => []

def setHand (c : Cluster) (workerId : WorkerId) (hand : WorkerHand) : Cluster :=
  { c with hands := Function.update c.hands workerId hand }

-- The worker's call of report_job_status, after which it goes on with the given hand.
def report (c : Cluster) (workerId : WorkerId) (ref : JobRef) (status : JobStatus)
    (result error : Option String) (now : Time) (hand : WorkerHand) : Cluster :=
  { c with
    state := (c.state.reportJobStatus workerId (c.state.heap ref).id status result error now).2
  }.setHand workerId hand

-- No active worker is stale, so that the sweep finds nobody to suspend.
def Fresh (c : Cluster) (now : Time) : Prop :=
  ∀ node ∈ c.state.workers.values, node.status = .active →
    now - node.lastHeartbeat < c.state.heartbeatTimeout

instance (c : Cluster) (now : Time) : Decidable (c.Fresh now) :=
  inferInstanceAs (Decidable (∀ node ∈ c.state.workers.values, _))

-- A job is submitted once, and some worker takes it.
def Routes (c : Cluster) (ref : JobRef) (context : Option String) : Prop :=
  (c.state.heap ref).id ∉ c.state.jobs ∧
    ((c.state.registerJob ref context).routedWorker ref).isSome

instance (c : Cluster) (ref : JobRef) (context : Option String) : Decidable (c.Routes ref context) :=
  inferInstanceAs (Decidable (_ ∧ _))

def step (c : Cluster) : ClusterAction → Option Cluster
  | .submitJob ref context =>
      if c.Routes ref context then some { c with state := c.state.submitJob ref context } else none
  | .sendHeartbeat workerId health now =>
      some { c with state := (c.state.sendHeartbeat workerId health now).2 }
  | .monitorWorkers now =>
      if c.Fresh now then some { c with state := c.state.monitorWorkers now } else none
  | .fetchJob workerId =>
      match c.hands workerId with
      | .idle =>
          match c.state.fetchJob workerId with
          | some (ref, t) => some ({ c with state := t }.setHand workerId (.fetched ref))
          | none => none
      | _ => none
  | .reportRunning workerId now =>
      match c.hands workerId with
      | .fetched ref => some (c.report workerId ref .running none none now (.started ref))
      | _ => none
  | .runTarget workerId outcome now =>
      match c.hands workerId with
      | .started ref =>
          if (c.state.heap ref).cancelled then
            some (c.report workerId ref .cancelled none none now .idle)
          else
            some ({ c with
              outcomes := Function.update c.outcomes ref (c.outcomes ref ++ [succeeded outcome])
            }.setHand workerId (.ran ref outcome))
      | _ => none
  | .reportOutcome workerId now =>
      match c.hands workerId with
      | .ran ref (.ok result) => some (c.report workerId ref .completed (some result) none now .idle)
      | .ran ref (.error error) => some (c.report workerId ref .failed none (some error) now .idle)
      | _ => none

end Cluster

end YasinCore.Execution
