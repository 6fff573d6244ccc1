import YasinCore.Execution.Distributed

namespace YasinCore.Execution

open YasinCore.Library

namespace State

-- The three routing attempts of submit_job. A refused attempt leaves the state as it was, so
-- each of them starts from the same state; the result is the state when a worker takes the job.
def routeExplicitly (s : State) (ref : JobRef) : Option State :=
  match Job.given (s.heap ref).workerId with
  | some workerId =>
      match s.assignJob (s.heap ref).id workerId with
      | (true, t) => some t
      | (false, _) => none
  | none => none

def routeAnywhere (s : State) (ref : JobRef) : Option State :=
  match s.assignJobByCapability ref with
  | (some _, t) => some t
  | (none, _) => none

def routeByCapability (s : State) (ref : JobRef) : Option State :=
  if (s.heap ref).requiredCapability.isSome then s.routeAnywhere ref else none

def routeByTarget (s : State) (ref : JobRef) : Option State :=
  match (s.heap ref).target with
  | .str name => if s.discoverWorkers ("target:" ++ name) = [] then none else s.routeAnywhere ref
  | .callable _ => none

def routeToWorker (s : State) (ref : JobRef) : Option State :=
  if s.listWorkers none = [] then none
  else (s.routeExplicitly ref).or ((s.routeByCapability ref).or (s.routeByTarget ref))

-- The job takes the active context, enters the registry and becomes QUEUED.
def registerJob (s : State) (ref : JobRef) (context : Option String) : State :=
  let s := s.updateJob ref fun job =>
    { job with contextId := if (Job.given job.contextId).isNone then context.or job.contextId
                            else job.contextId }
  let s := { s with jobs := s.jobs.set (s.heap ref).id ref }
  s.updateJob ref fun job => { job with status := .queued }

-- The context argument is the identifier of the RuntimeContext active in the calling thread.
def submitJob (s : State) (ref : JobRef) (context : Option String) : State :=
  let s := s.registerJob ref context
  match s.routeToWorker ref with
  | some t => t
  | none => (s.putQueue ref).publishJob "job_queued" ref

def cancelJob (s : State) (jobId : JobId) (now : Time) : Bool × State :=
  match s.getJob jobId with
  | none => (false, s)
  | some ref =>
      let cancelled := (s.heap ref).cancel now
      let s := s.updateJob ref fun _ => cancelled.2
      (cancelled.1, if cancelled.1 then s.publishJob "job_cancelled" ref else s)

end State

end YasinCore.Execution
