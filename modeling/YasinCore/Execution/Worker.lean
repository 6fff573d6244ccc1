import YasinCore.Execution.Engine

namespace YasinCore.Execution

-- The atomic steps of JobWorker.run and _process_job. Other threads may act between any two of
-- them; a step is possible only when the thread stands at the place where the step belongs.
namespace State

def dequeue (s : State) (thread : ThreadId) (ref : JobRef) : Option State :=
  if s.hands thread = .idle then
    match s.queue.getNowait with
    | some (other, rest) =>
        if other = ref then some ({ s with queue := rest }.setHand thread (.taken ref)) else none
    | none => none
  else none

-- The cooperative cancellation check before the run.
def checkCancelled (s : State) (thread : ThreadId) (ref : JobRef) (now : Time) : Option State :=
  if s.hands thread = .taken ref then
    if (s.heap ref).cancelled ∨ (s.heap ref).status = .cancelled then
      let s := s.updateJob ref fun job => { job with status := .cancelled, completedAt := some now }
      some ((s.publishJob "job_cancelled" ref).setHand thread .idle)
    else some (s.setHand thread (.starting ref))
  else none

-- The job is marked RUNNING and its target is called.
def startJob (s : State) (thread : ThreadId) (ref : JobRef) (now : Time) : Option State :=
  if s.hands thread = .starting ref then
    let s := s.updateJob ref fun job => { job with status := .running, startedAt := some now }
    some ((s.publishJob "job_started" ref).setHand thread (.running ref))
  else none

-- The target returns.
def succeedJob (s : State) (thread : ThreadId) (ref : JobRef) (result : String) (now : Time) :
    Option State :=
  if s.hands thread = .running ref then
    let s := s.updateJob ref fun job =>
      { job with result := some result, status := .completed, completedAt := some now }
    some (((s.publishJob "job_completed" ref).saveToMemory ref).setHand thread .idle)
  else none

-- The target raises, or it exceeds its timeout.
def failJob (s : State) (thread : ThreadId) (ref : JobRef) (error : String) : Option State :=
  if s.hands thread = .running ref then some (s.setHand thread (.failing ref error)) else none

-- The except branch up to the point where a retried job is put back.
def handleFailure (s : State) (thread : ThreadId) (ref : JobRef) (error : String) (now : Time) :
    Option State :=
  if s.hands thread = .failing ref error then
    if (s.heap ref).CanRetry then
      let s := s.updateJob ref fun job =>
        { job with retryCount := job.retryCount + 1, status := .queued }
      some ((s.publishJob "job_retrying" ref).setHand thread (.requeuing ref))
    else
      let s := s.updateJob ref fun job =>
        { job with error := some error, status := .failed, completedAt := some now }
      some (((s.publishJob "job_failed" ref).saveToMemory ref).setHand thread .idle)
  else none

def requeue (s : State) (thread : ThreadId) (ref : JobRef) : Option State :=
  if s.hands thread = .requeuing ref then some ((s.putQueue ref).setHand thread .idle) else none

end State

-- The atomic steps of the engine, its manager, the distributed workers and the local threads.
inductive Action
  | submitJob (ref : JobRef) (context : Option String)
  | cancelJob (jobId : JobId) (now : Time)
  | registerWorker (workerId : WorkerId) (name : String) (capabilities : List String)
      (health : Library.Dict String String) (now : Time)
  | unregisterWorker (workerId : WorkerId)
  | sendHeartbeat (workerId : WorkerId) (health : Library.Dict String String) (now : Time)
  | assignJob (jobId : JobId) (workerId : WorkerId)
  | assignJobByCapability (ref : JobRef)
  | fetchJob (workerId : WorkerId) (ref : JobRef)
  | reportJobStatus (workerId : WorkerId) (jobId : JobId) (status : JobStatus)
      (result error : Option String) (now : Time)
  | monitorWorkers (now : Time)
  | dequeue (thread : ThreadId) (ref : JobRef)
  | checkCancelled (thread : ThreadId) (ref : JobRef) (now : Time)
  | startJob (thread : ThreadId) (ref : JobRef) (now : Time)
  | succeedJob (thread : ThreadId) (ref : JobRef) (result : String) (now : Time)
  | failJob (thread : ThreadId) (ref : JobRef) (error : String)
  | handleFailure (thread : ThreadId) (ref : JobRef) (error : String) (now : Time)
  | requeue (thread : ThreadId) (ref : JobRef)

def step (s : State) : Action → Option State
  | .submitJob ref context => some (s.submitJob ref context)
  | .cancelJob jobId now => some (s.cancelJob jobId now).2
  | .registerWorker workerId name capabilities health now =>
      some (s.registerWorker workerId name capabilities health now)
  | .unregisterWorker workerId => some (s.unregisterWorker workerId)
  | .sendHeartbeat workerId health now => some (s.sendHeartbeat workerId health now).2
  | .assignJob jobId workerId => some (s.assignJob jobId workerId).2
  | .assignJobByCapability ref => some (s.assignJobByCapability ref).2
  | .fetchJob workerId ref =>
      match s.fetchJob workerId with
      | some (other, t) => if other = ref then some t else none
      | none => none
  | .reportJobStatus workerId jobId status result error now =>
      some (s.reportJobStatus workerId jobId status result error now).2
  | .monitorWorkers now => some (s.monitorWorkers now)
  | .dequeue thread ref => s.dequeue thread ref
  | .checkCancelled thread ref now => s.checkCancelled thread ref now
  | .startJob thread ref now => s.startJob thread ref now
  | .succeedJob thread ref result now => s.succeedJob thread ref result now
  | .failJob thread ref error => s.failJob thread ref error
  | .handleFailure thread ref error now => s.handleFailure thread ref error now
  | .requeue thread ref => s.requeue thread ref

end YasinCore.Execution
