import YasinCore.Library.Dict
import Mathlib.Algebra.Order.Ring.Rat

namespace YasinCore.Execution

open YasinCore.Library

-- Clock readings and durations in seconds.
abbrev Time := ℚ

abbrev JobId := String

inductive JobStatus
  | pending
  | queued
  | running
  | completed
  | failed
  | cancelled
  deriving DecidableEq, Repr

-- The states after which a job is not run again.
def JobStatus.Terminal (status : JobStatus) : Prop :=
  status = .completed ∨ status = .failed ∨ status = .cancelled

-- The states in which a job still has to be served by somebody.
def JobStatus.Live (status : JobStatus) : Prop :=
  status = .queued ∨ status = .running

instance (status : JobStatus) : Decidable status.Terminal :=
  inferInstanceAs (Decidable (_ ∨ _ ∨ _))

instance (status : JobStatus) : Decidable status.Live :=
  inferInstanceAs (Decidable (_ ∨ _))

inductive Target
  | callable (name : String)
  | str (name : String)
  deriving DecidableEq, Repr

-- Of the keyword arguments only entries with a string value are read by the modelled code.
structure Job where
  id : JobId
  name : String
  target : Target
  kwargs : Dict String String
  priority : Int
  retries : Int
  retryCount : Nat
  timeout : Option Time
  status : JobStatus
  result : Option String
  error : Option String
  createdAt : Time
  startedAt : Option Time
  completedAt : Option Time
  contextId : Option String
  cancelled : Bool
  workerId : Option String
  deriving DecidableEq

namespace Job

-- A string argument counts as given when it is neither None nor empty.
def given (value : Option String) : Option String := value.filter (· ≠ "")

-- The constructor; the identifier stands for the given one or for the generated uuid.
def init (target : Target) (kwargs : Dict String String) (id : JobId) (name : Option String)
    (priority retries : Int) (timeout : Option Time) (contextId : Option String) (now : Time) :
    Job where
  id := id
  name := (given name).getD ("job-" ++ (id.take 8).toString)
  target := target
  kwargs := kwargs
  priority := priority
  retries := retries
  retryCount := 0
  timeout := timeout
  status := .pending
  result := none
  error := none
  createdAt := now
  startedAt := none
  completedAt := none
  contextId := contextId
  cancelled := false
  workerId := kwargs.get? "worker_id"

-- What the constructor leaves behind, whatever its arguments.
structure Fresh (job : Job) : Prop where
  status : job.status = .pending
  retryCount : job.retryCount = 0
  cancelled : job.cancelled = false

theorem init_fresh (target : Target) (kwargs : Dict String String) (id : JobId)
    (name : Option String) (priority retries : Int) (timeout : Option Time)
    (contextId : Option String) (now : Time) :
    (init target kwargs id name priority retries timeout contextId now).Fresh :=
  ⟨rfl, rfl, rfl⟩

def cancel (job : Job) (now : Time) : Bool × Job :=
  if job.status = .completed ∨ job.status = .failed ∨ job.status = .cancelled then
    (false, job)
  else
    (true, { job with cancelled := true, status := .cancelled, completedAt := some now })

theorem cancel_of_terminal {job : Job} (h : job.status.Terminal) (now : Time) :
    job.cancel now = (false, job) := if_pos h

theorem cancel_of_not_terminal {job : Job} (h : ¬job.status.Terminal) (now : Time) :
    job.cancel now =
      (true, { job with cancelled := true, status := .cancelled, completedAt := some now }) :=
  if_neg h

def CanRetry (job : Job) : Prop := (job.retryCount : Int) < job.retries

instance (job : Job) : Decidable job.CanRetry := inferInstanceAs (Decidable (_ < _))

def requiredCapability (job : Job) : Option String :=
  (given (job.kwargs.get? "required_capability")).or (given (job.kwargs.get? "capability"))

end Job

end YasinCore.Execution
