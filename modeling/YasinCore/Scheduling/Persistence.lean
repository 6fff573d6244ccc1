import YasinCore.Scheduling.Scheduler

namespace YasinCore.Scheduling

open YasinCore.Library YasinCore.Execution

-- What a process knows about objects: every target that is not a string is one, under the name
-- that it has in the model. An import gives an attribute of a module, or raises.
structure Interpreter where
  isCallable : String → Bool
  moduleOf : String → Option String
  nameOf : String → Option String
  importAttr : String → String → Option Target
  noneObject : String
  none_not_callable : isCallable noneObject = false

inductive StoredTarget
  | str (val : String)
  | callable (module name : Option String)
  deriving DecidableEq

-- The none is the TypeError.
def serializeTarget (py : Interpreter) : Target → Option StoredTarget
  | .str name => some (.str name)
  | .callable name =>
      if py.isCallable name then some (.callable (py.moduleOf name) (py.nameOf name)) else none

def deserializeTarget (py : Interpreter) : StoredTarget → Target
  | .str val => .str val
  | .callable module name =>
      let funcName := match name with
        | some name => .str name
        | none => .callable py.noneObject
      match Job.given module, Job.given name with
      | some module, some name => (py.importAttr module name).getD funcName
      | _, _ => funcName

-- What to_dict returns, without the time of creation, which nothing reads back.
structure StoredJob where
  id : JobId
  name : String
  target : StoredTarget
  kwargs : Dict String String
  priority : Int
  retries : Int
  timeout : Option Time
  interval : Option Time
  delay : Option Time
  cron : Option String
  maxRuns : Option Int
  runCount : Nat
  lastRunTime : Option Time
  nextRunTime : Option Time
  cancelled : Bool

def ScheduledJob.toDict (py : Interpreter) (job : ScheduledJob) : Option StoredJob :=
  (serializeTarget py job.target).map fun target => {
    id := job.id
    name := job.name
    target := target
    kwargs := job.kwargs
    priority := job.priority
    retries := job.retries
    timeout := job.timeout
    interval := job.interval
    delay := job.delay
    cron := job.cron
    maxRuns := job.maxRuns
    runCount := job.runCount
    lastRunTime := job.lastRunTime
    nextRunTime := job.nextRunTime
    cancelled := job.cancelled }

-- The arguments with which _load_schedule calls the constructor.
def StoredJob.arguments (py : Interpreter) (data : StoredJob) : ScheduledJob where
  id := data.id
  name := data.name
  target := deserializeTarget py data.target
  kwargs := data.kwargs
  priority := data.priority
  retries := data.retries
  timeout := data.timeout
  interval := data.interval
  delay := data.delay
  cron := data.cron
  maxRuns := data.maxRuns
  runCount := data.runCount
  lastRunTime := data.lastRunTime
  nextRunTime := data.nextRunTime
  cancelled := false

-- A caller of schedule_job gives no counts and no times of runs.
def ScheduledJob.requested (arguments : ScheduledJob) : ScheduledJob :=
  { arguments with runCount := 0, lastRunTime := none, nextRunTime := none }

def ScheduledJob.active (job : ScheduledJob) : Bool := !job.cancelled && job.nextRunTime.isSome

namespace Scheduler

-- What get_job returns.
def job? (s : Scheduler) (id : JobId) : Option ScheduledJob :=
  (s.jobs.get? id).bind fun ref => s.objects[ref]?

-- The dictionary that _save_schedule builds; a job that cannot be serialized is left out.
def saved (py : Interpreter) (s : Scheduler) : Dict JobId StoredJob :=
  s.jobs.filterMap fun _ ref =>
    s.objects[ref]?.bind fun job => if job.active then job.toDict py else none

-- One turn of the loop of _load_schedule; a job whose constructor raises is passed over.
def loadJob (host : Host) (py : Interpreter) (now : Time) (s : Scheduler) (data : StoredJob) :
    Scheduler :=
  (s.scheduleJob host now (data.arguments py)).getD s

def load (host : Host) (py : Interpreter) (s : Scheduler) (now : Time)
    (saved : Dict JobId StoredJob) : Scheduler :=
  saved.values.foldl (loadJob host py now) s

-- The object as calculate_next_run leaves it after the run in flight, unless that raises.
def rescheduled? (host : Host) (s : Scheduler) (ran now : Time) : Option ScheduledJob := do
  let submission ← s.inFlight
  let job ← s.objects[submission.ref]?
  (job.counted ran).calculateNextRun host now

end Scheduler

-- How far a tick is with the save after a trigger: it gathers under the lock and writes without it.
inductive Saving
  | idle
  | due
  | gathered (schedule : Dict JobId StoredJob)

-- A process with its scheduler, and the entry scheduler:schedule of the storage behind it.
structure Service where
  interpreter : Interpreter
  scheduler : Scheduler
  running : Bool
  saving : Saving
  entry : Dict JobId StoredJob

-- The calls of the scheduler, the ticks in pieces, and the end of the process with the start of
-- the next one.
inductive Call
  | scheduleJob (now : Time) (arguments : ScheduledJob)
  | unscheduleJob (id : JobId)
  | clearJobs
  | initializeService (now : Time)
  | reload (now : Time)
  | shutdown
  | collect (now : Time)
  | submit (now : Time) (id : JobId) (contextId : Option String) (accepted : Bool)
  | reschedule (ran now : Time)
  | gather
  | write
  | restart (interpreter : Interpreter) (engine : Bool)

namespace Service

def boot (py : Interpreter) (engine : Bool) (clock : Time) (entry : Dict JobId StoredJob) : Service where
  interpreter := py
  scheduler := .blank engine clock
  running := false
  saving := .idle
  entry := entry

-- _save_schedule, as the calls that hold the lock make it.
def save (s : Service) : Service := { s with entry := s.scheduler.saved s.interpreter }

def load (host : Host) (s : Service) (now : Time) : Service :=
  { s with scheduler := s.scheduler.load host s.interpreter now s.entry }

-- A call of schedule_job whose constructor raises changes nothing.
def scheduleJob (host : Host) (s : Service) (now : Time) (arguments : ScheduledJob) : Service :=
  match s.scheduler.scheduleJob host now arguments.requested with
  | some scheduler => { s with scheduler := scheduler }.save
  | none => s

def unscheduleJob (s : Service) (id : JobId) : Service :=
  if id ∈ s.scheduler.jobs then { s with scheduler := s.scheduler.unscheduleJob id }.save else s

def clearJobs (s : Service) : Service := { s with scheduler := s.scheduler.clearJobs }.save

def initializeService (host : Host) (s : Service) (now : Time) : Service :=
  if s.running then s else { s.load host now with running := true }

-- The part of a tick that follows the submission.
def reschedule (host : Host) (s : Service) (ran now : Time) : Option Service :=
  (s.scheduler.reschedule host ran now).map fun scheduler =>
    { s with
      scheduler := scheduler
      saving := if (s.scheduler.rescheduled? host ran now).isSome then .due else .idle }

def step (host : Host) (s : Service) : Call → Option Service
  | .scheduleJob now arguments => some (s.scheduleJob host now arguments)
  | .unscheduleJob id => some (s.unscheduleJob id)
  | .clearJobs => some s.clearJobs
  | .initializeService now => some (s.initializeService host now)
  | .reload now => some (s.load host now)
  | .shutdown => some { s with running := false }
  | .collect now =>
      match s.saving with
      | .idle => (s.scheduler.collect now).map fun scheduler => { s with scheduler := scheduler }
      | _ => none
  | .submit now id contextId accepted =>
      match s.saving with
      | .idle => (s.scheduler.submit now id contextId accepted).map fun scheduler =>
          { s with scheduler := scheduler }
      | _ => none
  | .reschedule ran now => s.reschedule host ran now
  | .gather =>
      match s.saving with
      | .due => some { s with saving := .gathered (s.scheduler.saved s.interpreter) }
      | _ => none
  | .write =>
      match s.saving with
      | .gathered schedule => some { s with saving := .idle, entry := schedule }
      | _ => none
  | .restart py engine => some (boot py engine s.scheduler.clock s.entry)

end Service

end YasinCore.Scheduling
