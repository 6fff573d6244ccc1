import YasinCore.Execution.Models
import YasinCore.Scheduling.Cron

namespace YasinCore.Scheduling

open YasinCore.Library YasinCore.Execution

-- The arithmetic of the clock: sums of readings and durations are rounded, a reading has a local
-- time, and a local time stands for one reading.
structure Host where
  round : Time → Time
  localMinute : Time → Nat
  timestamp : Nat → Time

-- Exact sums, and the local time of Greenwich.
def utc : Host where
  round := id
  localMinute now := (Rat.floor (now / 60)).toNat + 719162 * 1440
  timestamp time := 60 * ((time : Time) - 719162 * 1440)

structure ScheduledJob where
  id : JobId
  name : String
  target : Target
  kwargs : Dict String String
  priority : Int
  retries : Int
  timeout : Option Time
  interval : Option Time
  delay : Option Time
  cron : Option String
  maxRuns : Option Int
  runCount : Nat
  lastRunTime : Option Time
  nextRunTime : Option Time
  cancelled : Bool

namespace ScheduledJob

def cronTime (host : Host) (expr : String) (now : Time) : Option (Option Time) :=
  (getNextCronTime expr (host.localMinute now)).map fun time => some (host.timestamp time)

-- The value that calculate_next_run assigns; the outer none is its ValueError or OverflowError.
def dueTime (host : Host) (job : ScheduledJob) (now : Time) : Option (Option Time) :=
  if job.cancelled then some none
  else if job.maxRuns.any fun maxRuns => maxRuns ≤ (job.runCount : Int) then some none
  else if job.runCount = 0 then
    match job.delay, job.cron, job.interval with
    | some delay, _, _ => some (some (host.round (now + delay)))
    | none, some expr, _ => cronTime host expr now
    | none, none, some interval => some (some (host.round (now + interval)))
    | none, none, none => some (some now)
  else
    match job.cron, job.interval with
    | some expr, _ => cronTime host expr now
    | none, some interval => some (some (host.round (now + interval)))
    | none, none => some none

def calculateNextRun (host : Host) (job : ScheduledJob) (now : Time) : Option ScheduledJob :=
  (job.dueTime host now).map fun next => { job with nextRunTime := next }

-- The constructor, from the arguments as a record: a due time that is given is kept, which is how
-- saved jobs come back, and otherwise it is calculated.
def init (host : Host) (arguments : ScheduledJob) (now : Time) : Option ScheduledJob :=
  let job := { arguments with
    name := if arguments.name = "" then "sched-job-" ++ (arguments.id.take 8).toString else arguments.name
    cancelled := false }
  match arguments.nextRunTime with
  | some _ => some job
  | none => job.calculateNextRun host now

def cancel (job : ScheduledJob) : ScheduledJob := { job with cancelled := true, nextRunTime := none }

-- What _trigger_job notes after it has submitted a job.
def counted (job : ScheduledJob) (ran : Time) : ScheduledJob :=
  { job with runCount := job.runCount + 1, lastRunTime := some ran }

end ScheduledJob

-- A job that has gone to the execution engine: the object it came from, the due time it was found
-- with, and the time of the submission.
structure Submission where
  ref : Nat
  due : Time
  time : Time
  job : Job

-- The objects are the jobs ever made, and the dictionary refers to them. Pending are the jobs that a
-- tick has found due and not triggered yet; in flight is the one that was submitted and whose times
-- are still to be updated.
structure Scheduler where
  objects : List ScheduledJob
  jobs : Dict JobId Nat
  engine : Bool
  totalTriggers : Nat
  clock : Time
  pending : List (Nat × Time)
  inFlight : Option Submission
  triggered : List Submission

-- The ticks, in the pieces between which other threads can come, and the calls of these.
inductive Action
  | schedule (now : Time) (arguments : ScheduledJob)
  | unschedule (id : JobId)
  | cancel (ref : Nat)
  | clearJobs
  | collect (now : Time)
  | submit (now : Time) (id : JobId) (contextId : Option String) (accepted : Bool)
  | reschedule (ran now : Time)

namespace Scheduler

def blank (engine : Bool) (clock : Time) : Scheduler where
  objects := []
  jobs := .empty
  engine := engine
  totalTriggers := 0
  clock := clock
  pending := []
  inFlight := none
  triggered := []

def modifyObject (s : Scheduler) (ref : Nat) (f : ScheduledJob → ScheduledJob) : Scheduler :=
  { s with objects := s.objects.modify ref f }

-- The job is due: what _tick looks for.
def due? (s : Scheduler) (now : Time) (ref : Nat) : Option (Nat × Time) := do
  let job ← s.objects[ref]?
  let due ← job.nextRunTime
  guard (due ≤ now ∧ !job.cancelled)
  return (ref, due)

def finished (s : Scheduler) (ref : Nat) : Bool :=
  match s.objects[ref]? with
  | some job => job.cancelled || job.nextRunTime.isNone
  | none => false

-- schedule_job; a saved job is put back by _load_schedule in the same way.
def scheduleJob (host : Host) (s : Scheduler) (now : Time) (arguments : ScheduledJob) :
    Option Scheduler :=
  (arguments.init host now).map fun job =>
    { s with
      objects := s.objects ++ [job]
      jobs := s.jobs.set job.id s.objects.length
      clock := now }

def unscheduleJob (s : Scheduler) (id : JobId) : Scheduler :=
  match s.jobs.get? id with
  | none => s
  | some ref => { s.modifyObject ref .cancel with jobs := s.jobs.erase id }

def clearJobs (s : Scheduler) : Scheduler :=
  { s with jobs := s.jobs.filter fun _ ref => !s.finished ref }

def collect (s : Scheduler) (now : Time) : Option Scheduler :=
  if s.pending = [] ∧ s.inFlight.isNone then
    some { s with clock := now, pending := s.jobs.values.filterMap (s.due? now) }
  else none

-- The first half of _trigger_job. Without an engine it only logs, and an exception of submit_job
-- ends the tick.
def submit (s : Scheduler) (now : Time) (id : JobId) (contextId : Option String) (accepted : Bool) :
    Option Scheduler :=
  match s.inFlight, s.pending with
  | none, (ref, due) :: pending =>
      s.objects[ref]?.map fun job =>
        if !s.engine then { s with clock := now, pending := pending }
        else if !accepted then { s with clock := now, pending := [] }
        else
          let execJob := Job.init job.target job.kwargs id (some job.name) job.priority job.retries
            job.timeout contextId now
          { s with
            clock := now
            pending := pending
            inFlight := some { ref := ref, due := due, time := now, job := execJob } }
  | _, _ => none

-- The second half. An exception of calculate_next_run comes after the run was counted; it ends the
-- tick and leaves the due time as it was.
def reschedule (host : Host) (s : Scheduler) (ran now : Time) : Option Scheduler := do
  let submission ← s.inFlight
  let job ← s.objects[submission.ref]?
  let counted := job.counted ran
  let t := { s with
    clock := now
    inFlight := none
    triggered := s.triggered ++ [submission] }
  match counted.calculateNextRun host now with
  | some next =>
      return { t with
        objects := s.objects.set submission.ref next
        totalTriggers := s.totalTriggers + 1 }
  | none =>
      return { t with
        objects := s.objects.set submission.ref counted
        pending := [] }

end Scheduler

-- One action; the clock does not go back.
def step (host : Host) (s : Scheduler) : Action → Option Scheduler
  | .schedule now arguments => if s.clock ≤ now then s.scheduleJob host now arguments else none
  | .unschedule id => some (s.unscheduleJob id)
  | .cancel ref => some (s.modifyObject ref .cancel)
  | .clearJobs => some s.clearJobs
  | .collect now => if s.clock ≤ now then s.collect now else none
  | .submit now id contextId accepted =>
      if s.clock ≤ now then s.submit now id contextId accepted else none
  | .reschedule ran now => if s.clock ≤ ran ∧ ran ≤ now then s.reschedule host ran now else none

end YasinCore.Scheduling
