import YasinCore.Library.Json
import YasinCore.Scheduling.Persistence

namespace YasinCore.Scheduling

open YasinCore.Library YasinCore.Execution

-- A scheduled job with everything that is stored of it.
structure JobRecord where
  id : JobId
  name : String
  target : Target
  args : List (Json Time)
  kwargs : Dict Str (Json Time)
  priority : Int
  retries : Int
  timeout : Option Time
  interval : Option Time
  delay : Option Time
  cron : Option String
  maxRuns : Option Int
  runCount : Nat
  createdAt : Time
  lastRunTime : Option Time
  nextRunTime : Option Time
  cancelled : Bool

-- The parameters of the constructor; the caller of schedule_job leaves the last four out.
structure JobArguments where
  target : Target
  args : Option (List (Json Time))
  kwargs : Option (Dict Str (Json Time))
  id : Option String
  name : Option String
  priority : Int
  retries : Int
  timeout : Option Time
  interval : Option Time
  delay : Option Time
  cron : Option String
  maxRuns : Option Int
  nextRunTime : Option Time
  runCount : Nat
  lastRunTime : Option Time
  createdAt : Option Time

def JobArguments.requested (arguments : JobArguments) : JobArguments :=
  { arguments with nextRunTime := none, runCount := 0, lastRunTime := none, createdAt := none }

-- What the constructor finds: a generated identifier, and two readings of the clock, which does not
-- show the first instant of its era.
structure Arrival where
  uuid : { text : String // text ≠ "" }
  created : { time : Time // time ≠ 0 }
  now : Time

namespace JobRecord

-- What calculate_next_run does not read is left out.
def timing (job : JobRecord) : ScheduledJob where
  id := job.id
  name := job.name
  target := job.target
  kwargs := .empty
  priority := job.priority
  retries := job.retries
  timeout := job.timeout
  interval := job.interval
  delay := job.delay
  cron := job.cron
  maxRuns := job.maxRuns
  runCount := job.runCount
  lastRunTime := job.lastRunTime
  nextRunTime := job.nextRunTime
  cancelled := job.cancelled

def active (job : JobRecord) : Bool := job.timing.active

def calculateNextRun (host : Host) (job : JobRecord) (now : Time) : Option JobRecord :=
  (job.timing.dueTime host now).map fun next => { job with nextRunTime := next }

def counted (job : JobRecord) (ran : Time) : JobRecord :=
  { job with runCount := job.runCount + 1, lastRunTime := some ran }

def init (host : Host) (found : Arrival) (arguments : JobArguments) : Option JobRecord :=
  let id := (Job.given arguments.id).getD found.uuid.val
  let job : JobRecord := {
    id := id
    name := (Job.given arguments.name).getD ("sched-job-" ++ (id.take 8).toString)
    target := arguments.target
    args := arguments.args.getD []
    kwargs := arguments.kwargs.getD .empty
    priority := arguments.priority
    retries := arguments.retries
    timeout := arguments.timeout
    interval := arguments.interval
    delay := arguments.delay
    cron := arguments.cron
    maxRuns := arguments.maxRuns
    runCount := arguments.runCount
    createdAt := (arguments.createdAt.filter (· ≠ 0)).getD found.created.val
    lastRunTime := arguments.lastRunTime
    nextRunTime := arguments.nextRunTime
    cancelled := false }
  match arguments.nextRunTime with
  | some _ => some job
  | none => job.calculateNextRun host found.now

end JobRecord

section Stored

def textJson : Option String → Json Time
  | none => .null
  | some text => .str (.ofString text)

def timeJson : Option Time → Json Time
  | none => .null
  | some time => .float time

def intJson : Option Int → Json Time
  | none => .null
  | some value => .int value

def StoredTarget.json : StoredTarget → Json Time
  | .str val => .dict [(.ofString "type", textJson "str"), (.ofString "val", textJson val)]
  | .callable module name => .dict [(.ofString "type", textJson "callable"),
      (.ofString "module", textJson module), (.ofString "name", textJson name)]

def JobRecord.entries (job : JobRecord) (target : StoredTarget) : List (Str × Json Time) :=
  [(.ofString "id", textJson job.id), (.ofString "name", textJson job.name),
    (.ofString "target", target.json), (.ofString "args", .list job.args),
    (.ofString "kwargs", .dict job.kwargs.entries), (.ofString "priority", .int job.priority),
    (.ofString "retries", .int job.retries), (.ofString "timeout", timeJson job.timeout),
    (.ofString "interval", timeJson job.interval), (.ofString "delay", timeJson job.delay),
    (.ofString "cron", textJson job.cron), (.ofString "max_runs", intJson job.maxRuns),
    (.ofString "run_count", .int job.runCount), (.ofString "created_at", timeJson job.createdAt),
    (.ofString "last_run_time", timeJson job.lastRunTime),
    (.ofString "next_run_time", timeJson job.nextRunTime),
    (.ofString "cancelled", .bool job.cancelled)]

def JobRecord.toDict (py : Interpreter) (job : JobRecord) : Option (Json Time) :=
  (serializeTarget py job.target).map fun target => .dict (job.entries target)

-- The readers of the fields. What no stored job holds is not read.
def text? : Json Time → Option (Option String)
  | .null => some none
  | .str text => text.toString?.map some
  | _ => none

def time? : Json Time → Option (Option Time)
  | .null => some none
  | .int value => some (some value)
  | .float time => some (some time)
  | _ => none

def int? : Json Time → Option (Option Int)
  | .null => some none
  | .int value => some (some value)
  | _ => none

def nat? : Json Time → Option Nat
  | .int (.ofNat value) => some value
  | _ => none

def items? : Json Time → Option (List (Json Time))
  | .list items => some items
  | _ => none

def entries? : Json Time → Option (Dict Str (Json Time))
  | .dict entries => some (.ofEntries entries)
  | _ => none

def StoredTarget.ofFields (val module name : Option String) : Option String → Option StoredTarget
  | some "str" => val.map .str
  | some "callable" => some (.callable module name)
  | _ => none

def target? : Json Time → Option StoredTarget
  | .dict entries => do
      let field (name : String) : Json Time := (Entries.lookup (.ofString name) entries).getD .null
      let kind ← text? (field "type")
      let val ← text? (field "val")
      let module ← text? (field "module")
      let name ← text? (field "name")
      StoredTarget.ofFields val module name kind
  | _ => none

-- The parameters that one turn of the loop of _load_schedule gives to the constructor.
def JobArguments.ofDict (py : Interpreter) (data : List (Str × Json Time)) : Option JobArguments := do
  let field (name : String) (default : Json Time) : Json Time :=
    (Entries.lookup (.ofString name) data).getD default
  let target ← target? (← Entries.lookup (.ofString "target") data)
  return {
    target := deserializeTarget py target
    args := ← items? (field "args" (.list []))
    kwargs := ← entries? (field "kwargs" (.dict []))
    id := ← text? (field "id" .null)
    name := ← text? (field "name" .null)
    priority := ← (← int? (field "priority" (.int 20)))
    retries := ← (← int? (field "retries" (.int 0)))
    timeout := ← time? (field "timeout" .null)
    interval := ← time? (field "interval" .null)
    delay := ← time? (field "delay" .null)
    cron := ← text? (field "cron" .null)
    maxRuns := ← int? (field "max_runs" .null)
    nextRunTime := ← time? (field "next_run_time" .null)
    runCount := ← nat? (field "run_count" (.int 0))
    lastRunTime := ← time? (field "last_run_time" .null)
    createdAt := ← time? (field "created_at" .null) }

-- The job that a stored value is read back as; nothing stands for an exception.
def JobRecord.ofDict (host : Host) (py : Interpreter) (found : Arrival) : Json Time → Option JobRecord
  | .dict data => (JobArguments.ofDict py data).bind (init host found)
  | _ => none

end Stored

-- What the constructor sees to, and the target as a name.
structure JobRecord.Sound (job : JobRecord) : Prop where
  id : job.id ≠ ""
  name : job.name ≠ ""
  createdAt : job.createdAt ≠ 0
  target : ∃ name, job.target = .str name

variable {host : Host} {py : Interpreter} {found : Arrival} {job : JobRecord}

section RoundTrip

theorem text?_textJson (text : Option String) : text? (textJson text) = some text := by
  cases text with
  | none => rfl
  | some text => rw [textJson, text?, Str.toString?_ofString, Option.map_some]

theorem time?_timeJson (time : Option Time) : time? (timeJson time) = some time := by
  cases time with
  | none => rfl
  | some time => rfl

theorem int?_intJson (value : Option Int) : int? (intJson value) = some value := by
  cases value with
  | none => rfl
  | some value => rfl

theorem target?_json (name : String) :
    target? (StoredTarget.str name).json = some (StoredTarget.str name) := by
  have hread : target? (StoredTarget.str name).json = (do
      let kind ← text? (textJson "str")
      let val ← text? (textJson name)
      StoredTarget.ofFields val none none kind) := rfl
  rw [hread, text?_textJson, text?_textJson]
  rfl

-- The arguments with which _load_schedule makes a job again.
def JobRecord.arguments (job : JobRecord) : JobArguments where
  target := job.target
  args := some job.args
  kwargs := some job.kwargs
  id := some job.id
  name := some job.name
  priority := job.priority
  retries := job.retries
  timeout := job.timeout
  interval := job.interval
  delay := job.delay
  cron := job.cron
  maxRuns := job.maxRuns
  nextRunTime := job.nextRunTime
  runCount := job.runCount
  lastRunTime := job.lastRunTime
  createdAt := some job.createdAt

theorem given_of_ne {text : String} (h : text ≠ "") : Job.given (some text) = some text := by
  simp [Job.given, h]

-- The constructor fills in nothing, and the due time is kept.
theorem JobRecord.Sound.init_arguments (h : job.Sound) (hactive : job.active) (host : Host)
    (found : Arrival) : JobRecord.init host found job.arguments = some job := by
  obtain ⟨hcancelled, hnext⟩ := Bool.and_eq_true_iff.mp hactive
  have hkept : job.timing.cancelled = false := by simpa using hcancelled
  obtain ⟨due, hdue⟩ := Option.isSome_iff_exists.mp hnext
  have hgiven : job.arguments.nextRunTime = some due := hdue
  have hcreated : (some job.createdAt).filter (· ≠ (0 : Time)) = some job.createdAt := by
    simp [h.createdAt]
  unfold JobRecord.init
  rw [hgiven]
  simp only [JobRecord.arguments, given_of_ne h.id, given_of_ne h.name, hcreated, Option.getD_some]
  rw [← hkept, ← hdue]
  rfl

theorem ofDict_entries (py : Interpreter) {name : String} (h : job.target = .str name) :
    JobArguments.ofDict py (job.entries (.str name)) = some job.arguments := by
  have hread : JobArguments.ofDict py (job.entries (.str name)) = (do
      let target ← target? (StoredTarget.str name).json
      let id ← text? (textJson job.id)
      let label ← text? (textJson job.name)
      let timeout ← time? (timeJson job.timeout)
      let interval ← time? (timeJson job.interval)
      let delay ← time? (timeJson job.delay)
      let cron ← text? (textJson job.cron)
      let maxRuns ← int? (intJson job.maxRuns)
      let nextRunTime ← time? (timeJson job.nextRunTime)
      let lastRunTime ← time? (timeJson job.lastRunTime)
      let createdAt ← time? (timeJson job.createdAt)
      return { job.arguments with
        target := deserializeTarget py target
        kwargs := some (.ofEntries job.kwargs.entries)
        id := id
        name := label
        timeout := timeout
        interval := interval
        delay := delay
        cron := cron
        maxRuns := maxRuns
        nextRunTime := nextRunTime
        lastRunTime := lastRunTime
        createdAt := createdAt }) := rfl
  rw [hread, target?_json]
  simp only [text?_textJson, time?_timeJson, int?_intJson, Dict.ofEntries_entries,
    Option.bind_eq_bind, Option.bind_some, deserializeTarget, ← h]
  rfl

-- A live job is read back as it was written, whatever the generated identifier and the clock.
theorem JobRecord.Sound.ofDict_toDict (h : job.Sound) (hactive : job.active) (py : Interpreter)
    (host : Host) : ∃ data, job.toDict py = some data ∧
      ∀ found, JobRecord.ofDict host py found data = some job := by
  obtain ⟨name, hname⟩ := h.target
  refine ⟨.dict (job.entries (.str name)), ?_, fun found => ?_⟩
  · rw [JobRecord.toDict, hname]
    rfl
  · rw [JobRecord.ofDict, ofDict_entries py hname]
    exact h.init_arguments hactive host found

end RoundTrip

section Sound

theorem calculateNextRun_sound (h : job.Sound) {now : Time} {next : JobRecord}
    (hnext : job.calculateNextRun host now = some next) : next.id = job.id ∧ next.Sound := by
  obtain ⟨due, -, rfl⟩ := Option.map_eq_some_iff.mp hnext
  exact ⟨rfl, h.id, h.name, h.createdAt, h.target⟩

theorem counted_sound (h : job.Sound) (ran : Time) : (job.counted ran).Sound :=
  ⟨h.id, h.name, h.createdAt, h.target⟩

theorem given_ne {text : Option String} {given : String} (h : Job.given text = some given) :
    given ≠ "" := by
  have hkept := (Option.filter_eq_some_iff.mp h).2
  simpa using hkept

-- Whatever is missing, the constructor finds an identifier, a name and a time.
theorem init_sound {arguments : JobArguments} {name : String} (htarget : arguments.target = .str name)
    (h : JobRecord.init host found arguments = some job) : job.Sound := by
  have hid : (Job.given arguments.id).getD found.uuid.val ≠ "" := by
    cases hgiven : Job.given arguments.id with
    | none => exact found.uuid.property
    | some id => exact given_ne hgiven
  have hname (label : String) : (Job.given arguments.name).getD ("sched-job-" ++ label) ≠ "" := by
    cases hgiven : Job.given arguments.name with
    | none =>
        intro hempty
        have hlength := congrArg String.length hempty
        simp [String.length_append] at hlength
    | some given => exact given_ne hgiven
  have hcreated : (arguments.createdAt.filter (· ≠ 0)).getD found.created.val ≠ 0 := by
    cases hgiven : arguments.createdAt.filter (· ≠ 0) with
    | none => exact found.created.property
    | some time => simpa using (Option.filter_eq_some_iff.mp hgiven).2
  unfold JobRecord.init at h
  cases hnext : arguments.nextRunTime with
  | some due =>
      rw [hnext] at h
      obtain rfl := Option.some.inj h
      exact ⟨hid, hname _, hcreated, name, htarget⟩
  | none =>
      rw [hnext] at h
      obtain ⟨due, -, rfl⟩ := Option.map_eq_some_iff.mp h
      exact ⟨hid, hname _, hcreated, name, htarget⟩

end Sound

end YasinCore.Scheduling
