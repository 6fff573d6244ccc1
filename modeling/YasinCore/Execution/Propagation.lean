import YasinCore.Context.Engine.Lemmas
import YasinCore.Execution.Worker.Lemmas
import YasinCore.Library.Transition

namespace YasinCore.Execution

open YasinCore.Library YasinCore.Context

variable {φ ν : Type}

-- What a context variable refers to: a Context that get_current_context has made, or a context of
-- the engine.
inductive CurrentContext
  | plain (ref : Nat)
  | runtime (ref : ContextRef)
  deriving DecidableEq

-- A job that a worker thread has in hand, with the context_id that it carries then.
structure Author where
  thread : ThreadId
  job : JobRef
  contextId : Option String
  deriving DecidableEq

-- A value with the job whose target has stored it. What other code has stored has no such author.
structure Authored (ν : Type) where
  value : ν
  author : Option Author

-- The frame of _process_job in a worker thread: the job, the token of active_context if the context
-- of the job was found, and the context variable of the pool thread if the target runs in one.
structure TargetRun where
  author : Author
  token : Option (Option CurrentContext)
  pool : Option (Option CurrentContext)

-- One process: the job engine, the context engine, the Contexts made by get_current_context and
-- the context variable of each worker thread.
structure Process (φ ν : Type) where
  exec : State
  engine : ContextEngine φ (Authored ν)
  plain : List (Dict Str (Authored ν))
  current : ThreadId → Option CurrentContext
  runs : ThreadId → Option TargetRun

-- Whether _execute_with_timeout calls the target in the worker thread itself.
def Job.RunsDirectly (job : Job) : Prop := ∀ seconds ∈ job.timeout, seconds ≤ 0

instance (job : Job) : Decidable job.RunsDirectly :=
  match h : job.timeout with
  | none => .isTrue fun _ hs => by rw [h] at hs; cases hs
  | some seconds =>
      if hs : seconds ≤ 0 then .isTrue fun _ ht => by rw [h] at ht; cases ht; exact hs
      else .isFalse fun ht => hs (ht seconds (by rw [h]; rfl))

namespace Process

def start (heap : JobRef → Job) : Process φ ν where
  exec := .start heap
  engine := .empty
  plain := []
  current _ := none
  runs _ := none

-- The context variable as the code that a worker thread has in hand sees it.
def variableOf (p : Process φ ν) (thread : ThreadId) : Option CurrentContext :=
  match p.runs thread with
  | some run => run.pool.getD (p.current thread)
  | none => p.current thread

def setVariable (p : Process φ ν) (thread : ThreadId) (context : CurrentContext) : Process φ ν :=
  match p.runs thread with
  | some run =>
      match run.pool with
      | some _ =>
          { p with runs := Function.update p.runs thread (some { run with pool := some (some context) }) }
      | none => { p with current := Function.update p.current thread (some context) }
  | none => { p with current := Function.update p.current thread (some context) }

def getCurrentContext (p : Process φ ν) (thread : ThreadId) : CurrentContext × Process φ ν :=
  match p.variableOf thread with
  | some context => (context, p)
  | none =>
      let context := .plain p.plain.length
      let q : Process φ ν := { p with plain := p.plain ++ [.empty] }
      (context, q.setVariable thread context)

-- What _process_job looks up before it calls the target.
def liveContext (p : Process φ ν) (job : Job) (now : Utc) :
    Option ContextRef × ContextEngine φ (Authored ν) :=
  match Job.given job.contextId with
  | some contextId => p.engine.getContext now (.ofString contextId)
  | none => (none, p.engine)

-- The context is activated and the target called, in this thread or in one of a new pool.
def enter (p : Process φ ν) (thread : ThreadId) (ref : JobRef) (now : Utc) : Process φ ν :=
  let job := p.exec.heap ref
  let (found, engine) := p.liveContext job now
  { p with
    engine := engine
    current :=
      match found with
      | some context => Function.update p.current thread (some (.runtime context))
      | none => p.current
    runs := Function.update p.runs thread (some {
      author := ⟨thread, ref, Job.given job.contextId⟩
      token := found.map fun _ => p.current thread
      pool := if job.RunsDirectly then none else some none }) }

-- The end of _process_job, where active_context puts back what it found.
def leave (p : Process φ ν) (thread : ThreadId) : Process φ ν :=
  match p.runs thread with
  | some run =>
      { p with
        current :=
          match run.token with
          | some old => Function.update p.current thread old
          | none => p.current
        runs := Function.update p.runs thread none }
  | none => p

-- The worker thread has put the job away.
def leaveIfIdle (p : Process φ ν) (thread : ThreadId) : Process φ ν :=
  if p.exec.hands thread = .idle then p.leave thread else p

-- What the steps of a worker thread do to its context.
def follow (p : Process φ ν) (now : Utc) : Action → Process φ ν
  | .startJob thread ref _ => p.enter thread ref now
  | .succeedJob thread _ _ _ | .handleFailure thread _ _ _ | .requeue thread _ =>
      p.leaveIfIdle thread
  | _ => p

end Process

-- What a target does with the context that get_current_context gives it.
inductive Access (ν : Type)
  | current
  | get (now : Nat → Utc) (depth : Nat) (key : Str)
  | set (now : Utc) (key : Str) (value : ν)
  | delete (now : Utc) (key : Str)
  | clear (now : Utc)

namespace Process

-- Context.get or RuntimeContext.get
def read (p : Process φ ν) (now : Nat → Utc) (depth : Nat) (key : Str) :
    CurrentContext → Except ContextError (Option (Authored ν)) × Process φ ν
  | .plain ref => (.ok ((p.plain[ref]?).bind (·.get? key)), p)
  | .runtime ref =>
      let (value, engine) := p.engine.get now depth ref key
      (value, { p with engine := engine })

-- A change of a context of either kind.
def write (p : Process φ ν) (f : Dict Str (Authored ν) → Dict Str (Authored ν))
    (g : RuntimeContext φ (Authored ν) → RuntimeContext φ (Authored ν)) :
    CurrentContext → Process φ ν
  | .plain ref => { p with plain := p.plain.modify ref f }
  | .runtime ref => { p with engine := p.engine.update ref g }

def author (p : Process φ ν) (thread : ThreadId) : Option Author :=
  (p.runs thread).map TargetRun.author

def access (p : Process φ ν) (thread : ThreadId) (act : Access ν) : Process φ ν :=
  let author := p.author thread
  let (context, p) := p.getCurrentContext thread
  match act with
  | .current => p
  | .get now depth key => (p.read now depth key context).2
  | .set now key value =>
      let value := ⟨value, author⟩
      p.write (·.set key value) (.set now key value) context
  | .delete now key => p.write (·.erase key) (.delete now key) context
  | .clear now => p.write (fun _ => .empty) (.clear now) context

end Process

-- The steps of a process: those of the job engine, with the clock that a worker thread reads when it
-- starts a job, the accesses of running targets, and the calls that other code makes on contexts.
inductive ProcessAction (φ ν : Type)
  | exec (act : Action) (now : Utc)
  | access (thread : ThreadId) (ref : JobRef) (act : Access ν)
  | context (act : Context.Action φ ν)

namespace Process

def step (timedelta : φ → Option Int) (p : Process φ ν) : ProcessAction φ ν → Option (Process φ ν)
  | .exec act now =>
      (Execution.step p.exec act).map fun exec =>
        let q : Process φ ν := { p with exec := exec }
        q.follow now act
  | .access thread ref act =>
      if p.exec.hands thread = .running ref then some (p.access thread act) else none
  | .context act =>
      if p.engine.Fresh act then
        some { p with engine := p.engine.perform timedelta (act.map fun value => ⟨value, none⟩) }
      else none

-- Until the target of the job has ended, get_current_context gives it this context.
def ObservesContext (timedelta : φ → Option Int) (p : Process φ ν) (thread : ThreadId)
    (ref : JobRef) (context : ContextRef) : Prop :=
  ∀ acts q, Run (step timedelta) p acts q →
    Always (step timedelta) (fun q => q.exec.hands thread = .running ref) p acts →
      (q.getCurrentContext thread).1 = .runtime context

section Observation

variable {timedelta : φ → Option Int} {p q : Process φ ν} {thread other : ThreadId} {ref : JobRef}
  {context : ContextRef}

-- Where the context of the job is while its target runs: in the variable of the worker thread, or,
-- if the target runs in a pool thread, not in the variable of that thread.
def Placed (context : ContextRef) (direct : Prop) (thread : ThreadId) (p : Process φ ν) : Prop :=
  ∃ run, p.runs thread = some run ∧
    (direct ∧ run.pool = none ∧ p.current thread = some (.runtime context) ∨
      ¬direct ∧ ∃ variable', run.pool = some variable' ∧ ∀ r, variable' ≠ some (.runtime r))

-- The part of a process that belongs to one thread.
def SameThread (thread : ThreadId) (p q : Process φ ν) : Prop :=
  q.runs thread = p.runs thread ∧ q.current thread = p.current thread

theorem Placed.congr {direct : Prop} (h : Placed context direct thread p)
    (hs : SameThread thread p q) : Placed context direct thread q := by
  obtain ⟨run, hr, hplace⟩ := h
  refine ⟨run, hs.1.trans hr, ?_⟩
  rwa [hs.2]

theorem sameThread_setVariable (h : other ≠ thread) (context : CurrentContext) :
    SameThread thread p (p.setVariable other context) := by
  unfold setVariable SameThread
  split
  · split
    · exact ⟨Function.update_of_ne h.symm _ _, rfl⟩
    · exact ⟨rfl, Function.update_of_ne h.symm _ _⟩
  · exact ⟨rfl, Function.update_of_ne h.symm _ _⟩

theorem sameThread_enter (h : other ≠ thread) (ref : JobRef) (now : Utc) :
    SameThread thread p (p.enter other ref now) := by
  refine ⟨Function.update_of_ne h.symm _ _, ?_⟩
  unfold enter
  dsimp only
  cases (p.liveContext (p.exec.heap ref) now).1 with
  | some context => exact Function.update_of_ne h.symm _ _
  | none => rfl

theorem sameThread_leave (h : other ≠ thread) : SameThread thread p (p.leave other) := by
  unfold leave
  cases p.runs other with
  | none => exact ⟨rfl, rfl⟩
  | some run =>
      refine ⟨Function.update_of_ne h.symm _ _, ?_⟩
      dsimp only
      cases run.token with
      | some old => exact Function.update_of_ne h.symm _ _
      | none => rfl

theorem sameThread_leaveIfIdle (h : p.exec.hands thread ≠ .idle) :
    SameThread thread p (p.leaveIfIdle other) := by
  unfold leaveIfIdle
  split
  · rename_i hidle
    refine sameThread_leave ?_
    rintro rfl
    exact h hidle
  · exact ⟨rfl, rfl⟩

theorem sameThread_getCurrentContext (h : other ≠ thread) :
    SameThread thread p (p.getCurrentContext other).2 := by
  unfold getCurrentContext
  split
  · exact ⟨rfl, rfl⟩
  · exact sameThread_setVariable h _

theorem sameThread_write (f : Dict Str (Authored ν) → Dict Str (Authored ν))
    (g : RuntimeContext φ (Authored ν) → RuntimeContext φ (Authored ν)) (context : CurrentContext) :
    SameThread thread p (p.write f g context) := by
  cases context with
  | plain _ => exact ⟨rfl, rfl⟩
  | runtime _ => exact ⟨rfl, rfl⟩

theorem sameThread_read (now : Nat → Utc) (depth : Nat) (key : Str) (context : CurrentContext) :
    SameThread thread p (p.read now depth key context).2 := by
  cases context with
  | plain _ => exact ⟨rfl, rfl⟩
  | runtime _ => exact ⟨rfl, rfl⟩

theorem SameThread.trans {u : Process φ ν} (h : SameThread thread p q) (h' : SameThread thread q u) :
    SameThread thread p u :=
  ⟨h'.1.trans h.1, h'.2.trans h.2⟩

-- Of an access the thread sees no more than that get_current_context was called.
theorem sameThread_access (act : Access ν) :
    SameThread thread (p.getCurrentContext other).2 (p.access other act) := by
  unfold access
  cases act with
  | current => exact ⟨rfl, rfl⟩
  | get now depth key => exact sameThread_read now depth key _
  | set now key value => exact sameThread_write _ _ _
  | delete now key => exact sameThread_write _ _ _
  | clear now => exact sameThread_write _ _ _

theorem leaveIfIdle_exec (thread : ThreadId) : (p.leaveIfIdle thread).exec = p.exec := by
  unfold leaveIfIdle leave
  split
  · split <;> rfl
  · rfl

theorem follow_exec (now : Utc) (act : Action) : (p.follow now act).exec = p.exec := by
  unfold follow
  split
  · rfl
  · exact leaveIfIdle_exec _
  · exact leaveIfIdle_exec _
  · exact leaveIfIdle_exec _
  · rfl

-- A thread that runs a target before and after a step of the engine has not started or put away a
-- job in it.
theorem sameThread_follow {exec : State} {act : Action} {now : Utc}
    (h : Execution.step p.exec act = some exec) (hp : p.exec.hands thread = .running ref)
    (hq : exec.hands thread = .running ref) :
    SameThread thread p (Process.follow { p with exec := exec } now act) := by
  have hbusy : exec.hands thread ≠ .idle := by
    rw [hq]
    nofun
  unfold follow
  split
  · rename_i other started _
    have hstarting : p.exec.hands other = .starting started := (State.startJob_eq h).1
    refine @sameThread_enter _ _ { p with exec := exec } thread other ?_ started now
    rintro rfl
    rw [hp] at hstarting
    cases hstarting
  · exact @sameThread_leaveIfIdle _ _ { p with exec := exec } thread _ hbusy
  · exact @sameThread_leaveIfIdle _ _ { p with exec := exec } thread _ hbusy
  · exact @sameThread_leaveIfIdle _ _ { p with exec := exec } thread _ hbusy
  · exact ⟨rfl, rfl⟩

-- While its target runs, a thread changes its own part only by calling get_current_context.
theorem step_running {act : ProcessAction φ ν} (h : step timedelta p act = some q)
    (hp : p.exec.hands thread = .running ref) (hq : q.exec.hands thread = .running ref) :
    SameThread thread p q ∨ SameThread thread (p.getCurrentContext thread).2 q := by
  cases act with
  | exec act now =>
      left
      obtain ⟨exec, he, rfl⟩ := Option.map_eq_some_iff.mp h
      exact sameThread_follow he hp (by rwa [follow_exec] at hq)
  | access other ref' act =>
      simp only [step, Option.ite_none_right_eq_some, Option.some.injEq] at h
      obtain ⟨-, rfl⟩ := h
      by_cases ho : other = thread
      · subst ho
        exact .inr (sameThread_access act)
      · exact .inl ((sameThread_getCurrentContext ho).trans (sameThread_access act))
  | context act =>
      simp only [step, Option.ite_none_right_eq_some, Option.some.injEq] at h
      obtain ⟨-, rfl⟩ := h
      exact .inl ⟨rfl, rfl⟩

theorem Placed.getCurrentContext {direct : Prop} (h : Placed context direct thread p) :
    Placed context direct thread (p.getCurrentContext thread).2 := by
  obtain ⟨run, hr, ⟨hd, hpool, hcurrent⟩ | ⟨hd, variable', hpool, hne⟩⟩ := h
  · have hvariable : p.variableOf thread = some (.runtime context) := by
      rw [variableOf, hr]
      simp only [hpool, Option.getD_none, hcurrent]
    rw [Process.getCurrentContext, hvariable]
    exact ⟨run, hr, .inl ⟨hd, hpool, hcurrent⟩⟩
  · have hvariable : p.variableOf thread = variable' := by
      rw [variableOf, hr]
      simp only [hpool, Option.getD_some]
    rw [Process.getCurrentContext, hvariable]
    cases variable' with
    | some seen => exact ⟨run, hr, .inr ⟨hd, some seen, hpool, hne⟩⟩
    | none =>
        refine ⟨{ run with pool := some (some (.plain p.plain.length)) }, ?_, .inr ⟨hd, _, rfl, nofun⟩⟩
        simp only [setVariable, hr, hpool, Function.update_self]

theorem Placed.step {direct : Prop} {act : ProcessAction φ ν} (h : Placed context direct thread p)
    (hs : step timedelta p act = some q) (hp : p.exec.hands thread = .running ref)
    (hq : q.exec.hands thread = .running ref) : Placed context direct thread q := by
  rcases step_running hs hp hq with hsame | hsame
  · exact h.congr hsame
  · exact h.getCurrentContext.congr hsame

theorem Placed.run {direct : Prop} {acts : List (ProcessAction φ ν)}
    (h : Placed context direct thread p) (hr : Run (Process.step timedelta) p acts q)
    (ha : Always (Process.step timedelta) (fun q => q.exec.hands thread = .running ref) p acts) :
    Placed context direct thread q := by
  induction hr with
  | nil _ => exact h
  | cons hs hr ih =>
      obtain ⟨hp, hrest⟩ := ha
      have hq := always_iff.mp (hrest _ hs) [] _ _ rfl (.nil _)
      exact ih (h.step hs hp hq) (hrest _ hs)

theorem Placed.observes_iff {direct : Prop} (h : Placed context direct thread p) :
    (p.getCurrentContext thread).1 = .runtime context ↔ direct := by
  obtain ⟨run, hr, ⟨hd, hpool, hcurrent⟩ | ⟨hd, variable', hpool, hne⟩⟩ := h
  · refine iff_of_true ?_ hd
    rw [Process.getCurrentContext, variableOf, hr]
    simp only [hpool, Option.getD_none, hcurrent]
  · refine iff_of_false ?_ hd
    rw [Process.getCurrentContext, variableOf, hr]
    simp only [hpool, Option.getD_some]
    cases variable' with
    | none => nofun
    | some seen =>
        rintro rfl
        exact hne context rfl

theorem placed_enter {now : Utc} (hlive : (p.liveContext (p.exec.heap ref) now).1 = some context) :
    Placed context (p.exec.heap ref).RunsDirectly thread (p.enter thread ref now) := by
  have hcurrent : (p.enter thread ref now).current thread = some (.runtime context) := by
    unfold enter
    dsimp only
    rw [hlive]
    exact Function.update_self ..
  refine ⟨_, Function.update_self .., ?_⟩
  by_cases hd : (p.exec.heap ref).RunsDirectly
  · exact .inl ⟨hd, if_pos hd, hcurrent⟩
  · exact .inr ⟨hd, none, if_neg hd, nofun⟩

end Observation

end Process

-- A job whose context is live when a worker thread starts it runs in that context, from the first to
-- the last moment of its target, exactly when it is run without a timeout.
theorem target_observes_context_iff (timedelta : φ → Option Int) (p q : Process φ ν)
    (thread : ThreadId) (ref : JobRef) (now : Time) (reading : Utc)
    (h : p.step timedelta (.exec (.startJob thread ref now) reading) = some q)
    (context : ContextRef)
    (hlive : (p.liveContext (p.exec.heap ref) reading).1 = some context) :
    q.ObservesContext timedelta thread ref context ↔ (p.exec.heap ref).RunsDirectly := by
  obtain ⟨exec, he, rfl⟩ := Option.map_eq_some_iff.mp h
  obtain ⟨-, rfl⟩ := State.startJob_eq he
  generalize hs : (((p.exec.updateJob ref fun job =>
    { job with status := .running, startedAt := some now }).publishJob "job_started"
      ref).setHand thread (.running ref) : State) = exec
  have hhands : exec.hands thread = .running ref := by rw [← hs, State.setHand_hands, if_pos rfl]
  have hheap : exec.heap ref = { p.exec.heap ref with status := .running, startedAt := some now } := by
    rw [← hs, State.setHand_heap, State.publishJob_heap, State.updateJob_heap_self]
  have hplaced : Process.Placed context (p.exec.heap ref).RunsDirectly thread
      (Process.enter { p with exec := exec } thread ref reading) := by
    have hdirect : (exec.heap ref).RunsDirectly = (p.exec.heap ref).RunsDirectly := by
      rw [hheap]
      rfl
    rw [← hdirect]
    refine Process.placed_enter ?_
    rw [hheap]
    exact hlive
  constructor
  · intro hobserves
    exact hplaced.observes_iff.mp (hobserves [] _ (.nil _) hhands)
  · intro hdirect acts r hr ha
    exact (hplaced.run hr ha).observes_iff.mpr hdirect

section Samples

def midnight : Utc := ⟨⟨0, some 0, by decide, DateTime.utc_isOffset⟩, rfl⟩

def requestJob (timeout : Option Time) : Job :=
  Job.init (.callable "task") .empty "job-1" none 20 0 timeout (some "request") 0

-- The context is made, and the job is submitted and taken up by a worker thread.
def requestRun : List (ProcessAction Unit Unit) :=
  [.context (.createContext midnight ⟨.ofString "request", by decide⟩ none none none none none),
    .exec (.submitJob 0 none) midnight, .exec (.dequeue 0 0) midnight,
    .exec (.checkCancelled 0 0 1) midnight]

def requestTaken (timeout : Option Time) : Process Unit Unit :=
  (requestRun.foldlM (Process.step fun _ => none) (.start fun _ => requestJob timeout)).getD
    (.start fun _ => requestJob timeout)

theorem requestTaken_run (timeout : Option Time) :
    Run (Process.step fun _ => none) (.start fun _ => requestJob timeout) requestRun
      (requestTaken timeout) := Run.of_foldlM rfl

theorem direct_target_observes_context : ∃ q context,
    (requestTaken none).step (fun _ => none) (.exec (.startJob 0 0 1) midnight) = some q ∧
      ((requestTaken none).liveContext ((requestTaken none).exec.heap 0) midnight).1 = some context ∧
      q.ObservesContext (fun _ => none) 0 0 context := by
  have hdirect : ((requestTaken none).exec.heap 0).RunsDirectly := by
    intro seconds hs
    have hnone : seconds ∈ (none : Option Time) := hs
    cases hnone
  refine ⟨_, 0, rfl, rfl, ?_⟩
  exact (target_observes_context_iff (fun _ => none) (requestTaken none) _ 0 0 1 midnight rfl 0
    rfl).mpr hdirect

-- With a timeout of five seconds the target finds an empty context instead of that of its job.
theorem hurried_target_misses_context :
    Run (Process.step fun _ => none) (.start fun _ => requestJob (some 5)) requestRun
        (requestTaken (some 5)) ∧ ∃ q context,
      (requestTaken (some 5)).step (fun _ => none) (.exec (.startJob 0 0 1) midnight) = some q ∧
        ((requestTaken (some 5)).liveContext ((requestTaken (some 5)).exec.heap 0) midnight).1 =
          some context ∧
        ¬q.ObservesContext (fun _ => none) 0 0 context := by
  refine ⟨requestTaken_run (some 5), _, 0, rfl, rfl, fun h => ?_⟩
  have hcontext := h [] _ (.nil _) rfl
  cases hcontext

end Samples

end YasinCore.Execution
