import YasinCore.Runtime.Lifecycle

namespace YasinCore.Runtime

open YasinCore.Library

inductive RuntimeState
  | uninitialized
  | initializing
  | running
  | shuttingDown
  | stopped
  | failed
  deriving DecidableEq, Repr

def RuntimeState.value : RuntimeState → String
  | .uninitialized => "uninitialized"
  | .initializing => "initializing"
  | .running => "running"
  | .shuttingDown => "shutting_down"
  | .stopped => "stopped"
  | .failed => "failed"

structure OrchestratorError where
  message : String
  deriving DecidableEq

-- The orchestrator and the manager behind the runtime's registry. What the configuration and the event
-- bus raise is only logged by start and stop; what the bus raises over the event that ends a reload
-- would become an error of the reload, with the states as they are. None of it appears here.
structure RuntimeOrchestrator (Service : Type) where
  state : RuntimeState
  manager : RuntimeServiceManager Service

namespace RuntimeOrchestrator

variable {Service : Type}

def init (manager : RuntimeServiceManager Service) : RuntimeOrchestrator Service :=
  ⟨.uninitialized, manager⟩

def start (o : RuntimeOrchestrator Service) (hooks : Hooks) :
    Option OrchestratorError × RuntimeOrchestrator Service :=
  if o.state = .running then (none, o)
  else if o.state = .initializing then (some ⟨"Runtime is currently initializing."⟩, o)
  else
    match o.manager.initializeServices hooks with
    | (none, manager) => (none, ⟨.running, manager⟩)
    | (some error, manager) =>
        (some ⟨"Startup sequence failed: " ++ error.message⟩, ⟨.failed, manager⟩)

-- The first service that is still active, as stop looks for it.
def remaining (manager : RuntimeServiceManager Service) : Option ServiceName :=
  manager.services.keys.find? fun name => name ≠ "services" ∧ manager.state? name = some .active

def stop (o : RuntimeOrchestrator Service) (hooks : Hooks) :
    Option OrchestratorError × RuntimeOrchestrator Service :=
  if o.state = .stopped ∨ o.state = .uninitialized then (none, o)
  else
    let manager := (o.manager.shutdown hooks).1
    match remaining manager with
    | some name =>
        (some ⟨"Shutdown sequence failed: Service '" ++ name ++ "' failed to stop (remains active)."⟩,
          ⟨.failed, manager⟩)
    | none => (none, ⟨.stopped, manager⟩)

def reload (o : RuntimeOrchestrator Service) (hooks : Hooks) :
    Option OrchestratorError × RuntimeOrchestrator Service :=
  if o.state ≠ .running then
    (some ⟨"Cannot reload unless runtime is in RUNNING state. Current: " ++ o.state.value⟩, o)
  else
    match o.manager.reload hooks with
    | some error => (some ⟨"Reload failed: " ++ error.message⟩, o)
    | none => (none, o)

-- A call of the orchestrator, with what the hooks do during it.
inductive Call
  | start (hooks : Hooks)
  | stop (hooks : Hooks)
  | reload (hooks : Hooks)

def call (o : RuntimeOrchestrator Service) : Call → Option OrchestratorError × RuntimeOrchestrator Service
  | .start hooks => o.start hooks
  | .stop hooks => o.stop hooks
  | .reload hooks => o.reload hooks

def step (o : RuntimeOrchestrator Service) (c : Call) : Option (RuntimeOrchestrator Service) :=
  some (o.call c).2

def AllActive (m : RuntimeServiceManager Service) : Prop :=
  ∀ name ∈ m.services, m.state? name = some .active

def NoneActive (m : RuntimeServiceManager Service) : Prop :=
  ∀ name, m.state? name ≠ some .active

-- Between two calls, the orchestrator, the services and the manager's flag are in step.
structure InStep (o : RuntimeOrchestrator Service) : Prop where
  running : o.state = .running → AllActive o.manager ∧ o.manager.isInitialized = true
  idle : o.state = .stopped ∨ o.state = .uninitialized → NoneActive o.manager
  settled : o.state = .uninitialized ∨ o.state = .running ∨ o.state = .stopped ∨ o.state = .failed
  flag : o.state ≠ .running → o.manager.isInitialized = false

section Calls

open RuntimeServiceManager

variable {o : RuntimeOrchestrator Service} {m : RuntimeServiceManager Service}

-- A start that raises nothing has started every service, and only such a start sets the flag.
theorem initializeServices_spec (hooks : Hooks) (h : m.isInitialized = false) :
    SameServices m (m.initializeServices hooks).2 ∧
      ((m.initializeServices hooks).1 = none → AllActive (m.initializeServices hooks).2 ∧
        (m.initializeServices hooks).2.isInitialized = true) ∧
      ((m.initializeServices hooks).1 ≠ none → (m.initializeServices hooks).2.isInitialized = false) := by
  unfold initializeServices
  rw [h, if_neg Bool.false_ne_true]
  cases horder : m.getStartupOrder with
  | error error => exact ⟨.refl m, fun hc => (nomatch hc), fun _ => h⟩
  | ok order =>
      obtain ⟨hnone, hflag⟩ := initializeLoop_fst hooks order m
      have hsame := sameServices_initializeLoop hooks order m
      rw [h, Bool.or_false] at hflag
      rw [Option.isNone_iff_eq_none] at hnone
      refine ⟨hsame, fun hc => ?_, fun hc => ?_⟩
      · have hraising := hnone.mp hc
        refine ⟨fun name hm => ?_, by rw [hflag, hraising]; rfl⟩
        have hregistered : name ∈ m.services := by
          rw [hsame.services] at hm
          exact hm
        have hmem : name ∈ order := by
          obtain ⟨_, _, hleast⟩ := getStartupOrder_ok_iff.mp horder
          exact hleast.1.1.mem_iff.mpr hregistered
        have hstarted : started hooks order = order := by
          refine List.takeWhile_eq_self_iff.mpr fun other ho => ?_
          have hquiet := List.find?_eq_none.mp hraising other ho
          simpa using hquiet
        obtain ⟨state, hstate⟩ := Option.isSome_iff_exists.mp ((m.state?_isSome name).mpr hregistered)
        rw [state?_initializeLoop, hstarted, if_pos hmem, hstate]
        rfl
      · have hraising := mt hnone.mpr hc
        cases hr : raising hooks order with
        | none => exact absurd hr hraising
        | some name => rw [hflag, hr]; rfl

theorem sameServices_shutdown (hooks : Hooks) : SameServices m (m.shutdown hooks).1 := by
  have hsame := (shutdownLoop_states hooks m.shutdownOrder (m, [])).1
  exact ⟨hsame.services, hsame.metadata⟩

-- A stop that finds nobody left has stopped every service.
theorem remaining_none_iff (h : "services" ∉ m.services) : remaining m = none ↔ NoneActive m := by
  unfold remaining
  rw [List.find?_eq_none]
  constructor
  · intro hnone name ha
    have hm := mem_services_of_state? ha
    have hne : name ≠ "services" := by
      rintro rfl
      exact h hm
    exact hnone name hm (decide_eq_true ⟨hne, ha⟩)
  · intro hnone name _ hc
    exact hnone name (of_decide_eq_true hc).2

-- Each call keeps the two in step, and start and stop raise exactly when they fail.
theorem InStep.start (h : InStep o) (hooks : Hooks) :
    InStep (o.start hooks).2 ∧ SameServices o.manager (o.start hooks).2.manager ∧
      ((o.start hooks).1.isSome ↔ (o.start hooks).2.state = .failed) := by
  unfold RuntimeOrchestrator.start
  by_cases hr : o.state = .running
  · rw [if_pos hr]
    exact ⟨h, .refl _, by simp [hr]⟩
  have hi : o.state ≠ .initializing := by
    intro hc
    have hs := h.settled
    rw [hc] at hs
    simp at hs
  rw [if_neg hr, if_neg hi]
  obtain ⟨hsame, hok, hfail⟩ := initializeServices_spec hooks (h.flag hr)
  cases hinit : o.manager.initializeServices hooks with
  | mk error manager =>
      rw [hinit] at hsame hok hfail
      cases error with
      | none =>
          refine ⟨⟨fun _ => hok rfl, fun hc => ?_, .inr (.inl rfl), fun hc => absurd rfl hc⟩, hsame, ?_⟩
          · rcases hc with hc | hc <;> cases hc
          · simp
      | some error =>
          refine ⟨⟨fun hc => (nomatch hc), fun hc => ?_, .inr (.inr (.inr rfl)),
            fun _ => hfail (by simp)⟩, hsame, ?_⟩
          · rcases hc with hc | hc <;> cases hc
          · simp

theorem InStep.stop (h : InStep o) (hname : "services" ∉ o.manager.services) (hooks : Hooks) :
    InStep (o.stop hooks).2 ∧ SameServices o.manager (o.stop hooks).2.manager ∧
      ((o.stop hooks).1.isSome ↔ (o.stop hooks).2.state = .failed) := by
  unfold RuntimeOrchestrator.stop
  by_cases hi : o.state = .stopped ∨ o.state = .uninitialized
  · rw [if_pos hi]
    refine ⟨h, .refl _, ?_⟩
    rcases hi with hi | hi <;> simp [hi]
  rw [if_neg hi]
  have hsame := sameServices_shutdown (m := o.manager) hooks
  have hnone := remaining_none_iff (m := (o.manager.shutdown hooks).1) (by rw [hsame.services]; exact hname)
  dsimp only
  cases hr : remaining (o.manager.shutdown hooks).1 with
  | none =>
      refine ⟨⟨fun hc => (nomatch hc), fun _ => hnone.mp hr, .inr (.inr (.inl rfl)), fun _ => rfl⟩,
        hsame, ?_⟩
      simp
  | some name =>
      refine ⟨⟨fun hc => (nomatch hc), fun hc => ?_, .inr (.inr (.inr rfl)), fun _ => rfl⟩, hsame, ?_⟩
      · rcases hc with hc | hc <;> cases hc
      · simp

theorem reload_snd (hooks : Hooks) : (o.reload hooks).2 = o := by
  unfold RuntimeOrchestrator.reload
  split
  · rfl
  · split <;> rfl

theorem InStep.step (h : InStep o) (hname : "services" ∉ o.manager.services) (c : Call) :
    InStep (o.call c).2 ∧ SameServices o.manager (o.call c).2.manager := by
  cases c with
  | start hooks => exact ⟨(h.start hooks).1, (h.start hooks).2.1⟩
  | stop hooks => exact ⟨(h.stop hname hooks).1, (h.stop hname hooks).2.1⟩
  | reload hooks =>
      have he : (o.call (.reload hooks)).2 = o := reload_snd hooks
      rw [he]
      exact ⟨h, .refl _⟩

end Calls

-- Services that have been registered, none of which has been started yet.
def Registered (m : RuntimeServiceManager Service) : Prop :=
  m.isInitialized = false ∧ ∀ name ∈ m.services, m.state? name = some .uninitialized

theorem inStep_init {m : RuntimeServiceManager Service} (h : Registered m) : InStep (init m) where
  running hc := nomatch hc
  idle _ name ha := by
    have hstate := h.2 name (RuntimeServiceManager.mem_services_of_state? ha)
    change m.state? name = some .active at ha
    rw [ha] at hstate
    cases hstate
  settled := .inl rfl
  flag _ := h.1

-- Whatever the hooks raise, the runtime's state says what the services are in.
theorem orchestrator_in_step (m : RuntimeServiceManager Service) (hm : Registered m)
    (hname : "services" ∉ m.services) (calls : List Call) (o : RuntimeOrchestrator Service)
    (hr : Run step (init m) calls o) :
    (o.state = .running → AllActive o.manager ∧ o.manager.isInitialized = true) ∧
      (o.state = .stopped ∨ o.state = .uninitialized → NoneActive o.manager) ∧
      (o.state = .uninitialized ∨ o.state = .running ∨ o.state = .stopped ∨ o.state = .failed) ∧
      ∀ hooks, ((o.start hooks).1.isSome ↔ (o.start hooks).2.state = .failed) ∧
        ((o.stop hooks).1.isSome ↔ (o.stop hooks).2.state = .failed) := by
  have hany : Meets step (fun _ _ => True) (init m) calls := .of_forall fun _ _ _ => trivial
  have hinv : InStep o ∧ "services" ∉ o.manager.services := by
    refine hr.invariant (fun o => InStep o ∧ "services" ∉ o.manager.services)
      (fun o c t h _ hs => ?_) hany ⟨inStep_init hm, hname⟩
    obtain rfl := Option.some.inj hs
    obtain ⟨hstep, hsame⟩ := h.1.step h.2 c
    exact ⟨hstep, by rw [hsame.services]; exact h.2⟩
  obtain ⟨h, hname⟩ := hinv
  exact ⟨h.running, h.idle, h.settled, fun hooks => ⟨(h.start hooks).2.2, (h.stop hname hooks).2.2⟩⟩

-- A start that fails half-way, a stop, and a start that succeeds.
def twoServices : RuntimeServiceManager Unit where
  services := (Dict.empty.set "a" ()).set "b" ()
  metadata := (Dict.empty.set "a" ⟨"a", "1.0.0", []⟩).set "b" ⟨"b", "1.0.0", ["a"]⟩
  states := (Dict.empty.set "a" .uninitialized).set "b" .uninitialized
  isInitialized := false
  metadata_keys := rfl
  states_keys := rfl

def recoveringCalls : List Call :=
  [.start fun name => if name = "b" then some "boom" else none, .stop fun _ => none,
    .start fun _ => none]

theorem recovery_in_step : ∃ o, Run step (init twoServices) recoveringCalls o ∧
    o.state = .running ∧ AllActive o.manager := by
  have hregistered : Registered twoServices := by
    refine ⟨rfl, fun name hm => ?_⟩
    have hkeys : name ∈ ["a", "b"] := hm
    simp only [List.mem_cons, List.not_mem_nil, or_false] at hkeys
    rcases hkeys with rfl | rfl <;> rfl
  have hr : Run step (init twoServices) recoveringCalls _ := Run.of_foldlM rfl
  have hstep := orchestrator_in_step twoServices hregistered (by decide) recoveringCalls _ hr
  exact ⟨_, hr, rfl, (hstep.1 rfl).1⟩

end RuntimeOrchestrator

end YasinCore.Runtime
