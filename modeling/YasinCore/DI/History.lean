import YasinCore.DI.Container

namespace YasinCore.DI

open YasinCore.Library

variable {σ ι α β : Type}

-- What is noted about a container: a key is registered, the provider behind a key completes, and a
-- resolution that is answered by the registration of a key yields an object.
inductive Event (ι : Type)
  | registered (key : Key) (lifetime : ServiceLifetime)
  | completed (key : Key) (object : Option ι)
  | yielded (key : Key) (object : Option ι)

-- A world with the notes beside it. The providers know nothing of the notes.
structure Observed (σ ι : Type) where
  world : σ
  events : List (Event ι)

def Provider.observed (provider : Provider σ ι) : Provider (Observed σ ι) ι where
  name := provider.name
  isClass := provider.isClass
  parameters := provider.parameters
  call arguments w :=
    match provider.call arguments w.world with
    | .ok object world => .ok object { w with world := world }
    | .error e world => .error e { w with world := world }

def Registration.observed (reg : Registration σ ι) : Registration (Observed σ ι) ι :=
  ⟨reg.key, reg.lifetime, reg.factoryOrClass.map Provider.observed, reg.object⟩

def Classes.observed (classes : Classes σ ι) : Classes (Observed σ ι) ι :=
  ⟨classes.issubclass, fun qualname => (classes.constructor qualname).observed⟩

def DIContainer.observed (c : DIContainer σ ι) : DIContainer (Observed σ ι) ι :=
  ⟨c.registrations.mapValues fun _ => Registration.observed, c.resolving⟩

def System.observed (s : System σ ι) (events : List (Event ι)) : System (Observed σ ι) ι :=
  ⟨s.container.observed, s.world, events⟩

namespace Operation

-- One frame of resolve, with what it resolves its parameters by.
def resolveWith (classes : Classes σ ι) (resolver : Key → Operation σ ι (Option ι)) (key : Key) :
    Operation σ ι (Option ι) := do
  let c := (← get).container
  let reg := c.findRegistration classes key
  match reg.bind fun reg => if reg.lifetime = .singleton then reg.object else none with
  | some object => return some object
  | none =>
      if key ∈ c.resolving then
        throw (.circularDependency ("Circular dependency detected: " ++
          " -> ".intercalate ((c.resolving ++ [key]).map Key.str)))
      else
        resolvingKey key
          (match reg, key with
          | some reg, _ => resolveRegistered classes resolver reg
          | none, .type qualname => autowire classes resolver qualname
          | none, .string name =>
              throw (.dependencyResolution ("No service registered for key '" ++ name ++
                "' and it cannot be autowired.")))

theorem resolve_succ (classes : Classes σ ι) (depth : Nat) (key : Key) :
    resolve classes (depth + 1) key = resolveWith classes (resolve classes depth) key := rfl

def note (event : Event ι) : Operation (Observed σ ι) ι Unit :=
  modify fun s => { s with world := { s.world with events := s.world.events ++ [event] } }

-- A registration whose object is there already.
def Registration.isBuilt (reg : Registration σ ι) : Bool :=
  reg.lifetime = .singleton && reg.object.isSome

-- The notes about a frame that has returned. Where there was no object yet, its provider has
-- completed in it: nothing that comes after the provider can fail.
def noteFrame (reg : Option (Registration (Observed σ ι) ι)) (object : Option ι) :
    Operation (Observed σ ι) ι Unit :=
  match reg with
  | some reg => do
      if reg.factoryOrClass.isSome && !Registration.isBuilt reg then
        note (.completed reg.key object)
      note (.yielded reg.key object)
  | none => pure ()

-- resolve with its notes
def resolveObserved (classes : Classes (Observed σ ι) ι) :
    Nat → Key → Operation (Observed σ ι) ι (Option ι)
  | 0, _ => throw .recursion
  | depth + 1, key => do
      let reg := (← get).container.findRegistration classes key
      let object ← resolveWith classes (resolveObserved classes depth) key
      noteFrame reg object
      return object

end Operation

inductive Action (σ ι : Type)
  | registerInstance (key : Key) (object : Option ι)
  | registerSingleton (key : Key) (provider : Provider σ ι)
  | registerTransient (key : Key) (provider : Provider σ ι)
  | resolve (depth : Nat) (key : Key)

namespace System

def init (world : σ) : System σ ι := ⟨.init, world⟩

def perform (classes : Classes σ ι) (s : System σ ι) : Action σ ι → System σ ι
  | .registerInstance key object => { s with container := s.container.registerInstance key object }
  | .registerSingleton key provider =>
      { s with container := s.container.registerSingleton key provider }
  | .registerTransient key provider =>
      { s with container := s.container.registerTransient key provider }
  | .resolve depth key => finalState (Operation.resolve classes depth key) s

def performAll (classes : Classes σ ι) (world : σ) (acts : List (Action σ ι)) : System σ ι :=
  acts.foldl (perform classes) (init world)

def noting (s : System (Observed σ ι) ι) (event : Event ι) : System (Observed σ ι) ι :=
  { s with world := { s.world with events := s.world.events ++ [event] } }

def performObserved (classes : Classes σ ι) (s : System (Observed σ ι) ι) :
    Action σ ι → System (Observed σ ι) ι
  | .registerInstance key object =>
      { s.noting (.registered key .singleton) with
        container := s.container.registerInstance key object }
  | .registerSingleton key provider =>
      { s.noting (.registered key .singleton) with
        container := s.container.registerSingleton key provider.observed }
  | .registerTransient key provider =>
      { s.noting (.registered key .transient) with
        container := s.container.registerTransient key provider.observed }
  | .resolve depth key => finalState (Operation.resolveObserved classes.observed depth key) s

def performAllObserved (classes : Classes σ ι) (world : σ) (acts : List (Action σ ι)) :
    System (Observed σ ι) ι :=
  acts.foldl (performObserved classes) ((init world).observed [])

end System

section Mirror

variable {classes : Classes σ ι}

-- A search among registrations finds the same one when all of them are rewritten.
theorem findRegistration_mapValues {σ' : Type} {classes' : Classes σ' ι}
    (hclasses : classes'.issubclass = classes.issubclass)
    (f : Registration σ ι → Registration σ' ι) (registrations : Dict Key (Registration σ ι))
    (resolving resolving' : List Key) (key : Key) :
    DIContainer.findRegistration classes' ⟨registrations.mapValues fun _ => f, resolving'⟩ key =
      (DIContainer.findRegistration classes ⟨registrations, resolving⟩ key).map f := by
  unfold DIContainer.findRegistration
  dsimp only
  rw [Dict.get?_mapValues, hclasses]
  cases registrations.get? key with
  | some reg => rfl
  | none =>
      cases key with
      | string name => rfl
      | type qualname =>
          have hentries : (registrations.mapValues fun _ => f).entries =
              registrations.entries.map fun entry => (entry.1, f entry.2) := rfl
          simp only [Option.map_none, hentries, List.find?_map, Option.map_map]
          rfl

-- The observed program does what the other one does, and takes notes.
def Mirrors (prog : Operation σ ι α) (observed : Operation (Observed σ ι) ι α) : Prop :=
  ∀ s events, ∃ notes, observed (s.observed events) =
    match prog s with
    | .ok value t => .ok value (t.observed notes)
    | .error e t => .error e (t.observed notes)

namespace Mirrors

variable {prog : Operation σ ι α} {observed : Operation (Observed σ ι) ι α}

theorem pure (value : α) : Mirrors (pure value : Operation σ ι α) (pure value) :=
  fun _ events => ⟨events, rfl⟩

theorem throw (e : DIError) : Mirrors (throw e : Operation σ ι α) (throw e) :=
  fun _ events => ⟨events, rfl⟩

theorem bind (h : Mirrors prog observed) {next : α → Operation σ ι β}
    {observed' : α → Operation (Observed σ ι) ι β} (hnext : ∀ value, Mirrors (next value) (observed' value)) :
    Mirrors (prog >>= next) (observed >>= observed') := by
  intro s events
  obtain ⟨notes, hrun⟩ := h s events
  cases hp : prog s with
  | ok value t =>
      rw [hp] at hrun
      rw [run_bind_ok hrun, run_bind_ok hp]
      exact hnext value t notes
  | error e t =>
      rw [hp] at hrun
      rw [run_bind_error hrun, run_bind_error hp]
      exact ⟨notes, rfl⟩

theorem tryCatch (h : Mirrors prog observed) {handler : DIError → Operation σ ι α}
    {handler' : DIError → Operation (Observed σ ι) ι α} (hcatch : ∀ e, Mirrors (handler e) (handler' e)) :
    Mirrors (tryCatch prog handler) (tryCatch observed handler') := by
  intro s events
  obtain ⟨notes, hrun⟩ := h s events
  cases hp : prog s with
  | ok value t =>
      rw [hp] at hrun
      rw [run_tryCatch_ok hrun, run_tryCatch_ok hp]
      exact ⟨notes, rfl⟩
  | error e t =>
      rw [hp] at hrun
      rw [run_tryCatch_error hrun, run_tryCatch_error hp]
      exact hcatch e t notes

theorem modify {f : System σ ι → System σ ι}
    {f' : System (Observed σ ι) ι → System (Observed σ ι) ι}
    (h : ∀ s events, ∃ notes, f' (s.observed events) = (f s).observed notes) :
    Mirrors (modify f) (modify f') := by
  intro s events
  obtain ⟨notes, hf⟩ := h s events
  exact ⟨notes, congrArg (EStateM.Result.ok PUnit.unit) hf⟩

-- What the observed program does at its end changes nothing.
theorem then_notes (h : Mirrors prog observed) {observed' : α → Operation (Observed σ ι) ι α}
    (hnotes : ∀ value, Mirrors (Pure.pure value) (observed' value)) :
    Mirrors prog (observed >>= observed') := by
  intro s events
  obtain ⟨notes, hrun⟩ := h s events
  cases hp : prog s with
  | ok value t =>
      rw [hp] at hrun
      rw [run_bind_ok hrun]
      exact hnotes value t notes
  | error e t =>
      rw [hp] at hrun
      rw [run_bind_error hrun]
      exact ⟨notes, rfl⟩

theorem ite {c : Prop} [Decidable c] {other : Operation σ ι α}
    {observed' : Operation (Observed σ ι) ι α} (h : Mirrors prog observed)
    (ho : Mirrors other observed') :
    Mirrors (if c then prog else other) (if c then observed else observed') := by
  split
  · exact h
  · exact ho

-- Both programs go on from what they find in their containers.
theorem get_bind {next : System σ ι → Operation σ ι α}
    {observed' : System (Observed σ ι) ι → Operation (Observed σ ι) ι α}
    (h : ∀ s events, Mirrors (next s) (observed' (s.observed events))) :
    Mirrors (get >>= next) (get >>= observed') := by
  intro s events
  exact h s events s events

-- Notes are taken by the observed program alone.
theorem note_bind (h : Mirrors prog observed) (event : Event ι) :
    Mirrors prog (Operation.note event >>= fun _ => observed) :=
  fun s events => h s (events ++ [event])

end Mirrors

open Operation

theorem findRegistration_observed (c : DIContainer σ ι) (key : Key) :
    c.observed.findRegistration classes.observed key =
      (c.findRegistration classes key).map Registration.observed := by
  have hsame : classes.observed.issubclass = classes.issubclass := rfl
  exact findRegistration_mapValues hsame Registration.observed c.registrations c.resolving c.resolving key

theorem has_observed (c : DIContainer σ ι) (key : Key) :
    c.observed.has classes.observed key = c.has classes key := by
  rw [DIContainer.has, findRegistration_observed, Option.isSome_map]
  rfl

theorem construct_mirrors (provider : Provider σ ι) (arguments : Dict String (Option ι)) :
    Mirrors (construct provider arguments) (construct provider.observed arguments) := by
  intro s events
  refine ⟨events, ?_⟩
  simp only [construct, Provider.observed, System.observed]
  cases provider.call arguments s.world with
  | ok object world => rfl
  | error e world => rfl

theorem resolvingKey_mirrors {prog : Operation σ ι α} {observed : Operation (Observed σ ι) ι α}
    (h : Mirrors prog observed) (key : Key) :
    Mirrors (resolvingKey key prog) (resolvingKey key observed) :=
  .bind (.modify fun _ events => ⟨events, rfl⟩) fun _ =>
    .bind (.tryCatch h fun e => .bind (.modify fun _ events => ⟨events, rfl⟩) fun _ => .throw e)
      fun value => .bind (.modify fun _ events => ⟨events, rfl⟩) fun _ => .pure value

theorem cacheObject_mirrors (reg : Registration σ ι) (object : Option ι) :
    Mirrors (cacheObject reg object) (cacheObject reg.observed object) := by
  refine .modify fun s events => ⟨events, ?_⟩
  simp only [System.observed, DIContainer.observed, Dict.mapValues_set]
  rfl

variable {resolver : Key → Operation σ ι (Option ι)}
  {resolver' : Key → Operation (Observed σ ι) ι (Option ι)}

theorem resolveParameter_mirrors (h : ∀ key, Mirrors (resolver key) (resolver' key))
    (provider : Provider σ ι) (param : Parameter ι) :
    Mirrors (resolveParameter classes resolver provider param)
      (resolveParameter classes.observed resolver' provider.observed param) := by
  refine .get_bind fun s events => ?_
  have hhas (key : Key) : (s.observed events).container.has classes.observed key =
      s.container.has classes key := has_observed s.container key
  simp only [hhas]
  split
  · exact h _
  · split
    · exact h _
    · cases param.default with
      | some object => exact .pure object
      | none => exact .throw _

theorem resolveParameters_mirrors (h : ∀ key, Mirrors (resolver key) (resolver' key))
    (provider : Provider σ ι) (params : List (Parameter ι)) (arguments : Dict String (Option ι)) :
    Mirrors (resolveParameters classes resolver provider params arguments)
      (resolveParameters classes.observed resolver' provider.observed params arguments) := by
  induction params generalizing arguments with
  | nil => exact .pure arguments
  | cons param params ih =>
      exact .bind (resolveParameter_mirrors h provider param) fun object => ih _

theorem inject_mirrors (h : ∀ key, Mirrors (resolver key) (resolver' key))
    (provider : Provider σ ι) :
    Mirrors (inject classes resolver provider)
      (inject classes.observed resolver' provider.observed) :=
  .bind (resolveParameters_mirrors h provider _ _) fun arguments => construct_mirrors provider arguments

theorem autowire_mirrors (h : ∀ key, Mirrors (resolver key) (resolver' key)) (qualname : String) :
    Mirrors (autowire classes resolver qualname) (autowire classes.observed resolver' qualname) := by
  refine .tryCatch (inject_mirrors h (classes.constructor qualname)) fun e => ?_
  cases e.resolution? with
  | some message => exact .throw _
  | none => exact .throw e

theorem resolveRegistered_mirrors (h : ∀ key, Mirrors (resolver key) (resolver' key))
    (reg : Registration σ ι) :
    Mirrors (resolveRegistered classes resolver reg)
      (resolveRegistered classes.observed resolver' reg.observed) := by
  obtain ⟨key, lifetime, factoryOrClass, object⟩ := reg
  cases factoryOrClass with
  | none => exact .pure object
  | some provider =>
      refine .bind (inject_mirrors h provider) fun object => ?_
      cases lifetime with
      | singleton => exact .bind (cacheObject_mirrors _ object) fun _ => .pure object
      | transient => exact .pure object

theorem resolveWith_mirrors (h : ∀ key, Mirrors (resolver key) (resolver' key)) (key : Key) :
    Mirrors (resolveWith classes resolver key) (resolveWith classes.observed resolver' key) := by
  refine .get_bind fun s events => ?_
  have hfind : (s.observed events).container.findRegistration classes.observed key =
      (s.container.findRegistration classes key).map Registration.observed :=
    findRegistration_observed s.container key
  have hresolving : (s.observed events).container.resolving = s.container.resolving := rfl
  simp only [hfind, hresolving]
  cases s.container.findRegistration classes key with
  | none =>
      rw [Option.map_none]
      refine .ite (.throw _) (resolvingKey_mirrors ?_ key)
      cases key with
      | type qualname => exact autowire_mirrors h qualname
      | string name => exact .throw _
  | some reg =>
      have hcached : ((some reg.observed).bind fun reg =>
          if reg.lifetime = .singleton then reg.object else none) =
          (some reg).bind fun reg => if reg.lifetime = .singleton then reg.object else none := rfl
      rw [Option.map_some, hcached]
      split
      · exact .pure _
      · exact .ite (.throw _) (resolvingKey_mirrors (resolveRegistered_mirrors h reg) key)

theorem noteFrame_mirrors (reg : Option (Registration (Observed σ ι) ι)) (object : Option ι) :
    Mirrors (pure object) (noteFrame reg object >>= fun _ => pure object) := by
  cases reg with
  | none => exact .pure object
  | some reg =>
      unfold noteFrame
      dsimp only
      split
      · exact .note_bind (.note_bind (.pure object) _) _
      · exact .note_bind (.pure object) _

-- What is resolved does not depend on whether notes are taken.
theorem resolveObserved_mirrors (depth : Nat) (key : Key) :
    Mirrors (resolve classes depth key) (resolveObserved classes.observed depth key) := by
  induction depth generalizing key with
  | zero => exact .throw _
  | succ depth ih =>
      rw [resolve_succ]
      intro s events
      have hwith : Mirrors (resolveWith classes (resolve classes depth) key)
          (resolveWith classes.observed (resolveObserved classes.observed depth) key) :=
        resolveWith_mirrors ih key
      exact hwith.then_notes (fun object => noteFrame_mirrors
        ((s.observed events).container.findRegistration classes.observed key) object) s events

theorem set_observed (c : DIContainer σ ι) (key : Key) (reg : Registration σ ι) :
    { c.observed with registrations := c.observed.registrations.set key reg.observed } =
      { c with registrations := c.registrations.set key reg }.observed := by
  simp only [DIContainer.observed, Dict.mapValues_set]

theorem performObserved_mirrors (s : System σ ι) (events : List (Event ι)) (act : Action σ ι) :
    ∃ notes, System.performObserved classes (s.observed events) act =
      (s.perform classes act).observed notes := by
  have hset (key : Key) (reg : Registration σ ι) (notes : List (Event ι)) :
      (⟨{ s.container.observed with
          registrations := s.container.observed.registrations.set key reg.observed }, s.world, notes⟩ :
        System (Observed σ ι) ι) =
      System.observed ⟨{ s.container with registrations := s.container.registrations.set key reg },
        s.world⟩ notes :=
    congrArg (fun c => (⟨c, s.world, notes⟩ : System (Observed σ ι) ι)) (set_observed _ key reg)
  cases act with
  | registerInstance key object =>
      have hinstance := hset key ⟨key, .singleton, none, object⟩
        (events ++ [Event.registered key .singleton])
      exact ⟨_, hinstance⟩
  | registerSingleton key provider =>
      have hsingleton := hset key ⟨key, .singleton, some provider, none⟩
        (events ++ [Event.registered key .singleton])
      exact ⟨_, hsingleton⟩
  | registerTransient key provider =>
      have htransient := hset key ⟨key, .transient, some provider, none⟩
        (events ++ [Event.registered key .transient])
      exact ⟨_, htransient⟩
  | resolve depth key =>
      obtain ⟨notes, hrun⟩ := @resolveObserved_mirrors σ ι classes depth key s events
      refine ⟨notes, ?_⟩
      unfold System.performObserved System.perform finalState
      dsimp only
      rw [hrun]
      cases resolve classes depth key s with
      | ok object t => rfl
      | error e t => rfl

-- Neither does the container that a sequence of calls leaves behind.
theorem performAllObserved_eq (world : σ) (acts : List (Action σ ι)) : ∃ events,
    System.performAllObserved classes world acts =
      (System.performAll classes world acts).observed events := by
  have hrun (acts : List (Action σ ι)) (s : System σ ι) (events : List (Event ι)) : ∃ notes,
      acts.foldl (System.performObserved classes) (s.observed events) =
        (acts.foldl (System.perform classes) s).observed notes := by
    induction acts generalizing s events with
    | nil => exact ⟨events, rfl⟩
    | cons act acts ih =>
        obtain ⟨notes, hstep⟩ := performObserved_mirrors s events act
        rw [List.foldl_cons, hstep]
        exact ih _ notes
  exact hrun acts (System.init world) []

end Mirror

end YasinCore.DI
