import YasinCore.Library.Dict
import YasinCore.Library.Hoare

namespace YasinCore.DI

open YasinCore.Library

-- A service goes by its class, here by its full name, or by a string.
inductive Key
  | type (qualname : String)
  | string (name : String)
  deriving DecidableEq

def Key.str : Key → String
  | .type qualname => "<class '" ++ qualname ++ "'>"
  | .string name => name

inductive ServiceLifetime
  | singleton
  | transient
  deriving DecidableEq

-- The exceptions that leave the container; those of factories and constructors pass through it.
inductive DIError
  | dependencyResolution (message : String)
  | circularDependency (message : String)
  | recursion
  | raised (message : String)
  deriving DecidableEq

-- What "except DependencyResolutionError" catches: a circular dependency is one.
def DIError.resolution? : DIError → Option String
  | .dependencyResolution message | .circularDependency message => some message
  | .recursion | .raised _ => none

-- The objects are references into a world that their constructors change; no object is None.
structure Parameter (ι : Type) where
  name : String
  variadic : Bool
  annotation : Option String
  typeName : String
  default : Option (Option ι)

-- A class with the signature of its constructor, or a factory with its own.
structure Provider (σ ι : Type) where
  name : String
  isClass : Bool
  parameters : List (Parameter ι)
  call : Dict String (Option ι) → EStateM DIError σ (Option ι)

structure Registration (σ ι : Type) where
  key : Key
  lifetime : ServiceLifetime
  factoryOrClass : Option (Provider σ ι)
  object : Option ι

-- The stack is the one of the thread that resolves.
structure DIContainer (σ ι : Type) where
  registrations : Dict Key (Registration σ ι)
  resolving : List Key

-- The classes of the program.
structure Classes (σ ι : Type) where
  issubclass : String → String → Bool
  constructor : String → Provider σ ι

variable {σ ι : Type}

namespace DIContainer

def init : DIContainer σ ι := ⟨.empty, []⟩

def registerInstance (c : DIContainer σ ι) (key : Key) (object : Option ι) : DIContainer σ ι :=
  { c with registrations := c.registrations.set key ⟨key, .singleton, none, object⟩ }

def registerSingleton (c : DIContainer σ ι) (key : Key) (provider : Provider σ ι) : DIContainer σ ι :=
  { c with registrations := c.registrations.set key ⟨key, .singleton, some provider, none⟩ }

def registerTransient (c : DIContainer σ ι) (key : Key) (provider : Provider σ ι) : DIContainer σ ι :=
  { c with registrations := c.registrations.set key ⟨key, .transient, some provider, none⟩ }

-- The registration of the key itself, or for a class the first one of a subclass.
def findRegistration (classes : Classes σ ι) (c : DIContainer σ ι) (key : Key) :
    Option (Registration σ ι) :=
  match c.registrations.get? key, key with
  | some reg, _ => some reg
  | none, .type qualname =>
      (c.registrations.entries.find? fun entry =>
        match entry.1 with
        | .type other => classes.issubclass other qualname
        | .string _ => false).map Prod.snd
  | none, .string _ => none

def has (classes : Classes σ ι) (c : DIContainer σ ι) (key : Key) : Bool :=
  (c.findRegistration classes key).isSome

end DIContainer

-- A container and the world its services live in.
structure System (σ ι : Type) where
  container : DIContainer σ ι
  world : σ

abbrev Operation (σ ι α : Type) := EStateM DIError (System σ ι) α

namespace Operation

def construct (provider : Provider σ ι) (arguments : Dict String (Option ι)) :
    Operation σ ι (Option ι) := fun s =>
  match provider.call arguments s.world with
  | .ok object world => .ok object { s with world := world }
  | .error e world => .error e { s with world := world }

def pushKey (key : Key) : Operation σ ι Unit :=
  modify fun s => { s with
    container := { s.container with resolving := s.container.resolving ++ [key] } }

def popKey : Operation σ ι Unit :=
  modify fun s => { s with
    container := { s.container with resolving := s.container.resolving.dropLast } }

-- The try with its finally around the work on one key.
def resolvingKey {α : Type} (key : Key) (operation : Operation σ ι α) : Operation σ ι α := do
  pushKey key
  let value ← tryCatch operation fun e => do
    popKey
    throw e
  popKey
  return value

def cacheObject (reg : Registration σ ι) (object : Option ι) : Operation σ ι Unit :=
  modify fun s => { s with
    container := { s.container with
      registrations := s.container.registrations.set reg.key { reg with object := object } } }

-- One parameter: by its type, by its name, or by its default.
def resolveParameter (classes : Classes σ ι) (resolver : Key → Operation σ ι (Option ι))
    (provider : Provider σ ι) (param : Parameter ι) : Operation σ ι (Option ι) := do
  let c := (← get).container
  match param.annotation.filter fun qualname => c.has classes (.type qualname) with
  | some qualname => resolver (.type qualname)
  | none =>
      if c.has classes (.string param.name) then resolver (.string param.name)
      else
        match param.default with
        | some object => return object
        | none =>
            let kind := if provider.isClass then "class" else "callable"
            throw (.dependencyResolution ("Cannot resolve parameter '" ++ param.name ++ "' of type '" ++
              param.typeName ++ "' for " ++ kind ++ " '" ++ provider.name ++ "'."))

-- Neither the object itself nor the variadic parameters of a signature are injected.
def Provider.injected (provider : Provider σ ι) : List (Parameter ι) :=
  provider.parameters.filter fun param => !param.variadic && !(provider.isClass && param.name == "self")

def resolveParameters (classes : Classes σ ι) (resolver : Key → Operation σ ι (Option ι))
    (provider : Provider σ ι) :
    List (Parameter ι) → Dict String (Option ι) → Operation σ ι (Dict String (Option ι))
  | [], arguments => return arguments
  | param :: params, arguments => do
      let object ← resolveParameter classes resolver provider param
      resolveParameters classes resolver provider params (arguments.set param.name object)

-- _inject_constructor and _inject_callable
def inject (classes : Classes σ ι) (resolver : Key → Operation σ ι (Option ι))
    (provider : Provider σ ι) : Operation σ ι (Option ι) := do
  let arguments ← resolveParameters classes resolver provider (Provider.injected provider) .empty
  construct provider arguments

-- A class that is not registered.
def autowire (classes : Classes σ ι) (resolver : Key → Operation σ ι (Option ι)) (qualname : String) :
    Operation σ ι (Option ι) :=
  let provider := classes.constructor qualname
  tryCatch (inject classes resolver provider) fun e =>
    match e.resolution? with
    | some message =>
        throw (.dependencyResolution ("Failed to autowire unregistered class '" ++ provider.name ++
          "': " ++ message))
    | none => throw e

def resolveRegistered (classes : Classes σ ι) (resolver : Key → Operation σ ι (Option ι))
    (reg : Registration σ ι) : Operation σ ι (Option ι) := do
  match reg.factoryOrClass with
  | none => return reg.object
  | some provider =>
      let object ← inject classes resolver provider
      if reg.lifetime = .singleton then
        cacheObject reg object
      return object

-- Below the recursion depth that is left.
def resolve (classes : Classes σ ι) : Nat → Key → Operation σ ι (Option ι)
  | 0, _ => throw .recursion
  | depth + 1, key => do
      let c := (← get).container
      let reg := c.findRegistration classes key
      match reg.bind fun reg => if reg.lifetime = .singleton then reg.object else none with
      | some object => return some object
      | none =>
          if key ∈ c.resolving then
            throw (.circularDependency ("Circular dependency detected: " ++
              " -> ".intercalate ((c.resolving ++ [key]).map Key.str)))
          else
            resolvingKey key
              (match reg, key with
              | some reg, _ => resolveRegistered classes (resolve classes depth) reg
              | none, .type qualname => autowire classes (resolve classes depth) qualname
              | none, .string name =>
                  throw (.dependencyResolution ("No service registered for key '" ++ name ++
                    "' and it cannot be autowired.")))

section Defaults

variable {classes : Classes σ ι} {resolver : Key → Operation σ ι (Option ι)} {provider : Provider σ ι}

-- The arguments with which a provider is called where nothing is registered.
def Provider.defaults (provider : Provider σ ι) : Dict String (Option ι) :=
  (Provider.injected provider).foldl (fun arguments param =>
    arguments.set param.name (param.default.getD none)) .empty

variable {s : System σ ι}

theorem findRegistration_of_empty {c : DIContainer σ ι} (h : c.registrations = .empty) (key : Key) :
    c.findRegistration classes key = none := by
  unfold DIContainer.findRegistration
  rw [h]
  cases key with
  | type qualname => rfl
  | string name => rfl

theorem resolveParameter_of_empty (h : s.container.registrations = .empty) {param : Parameter ι}
    (hdefault : param.default.isSome) :
    resolveParameter classes resolver provider param s = .ok (param.default.getD none) s := by
  obtain ⟨object, hobject⟩ := Option.isSome_iff_exists.mp hdefault
  have hnothing : ∀ key, s.container.has classes key = false := by
    intro key
    rw [DIContainer.has, findRegistration_of_empty h]
    rfl
  have hnone : (param.annotation.filter fun _ => false) = none := by simp
  simp only [resolveParameter, run_get_bind, hnothing, hnone, hobject]
  rfl

theorem resolveParameters_of_empty (h : s.container.registrations = .empty)
    {params : List (Parameter ι)} (hdefaults : ∀ param ∈ params, param.default.isSome)
    (arguments : Dict String (Option ι)) :
    resolveParameters classes resolver provider params arguments s =
      .ok (params.foldl (fun arguments param =>
        arguments.set param.name (param.default.getD none)) arguments) s := by
  induction params generalizing arguments with
  | nil => rfl
  | cons param params ih =>
      have hfirst : resolveParameter classes resolver provider param s = _ :=
        resolveParameter_of_empty h (hdefaults param List.mem_cons_self)
      have hrest := ih (fun other ho => hdefaults other (List.mem_cons_of_mem _ ho))
      exact (run_bind_ok hfirst _).trans (hrest _)

-- Where nothing is registered, a provider whose parameters have defaults is called with these.
theorem inject_of_empty (h : s.container.registrations = .empty)
    (hdefaults : ∀ param ∈ Provider.injected provider, param.default.isSome) :
    inject classes resolver provider s = construct provider (Provider.defaults provider) s :=
  run_bind_ok (resolveParameters_of_empty h hdefaults _) _

-- A class that a new container is asked for is built, and left unregistered.
theorem resolve_init {qualname : String} {world world' : σ} {object : Option ι}
    (hdefaults : ∀ param ∈ Provider.injected (classes.constructor qualname), param.default.isSome)
    (hcall : (classes.constructor qualname).call (Provider.defaults (classes.constructor qualname))
      world = .ok object world') (depth : Nat) :
    resolve classes (depth + 1) (.type qualname) ⟨.init, world⟩ = .ok object ⟨.init, world'⟩ := by
  have hconstruct : construct (classes.constructor qualname)
      (Provider.defaults (classes.constructor qualname)) ⟨⟨.empty, [.type qualname]⟩, world⟩ =
        .ok object ⟨⟨.empty, [.type qualname]⟩, world'⟩ := by
    rw [construct, hcall]
  have hinject : inject classes (resolve classes depth) (classes.constructor qualname)
      ⟨⟨.empty, [.type qualname]⟩, world⟩ = _ := (inject_of_empty rfl hdefaults).trans hconstruct
  have hwire : autowire classes (resolve classes depth) qualname
      ⟨⟨.empty, [.type qualname]⟩, world⟩ = .ok object ⟨⟨.empty, [.type qualname]⟩, world'⟩ :=
    run_tryCatch_ok hinject _
  have hfind : (DIContainer.init : DIContainer σ ι).findRegistration classes (.type qualname) = none :=
    findRegistration_of_empty rfl _
  rw [resolve, run_get_bind]
  simp only [hfind, Option.bind_none]
  exact run_bind_ok (run_tryCatch_ok hwire _) _

end Defaults

end Operation

end YasinCore.DI
