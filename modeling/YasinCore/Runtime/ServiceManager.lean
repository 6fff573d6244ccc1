import YasinCore.Library.Dict
import Mathlib.Data.List.Sort
import Mathlib.Data.String.Basic

namespace YasinCore.Runtime

open YasinCore.Library

abbrev ServiceName := String

inductive ServiceState
  | uninitialized
  | initializing
  | active
  | failed
  | stopped
  deriving DecidableEq, Repr

structure ServiceMetadata where
  name : ServiceName
  version : String
  dependencies : List ServiceName
  deriving DecidableEq

inductive ServiceError
  | duplicate (message : String)
  | missingDependency (message : String)
  | circularDependency (message : String)
  | notFound (message : String)
  | dependency (name : ServiceName) (dependents : List ServiceName)
  | service (message : String)
  deriving DecidableEq

def ServiceError.message : ServiceError → String
  | .duplicate message | .missingDependency message | .circularDependency message
  | .notFound message | .service message => message
  | .dependency name dependents =>
      "Cannot unregister service '" ++ name ++ "' because other services depend on it: [" ++
        ", ".intercalate (dependents.map fun dependent => "'" ++ dependent ++ "'") ++ "]"

-- What the hooks of the services do during one call: the text of the exception that a hook raises.
abbrev Hooks := ServiceName → Option String

-- A shutdown hook has returned, with the manager as the hook has seen it.
structure Stop (Manager : Type) where
  name : ServiceName
  manager : Manager

-- The three dictionaries always have the same keys.
structure RuntimeServiceManager (Service : Type) where
  services : Dict ServiceName Service
  metadata : Dict ServiceName ServiceMetadata
  states : Dict ServiceName ServiceState
  isInitialized : Bool
  metadata_keys : metadata.keys = services.keys
  states_keys : states.keys = services.keys

namespace RuntimeServiceManager

variable {Service : Type}

def init : RuntimeServiceManager Service := ⟨.empty, .empty, .empty, false, rfl, rfl⟩

def registerService (m : RuntimeServiceManager Service) (service : Service)
    (metadata : ServiceMetadata) : Except ServiceError (RuntimeServiceManager Service) :=
  if metadata.name ∈ m.services then
    .error (.duplicate ("Service with name '" ++ metadata.name ++ "' is already registered."))
  else
    .ok
      { services := m.services.set metadata.name service
        metadata := m.metadata.set metadata.name metadata
        states := m.states.set metadata.name .uninitialized
        isInitialized := m.isInitialized
        metadata_keys := Dict.keys_set_congr m.metadata_keys _ _ _
        states_keys := Dict.keys_set_congr m.states_keys _ _ _ }

-- The pairs of a service and one of its dependencies, in the order of the nested loops.
def dependencyPairs (m : RuntimeServiceManager Service) : List (ServiceName × ServiceName) :=
  m.metadata.entries.flatMap fun entry => entry.2.dependencies.map fun dep => (entry.1, dep)

abbrev Graph := Dict ServiceName (List ServiceName)

abbrev Indegree := Dict ServiceName Int

def neighbors (graph : Graph) (node : ServiceName) : List ServiceName := (graph.get? node).getD []

def degree (indegree : Indegree) (node : ServiceName) : Int := (indegree.get? node).getD 0

def addEdge (acc : Graph × Indegree) (edge : ServiceName × ServiceName) : Graph × Indegree :=
  (acc.1.set edge.2 (neighbors acc.1 edge.2 ++ [edge.1]),
    acc.2.set edge.1 (degree acc.2 edge.1 + 1))

def buildGraph (m : RuntimeServiceManager Service) : Graph × Indegree :=
  m.dependencyPairs.foldl addEdge
    (m.services.mapValues fun _ _ => [], m.services.mapValues fun _ _ => 0)

-- One edge of a node that has been taken: its neighbor may become ready.
def relax (acc : Indegree × List ServiceName) (neighbor : ServiceName) : Indegree × List ServiceName :=
  let remaining := degree acc.1 neighbor - 1
  (acc.1.set neighbor remaining, if remaining = 0 then acc.2 ++ [neighbor] else acc.2)

-- The loop takes every service at most once, so the number of services is fuel enough.
def startupLoop (graph : Graph) : Nat → List ServiceName → Indegree → List ServiceName → List ServiceName
  | _, [], _, order => order
  | 0, _ :: _, _, order => order
  | fuel + 1, node :: queue, indegree, order =>
      let (indegree, queue) := (neighbors graph node).foldl relax (indegree, queue)
      startupLoop graph fuel (queue.insertionSort (· ≤ ·)) indegree (order ++ [node])

-- _get_startup_order
def getStartupOrder (m : RuntimeServiceManager Service) : Except ServiceError (List ServiceName) :=
  match m.dependencyPairs.find? fun edge => edge.2 ∉ m.services with
  | some edge => .error (.missingDependency
      ("Service '" ++ edge.1 ++ "' depends on '" ++ edge.2 ++ "', which is not registered."))
  | none =>
      let (graph, indegree) := m.buildGraph
      let queue := (m.services.keys.filter fun name => degree indegree name = 0).insertionSort (· ≤ ·)
      let order := startupLoop graph m.services.size queue indegree []
      if order.length < m.services.size then
        .error (.circularDependency "Circular dependency detected among services.")
      else .ok order

def state? (m : RuntimeServiceManager Service) (name : ServiceName) : Option ServiceState :=
  m.states.get? name

-- Rewrites the state of a registered service.
def setState (m : RuntimeServiceManager Service) (name : ServiceName) (state : ServiceState) :
    RuntimeServiceManager Service :=
  { m with
    states := m.states.mapValues fun other old => if other = name then state else old
    states_keys := by rw [Dict.keys_mapValues, m.states_keys] }

def remove (m : RuntimeServiceManager Service) (name : ServiceName) : RuntimeServiceManager Service :=
  { services := m.services.erase name
    metadata := m.metadata.erase name
    states := m.states.erase name
    isInitialized := m.isInitialized
    metadata_keys := Dict.keys_erase_congr m.metadata_keys name
    states_keys := Dict.keys_erase_congr m.states_keys name }

def dependents (m : RuntimeServiceManager Service) (name : ServiceName) : List ServiceName :=
  (m.metadata.entries.filter fun entry => name ∈ entry.2.dependencies).map Prod.fst

-- A hook that raises is logged, and the service is removed all the same.
def unregisterService (m : RuntimeServiceManager Service) (name : ServiceName) (hooks : Hooks) :
    Except ServiceError (RuntimeServiceManager Service × List (Stop (RuntimeServiceManager Service))) :=
  if name ∉ m.services then
    .error (.notFound ("Service '" ++ name ++ "' is not registered."))
  else if m.dependents name ≠ [] then .error (.dependency name (m.dependents name))
  else
    .ok (m.remove name,
      if m.state? name = some .active ∧ hooks name = none then [⟨name, m⟩] else [])

-- The services in their order, up to the first one whose hook raises.
def initializeLoop (hooks : Hooks) : List ServiceName → RuntimeServiceManager Service →
    Option ServiceError × RuntimeServiceManager Service
  | [], m => (none, { m with isInitialized := true })
  | name :: rest, m =>
      let m := m.setState name .initializing
      match hooks name with
      | none => initializeLoop hooks rest (m.setState name .active)
      | some error =>
          (some (.service ("Service '" ++ name ++ "' initialization failed: " ++ error)),
            m.setState name .failed)

def initializeServices (m : RuntimeServiceManager Service) (hooks : Hooks) :
    Option ServiceError × RuntimeServiceManager Service :=
  if m.isInitialized then (none, m)
  else
    match m.getStartupOrder with
    | .error error => (some error, m)
    | .ok order => initializeLoop hooks order m

-- The reverse of the startup order, or of the registration order when the graph is invalid.
def shutdownOrder (m : RuntimeServiceManager Service) : List ServiceName :=
  match m.getStartupOrder with
  | .ok order => order.reverse
  | .error _ => m.services.keys.reverse

-- An active service whose hook raises stays active.
def shutdownOne (hooks : Hooks)
    (acc : RuntimeServiceManager Service × List (Stop (RuntimeServiceManager Service)))
    (name : ServiceName) :
    RuntimeServiceManager Service × List (Stop (RuntimeServiceManager Service)) :=
  if acc.1.state? name = some .active then
    match hooks name with
    | none => (acc.1.setState name .stopped, acc.2 ++ [⟨name, acc.1⟩])
    | some _ => acc
  else acc

def shutdown (m : RuntimeServiceManager Service) (hooks : Hooks) :
    RuntimeServiceManager Service × List (Stop (RuntimeServiceManager Service)) :=
  let (m, stops) := m.shutdownOrder.foldl (shutdownOne hooks) (m, [])
  ({ m with isInitialized := false }, stops)

-- The reload hooks of the active services in their order; no state changes.
def reload (m : RuntimeServiceManager Service) (hooks : Hooks) : Option ServiceError :=
  match m.getStartupOrder with
  | .error error =>
      some (.service ("Cannot reload services due to dependency error: " ++ error.message))
  | .ok order =>
      (order.filter fun name => m.state? name = some .active).findSome? fun name =>
        (hooks name).map fun error =>
          .service ("Service '" ++ name ++ "' reload failed: " ++ error)

end RuntimeServiceManager

end YasinCore.Runtime
