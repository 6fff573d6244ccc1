import YasinCore.Library.Json
import YasinCore.Library.RecentLog

namespace YasinCore.Events

open YasinCore.Library

variable {η κ : Type}

-- What an event carries besides its name is for its handlers.
structure Event (κ : Type) where
  name : Str
  content : κ

-- An event is published as an object or by its name.
inductive Published (κ : Type)
  | object (event : Event κ)
  | named (name : Str) (content : κ)

def Published.event : Published κ → Event κ
  | .object event => event
  | .named name content => ⟨name, content⟩

-- The exceptions that are not there to end the process.
inductive Raised
  | runtimeError (message : String)
  | exception (message : String)
  deriving DecidableEq

structure Subscription (η κ : Type) where
  handler : η
  filterFunc : Option (Event κ → Except Raised Bool)
  asyncHandle : Bool

structure EventBus (η κ : Type) where
  subscriptions : Dict Str (List (Subscription η κ))
  listeners : Dict Str (List η)
  history : List (Event κ)
  maxHistorySize : Int
  isShutdown : Bool

def wildcard : Str := .ofString "*"

namespace EventBus

def init (maxHistorySize : Int) : EventBus η κ := ⟨.empty, .empty, [], maxHistorySize, false⟩

def subscribed (bus : EventBus η κ) (event : Str) : List (Subscription η κ) :=
  (bus.subscriptions.get? event).getD []

variable [DecidableEq η]

def subscribe (event : Str) (callback : η) (filterFunc : Option (Event κ → Except Raised Bool))
    (asyncHandle : Bool) (bus : EventBus η κ) : EventBus η κ :=
  if (bus.subscribed event).any (·.handler = callback) then bus
  else
    { bus with
      subscriptions := bus.subscriptions.set event
        (bus.subscribed event ++ [⟨callback, filterFunc, asyncHandle⟩])
      listeners := bus.listeners.set event ((bus.listeners.get? event).getD [] ++ [callback]) }

-- Keeps some of the members under a key, which is given up when there are none left.
def keepUnder {α : Type} (keep : α → Bool) (key : Str) (dict : Dict Str (List α)) :
    Dict Str (List α) :=
  match dict.get? key with
  | some members =>
      if (members.filter keep).isEmpty then dict.erase key else dict.set key (members.filter keep)
  | none => dict

def unsubscribe (event : Str) (callback : η) (bus : EventBus η κ) : EventBus η κ :=
  { bus with
    subscriptions := keepUnder (fun sub => sub.handler ≠ callback) event bus.subscriptions
    listeners := keepUnder (fun handler => handler ≠ callback) event bus.listeners }

def clear (bus : EventBus η κ) : EventBus η κ :=
  { bus with subscriptions := .empty, listeners := .empty }

def appendHistory (event : Event κ) (bus : EventBus η κ) : EventBus η κ :=
  let history := bus.history ++ [event]
  { bus with
    history := if bus.maxHistorySize < history.length then history.tail else history }

end EventBus

def Event.hasName (eventName : Option Str) (event : Event κ) : Bool :=
  RecentLog.wanted eventName (fun name event => event.name = name) event

-- An empty name is no filter.
def EventBus.getHistory (limit : Option Int) (eventName : Option Str) (bus : EventBus η κ) :
    List (Event κ) :=
  RecentLog.recent limit (bus.history.filter (Event.hasName (eventName.filter (· ≠ []))))

-- The calls that change who is served.
inductive Change (η κ : Type)
  | subscribe (event : Str) (callback : η) (filterFunc : Option (Event κ → Except Raised Bool))
      (asyncHandle : Bool)
  | unsubscribe (event : Str) (callback : η)
  | clear

def EventBus.change [DecidableEq η] (bus : EventBus η κ) : Change η κ → EventBus η κ
  | .subscribe event callback filterFunc asyncHandle =>
      bus.subscribe event callback filterFunc asyncHandle
  | .unsubscribe event callback => bus.unsubscribe event callback
  | .clear => bus.clear

-- The code of the handlers: a coroutine function is one that is declared as such; any other is called,
-- may change the subscriptions and may raise.
structure Handlers (η κ : Type) where
  isCoroutine : η → Bool
  changes : η → Event κ → List (Change η κ)
  outcome : η → Event κ → Except Raised Unit

-- How an event gets to a handler: by a call, by the pool of threads or by a loop.
inductive Mode
  | called
  | submitted
  | scheduled
  deriving DecidableEq

structure Delivery (η κ : Type) where
  mode : Mode
  subscription : Subscription η κ
  event : Event κ

-- A bus and everything it has delivered.
structure World (η κ : Type) where
  bus : EventBus η κ
  deliveries : List (Delivery η κ)

abbrev Program (η κ : Type) := EStateM Raised (World η κ)

namespace Program

def deliver (mode : Mode) (sub : Subscription η κ) (event : Event κ) : Program η κ Unit :=
  modify fun w => { w with deliveries := w.deliveries ++ [⟨mode, sub, event⟩] }

-- Where there is no executor and the bus is not shut down, one is made.
def getExecutor : Program η κ Unit := do
  if (← get).bus.isShutdown then
    throw (.runtimeError "Cannot get executor: EventBus is shut down.")

-- What is submitted raises nothing that is seen here.
def submit (mode : Mode) (sub : Subscription η κ) (event : Event κ) : Program η κ Unit :=
  tryCatch (do getExecutor; deliver mode sub event) fun
    | .runtimeError _ => pure ()
    | raised => throw raised

def ofExcept {α : Type} : Except Raised α → Program η κ α
  | .ok value => pure value
  | .error raised => throw raised

section Publish

variable [DecidableEq η] (handlers : Handlers η κ)

def safeExecuteHandler (sub : Subscription η κ) (event : Event κ) : Program η κ Unit :=
  tryCatch (do
    deliver .called sub event
    modify fun w => { w with bus := (handlers.changes sub.handler event).foldl .change w.bus }
    ofExcept (handlers.outcome sub.handler event)) fun _ => pure ()

-- With a loop that runs in this thread, or without.
def executeAsyncHandler (running : Bool) (sub : Subscription η κ) (event : Event κ) :
    Program η κ Unit :=
  if running then deliver .scheduled sub event else submit .submitted sub event

def createTask (sub : Subscription η κ) (event : Event κ) : Program η κ Unit :=
  deliver .scheduled sub event

def accepted (sub : Subscription η κ) (event : Event κ) : Program η κ Bool :=
  match sub.filterFunc with
  | some filterFunc => tryCatch (ofExcept (filterFunc event)) fun _ => pure false
  | none => pure true

def serve (coroutine : Subscription η κ → Event κ → Program η κ Unit) (event : Event κ)
    (sub : Subscription η κ) : Program η κ Unit := do
  if ← accepted sub event then
    if handlers.isCoroutine sub.handler then coroutine sub event
    else if sub.asyncHandle then submit .submitted sub event
    else safeExecuteHandler handlers sub event

-- What publish and async_publish have in common.
def serveAll (coroutine : Subscription η κ → Event κ → Program η κ Unit) (event : Event κ) :
    Program η κ Unit := do
  modify fun w => { w with bus := w.bus.appendHistory event }
  let bus := (← get).bus
  let allSubs := bus.subscribed event.name ++ bus.subscribed wildcard
  allSubs.forM (serve handlers coroutine event)

def publish (running : Bool) (published : Published κ) : Program η κ Unit :=
  serveAll handlers (executeAsyncHandler running) published.event

def asyncPublish (published : Published κ) : Program η κ Unit :=
  serveAll handlers createTask published.event

end Publish

end Program

end YasinCore.Events
