import YasinCore.Library.Dict
import YasinCore.Library.Text

namespace YasinCore.Plugins

open YasinCore.Library

abbrev PluginName := String

inductive PluginState
  | registered
  | loaded
  | active
  | stopped
  | failed
  deriving DecidableEq, Repr

structure YasinPlugin where
  name : PluginName
  version : String
  dependencies : List PluginName
  coreVersionCompat : String
  deriving DecidableEq

-- The hooks of a plugin that the registry calls.
inductive Hook
  | init
  | load
  | start
  | stop
  | unload
  deriving DecidableEq, Repr

-- The exceptions that leave a registry operation.
inductive PluginError
  | notFound (name : PluginName)
  | dependents (name : PluginName) (others : List PluginName)
  | circular (name : PluginName)
  | missing (name : PluginName)
  | incompatible (name : PluginName) (version : String) (core : String) (compat : String)
  | invalidNumber (text : String)
  | recursion
  | hook (message : String)
  | failed (stage : String) (name : PluginName) (cause : PluginError)
  deriving DecidableEq

-- The list of names as a message shows it, for names without quotes, backslashes or unprintable
-- characters.
def showNames (names : List PluginName) : String :=
  "[" ++ ", ".intercalate (names.map fun name => "'" ++ name ++ "'") ++ "]"

def PluginError.str : PluginError → String
  | .notFound name => "Plugin '" ++ name ++ "' is not registered."
  | .dependents name others => "Cannot unregister '" ++ name ++
      "' because other plugins depend on it: " ++ showNames others
  | .circular name => "Circular dependency detected containing plugin '" ++ name ++ "'."
  | .missing name => "Dependency '" ++ name ++ "' is not registered."
  | .incompatible name version core compat => "Plugin '" ++ name ++ "' version " ++ version ++
      " is incompatible with Core version " ++ core ++ " (requires '" ++ compat ++ "')."
  | .invalidNumber text => "invalid literal for int() with base 10: '" ++ text ++ "'"
  | .recursion => "maximum recursion depth exceeded"
  | .hook message => message
  | .failed stage name cause => "Failed to " ++ stage ++ " plugin '" ++ name ++ "': " ++ cause.str

-- What happens in a registry, as far as it can be seen from outside.
inductive Record
  | registered (name : PluginName)
  | called (name : PluginName) (hook : Hook) (state : PluginState) (raised : Option String)
  | published (event : String) (name : PluginName) (details : List (String × String))
  deriving DecidableEq

-- The history has the newest record first.
structure Registry where
  plugins : Dict PluginName YasinPlugin
  states : Dict PluginName PluginState
  errors : Dict PluginName String
  history : List Record

-- How the hooks behave: whether a call raises may depend on everything that happened before.
abbrev Hooks := List Record → PluginName → Hook → Option String

-- The operations raise exceptions, and what they did before stays done.
abbrev Operation := EStateM PluginError Registry

def VERSION : String := "3.4.0"

def Registry.empty : Registry := ⟨.empty, .empty, .empty, []⟩

def Registry.state (s : Registry) (name : PluginName) : PluginState :=
  (s.states.get? name).getD .registered

def Registry.dependencies (s : Registry) (name : PluginName) : List PluginName :=
  match s.plugins.get? name with
  | some plugin => plugin.dependencies
  | none => []

def padVersion (parts : List Nat) : List Nat := (parts ++ [0, 0, 0]).take 3

-- A part made of digits that are not all decimal makes int raise.
def parsePart (part : String) : Except PluginError Nat :=
  match Text.nat? part.toList with
  | some n => .ok n
  | none => .error (.invalidNumber part)

def parseVersion (text : String) : Except PluginError (List Nat) := do
  let cleaned := String.ofList (text.toList.filter fun c => Text.isdigit c || c = '.')
  let parts ← ((Text.split '.' cleaned).filter Text.allDigits).mapM parsePart
  return padVersion parts

def operators : List String := [">=", "<=", ">", "<", "==", "!="]

def compareVersions (op : Option String) (core required : List Nat) : Option Bool :=
  match op with
  | some ">=" => some (required ≤ core)
  | some "<=" => some (core ≤ required)
  | some ">" => some (required < core)
  | some "<" => some (core < required)
  | some "==" => some (core = required)
  | some "!=" => some (core ≠ required)
  | _ => none

def checkVersionCompatibility (compatExpr coreVersion : String) : Except PluginError Bool := do
  if compatExpr = "" ∨ compatExpr = "*" then
    return true
  let expr := Text.strip compatExpr
  let core ← parseVersion coreVersion
  if expr.startsWith "^" then
    let required ← parseVersion (Text.strip (expr.drop 1).toString)
    return core.head? = required.head? ∧ required ≤ core
  let op := operators.find? fun op => expr.startsWith op
  let verPart :=
    match op with
    | some op => Text.strip (expr.drop op.length).toString
    | none => expr
  let required ← parseVersion verPart
  match compareVersions op core required with
  | some answer => return answer
  | none => return coreVersion.startsWith expr || core = required

-- The traversal below the given recursion depth; it returns the names visited so far. The names on
-- the stack are those whose dependencies are being checked.
def validateDependencies (plugins : Dict PluginName YasinPlugin) :
    Nat → PluginName → List PluginName → List PluginName → Except PluginError (List PluginName)
  | 0, _, _, _ => .error .recursion
  | depth + 1, name, visited, stack =>
      if name ∈ stack then .error (.circular name)
      else if name ∈ visited then .ok visited
      else
        match plugins.get? name with
        | none => .error (.missing name)
        | some plugin => do
            let compatible ← checkVersionCompatibility plugin.coreVersionCompat VERSION
            if !compatible then
              throw (.incompatible name plugin.version VERSION plugin.coreVersionCompat)
            let visited ← plugin.dependencies.foldlM (fun visited dep =>
              validateDependencies plugins depth dep visited (name :: stack)) visited
            return name :: visited

namespace Operation

def setState (name : PluginName) (state : PluginState) : Operation Unit :=
  modify fun s => { s with states := s.states.set name state }

def clearError (name : PluginName) : Operation Unit :=
  modify fun s => { s with errors := s.errors.erase name }

def setError (name : PluginName) (message : String) : Operation Unit :=
  modify fun s => { s with errors := s.errors.set name message }

def publish (event : String) (name : PluginName) (details : List (String × String)) :
    Operation Unit :=
  modify fun s => { s with history := .published event name details :: s.history }

-- One call of a hook, with the state in which the registry holds the plugin at that moment.
def callHook (hooks : Hooks) (name : PluginName) (hook : Hook) : Operation Unit := do
  let s ← get
  let raised := hooks s.history name hook
  modify fun s => { s with history := .called name hook (s.state name) raised :: s.history }
  match raised with
  | none => pure ()
  | some message => throw (.hook message)

-- The except branch that every lifecycle operation ends with.
def fail (name : PluginName) (stage : String) (e : PluginError) : Operation Unit := do
  setState name .failed
  setError name e.str
  publish "plugin_failed" name [("error", e.str), ("stage", stage)]
  throw (.failed stage name e)

def register (plugin : YasinPlugin) : Operation Unit := do
  modify fun s => { s with
    plugins := s.plugins.set plugin.name plugin
    states := s.states.set plugin.name .registered
    history := .registered plugin.name :: s.history }
  clearError plugin.name
  publish "plugin_registered" plugin.name [("version", plugin.version)]

def validate (depth : Nat) (name : PluginName) : Operation Unit := do
  match validateDependencies (← get).plugins depth name [] [] with
  | .ok _ => pure ()
  | .error e => throw e

-- The hook calls of load_plugin and what follows them, once the dependencies have had their turn.
def completeLoad (hooks : Hooks) (name : PluginName) : Operation Unit := do
  callHook hooks name .init
  callHook hooks name .load
  setState name .loaded
  clearError name
  publish "plugin_loaded" name []

def loadPlugin (hooks : Hooks) : Nat → PluginName → Operation Unit
  | 0, _ => throw .recursion
  | depth + 1, name => do
      let some plugin := (← get).plugins.get? name | throw (.notFound name)
      if (← get).state name ≠ .registered then
        return
      try
        validate depth name
        plugin.dependencies.forM fun dep => do
          if (← get).state dep = .registered then
            loadPlugin hooks depth dep
        completeLoad hooks name
      catch e => fail name "load" e

def stopPlugin (hooks : Hooks) (name : PluginName) : Operation Unit := do
  let some _ := (← get).plugins.get? name | throw (.notFound name)
  if (← get).state name ≠ .active then
    return
  try
    callHook hooks name .stop
    setState name .stopped
    publish "plugin_stopped" name []
  catch e => fail name "stop" e

-- The hook call of unload_plugin and what follows it.
def releasePlugin (hooks : Hooks) (name : PluginName) : Operation Unit := do
  try
    callHook hooks name .unload
    setState name .registered
    publish "plugin_unloaded" name []
  catch e => fail name "unload" e

def unloadPlugin (hooks : Hooks) (name : PluginName) : Operation Unit := do
  let some _ := (← get).plugins.get? name | throw (.notFound name)
  match (← get).state name with
  | .registered => return
  | .active =>
      stopPlugin hooks name
      releasePlugin hooks name
  | .loaded | .stopped | .failed => releasePlugin hooks name

def loadIfRegistered (hooks : Hooks) (depth : Nat) (name : PluginName) : Operation Unit := do
  if (← get).state name = .registered then
    loadPlugin hooks depth name

-- The hook call of start_plugin and what follows it.
def activatePlugin (hooks : Hooks) (name : PluginName) : Operation Unit := do
  try
    callHook hooks name .start
    setState name .active
    publish "plugin_started" name []
  catch e => fail name "start" e

def startPlugin (hooks : Hooks) : Nat → PluginName → Operation Unit
  | 0, _ => throw .recursion
  | depth + 1, name => do
      let some plugin := (← get).plugins.get? name | throw (.notFound name)
      if (← get).state name = .active then
        return
      loadIfRegistered hooks depth name
      plugin.dependencies.forM fun dep => do
        if (← get).state dep ≠ .active then
          startPlugin hooks depth dep
      activatePlugin hooks name

def ignoringErrors (operation : Operation Unit) : Operation Unit :=
  try operation catch _ => pure ()

def runIf (condition : Prop) [Decidable condition] (operation : Operation Unit) : Operation Unit :=
  if condition then operation else pure ()

def unregister (hooks : Hooks) (name : PluginName) : Operation Unit := do
  let s ← get
  runIf (name ∉ s.plugins) (throw (.notFound name))
  let dependents := s.plugins.entries.filterMap fun entry =>
    if entry.1 ≠ name ∧ name ∈ entry.2.dependencies then some entry.1 else none
  runIf (dependents ≠ []) (throw (.dependents name dependents))
  let state := s.states.get? name
  runIf (state = some .active) (ignoringErrors (stopPlugin hooks name))
  runIf (state = some .active ∨ state = some .loaded ∨ state = some .stopped)
    (ignoringErrors (unloadPlugin hooks name))
  modify fun s => { s with
    plugins := s.plugins.erase name
    states := s.states.erase name
    errors := s.errors.erase name }

-- PluginRegistry.initialize
def initializeAll (hooks : Hooks) (depth : Nat) : Operation Unit := do
  (← get).plugins.keys.forM fun name => do
    try
      validate depth name
      loadPlugin hooks depth name
    catch e =>
      setState name .failed
      setError name e.str

def shutdown (hooks : Hooks) : Operation Unit := do
  (← get).plugins.keys.reverse.forM fun name =>
    ignoringErrors do
      runIf ((← get).states.get? name = some .active) (stopPlugin hooks name)
      let state := (← get).states.get? name
      runIf (state = some .loaded ∨ state = some .stopped) (unloadPlugin hooks name)

def reload (hooks : Hooks) (depth : Nat) : Operation Unit := do
  let active := (← get).states.entries.filterMap fun entry =>
    if entry.2 = .active then some entry.1 else none
  shutdown hooks
  initializeAll hooks depth
  active.forM fun name => do
    let s ← get
    if name ∈ s.plugins ∧ s.states.get? name ≠ some .failed then
      ignoringErrors (startPlugin hooks depth name)

end Operation

-- The calls a client makes, those that recurse with the depth the stack has left for them.
inductive Action
  | register (plugin : YasinPlugin)
  | unregister (name : PluginName)
  | loadPlugin (depth : Nat) (name : PluginName)
  | startPlugin (depth : Nat) (name : PluginName)
  | stopPlugin (name : PluginName)
  | unloadPlugin (name : PluginName)
  | initializeAll (depth : Nat)
  | shutdown
  | reload (depth : Nat)

def Action.operation (hooks : Hooks) : Action → Operation Unit
  | .register plugin => Operation.register plugin
  | .unregister name => Operation.unregister hooks name
  | .loadPlugin depth name => Operation.loadPlugin hooks depth name
  | .startPlugin depth name => Operation.startPlugin hooks depth name
  | .stopPlugin name => Operation.stopPlugin hooks name
  | .unloadPlugin name => Operation.unloadPlugin hooks name
  | .initializeAll depth => Operation.initializeAll hooks depth
  | .shutdown => Operation.shutdown hooks
  | .reload depth => Operation.reload hooks depth

end YasinCore.Plugins
