import YasinCore.Library.Text
import YasinCore.Library.Tree
import Mathlib.Data.Finset.Insert
import Mathlib.Data.List.Dedup

namespace YasinCore.Config

open YasinCore.Library

export YasinCore.Library (Tree)

variable {α : Type}

abbrev Entries (α : Type) := List (String × Tree α)

-- A schema rule; the type is given by its name and its test, and None is the absent default.
structure Rule (α : Type) where
  typeName : String
  isInstance : Tree α → Bool
  required : Bool
  default : Tree α
  validator : Option (Tree α → Bool)
  sensitive : Bool

-- The first three are the failures of validate, the last one is what assigning into something that
-- is no dictionary raises.
inductive ConfigError (α : Type)
  | missing (key : String)
  | wrongType (key typeName : String) (value : Tree α)
  | rejected (key : String) (value : Tree α)
  | noDict (path : Path)

structure ConfigurationManager (α : Type) where
  defaults : Entries α
  fileData : Entries α
  envData : Entries α
  overrides : Entries α
  mergedData : Entries α
  schemas : Dict String (Rule α)
  sensitiveKeys : Finset String

-- The functions of the interpreter that the environment is read with: str.lower, the conversion of
-- _parse_env_value, and the order in which a set of keys is enumerated.
structure Host (α : Type) where
  lower : String → String
  parse : String → Tree α
  enumerate : List String → List String

-- What reload finds outside: the two files, none where a file does not exist, and the environment.
structure Sources (α : Type) where
  defaultYaml : Option (Tree α)
  configYaml : Option (Tree α)
  samePath : Bool
  environ : List (String × String)

abbrev Operation (α : Type) := EStateM (ConfigError α) (ConfigurationManager α)

namespace ConfigurationManager

-- What the constructor sets up before it reloads.
def blank : ConfigurationManager α where
  defaults := []
  fileData := []
  envData := []
  overrides := []
  mergedData := []
  schemas := .empty
  sensitiveKeys := ∅

-- _load_yaml; a file that cannot be parsed counts as one without a dictionary.
def loadYaml : Option (Tree α) → Entries α
  | some (.dict entries) => entries
  | _ => []

def setDeep (d : Entries α) (parts : Path) (val : Tree α) : Except (ConfigError α) (Entries α) :=
  match Tree.put val (some (.dict d)) parts with
  | some (.dict entries) => .ok entries
  | _ => .error (.noDict parts)

def mergeConfigs (m : ConfigurationManager α) : Entries α :=
  Tree.mergeEntries m.overrides (Tree.mergeEntries m.envData (Tree.mergeEntries m.fileData m.defaults))

-- The loop of get: a missing key yields the default, and the search goes on inside of it.
def walk (default : Tree α) : Tree α → Path → Tree α
  | value, [] => value
  | .dict entries, item :: keys =>
      walk default ((Library.Entries.lookup item entries).getD default) keys
  | _, _ :: _ => default

def get (m : ConfigurationManager α) (key : String) (default : Tree α) : Tree α :=
  match walk default (.dict m.mergedData) (Text.split '.' key) with
  | .null => default
  | value => value

def validateRule (key : String) (rule : Rule α) (val : Tree α) : Except (ConfigError α) Unit :=
  match val with
  | .null => if rule.required then .error (.missing key) else .ok ()
  | val =>
      if !rule.isInstance val then .error (.wrongType key rule.typeName val)
      else
        match rule.validator with
        | some validator => if validator val then .ok () else .error (.rejected key val)
        | none => .ok ()

def flatKeys (host : Host α) (m : ConfigurationManager α) : List String :=
  host.enumerate (((Tree.flattenEntries "" m.defaults []).map Prod.fst ++ m.schemas.keys).dedup)

def replaceChar (old new : Char) (s : String) : String := s.map fun c => if c = old then new else c

def setNestedValue (host : Host α) (m : ConfigurationManager α) (target : Entries α) (envKey : String)
    (val : Tree α) : Except (ConfigError α) (Entries α) :=
  let envKeyLower := host.lower envKey
  if (envKey.splitOn "__").length > 1 then
    setDeep target (envKeyLower.splitOn "__") val
  else
    let found := (flatKeys host m).find? fun key => replaceChar '.' '_' key = envKeyLower
    match found.filter (· ≠ "") with
    | some key => setDeep target (Text.split '.' key) val
    | none =>
        let matchKey := replaceChar '_' '.' envKeyLower
        if matchKey ∈ flatKeys host m then setDeep target (Text.split '.' matchKey) val
        else setDeep target (Text.split '_' envKeyLower) val

def loadEnvOverrides (host : Host α) (m : ConfigurationManager α) (environ : List (String × String)) :
    Except (ConfigError α) (Entries α) :=
  environ.foldlM (fun envData entry =>
    if entry.1.startsWith "YASIN_" then
      setNestedValue host m envData (entry.1.drop 6).toString (host.parse entry.2)
    else .ok envData) []

end ConfigurationManager

namespace Operation

open ConfigurationManager

def lift {β : Type} (result : Except (ConfigError α) β) : Operation α β :=
  match result with
  | .ok value => pure value
  | .error e => throw e

def validate : Operation α Unit := do
  let m ← get
  m.schemas.entries.forM fun entry => lift (validateRule entry.1 entry.2 (m.get entry.1 .null))

def remerge : Operation α Unit :=
  modify fun m => { m with mergedData := m.mergeConfigs }

def setDefault (parts : Path) (val : Tree α) : Operation α Unit := do
  let defaults ← lift (setDeep (← get).defaults parts val)
  modify fun m => { m with defaults := defaults }

def applyDefault (key : String) (default : Tree α) : Operation α Unit :=
  match default with
  | .null => pure ()
  | default => setDefault (Text.split '.' key) default

def registerSchema (key : String) (rule : Rule α) : Operation α Unit := do
  modify fun m => { m with
    schemas := m.schemas.set key rule
    sensitiveKeys := if rule.sensitive then insert key m.sensitiveKeys else m.sensitiveKeys }
  applyDefault key rule.default
  remerge
  validate

def pluginKey (pluginName key : String) : String := "plugins." ++ pluginName ++ "." ++ key

def registerPluginConfig (pluginName : String) (defaults : Entries α) (schema : Dict String (Rule α)) :
    Operation α Unit := do
  (Tree.flattenEntries "" defaults []).forM fun entry =>
    setDefault (Text.split '.' (pluginKey pluginName entry.1)) entry.2
  if schema.entries ≠ [] then
    schema.entries.forM fun entry => registerSchema (pluginKey pluginName entry.1) entry.2
  else remerge

def set (key : String) (value : Tree α) : Operation α Unit := do
  let overrides ← lift (setDeep (← get).overrides (Text.split '.' key) value)
  modify fun m => { m with overrides := overrides }
  remerge
  validate

def reload (host : Host α) (sources : Sources α) : Operation α Unit := do
  modify fun m => { m with
    defaults := loadYaml sources.defaultYaml
    fileData := if sources.samePath then [] else loadYaml sources.configYaml }
  let envData ← lift (loadEnvOverrides host (← get) sources.environ)
  modify fun m => { m with envData := envData }
  remerge
  validate

end Operation

-- The calls of a client; load and initialize reload as well.
inductive Action (α : Type)
  | registerSchema (key : String) (rule : Rule α)
  | registerPluginConfig (pluginName : String) (defaults : Entries α) (schema : Dict String (Rule α))
  | set (key : String) (value : Tree α)
  | reload (sources : Sources α)
  | load (sources : Sources α)
  | initializeService (sources : Sources α)

def Action.operation (host : Host α) : Action α → Operation α Unit
  | .registerSchema key rule => Operation.registerSchema key rule
  | .registerPluginConfig pluginName defaults schema =>
      Operation.registerPluginConfig pluginName defaults schema
  | .set key value => Operation.set key value
  | .reload sources | .load sources | .initializeService sources => Operation.reload host sources

-- One call that does not raise.
def step (host : Host α) (m : ConfigurationManager α) (act : Action α) :
    Option (ConfigurationManager α) :=
  match act.operation host m with
  | .ok _ t => some t
  | .error _ _ => none

end YasinCore.Config
