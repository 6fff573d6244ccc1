import YasinCore.Contracts.Idempotence
import Mathlib.Data.List.DropRight
import Mathlib.Data.List.Sort

namespace YasinCore.Contracts

open YasinCore.Library

variable {φ α : Type}

-- What a key of a dictionary can be.
inductive Key (φ : Type)
  | null
  | bool (value : Bool)
  | int (value : Int)
  | float (value : φ)
  | str (value : Str)

-- A value as JSON has them, and also with keys of dictionaries that are not strings.
inductive Value (φ : Type)
  | scalar (key : Key φ)
  | list (items : List (Value φ))
  | dict (entries : List (Key φ × Value φ))

abbrev Entries (φ : Type) := List (Key φ × Value φ)

def isCapital (c : CodePoint) : Bool := (0x41 ≤ c.val && c.val ≤ 0x5a) || c = .ofChar '_'

def isSmall (c : CodePoint) : Bool := (0x61 ≤ c.val && c.val ≤ 0x7a) || c = .ofChar '_'

-- What the contracts use of the interpreter: whether a number is zero, the texts that repr and str
-- give (the second one can raise), the conversions of case, which leave alone what is in that case
-- already, and when two keys of a dictionary are the same one.
structure Host (φ : Type) where
  isZero : φ → Bool
  repr : Value φ → Str
  text? : Value φ → Option Str
  upper : Str → Str
  lower : Str → Str
  sameKey : Key φ → Key φ → Bool
  upper_eq : ∀ s, s.all isCapital = true → upper s = s
  lower_eq : ∀ s, s.all isSmall = true → lower s = s

inductive Raised
  | value (message : Str)
  | type (message : Str)

abbrev Parse := Except Raised

def valueError (message : String) : Parse α := throw (.value (.ofString message))

def typeError (message : String) : Parse α := throw (.type (.ofString message))

def text (s : String) : Value φ := .scalar (.str (.ofString s))

def fields (entries : List (String × Value φ)) : Entries φ :=
  entries.map fun entry => (.str (.ofString entry.1), entry.2)

-- data.get(name, default)
def field (name : String) (default : Value φ) : Entries φ → Value φ
  | [] => default
  | (.str key, value) :: rest =>
      if key = .ofString name then value else field name default rest
  | _ :: rest => field name default rest

def truthy (host : Host φ) : Value φ → Bool
  | .scalar .null => false
  | .scalar (.bool value) => value
  | .scalar (.int n) => n ≠ 0
  | .scalar (.float x) => !host.isZero x
  | .scalar (.str s) => !s.isEmpty
  | .list items => !items.isEmpty
  | .dict entries => !entries.isEmpty

-- value or other
def orElse (host : Host φ) (value other : Value φ) : Value φ :=
  if truthy host value then value else other

def strip (s : Str) : Str := (s.dropWhile isSpace).rdropWhile isSpace

section Dictionaries

def Key.typeName : Key φ → String
  | .null => "NoneType"
  | .bool _ => "bool"
  | .int _ => "int"
  | .float _ => "float"
  | .str _ => "str"

-- What one comes upon in going through a value.
def elements : Value φ → Option (List (Value φ))
  | .scalar (.str s) => some (s.map fun c => .scalar (.str [c]))
  | .scalar _ => none
  | .list items => some items
  | .dict entries => some (entries.map fun entry => .scalar entry.1)

def toPair (index : Nat) (item : Value φ) : Parse (Key φ × Value φ) :=
  match elements item with
  | none => typeError ("cannot convert dictionary update sequence element #" ++ toString index ++
      " to a sequence")
  | some [.scalar key, value] => return (key, value)
  | some [.list _, _] => typeError "unhashable type: 'list'"
  | some [.dict _, _] => typeError "unhashable type: 'dict'"
  | some items => valueError ("dictionary update sequence element #" ++ toString index ++
      " has length " ++ toString items.length ++ "; 2 is required")

-- A key that is already there stays as it is.
def put (host : Host φ) (key : Key φ) (value : Value φ) : Entries φ → Entries φ
  | [] => [(key, value)]
  | (other, old) :: rest =>
      if host.sameKey other key then (other, value) :: rest
      else (other, old) :: put host key value rest

def putAll (host : Host φ) (index : Nat) (entries : Entries φ) : List (Value φ) → Parse (Entries φ)
  | [] => return entries
  | item :: items => do
      let (key, value) ← toPair index item
      putAll host (index + 1) (put host key value entries) items

-- dict(value)
def dictOf (host : Host φ) : Value φ → Parse (Entries φ)
  | .dict entries => return entries
  | .list items => putAll host 0 [] items
  | .scalar (.str s) => putAll host 0 [] (s.map fun c => .scalar (.str [c]))
  | .scalar key => typeError ("'" ++ key.typeName ++ "' object is not iterable")

end Dictionaries

section Coercions

-- The values in an error message, in order.
def allowed (values : List String) : String :=
  "[" ++ ", ".intercalate ((values.insertionSort (· ≤ ·)).map fun value => "'" ++ value ++ "'") ++ "]"

-- A member of an enumeration by its text, in whatever case and with blanks around it.
def coerce (host : Host φ) (members : List (Str × α)) (normalize : Str → Str) (what : String)
    (values : List String) (value : Value φ) : Parse α :=
  let unknown : Parse α := throw (.value (.ofString ("Unknown " ++ what ++ " ") ++ host.repr value ++
    .ofString ("; expected one of " ++ allowed values ++ ".")))
  match value with
  | .scalar (.str s) =>
      match Library.Entries.lookup (normalize (strip s)) members with
      | some member => return member
      | none => unknown
  | _ => unknown

inductive ServiceStatusValue
  | running
  | stopped
  | failed
  | unknown
  | idle
  | success
  | stale
  deriving DecidableEq

namespace ServiceStatusValue

def value : ServiceStatusValue → String
  | running => "RUNNING"
  | stopped => "STOPPED"
  | failed => "FAILED"
  | unknown => "UNKNOWN"
  | idle => "IDLE"
  | success => "SUCCESS"
  | stale => "STALE"

def all : List ServiceStatusValue := [running, stopped, failed, unknown, idle, success, stale]

end ServiceStatusValue

inductive ControlAction
  | start
  | stop
  | restart
  deriving DecidableEq

namespace ControlAction

def value : ControlAction → String
  | start => "start"
  | stop => "stop"
  | restart => "restart"

def all : List ControlAction := [start, stop, restart]

end ControlAction

inductive HealthState
  | healthy
  | degraded
  | unhealthy
  | unknown
  deriving DecidableEq

namespace HealthState

def value : HealthState → String
  | healthy => "HEALTHY"
  | degraded => "DEGRADED"
  | unhealthy => "UNHEALTHY"
  | unknown => "UNKNOWN"

def all : List HealthState := [healthy, degraded, unhealthy, unknown]

end HealthState

inductive ErrorCode
  | unknown
  | invalid
  | notFound
  | unavailable
  | timeout
  | refused
  | conflict
  deriving DecidableEq

namespace ErrorCode

def value : ErrorCode → String
  | unknown => "UNKNOWN"
  | invalid => "INVALID"
  | notFound => "NOT_FOUND"
  | unavailable => "UNAVAILABLE"
  | timeout => "TIMEOUT"
  | refused => "REFUSED"
  | conflict => "CONFLICT"

def all : List ErrorCode := [unknown, invalid, notFound, unavailable, timeout, refused, conflict]

end ErrorCode

-- The members by their texts; where the source has them by their names, the names are the texts.
def members (all : List α) (value : α → String) : List (Str × α) :=
  all.map fun member => (.ofString (value member), member)

def coerceStatusValue (host : Host φ) : Value φ → Parse ServiceStatusValue :=
  coerce host (members ServiceStatusValue.all ServiceStatusValue.value) host.upper "service status"
    (ServiceStatusValue.all.map ServiceStatusValue.value)

def coerceControlAction (host : Host φ) : Value φ → Parse ControlAction :=
  coerce host (members ControlAction.all ControlAction.value) host.lower "control action"
    (ControlAction.all.map ControlAction.value)

def coerceHealthState (host : Host φ) : Value φ → Parse HealthState :=
  coerce host (members HealthState.all HealthState.value) host.upper "health state"
    (HealthState.all.map HealthState.value)

def coerceErrorCode (host : Host φ) : Value φ → Parse ErrorCode :=
  coerce host (members ErrorCode.all ErrorCode.value) host.upper "error code"
    (ErrorCode.all.map ErrorCode.value)

end Coercions

end YasinCore.Contracts
