import YasinCore.Contracts.Values

namespace YasinCore.Contracts

open YasinCore.Library

variable {φ α : Type}

-- A record that is read from outside, checked, and written.
structure Contract (φ α : Type) where
  fromDict : Value φ → Parse α
  validate : α → Parse Unit
  toDict : α → Parse (Value φ)

section Checks

def requireName (message : String) : Value φ → Parse Unit
  | .scalar (.str s) => if strip s = [] then valueError message else return
  | _ => valueError message

def requireText (message : String) : Value φ → Parse Unit
  | .scalar (.str _) => return
  | _ => valueError message

def validatePid (fieldName : String) : Value φ → Parse Unit
  | .scalar .null => return
  | .scalar (.int n) =>
      if n ≤ 0 then valueError (fieldName ++ " must be a positive integer PID or None.") else return
  | _ => valueError (fieldName ++ " must be a positive integer PID or None.")

end Checks

-- The status, whether it runs and the rest are already of their types when a snapshot is built.
structure ServiceStatus (φ : Type) where
  name : Value φ
  status : ServiceStatusValue
  pid : Value φ
  running : Bool
  message : Value φ
  extra : Entries φ

namespace ServiceStatus

def validate (snapshot : ServiceStatus φ) : Parse Unit := do
  requireName "ServiceStatus.name must be a non-empty string." snapshot.name
  validatePid "pid" snapshot.pid
  requireText "ServiceStatus.message must be a string." snapshot.message

def toDict (snapshot : ServiceStatus φ) : Parse (Value φ) := do
  snapshot.validate
  return .dict (fields [("name", snapshot.name), ("status", text snapshot.status.value),
    ("pid", snapshot.pid), ("running", .scalar (.bool snapshot.running)),
    ("message", snapshot.message), ("extra", .dict snapshot.extra)])

def fromDict (host : Host φ) : Value φ → Parse (ServiceStatus φ)
  | .dict data => do
      let status ← coerceStatusValue host (field "status" (text "UNKNOWN") data)
      let extra ← dictOf host (orElse host (field "extra" (.dict []) data) (.dict []))
      let snapshot := {
        name := field "name" (text "") data
        status := status
        pid := field "pid" (.scalar .null) data
        running := truthy host (field "running" (.scalar (.bool false)) data)
        message := orElse host (field "message" (text "") data) (text "")
        extra := extra }
      snapshot.validate
      return snapshot
  | _ => valueError "ServiceStatus snapshot must be a dict."

def contract (host : Host φ) : Contract φ (ServiceStatus φ) := ⟨fromDict host, validate, toDict⟩

end ServiceStatus

structure ControlResult (φ : Type) where
  service : Value φ
  action : ControlAction
  success : Bool
  status : ServiceStatusValue
  pid : Value φ
  message : Value φ

namespace ControlResult

def validate (verdict : ControlResult φ) : Parse Unit := do
  requireName "ControlResult.service must be a non-empty string." verdict.service
  validatePid "pid" verdict.pid
  requireText "ControlResult.message must be a string." verdict.message

def toDict (verdict : ControlResult φ) : Parse (Value φ) := do
  verdict.validate
  return .dict (fields [("service", verdict.service), ("action", text verdict.action.value),
    ("success", .scalar (.bool verdict.success)), ("status", text verdict.status.value),
    ("pid", verdict.pid), ("message", verdict.message)])

def fromDict (host : Host φ) : Value φ → Parse (ControlResult φ)
  | .dict data => do
      let action ← coerceControlAction host (field "action" (text "") data)
      let status ← coerceStatusValue host (field "status" (text "UNKNOWN") data)
      let verdict := {
        service := field "service" (text "") data
        action := action
        success := truthy host (field "success" (.scalar (.bool false)) data)
        status := status
        pid := field "pid" (.scalar .null) data
        message := orElse host (field "message" (text "") data) (text "") }
      verdict.validate
      return verdict
  | _ => valueError "ControlResult verdict must be a dict."

def contract (host : Host φ) : Contract φ (ControlResult φ) := ⟨fromDict host, validate, toDict⟩

end ControlResult

structure HealthReport (φ : Type) where
  service : Value φ
  state : HealthState
  message : Value φ
  details : Entries φ

namespace HealthReport

def validate (report : HealthReport φ) : Parse Unit := do
  requireName "HealthReport.service must be a non-empty string." report.service
  requireText "HealthReport.message must be a string." report.message

def toDict (report : HealthReport φ) : Parse (Value φ) := do
  report.validate
  return .dict (fields [("service", report.service), ("state", text report.state.value),
    ("message", report.message), ("details", .dict report.details)])

def fromDict (host : Host φ) : Value φ → Parse (HealthReport φ)
  | .dict data => do
      let state ← coerceHealthState host (field "state" (text "UNKNOWN") data)
      let details ← dictOf host (orElse host (field "details" (.dict []) data) (.dict []))
      let report := {
        service := field "service" (text "") data
        state := state
        message := orElse host (field "message" (text "") data) (text "")
        details := details }
      report.validate
      return report
  | _ => valueError "HealthReport snapshot must be a dict."

def contract (host : Host φ) : Contract φ (HealthReport φ) := ⟨fromDict host, validate, toDict⟩

end HealthReport

structure ErrorInfo (φ : Type) where
  code : ErrorCode
  message : Value φ
  details : Entries φ

-- str(value), unless it raises
def strOf (host : Host φ) : Value φ → Option Str
  | .scalar (.str s) => some s
  | value => host.text? value

def redactSecrets (host : Host φ) (value : Value φ) (limit : Int) : Str :=
  match strOf host value with
  | some s => redactText limit s
  | none => .ofString "Unknown error."

namespace ErrorInfo

-- The constructor, with __post_init__
def init (host : Host φ) (code : ErrorCode) (message : Value φ) (details : Entries φ) :
    ErrorInfo φ :=
  ⟨code, .scalar (.str (redactSecrets host message 500)), details⟩

def validate (record : ErrorInfo φ) : Parse Unit :=
  requireText "ErrorInfo.message must be a string." record.message

def toDict (record : ErrorInfo φ) : Parse (Value φ) := do
  record.validate
  return .dict (fields [("code", text record.code.value), ("message", record.message),
    ("details", .dict record.details)])

def fromDict (host : Host φ) : Value φ → Parse (ErrorInfo φ)
  | .dict data => do
      let code ← coerceErrorCode host (field "code" (text "UNKNOWN") data)
      let details ← dictOf host (orElse host (field "details" (.dict []) data) (.dict []))
      let record := init host code (orElse host (field "message" (text "") data) (text "")) details
      record.validate
      return record
  | _ => valueError "ErrorInfo record must be a dict."

def contract (host : Host φ) : Contract φ (ErrorInfo φ) := ⟨fromDict host, validate, toDict⟩

end ErrorInfo

end YasinCore.Contracts
