import YasinCore.Library.RecentLog
import YasinCore.Observability.Service

namespace YasinCore.Observability

open YasinCore.Library

variable {φ τ : Type}

-- A record with everything that it is asked for.
structure TrackedError (φ τ : Type) extends ErrorRecord φ where
  tracebackStr : Option Str
  contextId : Option String
  timestamp : τ

structure ErrorLog (φ τ : Type) where
  maxErrors : Nat
  errors : List (TrackedError φ τ)

-- The filters of a query.
structure ErrorQuery (τ : Type) where
  component : Option String
  contextId : Option String
  startTime : Option τ
  endTime : Option τ

namespace ErrorLog

def init (maxErrors : Nat) : ErrorLog φ τ := ⟨maxErrors, []⟩

-- What record_error and record_custom_error end with.
def record (record : TrackedError φ τ) (log : ErrorLog φ τ) : ErrorLog φ τ :=
  let errors := log.errors ++ [record]
  { log with errors := if log.maxErrors < errors.length then errors.tail else errors }

def recordCustomError (now : τ) (component : String) (message : Json φ) (tracebackStr : Option Str)
    (contextId : Option String) (metadata : Option (List (Str × Json φ))) (log : ErrorLog φ τ) :
    ErrorLog φ τ :=
  log.record {
    component := component
    message := message
    metadata := metadata.getD []
    tracebackStr := tracebackStr
    contextId := contextId
    timestamp := now }

end ErrorLog

section Queries

variable [LinearOrder τ] [Zero τ]

def TrackedError.fits (query : ErrorQuery τ) (record : TrackedError φ τ) : Bool :=
  RecentLog.wanted query.component (fun component record => record.component = component) record &&
    RecentLog.wanted query.contextId (fun contextId record => record.contextId = some contextId) record &&
    RecentLog.wanted query.startTime (fun startTime record => !decide (record.timestamp < startTime)) record &&
    RecentLog.wanted query.endTime (fun endTime record => !decide (endTime < record.timestamp)) record

-- The filters that count as true.
def ErrorQuery.given (query : ErrorQuery τ) : ErrorQuery τ where
  component := query.component.filter (· ≠ "")
  contextId := query.contextId.filter (· ≠ "")
  startTime := query.startTime.filter (· ≠ 0)
  endTime := query.endTime.filter (· ≠ 0)

def ErrorLog.getErrors (query : ErrorQuery τ) (limit : Option Int) (log : ErrorLog φ τ) :
    List (TrackedError φ τ) :=
  RecentLog.recent limit (log.errors.filter (TrackedError.fits query.given))

end Queries

-- The tracker of the service, as far as that reads its records.
def ErrorLog.tracker (log : ErrorLog φ τ) : ErrorTracker φ where
  maxErrors := log.maxErrors
  errors := log.errors.map TrackedError.toErrorRecord

theorem ErrorLog.tracker_record (record : TrackedError φ τ) (log : ErrorLog φ τ) :
    (log.record record).tracker = log.tracker.recordCustomError record.toErrorRecord := by
  have hmap : (log.errors ++ [record]).map TrackedError.toErrorRecord =
      log.errors.map TrackedError.toErrorRecord ++ [record.toErrorRecord] := List.map_append
  unfold ErrorLog.record ErrorTracker.recordCustomError ErrorLog.tracker
  dsimp only
  rw [← hmap, List.length_map]
  split
  · rw [List.map_tail]
  · rfl

end YasinCore.Observability
