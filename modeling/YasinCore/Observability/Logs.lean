import YasinCore.Observability.ErrorTracker
import YasinCore.Security.Auditing

namespace YasinCore.Observability

open YasinCore.Library

variable {η κ φ τ α : Type}

-- A query with a limit is answered by the last of the entries that match.
def Answers (limit : Nat) (matching : α → Bool) (log answer : List α) : Prop :=
  answer = (log.filter matching).rtake limit

-- With the limit zero nothing passes the filters that are applied, and of the entries that are given
-- back each one matches those filters too that are asked for and are not applied.
def Answerable (limit : Nat) (applied matching : α → Bool) (log : List α) : Prop :=
  (limit = 0 → ∀ entry ∈ log, applied entry = false) ∧
    ∀ entry ∈ (log.filter applied).rtake limit, matching entry = true

-- What matches a filter passes where only the filters that count as true are applied.
theorem wanted_filter {β : Type} {filter : Option β} (truthy : β → Bool) {test : β → α → Bool}
    {entry : α} (h : RecentLog.wanted filter test entry = true) :
    RecentLog.wanted (filter.filter truthy) test entry = true := by
  cases filter with
  | none => rfl
  | some value =>
      cases ht : truthy value with
      | true => rwa [Option.filter_some_pos ht]
      | false => rw [Option.filter_some_neg (by simp [ht])]; rfl

section Events

open Events

theorem history_change [DecidableEq η] (bus : EventBus η κ) (change : Change η κ) :
    (bus.change change).history = bus.history ∧
      (bus.change change).maxHistorySize = bus.maxHistorySize := by
  cases change with
  | subscribe event callback filterFunc asyncHandle =>
      unfold EventBus.change EventBus.subscribe
      dsimp only
      split
      · exact ⟨rfl, rfl⟩
      · exact ⟨rfl, rfl⟩
  | unsubscribe event callback => exact ⟨rfl, rfl⟩
  | clear => exact ⟨rfl, rfl⟩

-- The history is a log of this bound.
def Holds (bound : Int) (history : List (Event κ)) (bus : EventBus η κ) : Prop :=
  bus.history = history ∧ bus.maxHistorySize = bound

variable [DecidableEq η] {handlers : Handlers η κ} {bound : Int} {history : List (Event κ)}

theorem Holds.change {bus : EventBus η κ} (h : Holds bound history bus) (change : Change η κ) :
    Holds bound history (bus.change change) :=
  ⟨(history_change bus change).1.trans h.1, (history_change bus change).2.trans h.2⟩

theorem Holds.changes {bus : EventBus η κ} (h : Holds bound history bus) (changes : List (Change η κ)) :
    Holds bound history (changes.foldl .change bus) :=
  List.foldlRecOn changes _ h fun _ hbus change _ => hbus.change change

-- An event goes into the history before anyone is served.
theorem serveAll_holds {coroutine : Subscription η κ → Event κ → Program η κ Unit} {event : Event κ}
    (hcoroutine : ∀ inv : EventBus η κ → Prop, ∀ sub,
      Maintains (fun w => inv w.bus) (coroutine sub event)) {w : World η κ}
    (h : Holds bound history w.bus) : Holds bound (RecentLog.push bound history event)
      (finalState (Program.serveAll handlers coroutine event) w).bus := by
  let after := { w with bus := w.bus.appendHistory event }
  have hpush : Holds bound (RecentLog.push bound history event) after.bus := by
    refine ⟨?_, h.2⟩
    rw [← h.1, ← h.2]
    rfl
  exact (Program.serveEach_maintains (Holds bound (RecentLog.push bound history event))
    (fun _ _ _ hbus => hbus.changes _) (fun sub => hcoroutine _ sub)
    (after.bus.subscribed event.name ++ after.bus.subscribed wildcard)).finalState hpush

-- The events that calls publish.
def publishedBy : Call η κ → List (Event κ)
  | .change _ => []
  | .publish _ published | .asyncPublish published => [published.event]

theorem perform_holds {w : World η κ} (h : Holds bound history w.bus) (call : Call η κ) :
    Holds bound ((publishedBy call).foldl (RecentLog.push bound) history)
      (w.perform handlers call).bus := by
  cases call with
  | change change => exact h.change change
  | publish running published =>
      exact serveAll_holds (fun inv sub => Program.executeAsyncHandler_maintains inv running sub _) h
  | asyncPublish published =>
      exact serveAll_holds (fun inv sub => Program.deliver_maintains inv .scheduled sub _) h

-- Whatever calls are made, the history holds the last events that were published.
theorem performAll_history (handlers : Handlers η κ) (bound : Nat) (calls : List (Call η κ)) :
    (World.performAll handlers bound calls).bus.history = (calls.flatMap publishedBy).rtake bound := by
  have hrun (calls : List (Call η κ)) {w : World η κ} {history : List (Event κ)}
      (h : Holds bound history w.bus) :
      Holds bound ((calls.flatMap publishedBy).foldl (RecentLog.push bound) history)
        (calls.foldl (World.perform handlers) w).bus := by
    induction calls generalizing w history with
    | nil => exact h
    | cons call calls ih =>
        rw [List.flatMap_cons, List.foldl_append]
        exact ih (perform_holds h call)
  have hinit : Holds bound ([] : List (Event κ)) (World.init bound : World η κ).bus := ⟨rfl, rfl⟩
  have hlast := (hrun calls hinit).1
  rwa [RecentLog.foldl_push] at hlast

end Events

theorem logEvent_history (bound : Nat) (entries : List Security.AuditEntry) :
    (entries.foldl Security.AuditLogger.logEvent ⟨[], bound⟩).history = entries.rtake bound :=
  RecentLog.foldl_log Security.AuditLogger.history Security.AuditLogger.maxHistorySize
    Security.AuditLogger.logEvent (fun _ _ => (RecentLog.push_natCast _ _ _).symm) (fun _ _ => rfl)
    entries rfl

theorem record_errors (bound : Nat) (records : List (TrackedError φ τ)) :
    (records.foldl (fun log record => log.record record) (ErrorLog.init bound)).errors =
      records.rtake bound :=
  RecentLog.foldl_log ErrorLog.errors ErrorLog.maxErrors (fun log record => log.record record)
    (fun _ _ => (RecentLog.push_natCast _ _ _).symm) (fun _ _ => rfl) records rfl

theorem concerns_given {subjectId result : Option String} {entry : Security.AuditEntry}
    (h : entry.concerns subjectId result = true) :
    entry.concerns (subjectId.filter (· ≠ "")) (result.filter (· ≠ "")) = true := by
  unfold Security.AuditEntry.concerns at h ⊢
  rw [Bool.and_eq_true] at h ⊢
  exact ⟨wanted_filter _ h.1, wanted_filter _ h.2⟩

theorem fits_given [LinearOrder τ] [Zero τ] {query : ErrorQuery τ} {record : TrackedError φ τ}
    (h : record.fits query = true) : record.fits query.given = true := by
  unfold TrackedError.fits at h ⊢
  simp only [Bool.and_eq_true] at h ⊢
  obtain ⟨⟨⟨hcomponent, hcontext⟩, hstart⟩, hend⟩ := h
  exact ⟨⟨⟨wanted_filter _ hcomponent, wanted_filter _ hcontext⟩, wanted_filter _ hstart⟩,
    wanted_filter _ hend⟩

open Events Security in
-- The three logs hold their last entries, and answer a query with a limit by the last entries that
-- match exactly where the limit zero and filters that count as false make no difference.
theorem bounded_logs_iff (bound limit : Nat) [DecidableEq η] [LinearOrder τ] [Zero τ] :
    ((∀ (handlers : Handlers η κ) (calls : List (Call η κ)),
        (World.performAll handlers bound calls).bus.history =
          (calls.flatMap publishedBy).rtake bound) ∧
      ∀ (bus : EventBus η κ) (eventName : Option Str),
        Answers limit (Event.hasName eventName) bus.history (bus.getHistory (some limit) eventName) ↔
          Answerable limit (Event.hasName (eventName.filter (· ≠ []))) (Event.hasName eventName)
            bus.history) ∧
    ((∀ entries : List AuditEntry,
        (entries.foldl AuditLogger.logEvent ⟨[], bound⟩).history = entries.rtake bound) ∧
      ∀ (logger : AuditLogger) (subjectId result : Option String),
        Answers limit (AuditEntry.concerns subjectId result) logger.history
            (logger.getHistory (some limit) subjectId result) ↔
          Answerable limit
            (AuditEntry.concerns (subjectId.filter (· ≠ "")) (result.filter (· ≠ "")))
            (AuditEntry.concerns subjectId result) logger.history) ∧
    ((∀ records : List (TrackedError φ τ),
        (records.foldl (fun log record => log.record record) (ErrorLog.init bound)).errors =
          records.rtake bound) ∧
      ∀ (log : ErrorLog φ τ) (query : ErrorQuery τ),
        Answers limit (TrackedError.fits query) log.errors (log.getErrors query (some limit)) ↔
          Answerable limit (TrackedError.fits query.given) (TrackedError.fits query) log.errors) := by
  refine ⟨⟨fun handlers calls => performAll_history handlers bound calls, fun bus name => ?_⟩,
    ⟨logEvent_history bound, fun logger subjectId result => ?_⟩, record_errors bound,
    fun log query => ?_⟩
  · exact RecentLog.recent_filter_iff (fun _ => wanted_filter _) bus.history limit
  · exact RecentLog.recent_filter_iff (fun _ => concerns_given) logger.history limit
  · exact RecentLog.recent_filter_iff (fun _ => fits_given) log.errors limit

-- The limit zero gives back the whole log.
theorem limit_zero_returns_all :
    ¬Answers 0 (Events.Event.hasName none)
        (Events.World.performAll Events.quiet 100 [.publish false (.named (.ofString "a") ())]).bus.history
        ((Events.World.performAll Events.quiet 100
          [.publish false (.named (.ofString "a") ())]).bus.getHistory (some 0) none) := by
  intro h
  have hlength := congrArg List.length h
  revert hlength
  decide

end YasinCore.Observability
