import YasinCore.Events.EventBus
import YasinCore.Library.Simulation

namespace YasinCore.Events

open YasinCore.Library

variable {η κ : Type}

-- A filter that raises does not accept.
def Subscription.accepts (event : Event κ) (sub : Subscription η κ) : Bool :=
  match sub.filterFunc with
  | some filterFunc =>
      match filterFunc event with
      | .ok wanted => wanted
      | .error _ => false
  | none => true

-- The subscriptions that an event is for: those for its name and then those for every name.
def EventBus.matching (bus : EventBus η κ) (event : Event κ) : List (Subscription η κ) :=
  let named := if event.name = wildcard then [] else bus.subscribed event.name
  (named ++ bus.subscribed wildcard).filter (·.accepts event)

-- How the handler of a subscription is to get an event.
def Handlers.delivery (handlers : Handlers η κ) (running : Bool) (event : Event κ)
    (sub : Subscription η κ) : Delivery η κ where
  mode :=
    if handlers.isCoroutine sub.handler then if running then .scheduled else .submitted
    else if sub.asyncHandle then .submitted else .called
  subscription := sub
  event := event

-- The program returns, and what it delivers goes to every subscription that the event is for, to each
-- of them once and in their order.
def ServesOnce (handlers : Handlers η κ) (running : Bool) (event : Event κ) (w : World η κ)
    (prog : Program η κ Unit) : Prop :=
  ∃ bus, prog w =
    .ok () ⟨bus, w.deliveries ++ (w.bus.matching event).map (handlers.delivery running event)⟩

inductive Call (η κ : Type)
  | change (change : Change η κ)
  | publish (running : Bool) (published : Published κ)
  | asyncPublish (published : Published κ)

namespace World

variable [DecidableEq η]

def init (maxHistorySize : Int) : World η κ := ⟨.init maxHistorySize, []⟩

def perform (handlers : Handlers η κ) (w : World η κ) : Call η κ → World η κ
  | .change change => { w with bus := w.bus.change change }
  | .publish running published => finalState (Program.publish handlers running published) w
  | .asyncPublish published => finalState (Program.asyncPublish handlers published) w

def performAll (handlers : Handlers η κ) (maxHistorySize : Int) (calls : List (Call η κ)) :
    World η κ :=
  calls.foldl (perform handlers) (init maxHistorySize)

end World

namespace Program

variable {handlers : Handlers η κ} {event : Event κ} {sub : Subscription η κ} {w : World η κ}

-- A bus that is not shut down delivers, and remains one.
def Delivers (prog : Program η κ Unit) (w : World η κ) (deliveries : List (Delivery η κ)) : Prop :=
  ∃ bus, bus.isShutdown = false ∧ prog w = .ok () ⟨bus, w.deliveries ++ deliveries⟩

theorem submit_delivers (h : w.bus.isShutdown = false) (mode : Mode) (sub : Subscription η κ)
    (event : Event κ) : Delivers (submit mode sub event) w [⟨mode, sub, event⟩] := by
  refine ⟨w.bus, h, ?_⟩
  have hexecutor : getExecutor w = .ok () w := by
    unfold getExecutor
    rw [run_get_bind, h]
    rfl
  refine run_tryCatch_ok ?_ _
  rw [run_bind_ok hexecutor]
  rfl

theorem executeAsyncHandler_delivers (h : w.bus.isShutdown = false) (running : Bool)
    (sub : Subscription η κ) (event : Event κ) :
    Delivers (executeAsyncHandler running sub event) w
      [⟨if running then .scheduled else .submitted, sub, event⟩] := by
  cases running with
  | true => exact ⟨w.bus, h, rfl⟩
  | false => exact submit_delivers h .submitted sub event

theorem accepted_run : accepted sub event w = .ok (sub.accepts event) w := by
  unfold accepted Subscription.accepts
  cases sub.filterFunc with
  | none => rfl
  | some filterFunc =>
      dsimp only
      cases filterFunc event with
      | ok wanted => rfl
      | error raised => rfl

section Maintained

variable (inv : EventBus η κ → Prop)

theorem deliver_maintains (mode : Mode) (sub : Subscription η κ) (event : Event κ) :
    Maintains (fun w => inv w.bus) (deliver mode sub event) := .modify fun _ h => h

theorem submit_maintains (mode : Mode) (sub : Subscription η κ) (event : Event κ) :
    Maintains (fun w => inv w.bus) (submit mode sub event) := by
  refine .tryCatch (.bind (.bind .get fun w => ?_) fun _ => deliver_maintains inv mode sub event)
    fun raised => ?_
  · exact .ite (fun _ => .throw) fun _ => .pure
  · cases raised with
    | runtimeError message => exact .pure
    | exception message => exact .throw

theorem executeAsyncHandler_maintains (running : Bool) (sub : Subscription η κ) (event : Event κ) :
    Maintains (fun w => inv w.bus) (executeAsyncHandler running sub event) :=
  .ite (fun _ => deliver_maintains inv _ sub event) fun _ => submit_maintains inv _ sub event

theorem ofExcept_maintains {α : Type} (outcome : Except Raised α) :
    Maintains (fun w : World η κ => inv w.bus) (ofExcept outcome) := by
  cases outcome with
  | ok value => exact .pure
  | error raised => exact .throw

end Maintained

section Serve

variable [DecidableEq η]

theorem isShutdown_change (bus : EventBus η κ) (change : Change η κ) :
    (bus.change change).isShutdown = bus.isShutdown := by
  cases change with
  | subscribe event callback filterFunc asyncHandle =>
      unfold EventBus.change EventBus.subscribe
      dsimp only
      split <;> rfl
  | unsubscribe event callback => rfl
  | clear => rfl

theorem isShutdown_changes (bus : EventBus η κ) (changes : List (Change η κ)) :
    (changes.foldl .change bus).isShutdown = bus.isShutdown := by
  induction changes generalizing bus with
  | nil => rfl
  | cons change changes ih => exact (ih _).trans (isShutdown_change bus change)

-- Whatever a handler does, the next one is served.
theorem safeExecuteHandler_delivers (h : w.bus.isShutdown = false) (sub : Subscription η κ)
    (event : Event κ) :
    Delivers (safeExecuteHandler handlers sub event) w [⟨.called, sub, event⟩] := by
  have hbus := isShutdown_changes w.bus (handlers.changes sub.handler event)
  refine ⟨_, hbus.trans h, ?_⟩
  unfold safeExecuteHandler
  cases ho : handlers.outcome sub.handler event with
  | ok _ => rfl
  | error raised => rfl

theorem serve_delivers (handlers : Handlers η κ) (sub : Subscription η κ)
    {coroutine : Subscription η κ → Event κ → Program η κ Unit} {running : Bool}
    (hcoroutine : ∀ w : World η κ, w.bus.isShutdown = false → ∀ sub,
      Delivers (coroutine sub event) w [⟨if running then .scheduled else .submitted, sub, event⟩])
    (h : w.bus.isShutdown = false) : Delivers (serve handlers coroutine event sub) w
      (if sub.accepts event then [handlers.delivery running event sub] else []) := by
  unfold Delivers serve
  rw [run_bind_ok accepted_run]
  cases ha : sub.accepts event with
  | false =>
      refine ⟨w.bus, h, ?_⟩
      simp only [Bool.false_eq_true, if_false, List.append_nil]
      rfl
  | true =>
      simp only [if_pos, Handlers.delivery]
      cases hc : handlers.isCoroutine sub.handler with
      | true => exact hcoroutine w h sub
      | false =>
          cases hs : sub.asyncHandle with
          | true => exact submit_delivers h .submitted sub event
          | false => exact safeExecuteHandler_delivers h sub event

theorem serveEach_delivers {coroutine : Subscription η κ → Event κ → Program η κ Unit}
    {running : Bool} (hcoroutine : ∀ w : World η κ, w.bus.isShutdown = false → ∀ sub,
      Delivers (coroutine sub event) w [⟨if running then .scheduled else .submitted, sub, event⟩])
    (subs : List (Subscription η κ)) (h : w.bus.isShutdown = false) :
    Delivers (subs.forM (serve handlers coroutine event)) w
      ((subs.filter (·.accepts event)).map (handlers.delivery running event)) := by
  induction subs generalizing w with
  | nil => exact ⟨w.bus, h, by rw [List.filter_nil, List.map_nil, List.append_nil]; rfl⟩
  | cons sub subs ih =>
      obtain ⟨bus, hbus, hrun⟩ := serve_delivers handlers sub hcoroutine h
      obtain ⟨last, hlast, hrest⟩ := ih (w := ⟨bus, _⟩) hbus
      refine ⟨last, hlast, ?_⟩
      change (serve handlers coroutine event sub >>=
        fun _ => subs.forM (serve handlers coroutine event)) w = _
      rw [run_bind_ok hrun, hrest, List.append_assoc, List.filter_cons]
      cases sub.accepts event with
      | false => rfl
      | true => rfl

-- What both ways of publishing deliver, the subscriptions for every name last.
theorem serveAll_delivers {coroutine : Subscription η κ → Event κ → Program η κ Unit}
    {running : Bool} (hcoroutine : ∀ w : World η κ, w.bus.isShutdown = false → ∀ sub,
      Delivers (coroutine sub event) w [⟨if running then .scheduled else .submitted, sub, event⟩])
    (h : w.bus.isShutdown = false) : Delivers (serveAll handlers coroutine event) w
      (((w.bus.subscribed event.name ++ w.bus.subscribed wildcard).filter (·.accepts event)).map
        (handlers.delivery running event)) :=
  serveEach_delivers (w := { w with bus := w.bus.appendHistory event }) hcoroutine
    (w.bus.subscribed event.name ++ w.bus.subscribed wildcard) h

theorem publish_delivers (handlers : Handlers η κ) (h : w.bus.isShutdown = false) (running : Bool)
    (published : Published κ) :
    Delivers (publish handlers running published) w
      (((w.bus.subscribed published.event.name ++ w.bus.subscribed wildcard).filter
        (·.accepts published.event)).map (handlers.delivery running published.event)) :=
  serveAll_delivers (fun _ hw sub => executeAsyncHandler_delivers hw running sub published.event) h

theorem asyncPublish_delivers (handlers : Handlers η κ) (h : w.bus.isShutdown = false)
    (published : Published κ) :
    Delivers (asyncPublish handlers published) w
      (((w.bus.subscribed published.event.name ++ w.bus.subscribed wildcard).filter
        (·.accepts published.event)).map (handlers.delivery true published.event)) :=
  serveAll_delivers (fun w hw _ => ⟨w.bus, hw, rfl⟩) h

-- Serving an event keeps what the handlers keep.
theorem serveEach_maintains (inv : EventBus η κ → Prop)
    {coroutine : Subscription η κ → Event κ → Program η κ Unit}
    (hchanges : ∀ bus handler event, inv bus → inv ((handlers.changes handler event).foldl .change bus))
    (hcoroutine : ∀ sub, Maintains (fun w => inv w.bus) (coroutine sub event))
    (subs : List (Subscription η κ)) :
    Maintains (fun w => inv w.bus) (subs.forM (serve handlers coroutine event)) := by
  refine .forM fun sub _ => ?_
  refine .bind ?_ fun wanted => .ite (fun _ => .ite (fun _ => hcoroutine sub) fun _ =>
    .ite (fun _ => submit_maintains inv _ sub event) fun _ => ?_) fun _ => .pure
  · unfold accepted
    split
    · exact .tryCatch (ofExcept_maintains inv _) fun _ => .pure
    · exact .pure
  · exact .tryCatch (.bind (deliver_maintains inv _ sub event) fun _ => .bind
      (.modify fun w hw => hchanges w.bus sub.handler event hw) fun _ => ofExcept_maintains inv _)
      fun _ => .pure

-- Handlers that change no subscriptions leave them as they are.
theorem publish_subscriptions (hchanges : ∀ handler event, handlers.changes handler event = [])
    (subs : Dict Str (List (Subscription η κ))) (running : Bool) (published : Published κ) :
    Maintains (fun w => w.bus.subscriptions = subs) (publish handlers running published) := by
  refine .bind (.modify fun _ h => h) fun _ => .bind .get fun seen =>
    serveEach_maintains (·.subscriptions = subs) (fun bus handler event hbus => ?_)
      (fun sub => executeAsyncHandler_maintains (·.subscriptions = subs) running sub _) _
  rw [hchanges]
  exact hbus

end Serve

end Program

variable {handlers : Handlers η κ} {w : World η κ} {prog : Program η κ Unit} {event : Event κ}
  {running : Bool}

-- What is delivered are the subscriptions under both names, and these are those the event is for
-- unless some are there twice.
theorem servesOnce_iff_of_delivers (h : Program.Delivers prog w
    (((w.bus.subscribed event.name ++ w.bus.subscribed wildcard).filter (·.accepts event)).map
      (handlers.delivery running event))) :
    ServesOnce handlers running event w prog ↔
      (event.name = wildcard → ∀ sub ∈ w.bus.subscribed wildcard, sub.accepts event = false) := by
  obtain ⟨bus, -, hrun⟩ := h
  have hexact : ServesOnce handlers running event w prog ↔
      ((w.bus.subscribed event.name ++ w.bus.subscribed wildcard).filter (·.accepts event)).map
          (handlers.delivery running event) =
        (w.bus.matching event).map (handlers.delivery running event) := by
    unfold ServesOnce
    rw [hrun]
    constructor
    · intro ⟨_, heq⟩
      simp only [EStateM.Result.ok.injEq, World.mk.injEq, true_and] at heq
      exact List.append_cancel_left heq.2
    · intro heq
      exact ⟨bus, by rw [heq]⟩
  rw [hexact, EventBus.matching]
  by_cases hname : event.name = wildcard
  · simp only [hname, if_pos, List.nil_append, List.filter_append, List.map_append, forall_const]
    rw [List.append_left_eq_self, List.map_eq_nil_iff, List.filter_eq_nil_iff]
    simp only [Bool.not_eq_true]
  · simp only [hname, if_false, false_implies]

variable [DecidableEq η]

-- The calls never shut the bus down.
theorem World.isShutdown_performAll (handlers : Handlers η κ) (maxHistorySize : Int)
    (calls : List (Call η κ)) :
    (performAll handlers maxHistorySize calls).bus.isShutdown = false := by
  have hstep (w : World η κ) (call : Call η κ) (h : w.bus.isShutdown = false) :
      (perform handlers w call).bus.isShutdown = false := by
    cases call with
    | change change => exact (Program.isShutdown_change w.bus change).trans h
    | publish running published =>
        obtain ⟨bus, hbus, hrun⟩ := Program.publish_delivers handlers h running published
        rw [perform, finalState, hrun]
        exact hbus
    | asyncPublish published =>
        obtain ⟨bus, hbus, hrun⟩ := Program.asyncPublish_delivers handlers h published
        rw [perform, finalState, hrun]
        exact hbus
  have hstart : (init maxHistorySize : World η κ).bus.isShutdown = false := rfl
  exact List.foldlRecOn calls (perform handlers) (motive := fun w => w.bus.isShutdown = false) hstart
    fun w h call _ => hstep w call h

-- In every state that calls have made, both ways of publishing serve every subscription once, unless
-- the event is called like the wildcard and something is subscribed to everything.
theorem served_once_iff (handlers : Handlers η κ) (maxHistorySize : Int) (calls : List (Call η κ))
    (running : Bool) (published : Published κ) :
    (ServesOnce handlers running published.event (World.performAll handlers maxHistorySize calls)
        (Program.publish handlers running published) ∧
      ServesOnce handlers true published.event (World.performAll handlers maxHistorySize calls)
        (Program.asyncPublish handlers published)) ↔
      (published.event.name = wildcard →
        ∀ sub ∈ (World.performAll handlers maxHistorySize calls).bus.subscribed wildcard,
          sub.accepts published.event = false) := by
  have hopen := World.isShutdown_performAll handlers maxHistorySize calls
  rw [servesOnce_iff_of_delivers (Program.publish_delivers handlers hopen running published),
    servesOnce_iff_of_delivers (Program.asyncPublish_delivers handlers hopen published), and_self]

-- One handler for everything, which gets an event twice.
def quiet : Handlers Unit Unit where
  isCoroutine _ := false
  changes _ _ := []
  outcome _ _ := .ok ()

def listening : World Unit Unit := World.performAll quiet 100 [.change (.subscribe wildcard () none false)]

theorem wildcard_served_twice : ¬ServesOnce quiet false ⟨wildcard, ()⟩ listening
    (Program.publish quiet false (.named wildcard ())) := by
  intro h
  have hrejects := (servesOnce_iff_of_delivers
    (Program.publish_delivers quiet rfl false (.named wildcard ()))).mp h rfl
  have hsub : (⟨(), none, false⟩ : Subscription Unit Unit) ∈ listening.bus.subscribed wildcard :=
    List.mem_of_getElem? (i := 0) rfl
  exact Bool.false_ne_true (hrejects _ hsub).symm

end YasinCore.Events
