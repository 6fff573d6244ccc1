import YasinCore.Events.Delivery
import YasinCore.Library.LastWord

namespace YasinCore.Events

open YasinCore.Library

variable {η κ : Type}

namespace EventBus

-- The list under a key, an empty one where there was none.
def withEntry {α : Type} (key : Str) (dict : Dict Str (List α)) : Dict Str (List α) :=
  if key ∈ dict then dict else dict.set key []

def appendUnder {α : Type} (key : Str) (member : α) (dict : Dict Str (List α)) : Dict Str (List α) :=
  dict.set key ((dict.get? key).getD [] ++ [member])

def filterUnder {α : Type} (keep : α → Bool) (key : Str) (dict : Dict Str (List α)) :
    Dict Str (List α) :=
  if key ∈ dict then
    let kept := dict.set key (((dict.get? key).getD []).filter keep)
    if ((kept.get? key).getD []).isEmpty then kept.erase key else kept
  else dict

section Steps

variable [DecidableEq η]

-- The entry for the event is made before the call can return.
def subscribeInSteps (event : Str) (callback : η) (filterFunc : Option (Event κ → Except Raised Bool))
    (asyncHandle : Bool) (bus : EventBus η κ) : EventBus η κ :=
  let bus := { bus with subscriptions := withEntry event bus.subscriptions }
  if (bus.subscribed event).any (·.handler = callback) then bus
  else
    { bus with
      subscriptions := appendUnder event ⟨callback, filterFunc, asyncHandle⟩ bus.subscriptions
      listeners := appendUnder event callback (withEntry event bus.listeners) }

def unsubscribeInSteps (event : Str) (callback : η) (bus : EventBus η κ) : EventBus η κ :=
  { bus with
    subscriptions := filterUnder (fun sub => sub.handler ≠ callback) event bus.subscriptions
    listeners := filterUnder (fun handler => handler ≠ callback) event bus.listeners }

def changeInSteps (bus : EventBus η κ) : Change η κ → EventBus η κ
  | .subscribe event callback filterFunc asyncHandle =>
      bus.subscribeInSteps event callback filterFunc asyncHandle
  | .unsubscribe event callback => bus.unsubscribeInSteps event callback
  | .clear => bus.clear

end Steps

section Entries

variable {α : Type} {key : Str} {dict : Dict Str (List α)}

theorem get?_withEntry : ((withEntry key dict).get? key).getD [] = (dict.get? key).getD [] := by
  unfold withEntry
  split
  · rfl
  · rename_i h
    rw [Dict.get?_set_self, (dict.get?_eq_none_iff key).mpr h]
    rfl

theorem appendUnder_withEntry (member : α) :
    appendUnder key member (withEntry key dict) = appendUnder key member dict := by
  unfold appendUnder
  rw [get?_withEntry]
  unfold withEntry
  split
  · rfl
  · exact Dict.set_set dict key [] _

theorem filterUnder_eq (keep : α → Bool) : filterUnder keep key dict = keepUnder keep key dict := by
  unfold filterUnder keepUnder
  split
  · rename_i h
    obtain ⟨members, hmembers⟩ := (dict.mem_iff key).mp h
    rw [hmembers]
    dsimp only
    rw [Dict.get?_set_self, Option.getD_some, Option.getD_some]
    split
    · exact Dict.erase_set dict key _
    · rfl
  · rename_i h
    rw [(dict.get?_eq_none_iff key).mpr h]

end Entries

section Changes

variable [DecidableEq η] (bus : EventBus η κ)

-- The call returns early only where there are handlers already, so that it leaves no empty list.
theorem subscribeInSteps_eq (event : Str) (callback : η)
    (filterFunc : Option (Event κ → Except Raised Bool)) (asyncHandle : Bool) :
    bus.subscribeInSteps event callback filterFunc asyncHandle =
      bus.subscribe event callback filterFunc asyncHandle := by
  unfold subscribeInSteps subscribe subscribed
  dsimp only
  rw [get?_withEntry, appendUnder_withEntry, appendUnder_withEntry]
  split
  · rename_i hany
    have hmem : event ∈ bus.subscriptions := by
      by_contra hnot
      rw [(bus.subscriptions.get?_eq_none_iff event).mpr hnot] at hany
      cases hany
    rw [withEntry, if_pos hmem]
  · rfl

theorem changeInSteps_eq (change : Change η κ) : bus.changeInSteps change = bus.change change := by
  cases change with
  | subscribe event callback filterFunc asyncHandle =>
      exact bus.subscribeInSteps_eq event callback filterFunc asyncHandle
  | unsubscribe event callback =>
      rw [changeInSteps, unsubscribeInSteps, filterUnder_eq, filterUnder_eq]
      rfl
  | clear => rfl

end Changes

section Effects

variable [DecidableEq η] {bus : EventBus η κ} {event other : Str} {handler callback : η}

def handlers (bus : EventBus η κ) (event : Str) : List η := (bus.subscribed event).map (·.handler)

theorem any_handler_iff :
    (bus.subscribed event).any (·.handler = callback) ↔ callback ∈ bus.handlers event := by
  simp [handlers]

theorem handlers_subscribe (filterFunc : Option (Event κ → Except Raised Bool)) (asyncHandle : Bool) :
    (bus.subscribe event callback filterFunc asyncHandle).handlers other =
      if other = event ∧ callback ∉ bus.handlers event then bus.handlers event ++ [callback]
      else bus.handlers other := by
  unfold subscribe
  simp only [any_handler_iff]
  split
  · rename_i hthere
    rw [if_neg fun h => h.2 hthere]
  · rename_i habsent
    unfold handlers subscribed
    rw [Dict.get?_set]
    by_cases he : other = event
    · rw [if_pos he, if_pos ⟨he, habsent⟩, Option.getD_some, List.map_append]
      rfl
    · rw [if_neg he, if_neg fun h => he h.1]

theorem get?_keepUnder {α : Type} (keep : α → Bool) (key other : Str) (dict : Dict Str (List α)) :
    (keepUnder keep key dict).get? other =
      if other = key then ((dict.get? key).map (List.filter keep)).filter (!·.isEmpty)
      else dict.get? other := by
  unfold keepUnder
  cases hget : dict.get? key with
  | none =>
      dsimp only
      split
      · rename_i he
        rw [he, hget]
        rfl
      · rfl
  | some members =>
      dsimp only
      rw [Option.map_some, Option.filter_some]
      cases (members.filter keep).isEmpty with
      | true =>
          rw [if_pos rfl, Dict.get?_erase]
          rfl
      | false =>
          rw [if_neg Bool.false_ne_true, Dict.get?_set]
          rfl

-- An empty list is as good as none.
theorem getD_filter_filled {α : Type} (members : List α) :
    ((some members).filter (!·.isEmpty)).getD [] = members := by
  cases members with
  | nil => rfl
  | cons member members => rfl

-- What holds of every list holds of what is kept of them.
theorem forall_keepUnder {α : Type} {keep : α → Bool} {key : Str} {dict : Dict Str (List α)}
    {holds : Str → List α → Prop} (h : ∀ other members, dict.get? other = some members →
      holds other members) (hkept : ∀ members, dict.get? key = some members →
      members.filter keep ≠ [] → holds key (members.filter keep)) (other : Str) (found : List α)
    (hget : (keepUnder keep key dict).get? other = some found) : holds other found := by
  rw [get?_keepUnder] at hget
  split at hget
  · rename_i he
    obtain ⟨hmap, hne⟩ := Option.filter_eq_some_iff.mp hget
    obtain ⟨members, hmembers, rfl⟩ := Option.map_eq_some_iff.mp hmap
    rw [he]
    exact hkept members hmembers (by simpa using hne)
  · exact h other found hget

theorem mapValues_keepUnder {α β : Type} (f : α → β) (keep : β → Bool) (key : Str)
    (dict : Dict Str (List α)) :
    (keepUnder (fun member => keep (f member)) key dict).mapValues (fun _ => List.map f) =
      keepUnder keep key (dict.mapValues fun _ => List.map f) := by
  unfold keepUnder
  rw [Dict.get?_mapValues]
  cases dict.get? key with
  | none => rfl
  | some members =>
      have hfilter : (members.map f).filter keep =
          (members.filter fun member => keep (f member)).map f := List.filter_map
      simp only [Option.map_some, hfilter, List.isEmpty_map]
      split
      · exact Dict.mapValues_erase dict (List.map f) key
      · exact Dict.mapValues_set dict (List.map f) key _

theorem handlers_unsubscribe : (bus.unsubscribe event callback).handlers other =
    if other = event then (bus.handlers event).filter (· ≠ callback) else bus.handlers other := by
  unfold handlers subscribed unsubscribe
  dsimp only
  rw [get?_keepUnder]
  split
  · cases bus.subscriptions.get? event with
    | none => rfl
    | some subs =>
        rw [Option.map_some, getD_filter_filled, Option.getD_some, List.filter_map]
        rfl
  · rfl

end Effects

-- The listeners are the handlers of the subscriptions; no event has one of them twice, or an empty list.
structure Mirrored (bus : EventBus η κ) : Prop where
  same : bus.listeners = bus.subscriptions.mapValues fun _ subs => subs.map (·.handler)
  distinct : ∀ event subs, bus.subscriptions.get? event = some subs → (subs.map (·.handler)).Nodup
  filled : ∀ event subs, bus.subscriptions.get? event = some subs → subs ≠ []

namespace Mirrored

variable {bus : EventBus η κ}

theorem init (maxHistorySize : Int) : (EventBus.init maxHistorySize : EventBus η κ).Mirrored where
  same := rfl
  distinct _ _ h := by cases h
  filled _ _ h := by cases h

theorem keys (h : bus.Mirrored) : bus.listeners.keys = bus.subscriptions.keys := by
  rw [h.same, Dict.keys_mapValues]

theorem listeners_get? (h : bus.Mirrored) (event : Str) : bus.listeners.get? event =
    (bus.subscriptions.get? event).map fun subs => subs.map (·.handler) := by
  rw [h.same, Dict.get?_mapValues]

theorem listeners_filled (h : bus.Mirrored) (event : Str) : bus.listeners.get? event ≠ some [] := by
  rw [h.listeners_get? event]
  intro hempty
  obtain ⟨subs, hsubs, hmap⟩ := Option.map_eq_some_iff.mp hempty
  exact h.filled event subs hsubs (List.map_eq_nil_iff.mp hmap)

theorem listened (h : bus.Mirrored) (event : Str) :
    (bus.listeners.get? event).getD [] = bus.handlers event := by
  rw [h.listeners_get? event, handlers, subscribed]
  cases bus.subscriptions.get? event with
  | none => rfl
  | some subs => rfl

theorem nodup (h : bus.Mirrored) (event : Str) : (bus.handlers event).Nodup := by
  unfold handlers subscribed
  cases hsubs : bus.subscriptions.get? event with
  | none => exact List.nodup_nil
  | some subs => exact h.distinct event subs hsubs

variable [DecidableEq η] {event : Str} {callback : η}

theorem subscribe (h : bus.Mirrored) (event : Str) (callback : η)
    (filterFunc : Option (Event κ → Except Raised Bool)) (asyncHandle : Bool) :
    (bus.subscribe event callback filterFunc asyncHandle).Mirrored := by
  unfold EventBus.subscribe
  simp only [any_handler_iff]
  split
  · exact h
  · rename_i habsent
    let sub : Subscription η κ := ⟨callback, filterFunc, asyncHandle⟩
    have hnew : ((bus.subscribed event ++ [sub]).map (·.handler)).Nodup := by
      rw [← List.concat_eq_append, List.map_concat]
      exact (h.nodup event).concat habsent
    refine ⟨?_, Dict.forall_set h.distinct hnew,
      Dict.forall_set h.filled (List.append_ne_nil_of_right_ne_nil _ (List.cons_ne_nil _ _))⟩
    dsimp only
    rw [h.listened event, Dict.mapValues_set bus.subscriptions (List.map (·.handler)), ← h.same,
      List.map_append]
    rfl

theorem unsubscribe (h : bus.Mirrored) (event : Str) (callback : η) :
    (bus.unsubscribe event callback).Mirrored where
  same := by
    unfold EventBus.unsubscribe
    dsimp only
    rw [h.same]
    exact (mapValues_keepUnder Subscription.handler (fun handler => handler ≠ callback) event
      bus.subscriptions).symm
  distinct := forall_keepUnder h.distinct fun members hmembers _ =>
    (h.distinct event members hmembers).sublist (List.filter_sublist.map _)
  filled := forall_keepUnder h.filled fun _ _ hne => hne

theorem change (h : bus.Mirrored) (change : Change η κ) : (bus.change change).Mirrored := by
  cases change with
  | subscribe event callback filterFunc asyncHandle =>
      exact h.subscribe event callback filterFunc asyncHandle
  | unsubscribe event callback => exact h.unsubscribe event callback
  | clear => exact ⟨rfl, (init 0).distinct, (init 0).filled⟩

theorem changes (h : bus.Mirrored) (changes : List (Change η κ)) :
    (changes.foldl .change bus).Mirrored :=
  List.foldlRecOn changes _ h fun _ hbus change _ => hbus.change change

end Mirrored

end EventBus

section Presence

variable [DecidableEq η] {event : Str} {handler : η} {change : Change η κ} {later : List (Change η κ)}

-- What a change says about a handler being there for an event
def Change.verdict (event : Str) (handler : η) : Change η κ → Option Bool
  | .subscribe other callback _ _ => if other = event ∧ callback = handler then some true else none
  | .unsubscribe other callback => if other = event ∧ callback = handler then some false else none
  | .clear => some false

theorem Change.verdict_true_iff : change.verdict event handler = some true ↔
    ∃ filterFunc asyncHandle, change = .subscribe event handler filterFunc asyncHandle := by
  cases change with
  | subscribe other callback filterFunc asyncHandle => simp [verdict]
  | unsubscribe other callback => simp [verdict]
  | clear => simp [verdict]

theorem Change.verdict_none_iff : change.verdict event handler = none ↔
    (∀ filterFunc asyncHandle, change ≠ .subscribe event handler filterFunc asyncHandle) ∧
      change ≠ .unsubscribe event handler ∧ change ≠ .clear := by
  constructor
  · intro h
    refine ⟨?_, ?_, ?_⟩
    · rintro filterFunc asyncHandle rfl
      simp [verdict] at h
    · rintro rfl
      simp [verdict] at h
    · rintro rfl
      cases h
  · intro ⟨hsubscribe, hunsubscribe, hclear⟩
    cases change with
    | subscribe other callback filterFunc asyncHandle =>
        rw [verdict, if_neg]
        rintro ⟨rfl, rfl⟩
        exact hsubscribe filterFunc asyncHandle rfl
    | unsubscribe other callback =>
        rw [verdict, if_neg]
        rintro ⟨rfl, rfl⟩
        exact hunsubscribe rfl
    | clear => exact absurd rfl hclear

-- The last subscribe of the handler for the event, and neither an unsubscribe nor a clear after it
def StaysSubscribed (event : Str) (handler : η) (changes : List (Change η κ)) : Prop :=
  ∃ before filterFunc asyncHandle after,
    changes = before ++ .subscribe event handler filterFunc asyncHandle :: after ∧
      (∀ filterFunc asyncHandle, .subscribe event handler filterFunc asyncHandle ∉ after) ∧
      .unsubscribe event handler ∉ after ∧ .clear ∉ after

theorem determines_change (event : Str) (handler : η) : Determines (EventBus.change (κ := κ))
    (fun bus => handler ∈ bus.handlers event) (Change.verdict event handler) := by
  intro bus change
  cases change with
  | subscribe other callback filterFunc asyncHandle =>
      dsimp only
      rw [EventBus.change, EventBus.handlers_subscribe, Change.verdict]
      by_cases hsame : other = event ∧ callback = handler
      · obtain ⟨rfl, rfl⟩ := hsame
        rw [if_pos (show other = other ∧ callback = callback from ⟨rfl, rfl⟩)]
        by_cases hthere : callback ∈ bus.handlers other
        · simp [hthere]
        · simp [hthere]
      · rw [if_neg hsame]
        split
        · rename_i habsent
          obtain ⟨rfl, -⟩ := habsent
          have hne : handler ≠ callback := fun he => hsame ⟨rfl, he.symm⟩
          simp [hne]
        · rfl
  | unsubscribe other callback =>
      dsimp only
      rw [EventBus.change, EventBus.handlers_unsubscribe, Change.verdict]
      by_cases hsame : other = event ∧ callback = handler
      · obtain ⟨rfl, rfl⟩ := hsame
        simp
      · rw [if_neg hsame]
        split
        · rename_i he
          have hne : handler ≠ callback := fun hh => hsame ⟨he.symm, hh.symm⟩
          simp [hne, he]
        · rfl
  | clear => simp [Change.verdict, EventBus.change, EventBus.clear, EventBus.handlers, EventBus.subscribed]

theorem verdict_none_of_mem : (∀ change ∈ later, change.verdict event handler = none) ↔
    (∀ filterFunc asyncHandle, .subscribe event handler filterFunc asyncHandle ∉ later) ∧
      .unsubscribe event handler ∉ later ∧ .clear ∉ later := by
  simp only [Change.verdict_none_iff]
  constructor
  · intro h
    exact ⟨fun filterFunc asyncHandle hm => (h _ hm).1 filterFunc asyncHandle rfl,
      fun hm => (h _ hm).2.1 rfl, fun hm => (h _ hm).2.2 rfl⟩
  · rintro ⟨hsubscribe, hunsubscribe, hclear⟩ change hm
    refine ⟨?_, ?_, ?_⟩
    · rintro filterFunc asyncHandle rfl
      exact hsubscribe filterFunc asyncHandle hm
    · rintro rfl
      exact hunsubscribe hm
    · rintro rfl
      exact hclear hm

-- A handler is there exactly when its last subscribe still counts.
theorem mem_handlers_changes (maxHistorySize : Int) (changes : List (Change η κ)) (event : Str)
    (handler : η) :
    handler ∈ (changes.foldl EventBus.change (.init maxHistorySize)).handlers event ↔
      StaysSubscribed event handler changes := by
  have hstart : handler ∉ (EventBus.init maxHistorySize : EventBus η κ).handlers event :=
    List.not_mem_nil
  refine ((determines_change event handler).foldl_iff hstart).trans ?_
  constructor
  · rintro ⟨before, change, after, rfl, hchange, hafter⟩
    obtain ⟨filterFunc, asyncHandle, rfl⟩ := Change.verdict_true_iff.mp hchange
    exact ⟨before, filterFunc, asyncHandle, after, rfl, verdict_none_of_mem.mp hafter⟩
  · rintro ⟨before, filterFunc, asyncHandle, after, rfl, hafter⟩
    exact ⟨before, _, after, rfl, Change.verdict_true_iff.mpr ⟨filterFunc, asyncHandle, rfl⟩,
      verdict_none_of_mem.mpr hafter⟩

-- Whatever is subscribed, unsubscribed and cleared, the listeners are the subscribed handlers.
theorem listeners_mirror_subscriptions (maxHistorySize : Int) (changes : List (Change η κ)) :
    let bus := changes.foldl EventBus.changeInSteps (.init maxHistorySize)
    bus.listeners.keys = bus.subscriptions.keys ∧
    (∀ event, bus.listeners.get? event =
      (bus.subscriptions.get? event).map fun subs => subs.map (·.handler)) ∧
    (∀ event subs, bus.subscriptions.get? event = some subs → (subs.map (·.handler)).Nodup) ∧
    (∀ event, bus.subscriptions.get? event ≠ some [] ∧ bus.listeners.get? event ≠ some []) ∧
    ∀ event handler, handler ∈ bus.handlers event ↔ StaysSubscribed event handler changes := by
  have hsteps : (EventBus.changeInSteps : EventBus η κ → Change η κ → EventBus η κ) = .change :=
    funext₂ EventBus.changeInSteps_eq
  rw [hsteps]
  have h := (EventBus.Mirrored.init (η := η) (κ := κ) maxHistorySize).changes changes
  exact ⟨h.keys, h.listeners_get?, h.distinct,
    fun event => ⟨fun hempty => h.filled event [] hempty rfl, h.listeners_filled event⟩,
    mem_handlers_changes maxHistorySize changes⟩

end Presence

section Calls

variable [DecidableEq η] {handlers : Handlers η κ}

theorem serveAll_mirrored {coroutine : Subscription η κ → Event κ → Program η κ Unit} {event : Event κ}
    (hcoroutine : ∀ sub, Maintains (fun w => w.bus.Mirrored) (coroutine sub event)) :
    Maintains (fun w => w.bus.Mirrored) (Program.serveAll handlers coroutine event) := by
  refine .bind (.modify fun _ h => ⟨h.same, h.distinct, h.filled⟩) fun _ => .bind .get fun seen => ?_
  exact Program.serveEach_maintains EventBus.Mirrored (fun _ _ _ h => h.changes _) hcoroutine _

theorem perform_mirrored {w : World η κ} (h : w.bus.Mirrored) (call : Call η κ) :
    (w.perform handlers call).bus.Mirrored := by
  cases call with
  | change change => exact h.change change
  | publish running published =>
      exact (serveAll_mirrored fun sub =>
        Program.executeAsyncHandler_maintains EventBus.Mirrored running sub _).finalState h
  | asyncPublish published =>
      exact (serveAll_mirrored fun sub =>
        Program.deliver_maintains EventBus.Mirrored .scheduled sub _).finalState h

-- This does not depend on who changes the subscriptions, the caller or a handler that is served.
theorem performAll_mirrored (handlers : Handlers η κ) (maxHistorySize : Int)
    (calls : List (Call η κ)) : (World.performAll handlers maxHistorySize calls).bus.Mirrored :=
  List.foldlRecOn calls (World.perform handlers) (motive := fun w => w.bus.Mirrored)
    (.init maxHistorySize) fun _ h call _ => perform_mirrored h call

-- An event is for a handler at most twice, by its name and by the wildcard.
theorem matching_count_le (handlers : Handlers η κ) (maxHistorySize : Int) (calls : List (Call η κ))
    (event : Event κ) (handler : η) :
    (((World.performAll handlers maxHistorySize calls).bus.matching event).map
      (·.handler)).count handler ≤ 2 := by
  have h := performAll_mirrored handlers maxHistorySize calls
  generalize (World.performAll handlers maxHistorySize calls).bus = bus at h ⊢
  have hnamed := List.nodup_iff_count_le_one.mp (h.nodup event.name) handler
  have hwildcard := List.nodup_iff_count_le_one.mp (h.nodup wildcard) handler
  have hsublist : ((bus.matching event).map (·.handler)).Sublist
      (bus.handlers event.name ++ bus.handlers wildcard) := by
    unfold EventBus.matching EventBus.handlers
    rw [← List.map_append]
    refine (List.filter_sublist.trans ?_).map _
    split
    · exact List.sublist_append_right _ _
    · exact List.Sublist.refl _
  have hcount := hsublist.count_le handler
  rw [List.count_append] at hcount
  omega

end Calls

end YasinCore.Events
