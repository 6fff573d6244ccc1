import YasinCore.Observability.Client

namespace YasinCore.Observability

open YasinCore.Library

variable {φ : Type}

-- The counters say what happened to whom.
def CountersAgree (c : Client φ) : Prop :=
  ∀ kind values, values.length = kind.labels.length →
    c.service.metrics.value (.ofString kind.counter) (kind.labelled values) =
      c.happened.count ⟨kind, values⟩

-- The gauge of the active plugins, as it is read after collect_all.
def pluginsActive? (describe : Plugins.YasinPlugin → String) (c : Client φ) : Option Nat :=
  (finalState (Client.Program.collectAll describe) c).service.metrics.value?
    (.ofString "yasin_plugins_active") .empty

-- The counters agree, and the gauge is the number of the plugins that are in the state ACTIVE.
structure Agrees (describe : Plugins.YasinPlugin → String) (c : Client φ) : Prop where
  counters : CountersAgree c
  plugins : pluginsActive? describe c = some (c.plugins.plugins.keys.countP (c.plugins.state · = .active))

-- Nothing has happened to anybody with another name than the default.
def Anonymous (c : Client φ) : Prop :=
  ∀ happening ∈ c.happened, happening.values = happening.kind.unknowns

-- What is true after all calls, and in the course of them while an event is still to be published: all
-- that happened has been counted, but for the default name.
structure Observed (due : Option Kind) (c : Client φ) : Prop where
  running : c.bus.isShutdown = false
  everything : c.bus.subscribed Events.wildcard = [⟨(), none, false⟩]
  others : ∀ name, name ≠ Events.wildcard → c.bus.subscribed name = []
  counters : c.service.metrics.CountersBut ObservabilityService.gauges
  plain : c.plugins.Plain
  shaped : ∀ happening ∈ c.happened, happening.values.length = happening.kind.labels.length
  counted : ∀ kind values, values.length = kind.labels.length →
    (c.service.metrics.valueAt (kind.key values) +
      if due = some kind ∧ values = kind.unknowns then 1 else 0) =
        if values = kind.unknowns then c.happened.countP (·.kind = kind) else 0

namespace Client.Program

variable {due : Option Kind} {c : Client φ}

-- The service gets every event that is not called like the wildcard.
theorem publish_run (h : Observed due c) {name : String}
    (hname : Str.ofString name ≠ Events.wildcard) (payload : Payload φ) :
    ∃ bus, bus.isShutdown = false ∧ bus.subscriptions = c.bus.subscriptions ∧
      publish name payload c = .ok () { c with
        bus := bus
        service := finalState (ObservabilityService.handleEvent ⟨.ofString name, payload⟩)
          c.service } := by
  obtain ⟨bus, hbus, hrun⟩ := Events.Program.publish_delivers (w := ⟨c.bus, []⟩)
    (listener : Events.Handlers Unit (Payload φ)) h.running false (.named (.ofString name) payload)
  have hsubscribed : c.bus.subscribed (.ofString name) ++ c.bus.subscribed Events.wildcard =
      [⟨(), none, false⟩] := by
    rw [h.others _ hname, h.everything, List.nil_append]
  have hdelivered : Events.Program.publish listener false (.named (.ofString name) payload)
      ⟨c.bus, []⟩ = .ok () ⟨bus, [⟨.called, ⟨(), none, false⟩, ⟨.ofString name, payload⟩⟩]⟩ := by
    refine hrun.trans ?_
    dsimp only [Events.Published.event]
    rw [hsubscribed]
    rfl
  have hquiet (handler : Unit) (event : Events.Event (Payload φ)) :
      listener.changes handler event = [] := rfl
  have hsubs := (Events.Program.publish_subscriptions hquiet c.bus.subscriptions false
    (.named (.ofString name) payload)).finalState (s := ⟨c.bus, []⟩) rfl
  rw [finalState, hdelivered] at hsubs
  refine ⟨bus, hbus, hsubs, ?_⟩
  have hfinal : finalState (Events.Program.publish listener false (.named (.ofString name) payload))
      ⟨c.bus, []⟩ = ⟨bus, [⟨.called, ⟨(), none, false⟩, ⟨.ofString name, payload⟩⟩]⟩ := by
    rw [finalState, hdelivered]
  change EStateM.Result.ok _ _ = _
  dsimp only
  rw [hfinal]
  rfl

-- An event is counted for the unknown; if it was due, nothing is due any more.
theorem publish_spec {name : String} (hname : Str.ofString name ≠ Events.wildcard)
    (hdue : ∀ kind : Kind, Str.ofString name = .ofString kind.event ↔ due = some kind)
    {payload : Payload φ} (hp : due.isSome → ObservabilityService.Nameless payload) :
    Triple (Observed due) (publish name payload) (fun _ => Observed none) fun _ _ => False := by
  intro c h
  obtain ⟨bus, hbus, hsubs, hrun⟩ := publish_run h hname payload
  have hnameless (kind : Kind) (hk : Str.ofString name = .ofString kind.event) :
      ObservabilityService.Nameless payload := hp (by rw [(hdue kind).mp hk]; rfl)
  obtain ⟨t, ht, hcounters, hcount⟩ := @ObservabilityService.handleEvent_counts φ c.service h.counters
    ⟨.ofString name, payload⟩ hnameless
  have hsubscribed (name : Str) : bus.subscribed name = c.bus.subscribed name := by
    rw [Events.EventBus.subscribed, hsubs]
    rfl
  rw [hrun]
  dsimp only
  rw [finalState, ht]
  refine ⟨hbus, (hsubscribed _).trans h.everything, fun name hn => (hsubscribed name).trans
    (h.others name hn), hcounters, h.plain, h.shaped, fun kind values hlength => ?_⟩
  have hcounted := h.counted kind values hlength
  have hnew := hcount kind values hlength
  simp only [hdue] at hnew
  simp only [reduceCtorEq, false_and, if_false, Nat.add_zero]
  rw [hnew, hcounted]

theorem happen_spec {kind : Kind} {values : List String} (h : values.length = kind.labels.length) :
    Triple (Observed none) (happen kind values) (fun _ => Observed (some kind))
      (fun (_ : String) (_ : Client φ) => False) := by
  refine Triple.modify fun c hc => ⟨hc.running, hc.everything, hc.others, hc.counters, hc.plain,
    fun happening hm => ?_, fun other others hlength => ?_⟩
  · rcases List.mem_append.mp hm with hm | hm
    · exact hc.shaped happening hm
    · rw [List.mem_singleton.mp hm, List.length_map, h]
  · have hcounted := hc.counted other others hlength
    simp only [reduceCtorEq, false_and, if_false, Nat.add_zero] at hcounted
    rw [hcounted, List.countP_append, List.countP_singleton]
    by_cases hk : kind = other
    · subst hk
      by_cases hu : others = kind.unknowns
      · simp [hu]
      · simp [hu]
    · have hk' : ¬some kind = some other := fun heq => hk (Option.some.inj heq)
      simp [hk, hk']

theorem Observed.setAgents (h : Observed due c) (agents : Dict Agents.AgentName Agents.BaseAgent) :
    Observed due { c with agents := agents } :=
  ⟨h.running, h.everything, h.others, h.counters, h.plain, h.shaped, h.counted⟩

-- The keys under which the labels are looked for are not among those of the payload.
theorem nameless_of_keys {payload : Payload φ} {entries : List (String × Json φ)}
    (hentries : payload.entries = fields entries)
    (hnot : ∀ entry ∈ entries, entry.1 ∉ ["id", "name"]) :
    ObservabilityService.Nameless payload := by
  intro kind label hl
  have hall : ∀ kind ∈ Kind.all, ∀ label ∈ kind.labels, label.2 ∈ ["id", "name"] := by decide
  rw [Entries.lookup_eq_none_iff, hentries, fields, List.map_map]
  intro hm
  obtain ⟨entry, he, heq⟩ := List.mem_map.mp hm
  have hkey : entry.1 = label.2 := Str.ofString_injective heq
  exact hnot entry he (hkey ▸ hall kind kind.mem_all label hl)

theorem nameless_agent (event : String) (name : Agents.AgentName) :
    ObservabilityService.Nameless
      (.event ⟨.ofString event, fields [("agent_name", text name)]⟩ : Payload φ) :=
  nameless_of_keys rfl (by simp)

theorem nameless_task (task : Agents.Task) {more : List (String × Json φ)}
    (hmore : ∀ entry ∈ more, entry.1 ∉ ["id", "name"]) :
    ObservabilityService.Nameless (.dict (fields ([("task_id", text task.id),
      ("task_name", text task.name)] ++ more ++ [("task", taskFields task)])) : Payload φ) := by
  refine nameless_of_keys rfl fun entry he => ?_
  simp only [List.mem_append, List.mem_cons, List.not_mem_nil, or_false] at he
  rcases he with ((rfl | rfl) | he) | rfl
  · simp
  · simp
  · exact hmore entry he
  · simp

-- The event that is due.
theorem publish_due (kind : Kind) {payload : Payload φ} (hp : ObservabilityService.Nameless payload) :
    Triple (Observed (some kind)) (publish kind.event payload) (fun _ => Observed none)
      fun _ => Observed none := by
  have hname : Str.ofString kind.event ≠ Events.wildcard := by
    have hall : ∀ kind ∈ Kind.all, Str.ofString kind.event ≠ Events.wildcard := by decide
    exact hall kind kind.mem_all
  refine (publish_spec hname (fun other => ?_) fun _ => hp).of_total
  rw [Option.some.injEq]
  exact ⟨Kind.event_injective, fun heq => heq ▸ rfl⟩

-- An event that is counted nowhere else than among all events.
theorem publish_other {name : String} (hname : Str.ofString name ≠ Events.wildcard)
    (hall : ∀ kind ∈ Kind.all, Str.ofString name ≠ .ofString kind.event) (payload : Payload φ) :
    Maintains (Observed none) (publish name payload) := by
  refine (publish_spec hname (fun kind => ?_) (by simp)).of_total
  exact ⟨fun heq => (hall kind kind.mem_all heq).elim, nofun⟩

-- Something happens, and its event is published before anything else.
theorem announce {α : Type} (kind : Kind) {values : List String} {payload : Payload φ}
    {next : Program φ α} (h : values.length = kind.labels.length)
    (hp : ObservabilityService.Nameless payload) (hnext : Maintains (Observed none) next) :
    Maintains (Observed none)
      (happen kind values >>= fun _ => publish kind.event payload >>= fun _ => next) :=
  Triple.bind (happen_spec h).of_total fun _ => Triple.bind (publish_due kind hp) fun _ => hnext

theorem announce_last (kind : Kind) {values : List String} {payload : Payload φ}
    (h : values.length = kind.labels.length) (hp : ObservabilityService.Nameless payload) :
    Maintains (Observed none) (happen kind values >>= fun _ => publish kind.event payload) :=
  Triple.bind (happen_spec h).of_total fun _ => publish_due kind hp

theorem raise_bind {α β : Type} {message : String} {next : α → Program φ β} :
    Maintains (Observed none) (raise message >>= next) := fun _ h => h

theorem registerAgent_observed (agent : Agents.BaseAgent) (permitted : Except String Unit) :
    Maintains (Observed none) (registerAgent agent permitted : Program φ Unit) := by
  have hrest : Maintains (Observed none) (do
      modify fun c => { c with agents := c.agents.set agent.name agent }
      happen .agentRegistered [agent.name]
      publishAgent "agent_registered" agent.name : Program φ Unit) :=
    .bind (.modify fun c hc => Observed.setAgents hc _) fun _ =>
      announce_last .agentRegistered rfl (nameless_agent _ _)
  cases permitted with
  | ok _ => exact hrest
  | error message => exact .bind .throw fun _ => hrest

theorem removeAgent_observed (name : Agents.AgentName) :
    Maintains (Observed none) (removeAgent name : Program φ Unit) := by
  refine .bind .get fun c => .ite (fun _ => ?_) fun _ => .pure
  exact .bind (.modify fun d hd => Observed.setAgents hd _) fun _ =>
    publish_other (by decide) (by decide) _

theorem callHook_observed (hooks : Hooks) (name : Agents.AgentName) :
    Maintains (Observed none) (callHook hooks name : Program φ Unit) := by
  unfold callHook
  split
  · exact .pure
  · exact .throw

theorem startAgents_observed (hooks : Hooks) :
    Maintains (Observed none) (startAgents hooks : Program φ Unit) := by
  refine .bind .get fun c => .forM fun (name, agent) _ => .ite (fun _ => ?_) fun _ => .pure
  exact .bind (callHook_observed hooks name) fun _ =>
    .bind (.modify fun d hd => Observed.setAgents hd _) fun _ =>
      announce_last .agentStarted rfl (nameless_agent _ _)

theorem stopAgents_observed (hooks : Hooks) :
    Maintains (Observed none) (stopAgents hooks : Program φ Unit) := by
  refine .bind .get fun c => .forM fun (name, agent) _ => .ite (fun _ => ?_) fun _ => .pure
  exact .bind (callHook_observed hooks name) fun _ =>
    .bind (.modify fun d hd => Observed.setAgents hd _) fun _ =>
      announce_last .agentStopped rfl (nameless_agent _ _)

theorem runTask_observed (task : Agents.Task) (hooks : Agents.AgentHooks) :
    Maintains (Observed none) (runTask task hooks : Program φ Agents.Task) := by
  have hdone (result : String) : Maintains (Observed none) (do
      let task := { task with status := "completed", result := some result }
      happen .taskCompleted [task.id, task.name]
      publishTask "task_completed" task [("result", text result)]
      return task : Program φ Agents.Task) :=
    announce .taskCompleted rfl (nameless_task _ (by simp)) .pure
  unfold runTask
  dsimp only
  refine .ite (fun _ => raise_bind) fun _ => .bind .get fun c => ?_
  split
  · refine .ite (fun _ => ?_) fun _ => ?_
    · split
      · refine .bind (.modify fun d hd => Observed.setAgents hd _) fun _ =>
          announce .agentStarted rfl (nameless_of_keys rfl (by simp)) ?_
        split
        · exact hdone _
        · exact .throw
      · exact raise_bind
    · split
      · exact hdone _
      · exact .throw
  · exact .throw

theorem executeTask_observed (task : Agents.Task) (hooks : Agents.AgentHooks) :
    Maintains (Observed none) (executeTask task hooks : Program φ Agents.Task) := by
  refine announce .taskStarted rfl (nameless_task _ (by simp)) (.tryCatch ?_ fun message => ?_)
  · exact runTask_observed _ hooks
  · exact announce .taskFailed rfl (nameless_task _ (by simp)) .pure

theorem executeAgentTask_observed (task : Agents.Task) (permitted : Except String Unit)
    (hooks : Agents.AgentHooks) :
    Maintains (Observed none) (executeAgentTask task permitted hooks : Program φ Agents.Task) := by
  refine .bind .get fun c => .ite (fun _ => .pure) fun _ => ?_
  split
  · exact .pure
  · exact executeTask_observed task hooks

theorem publishRecord_observed {record : Plugins.Record} (h : record.Plain) :
    Maintains (Observed none) (publishRecord record : Program φ Unit) := by
  cases record with
  | published event name details =>
      have hevents : ∀ event ∈ Plugins.pluginEvents, Str.ofString event ≠ Events.wildcard ∧
          ∀ kind ∈ Kind.all, Str.ofString event ≠ .ofString kind.event := by decide
      obtain ⟨hname, hkinds⟩ := hevents event h
      exact publish_other hname hkinds _
  | registered name => exact .pure
  | called name hook state raised => exact .pure

theorem operatePlugins_observed (hooks : Plugins.Hooks) (act : Plugins.Action) :
    Maintains (Observed none) (operatePlugins hooks act : Program φ Unit) := by
  intro c hc
  have hafter : (finalState (act.operation hooks) c.plugins).Plain :=
    (Plugins.operation_plain hooks act).finalState hc.plain
  have hrest (records : List Plugins.Record) (hrecords : ∀ record ∈ records, record.Plain) :
      Maintains (Observed none)
        (adoptPlugins (finalState (act.operation hooks) c.plugins) records : Program φ Unit) := by
    refine .bind (.modify fun d hd => ?_) fun _ => .forM fun record hr =>
      publishRecord_observed (hrecords record hr)
    exact ⟨hd.running, hd.everything, hd.others, hd.counters, hafter, hd.shaped, hd.counted⟩
  exact hrest _ (fun record hr => hafter record (List.mem_of_mem_take (List.mem_reverse.mp hr))) c hc

-- A client without the attribute has no part of collect_all that is about the plugins.
theorem collectAll_run (describe : Plugins.YasinPlugin → String) (c : Client φ) :
    collectAll describe c = .ok () c := rfl

theorem collectAll_observed (describe : Plugins.YasinPlugin → String) :
    Maintains (Observed none) (collectAll describe : Program φ Unit) := .modify fun _ hc => hc

end Client.Program

namespace Client

theorem observed_init : Observed none (init : Client φ) where
  running := rfl
  everything := rfl
  others name hname := by
    have hsubs : (init : Client φ).bus.subscriptions =
        (Dict.empty.set Events.wildcard [⟨(), none, false⟩]) := rfl
    rw [Events.EventBus.subscribed, hsubs, Dict.get?_set_of_ne _ _ hname]
    rfl
  counters := nofun
  plain := nofun
  shaped := nofun
  counted kind values _ := by
    simp only [reduceCtorEq, false_and, if_false]
    split <;> rfl

theorem observed_perform {c : Client φ} (h : Observed none c) (act : Action) :
    Observed none (c.perform act) := by
  cases act with
  | registerAgent agent permitted => exact (Program.registerAgent_observed agent permitted).finalState h
  | removeAgent name => exact (Program.removeAgent_observed name).finalState h
  | startAgents hooks => exact (Program.startAgents_observed hooks).finalState h
  | stopAgents hooks => exact (Program.stopAgents_observed hooks).finalState h
  | executeTask task hooks => exact (Program.executeTask_observed task hooks).finalState h
  | executeAgentTask task permitted hooks =>
      exact (Program.executeAgentTask_observed task permitted hooks).finalState h
  | plugins hooks act => exact (Program.operatePlugins_observed hooks act).finalState h
  | collectAll describe => exact (Program.collectAll_observed describe).finalState h

theorem observed_performAll (acts : List Action) : Observed none (performAll acts : Client φ) :=
  List.foldlRecOn acts perform observed_init fun _ h act _ => observed_perform h act

end Client

-- The counters agree with what happened exactly when all of it happened to the unknown.
theorem Observed.countersAgree_iff {c : Client φ} (h : Observed none c) :
    CountersAgree c ↔ Anonymous c := by
  have hvalue (kind : Kind) (values : List Str) (hlength : values.length = kind.labels.length) :
      c.service.metrics.value (.ofString kind.counter) (kind.labelled values) =
        if values = kind.unknowns then c.happened.countP (·.kind = kind) else 0 := by
    have hcounted := h.counted kind values hlength
    simp only [reduceCtorEq, false_and, if_false, Nat.add_zero] at hcounted
    exact hcounted
  constructor
  · intro hagree happening hm
    by_contra hne
    have hlength := h.shaped happening hm
    have hcount := hagree happening.kind happening.values hlength
    rw [hvalue _ _ hlength, if_neg hne] at hcount
    exact (List.count_pos_iff.mpr hm).ne hcount
  · intro hall kind values hlength
    rw [hvalue kind values hlength]
    split
    · rename_i hu
      rw [List.count_eq_countP]
      refine List.countP_congr fun happening hm => ?_
      have hvalues := hall happening hm
      rw [decide_eq_true_iff, beq_iff_eq]
      constructor
      · rintro rfl
        rw [hu, ← hvalues]
      · rintro rfl
        rfl
    · rename_i hu
      refine (List.count_eq_zero.mpr fun hm => hu ?_).symm
      exact hall _ hm

namespace Client

-- In no run do the metrics agree with what happened, since there is no gauge of the active plugins.
-- The counters alone agree exactly when all of it happened to the unknown.
theorem agrees_never (describe : Plugins.YasinPlugin → String) (acts : List Action) :
    ¬Agrees describe (performAll acts : Client φ) ∧
      pluginsActive? describe (performAll acts : Client φ) = none ∧
      (CountersAgree (performAll acts : Client φ) ↔ Anonymous (performAll acts : Client φ)) := by
  have hobserved : Observed none (performAll acts : Client φ) := observed_performAll acts
  have hgauge : pluginsActive? describe (performAll acts : Client φ) = none := by
    rw [pluginsActive?, finalState, Program.collectAll_run]
    exact hobserved.counters.value?_eq_none (by decide)
  refine ⟨fun h => ?_, hgauge, hobserved.countersAgree_iff⟩
  have hplugins := h.plugins
  rw [hgauge] at hplugins
  cases hplugins

-- An agent has been registered, but not under its name.
theorem registered_for_unknown :
    ¬Agrees (fun _ => "") (performAll [.registerAgent ⟨"scribe", [], false⟩ (.ok ())] :
      Client Unit) := by
  intro h
  have hcount := h.counters .agentRegistered [.ofString "scribe"] rfl
  revert hcount
  decide

end Client

end YasinCore.Observability
