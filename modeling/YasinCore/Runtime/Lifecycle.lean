import YasinCore.Library.Transition
import YasinCore.Runtime.StartupOrder
import Mathlib.Data.List.TakeWhile

namespace YasinCore.Runtime.RuntimeServiceManager

open YasinCore.Library

variable {Service : Type}

section States

variable (m : RuntimeServiceManager Service) (name other : ServiceName) (state : ServiceState)

theorem state?_setState : (m.setState name state).state? other =
    if other = name then (m.state? other).map fun _ => state else m.state? other := by
  have hget : (m.setState name state).state? other =
      (m.state? other).map fun old => if other = name then state else old := Dict.get?_mapValues ..
  rw [hget]
  by_cases he : other = name
  · simp [he]
  · simp [he]

theorem state?_isSome : (m.state? name).isSome ↔ name ∈ m.services := by
  have hkeys : name ∈ m.states ↔ name ∈ m.services := by
    change name ∈ m.states.keys ↔ name ∈ m.services.keys
    rw [m.states_keys]
  rw [← hkeys, Dict.mem_iff, Option.isSome_iff_exists]
  exact Iff.rfl

variable {m name}

theorem mem_services_of_state? {state : ServiceState} (h : m.state? name = some state) :
    name ∈ m.services := by
  rw [← state?_isSome, h]
  rfl

end States

-- The states of the services and the flag are all that the hooks of a call can change.
structure SameServices (m t : RuntimeServiceManager Service) : Prop where
  services : t.services = m.services
  metadata : t.metadata = m.metadata

theorem SameServices.refl (m : RuntimeServiceManager Service) : SameServices m m := ⟨rfl, rfl⟩

theorem SameServices.trans {m t u : RuntimeServiceManager Service} (h : SameServices m t)
    (h' : SameServices t u) : SameServices m u :=
  ⟨h'.services.trans h.services, h'.metadata.trans h.metadata⟩

theorem SameServices.needs {m t : RuntimeServiceManager Service} (h : SameServices m t) :
    t.Needs = m.Needs := by
  funext name dep
  simp only [Needs, dependencies, h.metadata]

theorem sameServices_setState (m : RuntimeServiceManager Service) (name : ServiceName)
    (state : ServiceState) : SameServices m (m.setState name state) := ⟨rfl, rfl⟩

section Initialize

variable (hooks : Hooks)

-- The services whose hooks return before the first one raises, and the one that raises.
def started (hooks : Hooks) (order : List ServiceName) : List ServiceName :=
  order.takeWhile fun name => (hooks name).isNone

def raising (hooks : Hooks) (order : List ServiceName) : Option ServiceName :=
  order.find? fun name => (hooks name).isSome

theorem sameServices_initializeLoop (order : List ServiceName) (m : RuntimeServiceManager Service) :
    SameServices m (initializeLoop hooks order m).2 := by
  induction order generalizing m with
  | nil => exact ⟨rfl, rfl⟩
  | cons name rest ih =>
      rw [initializeLoop]
      split
      · exact (sameServices_setState ..).trans ((sameServices_setState ..).trans (ih _))
      · exact (sameServices_setState ..).trans (sameServices_setState ..)

-- What the loop leaves behind, service by service.
theorem state?_initializeLoop (order : List ServiceName) (m : RuntimeServiceManager Service)
    (other : ServiceName) : (initializeLoop hooks order m).2.state? other =
      if other ∈ started hooks order then (m.state? other).map fun _ => .active
      else if raising hooks order = some other then (m.state? other).map fun _ => .failed
      else m.state? other := by
  induction order generalizing m with
  | nil => simp [initializeLoop, started, raising, state?]
  | cons name rest ih =>
      rw [initializeLoop]
      cases hh : hooks name with
      | none =>
          have hstarted : started hooks (name :: rest) = name :: started hooks rest := by
            simp [started, hh]
          have hraising : raising hooks (name :: rest) = raising hooks rest := by
            simp [raising, hh]
          simp only [ih, state?_setState, hstarted, hraising, List.mem_cons]
          by_cases he : other = name
          · have hnot : raising hooks rest ≠ some other := by
              intro hr
              have hsome := List.find?_some hr
              rw [he, hh] at hsome
              cases hsome
            subst he
            cases m.state? other <;> simp [hnot]
          · simp [he]
      | some error =>
          have hstarted : started hooks (name :: rest) = [] := by simp [started, hh]
          have hraising : raising hooks (name :: rest) = some name := by simp [raising, hh]
          simp only [state?_setState, hstarted, hraising, Option.some.injEq]
          by_cases he : other = name
          · subst he
            cases m.state? other <;> simp
          · simp [he, Ne.symm he]

theorem initializeLoop_fst (order : List ServiceName) (m : RuntimeServiceManager Service) :
    ((initializeLoop hooks order m).1.isNone ↔ raising hooks order = none) ∧
      (initializeLoop hooks order m).2.isInitialized =
        ((raising hooks order).isNone || m.isInitialized) := by
  induction order generalizing m with
  | nil => simp [initializeLoop, raising]
  | cons name rest ih =>
      rw [initializeLoop]
      cases hh : hooks name with
      | none =>
          have hraising : raising hooks (name :: rest) = raising hooks rest := by
            simp [raising, hh]
          rw [hraising]
          exact ih ((m.setState name .initializing).setState name .active)
      | some error =>
          have hraising : raising hooks (name :: rest) = some name := by simp [raising, hh]
          rw [hraising]
          exact ⟨by simp, rfl⟩

end Initialize

section Shutdown

variable (hooks : Hooks) {m : RuntimeServiceManager Service}

-- What the loop leaves behind, service by service.
theorem shutdownLoop_states (order : List ServiceName)
    (acc : RuntimeServiceManager Service × List (Stop (RuntimeServiceManager Service))) :
    SameServices acc.1 (order.foldl (shutdownOne hooks) acc).1 ∧
      ∀ other, (order.foldl (shutdownOne hooks) acc).1.state? other =
        if other ∈ order ∧ acc.1.state? other = some .active ∧ hooks other = none then some .stopped
        else acc.1.state? other := by
  induction order generalizing acc with
  | nil => exact ⟨.refl _, fun other => by simp⟩
  | cons name rest ih =>
      obtain ⟨hsame, hstate⟩ := ih (shutdownOne hooks acc name)
      have hone : SameServices acc.1 (shutdownOne hooks acc name).1 ∧
          ∀ other, (shutdownOne hooks acc name).1.state? other =
            if other = name ∧ acc.1.state? name = some .active ∧ hooks name = none then some .stopped
            else acc.1.state? other := by
        unfold shutdownOne
        by_cases ha : acc.1.state? name = some .active
        · cases hh : hooks name with
          | none =>
              refine ⟨?_, fun other => ?_⟩
              · simp only [ha, if_true]
                exact sameServices_setState ..
              · simp only [ha, if_true, state?_setState]
                by_cases he : other = name
                · simp [he, ha]
                · simp [he]
          | some error => exact ⟨by simpa [ha] using .refl _, fun other => by simp [ha]⟩
        · exact ⟨by simpa [ha] using .refl _, fun other => by simp [ha]⟩
      rw [List.foldl_cons]
      refine ⟨hone.1.trans hsame, fun other => ?_⟩
      rw [hstate, hone.2 other]
      by_cases he : other = name
      · subst he
        by_cases hs : acc.1.state? other = some .active ∧ hooks other = none
        · simp [hs]
        · simp [hs]
      · simp [he]

-- The stops of the loop: an active service whose hook returns, at the moment of its turn.
theorem mem_stops_shutdownLoop (order : List ServiceName)
    (acc : RuntimeServiceManager Service × List (Stop (RuntimeServiceManager Service)))
    (stop : Stop (RuntimeServiceManager Service)) :
    stop ∈ (order.foldl (shutdownOne hooks) acc).2 ↔ stop ∈ acc.2 ∨
      ∃ before after, order = before ++ stop.name :: after ∧
        stop.manager = (before.foldl (shutdownOne hooks) acc).1 ∧
        stop.manager.state? stop.name = some .active ∧ hooks stop.name = none := by
  induction order generalizing acc with
  | nil => simp
  | cons name rest ih =>
      have hone : stop ∈ (shutdownOne hooks acc name).2 ↔ stop ∈ acc.2 ∨
          stop.name = name ∧ stop.manager = acc.1 ∧ acc.1.state? name = some .active ∧
            hooks name = none := by
        unfold shutdownOne
        by_cases ha : acc.1.state? name = some .active
        · cases hh : hooks name with
          | none =>
              simp only [ha, if_true, List.mem_append, List.mem_singleton, and_self, and_true]
              refine or_congr_right ⟨?_, ?_⟩
              · rintro rfl
                exact ⟨rfl, rfl⟩
              · rintro ⟨hname, hmanager⟩
                cases stop
                cases hname
                cases hmanager
                rfl
          | some error => simp [ha]
        · simp [ha]
      rw [List.foldl_cons, ih, hone, or_assoc]
      refine or_congr_right ⟨?_, ?_⟩
      · rintro (⟨rfl, hmanager, ha, hh⟩ | ⟨before, after, rfl, hmanager, ha, hh⟩)
        · exact ⟨[], rest, rfl, hmanager, hmanager ▸ ha, hh⟩
        · exact ⟨name :: before, after, rfl, hmanager, ha, hh⟩
      · rintro ⟨before, after, he, hmanager, ha, hh⟩
        cases before with
        | nil =>
            obtain ⟨rfl, rfl⟩ := List.cons.inj he
            exact .inl ⟨rfl, hmanager, hmanager ▸ ha, hh⟩
        | cons first before =>
            obtain ⟨rfl, rfl⟩ := List.cons.inj he
            exact .inr ⟨before, after, rfl, hmanager, ha, hh⟩

end Shutdown

-- A manager and the shutdown hooks that have returned so far.
structure Managed (Service : Type) where
  manager : RuntimeServiceManager Service
  stops : List (Stop (RuntimeServiceManager Service))

inductive Call (Service : Type)
  | registerService (service : Service) (metadata : ServiceMetadata)
  | unregisterService (name : ServiceName) (hooks : Hooks)
  | initializeServices (hooks : Hooks)
  | shutdown (hooks : Hooks)
  | reload (hooks : Hooks)

namespace Managed

def start : Managed Service := ⟨.init, []⟩

-- A call that raises leaves behind what it has done up to then.
def step (s : Managed Service) : Call Service → Option (Managed Service)
  | .registerService service metadata =>
      match s.manager.registerService service metadata with
      | .ok m => some { s with manager := m }
      | .error _ => some s
  | .unregisterService name hooks =>
      match s.manager.unregisterService name hooks with
      | .ok (m, stops) => some ⟨m, s.stops ++ stops⟩
      | .error _ => some s
  | .initializeServices hooks => some { s with manager := (s.manager.initializeServices hooks).2 }
  | .shutdown hooks =>
      some ⟨(s.manager.shutdown hooks).1, s.stops ++ (s.manager.shutdown hooks).2⟩
  | .reload _ => some s

end Managed

def DepsActive (m : RuntimeServiceManager Service) : Prop :=
  ∀ name, m.state? name = some .active → ∀ dep, m.Needs name dep → m.state? dep = some .active

-- No service that needs the stopped one was active at that moment.
def CleanStop (stop : Stop (RuntimeServiceManager Service)) : Prop :=
  ∀ name, stop.manager.Needs name stop.name → stop.manager.state? name ≠ some .active

structure Supported (s : Managed Service) : Prop where
  deps : DepsActive s.manager
  stops : ∀ stop ∈ s.stops, CleanStop stop

-- The calls that take no dependency away from an active service: a service that fails to start has
-- no active dependents, and a service that stops has its active dependents before it, none of which
-- fails to stop.
def Careful (s : Managed Service) : Call Service → Prop
  | .initializeServices hooks => s.manager.isInitialized = false →
      ∀ order name, s.manager.getStartupOrder = .ok order → raising hooks order = some name →
        ∀ dependent, s.manager.Needs dependent name → s.manager.state? dependent ≠ some .active
  | .shutdown hooks => ∀ before name after, s.manager.shutdownOrder = before ++ name :: after →
      s.manager.state? name = some .active → hooks name = none →
        ∀ dependent, s.manager.Needs dependent name → s.manager.state? dependent = some .active →
          dependent ∈ before ∧ hooks dependent = none
  | _ => True

section Registration

variable {m t : RuntimeServiceManager Service}

theorem mem_dependents {name dependent : ServiceName} :
    dependent ∈ m.dependents name ↔ m.Needs dependent name := by
  unfold dependents Needs dependencies
  rw [List.mem_map]
  constructor
  · rintro ⟨entry, he, rfl⟩
    obtain ⟨hentry, hdep⟩ := List.mem_filter.mp he
    have hget : m.metadata.get? entry.1 = some entry.2 := (m.metadata.mem_entries_iff _ _).mp hentry
    rw [hget]
    exact of_decide_eq_true hdep
  · intro h
    cases hget : m.metadata.get? dependent with
    | none => simp [hget] at h
    | some metadata =>
        rw [hget] at h
        refine ⟨(dependent, metadata), List.mem_filter.mpr ⟨?_, decide_eq_true h⟩, rfl⟩
        exact (m.metadata.mem_entries_iff _ _).mpr hget

theorem registerService_ok {service : Service} {metadata : ServiceMetadata}
    (h : m.registerService service metadata = .ok t) : metadata.name ∉ m.services ∧
      (∀ other, t.state? other = if other = metadata.name then some .uninitialized else m.state? other) ∧
      ∀ other, other ≠ metadata.name → t.dependencies other = m.dependencies other := by
  unfold registerService at h
  split at h
  · cases h
  · rename_i hnew
    cases h
    refine ⟨hnew, fun other => Dict.get?_set .., fun other hne => ?_⟩
    simp only [dependencies, Dict.get?_set_of_ne _ _ hne]

theorem DepsActive.registerService {service : Service} {metadata : ServiceMetadata}
    (h : DepsActive m) (ht : m.registerService service metadata = .ok t) : DepsActive t := by
  obtain ⟨hnew, hstate, hdeps⟩ := registerService_ok ht
  intro name ha dep hneeds
  rw [hstate] at ha
  split at ha
  · cases ha
  · rename_i hne
    have hdep : m.state? dep = some .active := by
      apply h name ha dep
      rw [Needs, ← hdeps name hne]
      exact hneeds
    have hother : dep ≠ metadata.name := by
      rintro rfl
      exact hnew (mem_services_of_state? hdep)
    rw [hstate, if_neg hother, hdep]

theorem unregisterService_ok {name : ServiceName} {hooks : Hooks}
    {stops : List (Stop (RuntimeServiceManager Service))}
    (h : m.unregisterService name hooks = .ok (t, stops)) :
    (∀ dependent, ¬m.Needs dependent name) ∧ t = m.remove name ∧
      ∀ stop ∈ stops, stop = ⟨name, m⟩ := by
  unfold unregisterService at h
  split at h
  · cases h
  split at h
  · cases h
  · rename_i hnone
    rw [not_not] at hnone
    obtain ⟨rfl, rfl⟩ := Prod.mk.inj (Except.ok.inj h)
    refine ⟨fun dependent hneeds => ?_, rfl, fun stop hs => ?_⟩
    · have hm := mem_dependents.mpr hneeds
      rw [hnone] at hm
      cases hm
    · split at hs
      · exact List.mem_singleton.mp hs
      · cases hs

theorem DepsActive.remove {name : ServiceName} (h : DepsActive m)
    (hnone : ∀ dependent, ¬m.Needs dependent name) : DepsActive (m.remove name) := by
  intro other ha dep hneeds
  have hstate (third : ServiceName) :
      (m.remove name).state? third = if third = name then none else m.state? third :=
    Dict.get?_erase ..
  rw [hstate] at ha
  split at ha
  · cases ha
  · rename_i hne
    have hbefore : m.Needs other dep := by
      have hget : (m.remove name).metadata.get? other = m.metadata.get? other :=
        Dict.get?_erase_of_ne _ hne
      simpa only [Needs, dependencies, hget] using hneeds
    have hdep : dep ≠ name := by
      rintro rfl
      exact hnone other hbefore
    rw [hstate, if_neg hdep]
    exact h other ha dep hbefore

end Registration

section Exact

variable {m : RuntimeServiceManager Service} {hooks : Hooks}

-- Starting keeps the invariant exactly when the service that fails has no active dependents.
theorem depsActive_initializeLoop_iff (hooks : Hooks) {order : List ServiceName} (h : DepsActive m)
    (ho : m.StartupOrder order) : DepsActive (initializeLoop hooks order m).2 ↔
      ∀ name, raising hooks order = some name → ∀ dependent, m.Needs dependent name →
        m.state? dependent ≠ some .active := by
  have hneeds := (sameServices_initializeLoop hooks order m).needs
  have hstate := state?_initializeLoop hooks order m
  obtain ⟨hperm, htopological⟩ := ho
  have hnodup : order.Nodup := hperm.nodup_iff.mpr m.services.nodup
  have hsome {name : ServiceName} (hm : name ∈ order) : ∃ state, m.state? name = some state := by
    rw [← Option.isSome_iff_exists, state?_isSome]
    exact hperm.mem_iff.mp hm
  have hraises {name : ServiceName} (hr : raising hooks order = some name) :
      name ∈ order ∧ name ∉ started hooks order := by
    have hh : (hooks name).isSome := List.find?_some (p := fun name => (hooks name).isSome) hr
    refine ⟨List.mem_of_find?_eq_some hr, fun hs => ?_⟩
    have hnone : (hooks name).isNone :=
      List.mem_takeWhile_imp (p := fun name => (hooks name).isNone) hs
    cases hn : hooks name <;> simp [hn] at hh hnone
  constructor
  · intro ht name hr dependent hdependent ha
    obtain ⟨hm, hnot⟩ := hraises hr
    obtain ⟨state, hs⟩ := hsome hm
    have hfailed : (initializeLoop hooks order m).2.state? name = some .failed := by
      rw [hstate, if_neg hnot, if_pos hr, hs]
      rfl
    have hne : raising hooks order ≠ some dependent := by
      intro hc
      obtain rfl := Option.some.inj (hr.symm.trans hc)
      exact htopological.acyclic hnodup hm (.single hdependent)
    have hactive : (initializeLoop hooks order m).2.state? dependent = some .active := by
      rw [hstate, if_neg hne, ha]
      split <;> rfl
    have hdep := ht dependent hactive name (by rw [hneeds]; exact hdependent)
    rw [hfailed] at hdep
    cases hdep
  · intro hguard name ha dep hdep
    rw [hneeds] at hdep
    have hafter (hs : dep ∈ started hooks order) :
        (initializeLoop hooks order m).2.state? dep = some .active := by
      obtain ⟨state, hstate'⟩ := hsome ((List.takeWhile_prefix _).subset hs)
      rw [hstate, if_pos hs, hstate']
      rfl
    by_cases hs : name ∈ started hooks order
    · -- What is started comes after its dependencies, which are started as well.
      apply hafter
      obtain ⟨before, after, hsplit⟩ := List.append_of_mem hs
      obtain ⟨rest, hrest⟩ := List.takeWhile_prefix (l := order) fun name => (hooks name).isNone
      have horder : order = before ++ name :: (after ++ rest) := by
        rw [← hrest]
        change started hooks order ++ rest = _
        rw [hsplit]
        simp
      have hmem := htopological before name _ horder dep hdep
      rw [hsplit]
      exact List.mem_append_left _ hmem
    · rw [hstate, if_neg hs] at ha
      split at ha
      · cases hm : m.state? name <;> simp [hm] at ha
      · have hbefore := h name ha dep hdep
        by_cases hd : dep ∈ started hooks order
        · exact hafter hd
        · by_cases hr : raising hooks order = some dep
          · exact absurd ha (hguard dep hr name hdep)
          · rw [hstate, if_neg hd, if_neg hr]
            exact hbefore

theorem shutdownOrder_perm : m.shutdownOrder.Perm m.services.keys := by
  unfold shutdownOrder
  split
  · rename_i order horder
    obtain ⟨_, _, hleast⟩ := getStartupOrder_ok_iff.mp horder
    exact (List.reverse_perm order).trans hleast.1.1
  · exact List.reverse_perm _

-- Stopping keeps the invariant exactly when no active service loses an active dependency on the way.
theorem supported_shutdown_iff {s : Managed Service} (h : Supported s) :
    Supported (⟨(s.manager.shutdown hooks).1, s.stops ++ (s.manager.shutdown hooks).2⟩ : Managed Service) ↔
      Careful s (.shutdown hooks) := by
  have hnodup : s.manager.shutdownOrder.Nodup := shutdownOrder_perm.nodup_iff.mpr s.manager.services.nodup
  obtain ⟨hsame, hstate⟩ := shutdownLoop_states hooks s.manager.shutdownOrder (s.manager, [])
  have hstops (stop : Stop (RuntimeServiceManager Service)) :
      stop ∈ (s.manager.shutdown hooks).2 ↔ ∃ before after,
        s.manager.shutdownOrder = before ++ stop.name :: after ∧
        stop.manager = (before.foldl (shutdownOne hooks) (s.manager, [])).1 ∧
        stop.manager.state? stop.name = some .active ∧ hooks stop.name = none := by
    refine (mem_stops_shutdownLoop hooks s.manager.shutdownOrder (s.manager, []) stop).trans ?_
    simp
  have hneeds : (s.manager.shutdown hooks).1.Needs = s.manager.Needs := hsame.needs
  have hafter (other : ServiceName) : (s.manager.shutdown hooks).1.state? other =
      if other ∈ s.manager.shutdownOrder ∧ s.manager.state? other = some .active ∧ hooks other = none
      then some .stopped else s.manager.state? other := hstate other
  constructor
  · intro ht before name after he ha hh dependent hdependent hactive
    obtain ⟨hsame, hbefore⟩ := shutdownLoop_states hooks before (s.manager, [])
    have hname : name ∉ before := by
      rw [he] at hnodup
      exact fun hm => (List.nodup_append.mp hnodup).2.2 _ hm _ List.mem_cons_self rfl
    have hturn : (before.foldl (shutdownOne hooks) (s.manager, [])).1.state? name = some .active := by
      rw [hbefore, if_neg fun hc => hname hc.1, ha]
    have hstop : (⟨name, (before.foldl (shutdownOne hooks) (s.manager, [])).1⟩ :
        Stop (RuntimeServiceManager Service)) ∈ (s.manager.shutdown hooks).2 :=
      (hstops _).mpr ⟨before, after, he, rfl, hturn, hh⟩
    have hclean := ht.stops _ (List.mem_append_right _ hstop) dependent
      (by rw [hsame.needs]; exact hdependent)
    rw [hbefore] at hclean
    by_contra hc
    apply hclean
    rw [if_neg fun hb => hc ⟨hb.1, hb.2.2⟩, hactive]
  · intro hguard
    constructor
    · intro name ha dep hdep
      have hdep : s.manager.Needs name dep := hneeds ▸ hdep
      have ha := ha.symm.trans (hafter name)
      split at ha
      · cases ha
      rename_i hstays
      have hbefore := h.deps name ha.symm dep hdep
      refine (hafter dep).trans ?_
      rw [if_neg, hbefore]
      rintro ⟨hm, hactive, hh⟩
      obtain ⟨before, after, he⟩ := List.append_of_mem hm
      obtain ⟨hname, hh'⟩ := hguard before dep after he hactive hh name hdep ha.symm
      exact hstays ⟨by rw [he]; exact List.mem_append_left _ hname, ha.symm, hh'⟩
    · intro stop hm
      rcases List.mem_append.mp hm with hm | hm
      · exact h.stops stop hm
      · obtain ⟨before, after, he, hmanager, hturn, hh⟩ := (hstops stop).mp hm
        obtain ⟨hsame, hbefore⟩ := shutdownLoop_states hooks before (s.manager, [])
        rw [hmanager, hbefore] at hturn
        split at hturn
        · cases hturn
        intro name hdep ha
        rw [hmanager, hbefore] at ha
        rw [hmanager, hsame.needs] at hdep
        split at ha
        · cases ha
        · rename_i hstays
          obtain ⟨hname, hh'⟩ := hguard before stop.name after he hturn hh name hdep ha
          exact hstays ⟨hname, ha, hh'⟩

theorem supported_step_iff {s t : Managed Service} {call : Call Service} (h : Supported s)
    (hs : s.step call = some t) : Supported t ↔ Careful s call := by
  cases call with
  | registerService service metadata =>
      refine iff_of_true ?_ trivial
      simp only [Managed.step] at hs
      split at hs
      · rename_i u hu
        obtain rfl := Option.some.inj hs
        exact ⟨h.deps.registerService hu, h.stops⟩
      · exact Option.some.inj hs ▸ h
  | unregisterService name hooks =>
      refine iff_of_true ?_ trivial
      simp only [Managed.step] at hs
      split at hs
      · rename_i u stops hu
        obtain rfl := Option.some.inj hs
        obtain ⟨hnone, rfl, hstops⟩ := unregisterService_ok hu
        refine ⟨h.deps.remove hnone, fun stop hm => ?_⟩
        rcases List.mem_append.mp hm with hm | hm
        · exact h.stops stop hm
        · rw [hstops stop hm]
          exact fun other hother => absurd hother (hnone other)
      · exact Option.some.inj hs ▸ h
  | initializeServices hooks =>
      obtain rfl := Option.some.inj hs
      have hdeps : Supported ({ s with manager := (s.manager.initializeServices hooks).2 } : Managed Service) ↔
          DepsActive (s.manager.initializeServices hooks).2 :=
        ⟨fun hsupported => hsupported.deps, fun hd => ⟨hd, h.stops⟩⟩
      rw [hdeps, initializeServices]
      cases hinit : s.manager.isInitialized with
      | true => exact iff_of_true h.deps fun hc => by rw [hinit] at hc; cases hc
      | false =>
          rw [if_neg Bool.false_ne_true]
          cases horder : s.manager.getStartupOrder with
          | error error =>
              refine iff_of_true h.deps fun _ order name ho => ?_
              rw [horder] at ho
              cases ho
          | ok order =>
              have hstartup := (getStartupOrder_ok_iff.mp horder).2.2.1
              have hiff := depsActive_initializeLoop_iff hooks h.deps hstartup
              simp only [Careful, hinit, horder, Except.ok.injEq]
              rw [hiff]
              constructor
              · rintro hguard _ _ name rfl hr
                exact hguard name hr
              · exact fun hguard name hr => hguard trivial order name rfl hr
  | shutdown hooks =>
      obtain rfl := Option.some.inj hs
      exact supported_shutdown_iff h
  | reload hooks =>
      obtain rfl := Option.some.inj hs
      exact iff_of_true h trivial

-- Over whole runs: every active service keeps its dependencies exactly when every call is careful.
theorem active_deps_iff (calls : List (Call Service)) :
    Always Managed.step Supported (Managed.start : Managed Service) calls ↔
      Meets Managed.step Careful Managed.start calls := by
  have hstart : Supported (Managed.start : Managed Service) := by
    constructor
    · intro name ha
      cases ha
    · intro stop hm
      cases hm
  have hkept (s : Managed Service) (call : Call Service) (t : Managed Service) (_ : True)
      (_ : s.step call = some t) : True := trivial
  exact always_iff_meets hkept (fun _ _ _ _ => supported_step_iff) trivial hstart

end Exact

-- A service that is registered with a missing dependency makes the manager fall back on the order
-- of registration.
def fallbackCalls : List (Call Unit) :=
  [.registerService () ⟨"b", "1.0.0", ["a"]⟩, .registerService () ⟨"a", "1.0.0", []⟩,
    .initializeServices fun _ => none, .registerService () ⟨"c", "1.0.0", ["x"]⟩,
    .shutdown fun _ => none]

theorem fallback_stops_dependency_first : ∃ s stop, Run Managed.step Managed.start fallbackCalls s ∧
    stop ∈ s.stops ∧ stop.name = "a" ∧ stop.manager.Needs "b" "a" ∧
      stop.manager.state? "b" = some .active ∧ ¬Supported s := by
  have hr : Run Managed.step Managed.start fallbackCalls _ := Run.of_foldlM rfl
  have hneeds : "a" ∈ ["a"] := List.mem_singleton_self _
  exact ⟨_, _, hr, List.mem_cons_self, rfl, hneeds, rfl,
    fun h => h.stops _ List.mem_cons_self "b" hneeds rfl⟩

end YasinCore.Runtime.RuntimeServiceManager
