import YasinCore.DI.Frames

namespace YasinCore.DI

open YasinCore.Library
open Operation

variable {σ ι : Type}

def System.pushed (s : System σ ι) (key : Key) : System σ ι :=
  { s with container := { s.container with resolving := s.container.resolving ++ [key] } }

def System.popped (s : System σ ι) : System σ ι :=
  { s with container := { s.container with resolving := s.container.resolving.dropLast } }

-- The object that answers a key at once
def cached? (classes : Classes σ ι) (s : System σ ι) (key : Key) : Option ι :=
  (s.container.findRegistration classes key).bind fun reg =>
    if reg.lifetime = .singleton then reg.object else none

-- The work on a key that is on the stack
def work (classes : Classes σ ι) (resolver : Key → Operation σ ι (Option ι))
    (found : Option (Registration σ ι)) (key : Key) : Operation σ ι (Option ι) :=
  match found, key with
  | some reg, _ => resolveRegistered classes resolver reg
  | none, .type qualname => autowire classes resolver qualname
  | none, .string name =>
      throw (.dependencyResolution ("No service registered for key '" ++ name ++
        "' and it cannot be autowired."))

section Frame

variable {classes : Classes σ ι} {resolver : Key → Operation σ ι (Option ι)} {s : System σ ι} {key : Key}

theorem resolveWith_cached {object : ι} (h : cached? classes s key = some object) :
    resolveWith classes resolver key s = .ok (some object) s := by
  unfold cached? at h
  rw [resolveWith, run_get_bind, h]
  rfl

theorem resolveWith_blocked (h : cached? classes s key = none) (hm : key ∈ s.container.resolving) :
    resolveWith classes resolver key s = .error (.circularDependency
      ("Circular dependency detected: " ++
        " -> ".intercalate ((s.container.resolving ++ [key]).map Key.str))) s := by
  unfold cached? at h
  rw [resolveWith, run_get_bind, h]
  dsimp only
  rw [if_pos hm]
  rfl

theorem resolveWith_enters (h : cached? classes s key = none) (hm : key ∉ s.container.resolving) :
    resolveWith classes resolver key s =
      resolvingKey key (work classes resolver (s.container.findRegistration classes key) key) s := by
  unfold cached? at h
  rw [resolveWith, run_get_bind, h]
  dsimp only
  rw [if_neg hm]
  cases s.container.findRegistration classes key with
  | some reg => rfl
  | none =>
      cases key with
      | type qualname => rfl
      | string name => rfl

-- The stack is popped whether the work returns or raises.
theorem resolvingKey_run (prog : Operation σ ι (Option ι)) (key : Key) (s : System σ ι) :
    resolvingKey key prog s =
      match prog (s.pushed key) with
      | .ok object t => .ok object t.popped
      | .error e t => .error e t.popped := by
  have hpush : (pushKey key : Operation σ ι Unit) s = .ok ⟨⟩ (s.pushed key) := rfl
  rw [resolvingKey, run_bind_ok hpush]
  cases hprog : prog (s.pushed key) with
  | ok object t => exact run_bind_ok (run_tryCatch_ok hprog _) _
  | error e t =>
      have hcaught : tryCatch prog (fun e => do
          popKey
          throw e) (s.pushed key) = .error e t.popped := run_tryCatch_error hprog _
      exact run_bind_error hcaught _

end Frame

section Invariant

variable {classes : Classes σ ι} {plan start : Dict Key (Registration σ ι)} {stack pending : List Key}
  {key : Key} {s : System σ ι}

-- The state between two steps of a call. The singletons that the pending keys find are not built yet;
-- objects that were there at the start stay.
structure Clean (classes : Classes σ ι) (plan start : Dict Key (Registration σ ι))
    (stack pending : List Key) (s : System σ ι) : Prop where
  shape : s.container.plan = plan
  resolving : s.container.resolving = stack
  unbuilt : ∀ key ∈ pending, ∀ reg, s.container.findRegistration classes key = some reg →
    reg.lifetime = .singleton → reg.object = none
  kept : ∀ key old now, start.get? key = some old → s.container.registrations.get? key = some now →
    now.object = old.object ∨ now.lifetime = .singleton ∧ old.object = none

namespace Clean

theorem of_world (h : Clean classes plan start stack pending s) (world : σ) :
    Clean classes plan start stack pending { s with world := world } where
  shape := h.shape
  resolving := h.resolving
  unbuilt := h.unbuilt
  kept := h.kept

theorem push (h : Clean classes plan start stack stack s) (hkey : cached? classes s key = none) :
    Clean classes plan start (stack ++ [key]) (stack ++ [key]) (s.pushed key) where
  shape := h.shape
  resolving := congrArg (· ++ [key]) h.resolving
  unbuilt other hm reg hfind hsingleton := by
    rcases List.mem_append.mp hm with hm | hm
    · exact h.unbuilt other hm reg hfind hsingleton
    · obtain rfl := List.mem_singleton.mp hm
      have hfound : s.container.findRegistration classes other = some reg := hfind
      rwa [cached?, hfound, Option.bind_some, if_pos hsingleton] at hkey
  kept := h.kept

theorem pop (h : Clean classes plan start (stack ++ [key]) pending s) :
    Clean classes plan start stack pending s.popped where
  shape := h.shape
  resolving := by
    unfold System.popped
    dsimp only
    rw [h.resolving, List.dropLast_concat]
  unbuilt := h.unbuilt
  kept := h.kept

theorem shrink (h : Clean classes plan start stack (pending ++ [key]) s) :
    Clean classes plan start stack pending s where
  shape := h.shape
  resolving := h.resolving
  unbuilt other hm := h.unbuilt other (List.mem_append_left _ hm)
  kept := h.kept

-- The object of the key on top of the stack is cached. The other keys of the stack do not find it.
theorem cache (h : Clean classes plan start stack (pending ++ [key]) s) (hkeyed : Keyed plan)
    {reg : Registration σ ι} (hfind : s.container.findRegistration classes key = some reg)
    (hsingleton : reg.lifetime = .singleton)
    (hne : ∀ other ∈ pending, lookup classes plan other ≠ some reg.erased) (object : Option ι) :
    Clean classes plan start stack pending { s with container := { s.container with
      registrations := s.container.registrations.set reg.key { reg with object := object } } } := by
  have hget := registered_of_find (hkeyed.of_plan h.shape) hfind
  have hunbuilt := h.unbuilt key (by simp) reg hfind hsingleton
  have hplanned := planned_of_find hkeyed h.shape hfind
  have herased : plan.get? reg.key = some { reg with object := object }.erased := hplanned
  have hshape := plan_set herased h.shape
  refine ⟨hshape, h.resolving, fun other hm found hfound hs => ?_, fun other old now hold hnow => ?_⟩
  · have hbefore := find_of_cached hkeyed h.shape hplanned (hne other hm) hfound
    exact h.unbuilt other (List.mem_append_left _ hm) found hbefore hs
  · dsimp only at hnow
    rw [Dict.get?_set] at hnow
    split at hnow
    · rename_i he
      rw [he] at hold
      obtain rfl := Option.some.inj hnow
      refine .inr ⟨hsingleton, ?_⟩
      rcases h.kept reg.key old reg hold hget with hsame | hnone
      · rw [← hsame, hunbuilt]
      · exact hnone.2
    · exact h.kept other old now hold hnow

theorem registered (h : Clean classes plan start stack pending s) (hkeyed : Keyed plan)
    {planned : Registration σ ι} (hlookup : lookup classes plan key = some planned) :
    ∃ now, s.container.findRegistration classes key = some now ∧ now.erased = planned ∧
      s.container.registrations.get? planned.key = some now := by
  exact exists_found hkeyed h.shape hlookup

end Clean

-- A resolver returns only for keys that are not on the stack, and keeps the state clean.
def Cleans (classes : Classes σ ι) (plan start : Dict Key (Registration σ ι))
    (resolver : Key → Operation σ ι (Option ι)) : Prop :=
  ∀ stack key, (stack ++ [key]).IsChain (Needs classes plan) →
    Triple (Clean classes plan start stack stack) (resolver key)
      (fun _ s => Clean classes plan start stack stack s ∧ key ∉ stack)
      fun _ => Clean classes plan start stack stack

variable {resolver : Key → Operation σ ι (Option ι)} {provider : Provider σ ι}

theorem chain_snoc (hchain : (stack ++ [key]).IsChain (Needs classes plan))
    (hprovider : providerOf classes plan key = some provider) {param : Parameter ι}
    (hm : param ∈ Provider.injected provider) {other : Key}
    (hother : injectedKey classes plan param = some other) :
    (stack ++ [key] ++ [other]).IsChain (Needs classes plan) := by
  refine hchain.append (List.isChain_singleton other) fun last hlast next hnext => ?_
  rw [List.getLast?_concat, Option.mem_some_iff] at hlast
  rw [List.head?_cons, Option.mem_some_iff] at hnext
  subst hlast hnext
  exact ⟨provider, hprovider, param, hm, hother⟩

theorem resolveParameters_cleans (hresolver : Cleans classes plan start resolver)
    (hchain : (stack ++ [key]).IsChain (Needs classes plan))
    (hprovider : providerOf classes plan key = some provider) {params : List (Parameter ι)}
    (hparams : params ⊆ Provider.injected provider) (arguments : Dict String (Option ι)) :
    Triple (Clean classes plan start (stack ++ [key]) (stack ++ [key]))
      (resolveParameters classes resolver provider params arguments)
      (fun _ s => Clean classes plan start (stack ++ [key]) (stack ++ [key]) s ∧
        ∀ param ∈ params, ∀ other, injectedKey classes plan param = some other → other ∉ stack ++ [key])
      fun _ => Clean classes plan start (stack ++ [key]) (stack ++ [key]) :=
  resolveParameters_triple (fun _ hs => hs.shape)
    (fun _ hm other hother => hresolver _ other (chain_snoc hchain hprovider (hparams hm) hother)) arguments

theorem construct_clean (provider : Provider σ ι) (arguments : Dict String (Option ι)) :
    Maintains (Clean classes plan start stack pending) (construct provider arguments) := by
  intro s hs
  unfold construct
  cases provider.call arguments s.world with
  | ok object world => exact hs.of_world world
  | error e world => exact hs.of_world world

theorem inject_cleans (hresolver : Cleans classes plan start resolver)
    (hchain : (stack ++ [key]).IsChain (Needs classes plan))
    (hprovider : providerOf classes plan key = some provider) :
    Triple (Clean classes plan start (stack ++ [key]) (stack ++ [key]))
      (inject classes resolver provider)
      (fun _ s => Clean classes plan start (stack ++ [key]) (stack ++ [key]) s ∧
        ∀ param ∈ Provider.injected provider, ∀ other, injectedKey classes plan param = some other →
          other ∉ stack ++ [key])
      fun _ => Clean classes plan start (stack ++ [key]) (stack ++ [key]) := by
  refine .bind (resolveParameters_cleans hresolver hchain hprovider (List.Subset.refl _) .empty) ?_
  intro arguments s ⟨hs, hclear⟩
  have hclean := construct_clean provider arguments s hs
  revert hclean
  cases construct provider arguments s with
  | ok object t => exact fun ht => ⟨ht, hclear⟩
  | error e t => exact id

theorem resolveRegistered_cleans (hkeyed : Keyed plan) (hresolver : Cleans classes plan start resolver)
    (hchain : (stack ++ [key]).IsChain (Needs classes plan)) (reg : Registration σ ι) :
    Triple (fun s => s.container.findRegistration classes key = some reg ∧
        Clean classes plan start (stack ++ [key]) (stack ++ [key]) s)
      (resolveRegistered classes resolver reg)
      (fun _ => Clean classes plan start (stack ++ [key]) stack)
      fun _ => Clean classes plan start (stack ++ [key]) (stack ++ [key]) := by
  intro s ⟨hfind, hs⟩
  have hlookup := lookup_of_find hs.shape hfind
  unfold resolveRegistered
  cases hfactory : reg.factoryOrClass with
  | none => exact hs.shrink
  | some provider =>
      have hprovider : providerOf classes plan key = some provider :=
        (providerOf_of_lookup hlookup).trans hfactory
      have hinject := inject_cleans hresolver hchain hprovider s hs
      dsimp only
      cases hrun : inject classes resolver provider s with
      | error e t =>
          rw [hrun] at hinject
          rw [run_bind_error hrun]
          exact hinject
      | ok object t =>
          rw [hrun] at hinject
          obtain ⟨ht, hclear⟩ := hinject
          rw [run_bind_ok hrun]
          obtain ⟨now, hnow, herased, hget⟩ := ht.registered hkeyed hlookup
          have hsamelifetime : now.lifetime = reg.lifetime := congrArg (fun r => r.lifetime) herased
          by_cases hlifetime : reg.lifetime = .singleton
          · have hunbuilt := ht.unbuilt key (by simp) now hnow (hsamelifetime.trans hlifetime)
            have hbefore := hs.unbuilt key (by simp) reg hfind hlifetime
            obtain rfl := erased_eq herased (hunbuilt.trans hbefore.symm)
            have hplanned : now.erased.factoryOrClass = some provider := hfactory
            rw [if_pos hlifetime]
            exact ht.cache hkeyed hnow hlifetime
              (fun other hm => lookup_ne hchain hclear hplanned hm) object
          · rw [if_neg hlifetime]
            exact ht.shrink

theorem autowire_cleans (hresolver : Cleans classes plan start resolver)
    {qualname : String} (hchain : (stack ++ [Key.type qualname]).IsChain (Needs classes plan))
    (hlookup : lookup classes plan (.type qualname) = none) :
    Triple (Clean classes plan start (stack ++ [.type qualname]) (stack ++ [.type qualname]))
      (autowire classes resolver qualname)
      (fun _ => Clean classes plan start (stack ++ [.type qualname]) stack)
      fun _ => Clean classes plan start (stack ++ [.type qualname]) (stack ++ [.type qualname]) := by
  have hprovider : providerOf classes plan (.type qualname) = some (classes.constructor qualname) := by
    unfold providerOf
    rw [hlookup]
  have hinject := inject_cleans hresolver hchain hprovider
  refine .tryCatch (hinject.imp (fun _ => id) (fun _ _ hs => hs.1.shrink) fun _ _ => id) fun e => ?_
  cases e.resolution? with
  | some message => exact .throw fun _ => id
  | none => exact .throw fun _ => id

theorem work_cleans (hkeyed : Keyed plan) (hresolver : Cleans classes plan start resolver)
    (hchain : (stack ++ [key]).IsChain (Needs classes plan)) (found : Option (Registration σ ι)) :
    Triple (fun s => s.container.findRegistration classes key = found ∧
        Clean classes plan start (stack ++ [key]) (stack ++ [key]) s)
      (work classes resolver found key)
      (fun _ => Clean classes plan start (stack ++ [key]) stack)
      fun _ => Clean classes plan start (stack ++ [key]) (stack ++ [key]) := by
  cases found with
  | some reg => exact resolveRegistered_cleans hkeyed hresolver hchain reg
  | none =>
      cases key with
      | string name => exact .throw fun _ hs => hs.2
      | type qualname =>
          intro s ⟨hfind, hs⟩
          refine autowire_cleans hresolver hchain ?_ s hs
          rw [lookup_eq hs.shape, hfind]
          rfl

theorem resolve_cleans (hkeyed : Keyed plan) (depth : Nat) :
    Cleans classes plan start (resolve classes depth) := by
  induction depth with
  | zero => exact fun _ _ _ => .throw fun _ => id
  | succ depth ih =>
      intro stack key hchain s hs
      rw [resolve_succ]
      cases hcached : cached? classes s key with
      | some object =>
          rw [resolveWith_cached hcached]
          refine ⟨hs, fun hm => ?_⟩
          unfold cached? at hcached
          obtain ⟨reg, hfind, hobject⟩ := Option.bind_eq_some_iff.mp hcached
          split at hobject
          · rename_i hsingleton
            rw [hs.unbuilt key hm reg hfind hsingleton] at hobject
            cases hobject
          · cases hobject
      | none =>
          by_cases hm : key ∈ s.container.resolving
          · rw [resolveWith_blocked hcached hm]
            exact hs
          · rw [resolveWith_enters hcached hm, resolvingKey_run]
            have hwork := work_cleans hkeyed ih hchain (s.container.findRegistration classes key)
              (s.pushed key) ⟨rfl, hs.push hcached⟩
            revert hwork
            cases work classes (resolve classes depth) (s.container.findRegistration classes key) key
                (s.pushed key) with
            | ok object t => exact fun ht => ⟨ht.pop, hs.resolving ▸ hm⟩
            | error e t => exact fun ht => ht.pop.shrink

end Invariant

-- Between two calls. Only singletons keep their objects.
structure Idle (s : System σ ι) : Prop where
  keyed : Keyed s.container.plan
  resolving : s.container.resolving = []
  transient : ∀ key reg, s.container.registrations.get? key = some reg → reg.lifetime = .transient →
    reg.object = none

section Calls

variable {classes : Classes σ ι} {s : System σ ι}

theorem Idle.init (world : σ) : Idle (System.init world : System σ ι) where
  keyed _ _ he := by cases he
  resolving := rfl
  transient _ _ he := by cases he

theorem Idle.clean (h : Idle s) (classes : Classes σ ι) :
    Clean classes s.container.plan s.container.registrations [] [] s where
  shape := rfl
  resolving := h.resolving
  unbuilt _ hm := absurd hm List.not_mem_nil
  kept key old now hold hnow := by
    rw [hold] at hnow
    obtain rfl := Option.some.inj hnow
    exact .inl rfl

theorem Idle.resolve_clean (h : Idle s) (classes : Classes σ ι) (depth : Nat) (key : Key) :
    Clean classes s.container.plan s.container.registrations [] []
      (finalState (resolve classes depth key) s) := by
  have hkept : Maintains (Clean classes s.container.plan s.container.registrations [] [])
      (resolve classes depth key) :=
    (resolve_cleans h.keyed depth [] key (List.isChain_singleton key)).imp (fun _ => id)
      (fun _ _ hs => hs.1) fun _ _ => id
  exact hkept.finalState (h.clean classes)

-- A registration that is found later was there at the start, and got its object as a singleton only.
theorem Clean.transient {start : DIContainer σ ι} {stack pending : List Key}
    (h : Clean classes start.plan start.registrations stack pending s)
    (htransient : ∀ key reg, start.registrations.get? key = some reg → reg.lifetime = .transient →
      reg.object = none) {key : Key} {reg : Registration σ ι}
    (hget : s.container.registrations.get? key = some reg) (hlifetime : reg.lifetime = .transient) :
    reg.object = none := by
  have hplanned : start.plan.get? key = some reg.erased := by
    rw [get?_plan h.shape, hget]
    rfl
  rw [get?_plan rfl] at hplanned
  obtain ⟨old, hold, herased⟩ := Option.map_eq_some_iff.mp hplanned
  have hsame : old.lifetime = reg.lifetime := congrArg (fun r => r.lifetime) herased
  rcases h.kept key old reg hold hget with hobject | ⟨hsingleton, -⟩
  · exact hobject.trans (htransient key old hold (hsame.trans hlifetime))
  · rw [hlifetime] at hsingleton
    cases hsingleton

theorem Idle.register (h : Idle s) (reg : Registration σ ι)
    (hreg : reg.lifetime = .transient → reg.object = none) :
    Idle { s with container := { s.container with
      registrations := s.container.registrations.set reg.key reg } } where
  keyed := by
    rw [plan_register]
    exact Dict.forall_set h.keyed rfl
  resolving := h.resolving
  transient := Dict.forall_set h.transient hreg

theorem Idle.perform (h : Idle s) (act : Action σ ι) : Idle (s.perform classes act) := by
  cases act with
  | registerInstance key object => exact h.register ⟨key, .singleton, none, object⟩ fun he => by cases he
  | registerSingleton key provider =>
      exact h.register ⟨key, .singleton, some provider, none⟩ fun _ => rfl
  | registerTransient key provider =>
      exact h.register ⟨key, .transient, some provider, none⟩ fun _ => rfl
  | resolve depth key =>
      have hclean := h.resolve_clean classes depth key
      refine ⟨?_, hclean.resolving, fun _ _ => hclean.transient h.transient⟩
      unfold System.perform
      rw [hclean.shape]
      exact h.keyed

theorem performAll_idle (classes : Classes σ ι) (world : σ) (acts : List (Action σ ι)) :
    Idle (System.performAll classes world acts) := by
  induction acts using List.reverseRecOn with
  | nil => exact .init world
  | append_singleton acts act ih =>
      unfold System.performAll at ih ⊢
      rw [List.foldl_concat]
      exact ih.perform act

end Calls

-- A key that is neither answered at once nor on the stack
def Enters (classes : Classes σ ι) (s : System σ ι) (key : Key) : Prop :=
  cached? classes s key = none ∧ key ∉ s.container.resolving

-- The resolution of the key from the state s has resolved some parameters, and asks for another key in t.
inductive Asks (classes : Classes σ ι) (depth : Nat) (key : Key) (s : System σ ι) (other : Key)
    (t : System σ ι) : Prop
  | intro {provider : Provider σ ι} {before after : List (Parameter ι)} {param : Parameter ι}
      {arguments : Dict String (Option ι)} : Enters classes s key →
      providerOf classes s.container.plan key = some provider →
      Provider.injected provider = before ++ param :: after →
      resolveParameters classes (resolve classes depth) provider before .empty (s.pushed key) =
        .ok arguments t →
      injectedKey classes s.container.plan param = some other → Asks classes depth key s other t

-- The resolution of the first key comes to that of the other one, on this depth and in this state.
inductive Reaches (classes : Classes σ ι) :
    Nat → Key → System σ ι → Nat → Key → System σ ι → Prop
  | refl {depth : Nat} {key : Key} {s : System σ ι} : Reaches classes depth key s depth key s
  | ask {depth depth' : Nat} {key other key' : Key} {s t s' : System σ ι} :
      Asks classes depth key s other t → Reaches classes depth other t depth' key' s' →
      Reaches classes (depth + 1) key s depth' key' s'

section Reached

variable {classes : Classes σ ι} {plan start : Dict Key (Registration σ ι)} {stack : List Key}
  {depth depth' : Nat} {key other key' : Key} {s t u s' : System σ ι} {e : DIError}

theorem resolveParameters_append {resolver : Key → Operation σ ι (Option ι)} {provider : Provider σ ι}
    (before after : List (Parameter ι)) (arguments : Dict String (Option ι)) :
    resolveParameters classes resolver provider (before ++ after) arguments =
      resolveParameters classes resolver provider before arguments >>= fun arguments =>
        resolveParameters classes resolver provider after arguments := by
  induction before generalizing arguments with
  | nil => rfl
  | cons param before ih =>
      simp only [List.cons_append, resolveParameters, bind_assoc, ih]

theorem lookup_of_injectedKey {param : Parameter ι} (h : injectedKey classes plan param = some other) :
    (lookup classes plan other).isSome := by
  unfold injectedKey at h
  split at h
  · rename_i qualname hannotation
    obtain rfl := Option.some.inj h
    exact (Option.filter_eq_some_iff.mp hannotation).2
  · split at h
    · rename_i hname
      obtain rfl := Option.some.inj h
      exact hname
    · cases h

theorem Asks.clean (h : Asks classes depth key s other t) (hkeyed : Keyed plan)
    (hs : Clean classes plan start stack stack s) (hchain : (stack ++ [key]).IsChain (Needs classes plan)) :
    Clean classes plan start (stack ++ [key]) (stack ++ [key]) t ∧
      (stack ++ [key] ++ [other]).IsChain (Needs classes plan) ∧ (lookup classes plan other).isSome := by
  cases h with
  | @intro provider before after param arguments henters hprovider hparams hrun hother =>
      rw [hs.shape] at hprovider hother
      have hsub : before ⊆ Provider.injected provider := by
        rw [hparams]
        exact List.subset_append_left _ _
      have hbefore := resolveParameters_cleans (resolve_cleans hkeyed depth) hchain hprovider hsub .empty
        (s.pushed key) (hs.push henters.1)
      rw [hrun] at hbefore
      have hm : param ∈ Provider.injected provider := by
        rw [hparams]
        exact List.mem_append_right _ List.mem_cons_self
      exact ⟨hbefore.1, chain_snoc hchain hprovider hm hother, lookup_of_injectedKey hother⟩

theorem Reaches.clean (h : Reaches classes depth key s depth' key' s') (hkeyed : Keyed plan)
    (hs : Clean classes plan start stack stack s) (hchain : (stack ++ [key]).IsChain (Needs classes plan)) :
    ∃ stack', Clean classes plan start stack' stack' s' ∧
      (stack' ++ [key']).IsChain (Needs classes plan) := by
  induction h generalizing stack with
  | refl => exact ⟨stack, hs, hchain⟩
  | ask hasks _ ih =>
      obtain ⟨ht, hnext, -⟩ := hasks.clean hkeyed hs hchain
      exact ih ht hnext

-- What is raised below the key is raised by the key.
theorem Asks.inject_error (h : Asks classes depth key s other t) (hkeyed : Keyed plan)
    (hs : Clean classes plan start stack stack s) (hchain : (stack ++ [key]).IsChain (Needs classes plan))
    (herror : resolve classes depth other t = .error e u) : ∃ provider,
      providerOf classes plan key = some provider ∧
        inject classes (resolve classes depth) provider (s.pushed key) = .error e u := by
  obtain ⟨ht, -, -⟩ := h.clean hkeyed hs hchain
  cases h with
  | @intro provider before after param arguments henters hprovider hparams hrun hother =>
      rw [hs.shape] at hprovider hother
      refine ⟨provider, hprovider, ?_⟩
      have hparam : resolveParameter classes (resolve classes depth) provider param t = .error e u := by
        obtain ⟨used, hused, hresolve⟩ | ⟨hnone, -⟩ :=
          @resolveParameter_cases σ ι classes plan provider t ht.shape param
        · rw [hother] at hused
          obtain rfl := Option.some.inj hused
          rw [hresolve, herror]
        · rw [hother] at hnone
          cases hnone
      have hall : resolveParameters classes (resolve classes depth) provider
          (Provider.injected provider) .empty (s.pushed key) = .error e u := by
        rw [hparams, resolveParameters_append, run_bind_ok hrun]
        exact run_bind_error hparam _
      exact run_bind_error hall _

theorem Asks.enters (h : Asks classes depth key s other t) : Enters classes s key := by
  cases h with
  | intro henters => exact henters

-- A registered key passes the exception on. A class that is not registered changes the exceptions of
-- the container.
theorem Asks.error (h : Asks classes depth key s other t) (hkeyed : Keyed plan)
    (hs : Clean classes plan start stack stack s) (hchain : (stack ++ [key]).IsChain (Needs classes plan))
    (herror : resolve classes depth other t = .error e u) : ∃ e',
      resolve classes (depth + 1) key s = .error e' u.popped ∧
        ((lookup classes plan key).isSome → e' = e) ∧
        (lookup classes plan key = none → e.resolution?.isSome →
          ∃ message, e' = .dependencyResolution message) := by
  obtain ⟨provider, hprovider, hinject⟩ := h.inject_error hkeyed hs hchain herror
  obtain ⟨hcached, hm⟩ := h.enters
  have hlookup := @lookup_eq σ ι classes plan s.container hs.shape key
  rw [resolve_succ, resolveWith_enters hcached hm, resolvingKey_run]
  unfold providerOf at hprovider
  rw [hlookup] at hprovider ⊢
  cases hfind : s.container.findRegistration classes key with
  | some reg =>
      rw [hfind] at hprovider
      have hfactory : reg.factoryOrClass = some provider := hprovider
      have hwork : work classes (resolve classes depth) (some reg) key (s.pushed key) = .error e u := by
        unfold work resolveRegistered
        dsimp only
        rw [hfactory]
        exact run_bind_error hinject _
      rw [hwork]
      exact ⟨e, rfl, fun _ => rfl, fun h => by cases h⟩
  | none =>
      rw [hfind] at hprovider
      cases key with
      | string name => cases hprovider
      | type qualname =>
          obtain rfl := Option.some.inj hprovider
          have hwork : work classes (resolve classes depth) none (.type qualname)
              (s.pushed (.type qualname)) = _ := run_tryCatch_error hinject _
          rw [hwork]
          cases hresolution : e.resolution? with
          | some message =>
              refine ⟨_, rfl, fun hsome => ?_, fun _ _ => ⟨_, rfl⟩⟩
              rw [Option.map_none] at hsome
              cases hsome
          | none =>
              refine ⟨e, rfl, fun _ => rfl, fun _ hsome => ?_⟩
              cases hsome

-- So does the first key of several, and nothing is cached on the way.
theorem Reaches.error (h : Reaches classes depth key s depth' key' s') (hkeyed : Keyed plan)
    (hs : Clean classes plan start stack stack s) (hchain : (stack ++ [key]).IsChain (Needs classes plan))
    (herror : resolve classes depth' key' s' = .error e u) : ∃ e' v,
      resolve classes depth key s = .error e' v ∧
        v.container.registrations = u.container.registrations ∧
        ((lookup classes plan key).isSome → e' = e) := by
  induction h generalizing stack with
  | refl => exact ⟨e, u, herror, rfl, fun _ => rfl⟩
  | ask hasks _ ih =>
      obtain ⟨ht, hnext, hlookup⟩ := hasks.clean hkeyed hs hchain
      obtain ⟨e', v, hrun, hsame, heq⟩ := ih ht hnext herror
      obtain ⟨e'', hfirst, hregistered, -⟩ := hasks.error hkeyed hs hchain hrun
      exact ⟨e'', v.popped, hfirst, hsame, fun h => (hregistered h).trans (heq hlookup)⟩

end Reached

end YasinCore.DI
