import Mathlib.Data.Finset.Card
import YasinCore.DI.Nested

namespace YasinCore.DI

open YasinCore.Library
open Operation

variable {σ ι : Type}

-- A factory or class that comes to an end. The recursion that is counted is the container's own.
def Provider.Finishes (provider : Provider σ ι) : Prop :=
  ∀ arguments world world', provider.call arguments world ≠ .error .recursion world'

-- Two programs do the same from the state, and do not run out of depth.
def AgreeAt {α : Type} (prog other : Operation σ ι α) (s : System σ ι) : Prop :=
  prog s = other s ∧ ∀ t, prog s ≠ .error .recursion t

section Agreement

variable {α β : Type} {prog other : Operation σ ι α} {s t : System σ ι} {value : α}

theorem AgreeAt.bind (h : AgreeAt prog other s) {next next' : α → Operation σ ι β}
    (hnext : ∀ value t, prog s = .ok value t → AgreeAt (next value) (next' value) t) :
    AgreeAt (prog >>= next) (other >>= next') s := by
  cases hrun : prog s with
  | ok value t =>
      rw [AgreeAt, run_bind_ok hrun, run_bind_ok (h.1 ▸ hrun)]
      exact hnext value t hrun
  | error e t =>
      rw [AgreeAt, run_bind_error hrun, run_bind_error (h.1 ▸ hrun)]
      refine ⟨rfl, fun u hu => h.2 t ?_⟩
      rw [hrun]
      obtain ⟨rfl, -⟩ := EStateM.Result.error.inj hu
      rfl

theorem AgreeAt.ok (h : prog s = .ok value t) (ho : other s = .ok value t) : AgreeAt prog other s := by
  refine ⟨h.trans ho.symm, fun u hu => ?_⟩
  rw [h] at hu
  cases hu

variable {classes : Classes σ ι} {plan start : Dict Key (Registration σ ι)} {stack : List Key} {key : Key}
  {r r' : Key → Operation σ ι (Option ι)} {provider : Provider σ ι}

theorem resolveParameter_agree (hshape : s.container.plan = plan) {param : Parameter ι}
    (hagree : ∀ other, injectedKey classes plan param = some other → AgreeAt (r other) (r' other) s) :
    AgreeAt (resolveParameter classes r provider param) (resolveParameter classes r' provider param) s := by
  obtain ⟨other, hother, hrun⟩ | ⟨-, ⟨object, hrun⟩ | ⟨message, hrun⟩⟩ :=
    @resolveParameter_cases σ ι classes plan provider s hshape param
  · rw [AgreeAt, hrun, hrun]
    exact hagree other hother
  · exact .ok (hrun r) (hrun r')
  · rw [AgreeAt, hrun, hrun]
    exact ⟨rfl, fun t ht => by cases ht⟩

theorem resolveParameters_agree (hclean : Cleans classes plan start r)
    (hchain : (stack ++ [key]).IsChain (Needs classes plan))
    (hprovider : providerOf classes plan key = some provider)
    (hagree : ∀ other, Needs classes plan key other → ∀ t,
      Clean classes plan start (stack ++ [key]) (stack ++ [key]) t → AgreeAt (r other) (r' other) t)
    {params : List (Parameter ι)} (hparams : params ⊆ Provider.injected provider)
    (arguments : Dict String (Option ι))
    (hs : Clean classes plan start (stack ++ [key]) (stack ++ [key]) s) :
    AgreeAt (resolveParameters classes r provider params arguments)
      (resolveParameters classes r' provider params arguments) s := by
  induction params generalizing arguments s with
  | nil => exact .ok rfl rfl
  | cons param params ih =>
      obtain ⟨hfirst, hrest⟩ := List.cons_subset.mp hparams
      have hone : AgreeAt (resolveParameter classes r provider param)
          (resolveParameter classes r' provider param) s :=
        resolveParameter_agree hs.shape fun other hother =>
          hagree other ⟨provider, hprovider, param, hfirst, hother⟩ s hs
      refine hone.bind fun object t hrun => ih hrest _ ?_
      have hkept := @resolveParameter_triple σ ι classes plan r provider _ (· ∉ stack ++ [key])
        (fun _ hs => hs.shape) param (fun other hother =>
          hclean _ other (chain_snoc hchain hprovider hfirst hother)) s hs
      rw [hrun] at hkept
      exact hkept.1

theorem inject_agree (hclean : Cleans classes plan start r)
    (hchain : (stack ++ [key]).IsChain (Needs classes plan))
    (hprovider : providerOf classes plan key = some provider) (hfinishes : provider.Finishes)
    (hagree : ∀ other, Needs classes plan key other → ∀ t,
      Clean classes plan start (stack ++ [key]) (stack ++ [key]) t → AgreeAt (r other) (r' other) t)
    (hs : Clean classes plan start (stack ++ [key]) (stack ++ [key]) s) :
    AgreeAt (inject classes r provider) (inject classes r' provider) s := by
  have hparams := resolveParameters_agree hclean hchain hprovider hagree (List.Subset.refl _) .empty hs
  refine hparams.bind fun arguments t _ => ⟨rfl, fun u hu => ?_⟩
  unfold construct at hu
  cases hcall : provider.call arguments t.world with
  | ok object world =>
      rw [hcall] at hu
      cases hu
  | error e world =>
      rw [hcall] at hu
      obtain ⟨rfl, -⟩ := EStateM.Result.error.inj hu
      exact hfinishes arguments t.world world hcall

-- So does the work on a key, when all that it needs is resolved alike.
theorem work_agree (hclean : Cleans classes plan start r)
    (hchain : (stack ++ [key]).IsChain (Needs classes plan))
    (hfinishes : ∀ provider, providerOf classes plan key = some provider → provider.Finishes)
    (hagree : ∀ other, Needs classes plan key other → ∀ t,
      Clean classes plan start (stack ++ [key]) (stack ++ [key]) t → AgreeAt (r other) (r' other) t)
    (hs : Clean classes plan start (stack ++ [key]) (stack ++ [key]) s) :
    AgreeAt (work classes r (s.container.findRegistration classes key) key)
      (work classes r' (s.container.findRegistration classes key) key) s := by
  have hlookup := @lookup_eq σ ι classes plan s.container hs.shape key
  have hinject (provider : Provider σ ι) (hprovider : providerOf classes plan key = some provider) :=
    inject_agree hclean hchain hprovider (hfinishes provider hprovider) hagree hs
  cases hfind : s.container.findRegistration classes key with
  | some reg =>
      rw [hfind] at hlookup
      unfold work resolveRegistered
      dsimp only
      cases hfactory : reg.factoryOrClass with
      | none => exact .ok rfl rfl
      | some provider =>
          have hprovider : providerOf classes plan key = some provider :=
            (providerOf_of_lookup hlookup).trans hfactory
          refine (hinject provider hprovider).bind fun object t _ => ?_
          split
          · exact .ok rfl rfl
          · exact .ok rfl rfl
  | none =>
      rw [hfind] at hlookup
      cases key with
      | string name => exact ⟨rfl, fun t ht => by cases ht⟩
      | type qualname =>
          have hprovider : providerOf classes plan (.type qualname) =
              some (classes.constructor qualname) := by
            unfold providerOf
            rw [hlookup]
            rfl
          have hboth := hinject _ hprovider
          unfold work autowire
          dsimp only
          cases hrun : inject classes r (classes.constructor qualname) s with
          | ok object t =>
              exact .ok (run_tryCatch_ok hrun _) (run_tryCatch_ok (hboth.1 ▸ hrun) _)
          | error e t =>
              have hne : e ≠ .recursion := by
                rintro rfl
                exact hboth.2 t hrun
              rw [AgreeAt, run_tryCatch_error hrun, run_tryCatch_error (hboth.1 ▸ hrun)]
              refine ⟨rfl, fun u hu => ?_⟩
              cases e with
              | recursion => exact hne rfl
              | dependencyResolution message => cases hu
              | circularDependency message => cases hu
              | raised message => cases hu

end Agreement

section Bound

variable {classes : Classes σ ι} {plan start : Dict Key (Registration σ ι)} {stack : List Key} {root : Key}
  {known : Finset Key}

-- The parameters of the plan, and those of the first key, name finitely many keys.
theorem exists_known (classes : Classes σ ι) (hkeyed : Keyed plan) (root : Key) : ∃ known : Finset Key,
    ∀ key, key = root ∨ (lookup classes plan key).isSome → ∀ other, Needs classes plan key other →
      other ∈ known := by
  let named (provider : Option (Provider σ ι)) : List Key :=
    provider.toList.flatMap fun provider =>
      (Provider.injected provider).filterMap (injectedKey classes plan)
  have hnamed {provider : Provider σ ι} {param : Parameter ι} {other : Key}
      (hm : param ∈ Provider.injected provider) (hother : injectedKey classes plan param = some other) :
      other ∈ named (some provider) := by
    simpa [named] using ⟨param, hm, hother⟩
  refine ⟨(named (providerOf classes plan root) ++
    plan.values.flatMap fun reg => named reg.factoryOrClass).toFinset, fun key hkey other hneeds => ?_⟩
  obtain ⟨provider, hprovider, param, hm, hother⟩ := hneeds
  rw [List.mem_toFinset, List.mem_append]
  rcases hkey with rfl | hfound
  · rw [hprovider]
    exact .inl (hnamed hm hother)
  · obtain ⟨reg, hreg⟩ := Option.isSome_iff_exists.mp hfound
    have hget : plan.get? reg.key = some reg := registered_of_find hkeyed hreg
    have hfactory : reg.factoryOrClass = some provider := (providerOf_of_lookup hreg).symm.trans hprovider
    refine .inr (List.mem_flatMap.mpr ⟨reg, (Dict.mem_values_iff _ _).mpr ⟨reg.key, hget⟩, ?_⟩)
    rw [hfactory]
    exact hnamed hm hother

theorem card_unvisited {key : Key} (hknown : key ∈ known) (hnew : key ∉ stack) :
    (known \ (stack ++ [key]).toFinset).card < (known \ stack.toFinset).card := by
  have herase : known \ (stack ++ [key]).toFinset = (known \ stack.toFinset).erase key := by
    rw [List.toFinset_append, Finset.union_comm, ← Finset.sdiff_insert]
    rfl
  rw [herase]
  exact Finset.card_erase_lt_of_mem (by simp [hknown, hnew])

-- A key that has its object, or is on the stack, asks for nothing.
theorem answered_agree {key : Key} {s : System σ ι} (h : ¬Enters classes s key) (depth bound : Nat) :
    AgreeAt (resolve classes (depth + 1) key) (resolve classes (bound + 1) key) s := by
  rw [resolve_succ, resolve_succ]
  cases hcached : cached? classes s key with
  | some object => exact .ok (resolveWith_cached hcached) (resolveWith_cached hcached)
  | none =>
      have hm : key ∈ s.container.resolving := by
        by_contra hm
        exact h ⟨hcached, hm⟩
      rw [AgreeAt, resolveWith_blocked hcached hm, resolveWith_blocked hcached hm]
      exact ⟨rfl, fun t ht => by cases ht⟩

theorem AgreeAt.resolvingKey {prog other : Operation σ ι (Option ι)} {key : Key} {s : System σ ι}
    (h : AgreeAt prog other (s.pushed key)) :
    AgreeAt (resolvingKey key prog) (resolvingKey key other) s := by
  rw [AgreeAt, resolvingKey_run, resolvingKey_run, ← h.1]
  refine ⟨rfl, fun t ht => ?_⟩
  cases hrun : prog (s.pushed key) with
  | ok object u =>
      rw [hrun] at ht
      cases ht
  | error e u =>
      rw [hrun] at ht
      obtain ⟨rfl, -⟩ := EStateM.Result.error.inj ht
      exact h.2 u hrun

-- The induction is on the known keys that are not on the stack: a key on the stack is answered at once
-- or raises.
theorem resolve_agree (hkeyed : Keyed plan)
    (hknown : ∀ key, key = root ∨ (lookup classes plan key).isSome → ∀ other, Needs classes plan key other →
      other ∈ known)
    (hfinishes : ∀ key provider, providerOf classes plan key = some provider → provider.Finishes)
    {bound : Nat} {key : Key} {s : System σ ι} (hkey : key = root ∨ (lookup classes plan key).isSome)
    (hchain : (stack ++ [key]).IsChain (Needs classes plan)) (hs : Clean classes plan start stack stack s)
    (hbound : (known \ (stack ++ [key]).toFinset).card + 2 ≤ bound) {depth : Nat} (hdepth : bound ≤ depth) :
    AgreeAt (resolve classes depth key) (resolve classes bound key) s := by
  induction bound generalizing stack key s depth with
  | zero => omega
  | succ bound ih =>
      obtain ⟨depth, rfl⟩ := Nat.exists_eq_add_one.mpr (Nat.zero_lt_of_lt hdepth)
      by_cases henters : Enters classes s key
      · have hagree (other : Key) (hneeds : Needs classes plan key other) (t : System σ ι)
            (ht : Clean classes plan start (stack ++ [key]) (stack ++ [key]) t) :
            AgreeAt (resolve classes depth other) (resolve classes bound other) t := by
          by_cases hon : other ∈ stack ++ [key]
          · have hblocked : ¬Enters classes t other := fun h => h.2 (ht.resolving ▸ hon)
            obtain ⟨bound, rfl⟩ := Nat.exists_eq_add_one.mpr (by omega : 0 < bound)
            obtain ⟨depth, rfl⟩ := Nat.exists_eq_add_one.mpr (by omega : 0 < depth)
            exact answered_agree hblocked depth bound
          · have hless := card_unvisited (hknown key hkey other hneeds) hon
            obtain ⟨provider, hprovider, param, hparam, hother⟩ := hneeds
            exact ih (.inr (lookup_of_injectedKey hother)) (chain_snoc hchain hprovider hparam hother) ht
              (by omega) (by omega)
        have hwork := work_agree (resolve_cleans hkeyed depth) hchain (hfinishes key) hagree
          (hs.push henters.1)
        rw [resolve_succ, resolve_succ, AgreeAt, resolveWith_enters henters.1 henters.2,
          resolveWith_enters henters.1 henters.2]
        exact hwork.resolvingKey
      · exact answered_agree henters depth bound

end Bound

-- What is assumed of a call: a factory or class that is registered comes to an end.
def Action.Finishes : Action σ ι → Prop
  | .registerSingleton _ provider | .registerTransient _ provider => provider.Finishes
  | .registerInstance _ _ | .resolve _ _ => True

-- The registration is constructed somewhere below the key, and this raises: its provider, or the
-- resolution of one of its parameters.
inductive ConstructionRaises (classes : Classes σ ι) (depth : Nat) (key : Key) (s : System σ ι)
    (reg : Registration σ ι) : Prop
  | intro {depth' : Nat} {key' : Key} {s' u : System σ ι} {provider : Provider σ ι} {e : DIError} :
      Reaches classes depth key s (depth' + 1) key' s' → Enters classes s' key' →
      s'.container.findRegistration classes key' = some reg → reg.factoryOrClass = some provider →
      inject classes (resolve classes depth') provider (s'.pushed key') = .error e u →
      ConstructionRaises classes depth key s reg

section Calls

variable {classes : Classes σ ι} {s : System σ ι}

theorem resolve_raises {depth : Nat} {key : Key} {reg : Registration σ ι} {provider : Provider σ ι}
    {e : DIError} {u : System σ ι} (henters : Enters classes s key)
    (hfind : s.container.findRegistration classes key = some reg)
    (hfactory : reg.factoryOrClass = some provider)
    (hinject : inject classes (resolve classes depth) provider (s.pushed key) = .error e u) :
    resolve classes (depth + 1) key s = .error e u.popped := by
  have hwork : work classes (resolve classes depth) (some reg) key (s.pushed key) = .error e u := by
    unfold work resolveRegistered
    dsimp only
    rw [hfactory]
    exact run_bind_error hinject _
  rw [resolve_succ, resolveWith_enters henters.1 henters.2, hfind, resolvingKey_run, hwork]

-- A provider whose registration is constructed has not given an object to it yet.
theorem Clean.object_eq_none {start : DIContainer σ ι} {stack pending : List Key} {key : Key}
    {reg : Registration σ ι} (h : Clean classes start.plan start.registrations stack (pending ++ [key]) s)
    (hkeyed : Keyed start.plan) (htransient : ∀ key reg, start.registrations.get? key = some reg →
      reg.lifetime = .transient → reg.object = none)
    (hfind : s.container.findRegistration classes key = some reg) : reg.object = none := by
  cases hlifetime : reg.lifetime with
  | singleton => exact h.unbuilt key (by simp) reg hfind hlifetime
  | transient =>
      exact h.transient htransient (registered_of_find (hkeyed.of_plan h.shape) hfind) hlifetime

-- So the registration is as it was when its construction has raised.
theorem registered_of_raises {start u : System σ ι} (hstart : Idle start) {stack : List Key} {key : Key}
    (hs : Clean classes start.container.plan start.container.registrations stack stack s)
    (hchain : (stack ++ [key]).IsChain (Needs classes start.container.plan)) {reg : Registration σ ι}
    {provider : Provider σ ι} {depth : Nat} {e : DIError} (henters : Enters classes s key)
    (hfind : s.container.findRegistration classes key = some reg)
    (hfactory : reg.factoryOrClass = some provider)
    (hinject : inject classes (resolve classes depth) provider (s.pushed key) = .error e u) :
    u.container.registrations.get? reg.key = some reg ∧ reg.object = none := by
  have hlookup := lookup_of_find hs.shape hfind
  have hprovider : providerOf classes start.container.plan key = some provider :=
    (providerOf_of_lookup hlookup).trans hfactory
  have hpushed := hs.push henters.1
  have hraised := inject_cleans (resolve_cleans hstart.keyed depth) hchain hprovider _ hpushed
  rw [hinject] at hraised
  obtain ⟨now, hnow, herased, hget⟩ := hraised.registered hstart.keyed hlookup
  have hnone := hpushed.object_eq_none hstart.keyed hstart.transient hfind
  have hnone' := hraised.object_eq_none hstart.keyed hstart.transient hnow
  obtain rfl := erased_eq herased (hnone'.trans hnone.symm)
  exact ⟨hget, hnone⟩

def Finishing (s : System σ ι) : Prop :=
  ∀ key reg, s.container.plan.get? key = some reg →
    ∀ provider, reg.factoryOrClass = some provider → provider.Finishes

theorem Finishing.register (h : Finishing s) (reg : Registration σ ι)
    (hreg : ∀ provider, reg.factoryOrClass = some provider → provider.Finishes) :
    Finishing { s with container := { s.container with
      registrations := s.container.registrations.set reg.key reg } } := by
  unfold Finishing
  rw [plan_register]
  exact Dict.forall_set h hreg

theorem Finishing.perform (h : Finishing s) (hidle : Idle s) {act : Action σ ι} (hact : act.Finishes) :
    Finishing (s.perform classes act) := by
  cases act with
  | registerInstance key object =>
      exact h.register ⟨key, .singleton, none, object⟩ fun _ he => by cases he
  | registerSingleton key provider =>
      refine h.register ⟨key, .singleton, some provider, none⟩ fun _ he => ?_
      cases he
      exact hact
  | registerTransient key provider =>
      refine h.register ⟨key, .transient, some provider, none⟩ fun _ he => ?_
      cases he
      exact hact
  | resolve depth key =>
      unfold System.perform Finishing
      rw [(hidle.resolve_clean classes depth key).shape]
      exact h

theorem performAll_finishing (classes : Classes σ ι) (world : σ) {acts : List (Action σ ι)}
    (hacts : ∀ act ∈ acts, act.Finishes) : Finishing (System.performAll classes world acts) := by
  induction acts using List.reverseRecOn with
  | nil => exact fun _ _ he => by cases he
  | append_singleton acts act ih =>
      have hbefore := ih fun other hm => hacts other (List.mem_append_left _ hm)
      have hidle := performAll_idle classes world acts
      unfold System.performAll at hidle hbefore ⊢
      rw [List.foldl_concat]
      exact hbefore.perform hidle (hacts act (by simp))

-- The providers of the plan finish, and those of the classes that are not registered.
theorem Finishing.provider (h : Finishing s) (hkeyed : Keyed s.container.plan)
    (hclasses : ∀ qualname, (classes.constructor qualname).Finishes) {key : Key} {provider : Provider σ ι}
    (hprovider : providerOf classes s.container.plan key = some provider) : provider.Finishes := by
  unfold providerOf at hprovider
  cases hlookup : lookup classes s.container.plan key with
  | some reg =>
      rw [hlookup] at hprovider
      exact h _ reg (registered_of_find hkeyed hlookup) provider hprovider
  | none =>
      rw [hlookup] at hprovider
      cases key with
      | string name => cases hprovider
      | type qualname =>
          obtain rfl := Option.some.inj hprovider
          exact hclasses qualname

-- Every call comes to an end, with enough depth for what is registered, and leaves the stack as it
-- was. What could not be constructed has no object.
theorem resolution_terminates_and_cleans_up (classes : Classes σ ι) (world : σ)
    {acts : List (Action σ ι)} (hacts : ∀ act ∈ acts, act.Finishes)
    (hclasses : ∀ qualname, (classes.constructor qualname).Finishes) (key : Key) :
    (∃ bound, ∀ depth, bound ≤ depth →
      resolve classes depth key (System.performAll classes world acts) =
        resolve classes bound key (System.performAll classes world acts) ∧
      ∀ t, resolve classes depth key (System.performAll classes world acts) ≠ .error .recursion t) ∧
    ∀ depth,
      (finalState (resolve classes depth key) (System.performAll classes world acts)).container.resolving =
        (System.performAll classes world acts).container.resolving ∧
      ∀ reg, ConstructionRaises classes depth key (System.performAll classes world acts) reg →
        (finalState (resolve classes depth key)
          (System.performAll classes world acts)).container.registrations.get? reg.key = some reg ∧
        reg.object = none := by
  have hidle := performAll_idle classes world acts
  have hfinishing := performAll_finishing classes world hacts
  generalize System.performAll classes world acts = s at hidle hfinishing ⊢
  have hchain : ([] ++ [key]).IsChain (Needs classes s.container.plan) := List.isChain_singleton key
  refine ⟨?_, fun depth => ⟨?_, fun reg hraises => ?_⟩⟩
  · obtain ⟨known, hknown⟩ := exists_known classes hidle.keyed key
    exact ⟨_, fun depth hdepth => resolve_agree hidle.keyed hknown
      (fun _ _ => hfinishing.provider hidle.keyed hclasses) (.inl rfl) hchain (hidle.clean classes)
      le_rfl hdepth⟩
  · rw [(hidle.resolve_clean classes depth key).resolving, hidle.resolving]
  · cases hraises with
    | @intro depth' key' s' u provider e hreaches henters hfind hfactory hinject =>
        obtain ⟨stack, hs', hchain'⟩ := hreaches.clean hidle.keyed (hidle.clean classes) hchain
        have hframe := resolve_raises henters hfind hfactory hinject
        obtain ⟨e', v, hrun, hsame, -⟩ := hreaches.error hidle.keyed (hidle.clean classes) hchain hframe
        have hregistered := registered_of_raises hidle hs' hchain' henters hfind hfactory hinject
        rw [finalState, hrun, hsame]
        exact hregistered

end Calls

namespace Failing

def pump : Provider Nat Nat where
  name := "pump"
  isClass := false
  parameters := []
  call _ count := .error (.raised "no water") (count + 1)

def boiler : Provider Nat Nat where
  name := "boiler"
  isClass := false
  parameters := [⟨"pump", false, none, "None", none⟩]
  call _ count := .ok (some count) (count + 1)

def classes : Classes Nat Nat := ⟨fun _ _ => false, fun _ => boiler⟩

def acts : List (Action Nat Nat) :=
  [.registerSingleton (.string "pump") pump, .registerSingleton (.string "boiler") boiler]

end Failing

-- The pump of a boiler raises, and the call of the boiler raises with it.
theorem resolution_terminates_and_cleans_up_boiler :
    (∃ bound, ∀ depth, bound ≤ depth → ∀ t, resolve Failing.classes depth (.string "boiler")
      (System.performAll Failing.classes 0 Failing.acts) ≠ .error .recursion t) ∧
    (finalState (resolve Failing.classes 2 (.string "boiler"))
      (System.performAll Failing.classes 0 Failing.acts)).container.registrations.get? (.string "pump") =
        some ⟨.string "pump", .singleton, some Failing.pump, none⟩ := by
  have hacts : ∀ act ∈ Failing.acts, act.Finishes := by
    intro act hm
    simp only [Failing.acts, List.mem_cons, List.not_mem_nil, or_false] at hm
    rcases hm with rfl | rfl
    · exact fun _ _ _ he => by cases he
    · exact fun _ _ _ he => by cases he
  have hclasses : ∀ qualname, (Failing.classes.constructor qualname).Finishes :=
    fun _ _ _ _ he => by cases he
  obtain ⟨⟨bound, hbound⟩, hcalls⟩ := resolution_terminates_and_cleans_up Failing.classes 0 hacts
    hclasses (.string "boiler")
  have hasks : Asks Failing.classes 1 (.string "boiler") (System.performAll Failing.classes 0 Failing.acts)
      (.string "pump") _ :=
    .intro ⟨rfl, by decide⟩ rfl (List.nil_append _).symm rfl rfl
  have hraises : ConstructionRaises Failing.classes 2 (.string "boiler")
      (System.performAll Failing.classes 0 Failing.acts)
      ⟨.string "pump", .singleton, some Failing.pump, none⟩ :=
    .intro (.ask hasks .refl) ⟨rfl, by decide⟩ rfl rfl rfl
  exact ⟨⟨bound, fun depth hdepth => (hbound depth hdepth).2⟩, ((hcalls 2).2 _ hraises).1⟩

end YasinCore.DI
