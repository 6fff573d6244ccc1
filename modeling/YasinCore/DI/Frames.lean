import Mathlib.Data.List.Chain
import YasinCore.DI.History

namespace YasinCore.DI

open YasinCore.Library
open Operation

variable {σ ι : Type}

def Registration.erased (reg : Registration σ ι) : Registration σ ι := { reg with object := none }

-- What stays the same while keys are resolved
def DIContainer.plan (c : DIContainer σ ι) : Dict Key (Registration σ ι) :=
  c.registrations.mapValues fun _ => Registration.erased

def Keyed (registrations : Dict Key (Registration σ ι)) : Prop :=
  ∀ key reg, registrations.get? key = some reg → reg.key = key

section Plan

variable (classes : Classes σ ι) (plan : Dict Key (Registration σ ι))

def lookup (key : Key) : Option (Registration σ ι) :=
  DIContainer.findRegistration classes ⟨plan, []⟩ key

-- The key by which a parameter is resolved, unless its default is taken
def injectedKey (param : Parameter ι) : Option Key :=
  match param.annotation.filter fun qualname => (lookup classes plan (.type qualname)).isSome with
  | some qualname => some (.type qualname)
  | none => if (lookup classes plan (.string param.name)).isSome then some (.string param.name) else none

def providerOf (key : Key) : Option (Provider σ ι) :=
  match lookup classes plan key, key with
  | some reg, _ => reg.factoryOrClass
  | none, .type qualname => some (classes.constructor qualname)
  | none, .string _ => none

variable {classes plan} in
theorem providerOf_of_lookup {key : Key} {reg : Registration σ ι} (h : lookup classes plan key = some reg) :
    providerOf classes plan key = reg.factoryOrClass := by
  unfold providerOf
  rw [h]

-- The resolution of the first key asks for the second one.
def Needs (key other : Key) : Prop :=
  ∃ provider, providerOf classes plan key = some provider ∧
    ∃ param ∈ Provider.injected provider, injectedKey classes plan param = some other

end Plan

section Shape

variable {classes : Classes σ ι} {plan : Dict Key (Registration σ ι)} {c : DIContainer σ ι} {key : Key}
  {reg : Registration σ ι}

theorem registered_of_find (hkeyed : Keyed c.registrations)
    (h : c.findRegistration classes key = some reg) :
    c.registrations.get? reg.key = some reg := by
  unfold DIContainer.findRegistration at h
  cases hget : c.registrations.get? key with
  | some found =>
      rw [hget] at h
      cases h
      rw [hkeyed key reg hget]
      exact hget
  | none =>
      rw [hget] at h
      cases key with
      | string name => cases h
      | type qualname =>
          obtain ⟨entry, hentry, rfl⟩ := Option.map_eq_some_iff.mp h
          have hmem := List.mem_of_find?_eq_some hentry
          have hfound := (c.registrations.mem_entries_iff entry.1 entry.2).mp hmem
          rw [hkeyed entry.1 entry.2 hfound]
          exact hfound

theorem lookup_eq (hshape : c.plan = plan) (key : Key) :
    lookup classes plan key = (c.findRegistration classes key).map Registration.erased := by
  rw [← hshape]
  exact findRegistration_mapValues rfl Registration.erased c.registrations c.resolving [] key

theorem lookup_of_find (hshape : c.plan = plan) (h : c.findRegistration classes key = some reg) :
    lookup classes plan key = some reg.erased := by
  rw [lookup_eq hshape, h]
  rfl

theorem get?_plan (hshape : c.plan = plan) (key : Key) :
    plan.get? key = (c.registrations.get? key).map Registration.erased := by
  rw [← hshape]
  exact Dict.get?_mapValues _ _ _

theorem has_eq (hshape : c.plan = plan) (key : Key) :
    c.has classes key = (lookup classes plan key).isSome := by
  rw [lookup_eq hshape, Option.isSome_map, DIContainer.has]

theorem Keyed.of_plan (hkeyed : Keyed plan) (hshape : c.plan = plan) : Keyed c.registrations := by
  intro key reg h
  have herased : plan.get? key = some reg.erased := by
    rw [get?_plan hshape, h]
    rfl
  exact hkeyed key reg.erased herased

-- A key finds what is registered now under the key that the plan maps it to.
theorem find_iff (hkeyed : Keyed plan) (hshape : c.plan = plan) :
    c.findRegistration classes key = some reg ↔
      ∃ planned, lookup classes plan key = some planned ∧
        c.registrations.get? planned.key = some reg := by
  rw [lookup_eq hshape]
  constructor
  · intro h
    refine ⟨reg.erased, by rw [h]; rfl, ?_⟩
    exact registered_of_find (hkeyed.of_plan hshape) h
  · rintro ⟨planned, hplanned, hget⟩
    obtain ⟨found, hfound, rfl⟩ := Option.map_eq_some_iff.mp hplanned
    have hregistered := registered_of_find (hkeyed.of_plan hshape) hfound
    have hsame : some reg = some found := hget.symm.trans hregistered
    rw [hfound, hsame]

theorem exists_found (hkeyed : Keyed plan) (hshape : c.plan = plan) {planned : Registration σ ι}
    (h : lookup classes plan key = some planned) :
    ∃ now, c.findRegistration classes key = some now ∧ now.erased = planned ∧
      c.registrations.get? planned.key = some now := by
  rw [lookup_eq hshape] at h
  obtain ⟨now, hfind, rfl⟩ := Option.map_eq_some_iff.mp h
  exact ⟨now, hfind, rfl, registered_of_find (hkeyed.of_plan hshape) hfind⟩

theorem planned_of_find (hkeyed : Keyed plan) (hshape : c.plan = plan)
    (h : c.findRegistration classes key = some reg) : plan.get? reg.key = some reg.erased := by
  rw [get?_plan hshape, registered_of_find (hkeyed.of_plan hshape) h]
  rfl

-- The object that a registration gets does not belong to the plan.
theorem plan_set (h : plan.get? key = some reg.erased) (hshape : c.plan = plan) :
    ({ c with registrations := c.registrations.set key reg } : DIContainer σ ι).plan = plan := by
  have hset : plan.set key reg.erased = plan := Dict.set_eq_self h
  rw [← hset, ← hshape]
  exact Dict.mapValues_set c.registrations Registration.erased key reg

-- Who did not find a registration before its object is cached does not find it then.
theorem find_of_cached (hkeyed : Keyed plan) (hshape : c.plan = plan)
    (hplanned : plan.get? reg.key = some reg.erased) {object : Option ι} {other : Key}
    {found : Registration σ ι} (hne : lookup classes plan other ≠ some reg.erased)
    (h : ({ c with registrations := c.registrations.set reg.key { reg with object := object } } :
      DIContainer σ ι).findRegistration classes other = some found) :
    c.findRegistration classes other = some found := by
  have herased : plan.get? reg.key = some { reg with object := object }.erased := hplanned
  obtain ⟨planned, hother, hget⟩ := (find_iff hkeyed (plan_set herased hshape)).mp h
  have hregistered : plan.get? planned.key = some planned := registered_of_find hkeyed hother
  dsimp only at hget
  rw [Dict.get?_set] at hget
  split at hget
  · rename_i he
    rw [he, hplanned] at hregistered
    cases hregistered
    exact absurd hother hne
  · exact (find_iff hkeyed hshape).mpr ⟨planned, hother, hget⟩

theorem plan_register (c : DIContainer σ ι) (reg : Registration σ ι) :
    ({ c with registrations := c.registrations.set reg.key reg } : DIContainer σ ι).plan =
      c.plan.set reg.key reg.erased :=
  Dict.mapValues_set c.registrations Registration.erased reg.key reg

end Shape

section Parameters

variable {classes : Classes σ ι} {plan : Dict Key (Registration σ ι)}
  {resolver : Key → Operation σ ι (Option ι)} {provider : Provider σ ι} {s : System σ ι}
  {stack : List Key} {key : Key}

-- What a parameter is resolved by, whatever resolves the keys
theorem resolveParameter_cases (hshape : s.container.plan = plan) (param : Parameter ι) :
    (∃ key, injectedKey classes plan param = some key ∧
      ∀ resolver, resolveParameter classes resolver provider param s = resolver key s) ∨
    injectedKey classes plan param = none ∧
      ((∃ object, ∀ resolver, resolveParameter classes resolver provider param s = .ok object s) ∨
        ∃ message, ∀ resolver, resolveParameter classes resolver provider param s =
          .error (.dependencyResolution message) s) := by
  have hhas (key : Key) : s.container.has classes key = (lookup classes plan key).isSome :=
    has_eq hshape key
  unfold injectedKey
  simp only [resolveParameter, run_get_bind, hhas]
  cases param.annotation.filter fun qualname => (lookup classes plan (.type qualname)).isSome with
  | some qualname => exact .inl ⟨_, rfl, fun _ => rfl⟩
  | none =>
      dsimp only
      split
      · exact .inl ⟨_, rfl, fun _ => rfl⟩
      · refine .inr ⟨rfl, ?_⟩
        cases param.default with
        | some object => exact .inl ⟨object, fun _ => rfl⟩
        | none => exact .inr ⟨_, fun _ => rfl⟩

theorem resolveParameter_triple {inv : System σ ι → Prop} {answered : Key → Prop}
    (hshape : ∀ s, inv s → s.container.plan = plan) {param : Parameter ι}
    (h : ∀ key, injectedKey classes plan param = some key →
      Triple inv (resolver key) (fun _ s => inv s ∧ answered key) fun _ => inv) :
    Triple inv (resolveParameter classes resolver provider param)
      (fun _ s => inv s ∧ ∀ key, injectedKey classes plan param = some key → answered key)
      fun _ => inv := by
  intro s hs
  obtain ⟨key, hkey, hrun⟩ | ⟨hnone, ⟨object, hrun⟩ | ⟨message, hrun⟩⟩ :=
    @resolveParameter_cases σ ι classes plan provider s (hshape s hs) param
  · have hresolver := h key hkey s hs
    rw [hrun]
    revert hresolver
    cases resolver key s with
    | error e t => exact id
    | ok object t =>
        refine fun ⟨ht, hanswered⟩ => ⟨ht, fun other hother => ?_⟩
        rw [hkey] at hother
        cases hother
        exact hanswered
  · rw [hrun]
    refine ⟨hs, fun key hkey => ?_⟩
    rw [hnone] at hkey
    cases hkey
  · rw [hrun]
    exact hs

-- Parameters are resolved one after the other, by keys that the plan knows.
theorem resolveParameters_triple {inv : System σ ι → Prop} {answered : Key → Prop}
    (hshape : ∀ s, inv s → s.container.plan = plan) {params : List (Parameter ι)}
    (h : ∀ param ∈ params, ∀ key, injectedKey classes plan param = some key →
      Triple inv (resolver key) (fun _ s => inv s ∧ answered key) fun _ => inv)
    (arguments : Dict String (Option ι)) :
    Triple inv (resolveParameters classes resolver provider params arguments)
      (fun _ s => inv s ∧ ∀ param ∈ params, ∀ key, injectedKey classes plan param = some key → answered key)
      fun _ => inv := by
  induction params generalizing arguments with
  | nil => exact .pure fun s hs => ⟨hs, fun _ hm => absurd hm List.not_mem_nil⟩
  | cons param params ih =>
      refine .bind (resolveParameter_triple hshape (h param List.mem_cons_self)) fun object => ?_
      intro s ⟨hs, hanswered⟩
      have hrest := ih (fun other hm => h other (List.mem_cons_of_mem _ hm))
        (arguments.set param.name object) s hs
      revert hrest
      cases resolveParameters classes resolver provider params (arguments.set param.name object) s with
      | error e t => exact id
      | ok arguments t =>
          refine fun ⟨ht, hparams⟩ => ⟨ht, fun other hm => ?_⟩
          rcases List.mem_cons.mp hm with rfl | hm
          · exact hanswered
          · exact hparams other hm

-- Every key of a chain but the last one needs a key of the chain.
theorem exists_needed {l : List Key} (h : (l ++ [key]).IsChain (Needs classes plan)) {other : Key}
    (hm : other ∈ l) : ∃ next ∈ l ++ [key], Needs classes plan other next := by
  obtain ⟨first, rest, rfl⟩ := List.append_of_mem hm
  rw [List.append_assoc, List.cons_append] at h
  have htail := (List.isChain_append.mp h).2.1
  cases rest with
  | nil => exact ⟨key, by simp, (List.isChain_cons_cons.mp htail).1⟩
  | cons next rest => exact ⟨next, by simp, (List.isChain_cons_cons.mp htail).1⟩

-- A key whose registration has a provider that completes shares it with no key of the stack: the
-- next key of the stack would have been needed, and found there.
theorem lookup_ne (hchain : (stack ++ [key]).IsChain (Needs classes plan))
    (hclear : ∀ param ∈ Provider.injected provider, ∀ used, injectedKey classes plan param = some used →
      used ∉ stack ++ [key])
    {planned : Registration σ ι} (hprovider : planned.factoryOrClass = some provider)
    {other : Key} (hm : other ∈ stack) :
    lookup classes plan other ≠ some planned := by
  intro hother
  obtain ⟨next, hnext, used, hused, param, hparam, hinjected⟩ := exists_needed hchain hm
  have hsame : providerOf classes plan other = some provider :=
    (providerOf_of_lookup hother).trans hprovider
  rw [hsame] at hused
  cases hused
  exact hclear param hparam next hinjected hnext

theorem erased_eq {reg now : Registration σ ι} (h : now.erased = reg.erased)
    (hobject : now.object = reg.object) : now = reg := by
  obtain ⟨key, lifetime, provider, object⟩ := now
  obtain ⟨key', lifetime', provider', object'⟩ := reg
  cases h
  cases hobject
  rfl

end Parameters

end YasinCore.DI
